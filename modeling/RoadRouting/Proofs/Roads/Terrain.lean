import RoadRouting.Proofs.Roads.Walks
import RoadRouting.Proofs.Terrain.Basic

namespace RoadRouting

open Scalar (Exact)

namespace Roads

variable (R : Roads)

def Enters (d : Direction) (p : Option (EdgeView Exact)) (e : EdgeView Exact) : Rat → Prop :=
  match d with
  | .forward => R.Joins p (some e)
  | .backward => R.Joins (some e.fromEnd) (p.map EdgeView.fromEnd)

/-- What a search in a direction sees of the roads. Only the edges out of its root are restricted by
a pin. -/
def terrain (d : Direction) (root : NodeId) (pin : Option EdgeId) (estimate : NodeId → Rat) :
    Terrain where
  root
  rootKey := R.mode.rootKey root
  key e := R.mode.key e d
  arc p e g := e ∈ R.network.edges ((p.map (·.adj)).getD root) d ∧ (p = none → Fits pin (some e)) ∧
    ∃ c τ, R.price (e.traveled d) = .finite c ∧ R.Enters d p e τ ∧ g = c + τ
  estimate

variable {R} {d : Direction} {root : NodeId} {pin : Option EdgeId} {π : NodeId → Rat}

theorem Enters.functional {p : Option (EdgeView Exact)} {e : EdgeView Exact} {τ τ' : Rat}
    (h : R.Enters d p e τ) (h' : R.Enters d p e τ') : τ = τ' := by
  cases d with
  | forward => exact Joins.functional h h'
  | backward => exact Joins.functional h h'

theorem node_terrain (p : Option (EdgeView Exact)) :
    (R.terrain d root pin π).node p = (p.map (·.adj)).getD root := by
  cases p <;> rfl

theorem arc_terrain_iff {p : Option (EdgeView Exact)} {e : EdgeView Exact} {g : Rat} :
    (R.terrain d root pin π).arc p e g ↔
      e ∈ R.network.edges ((R.terrain d root pin π).node p) d ∧ (p = none → Fits pin (some e)) ∧
        ∃ c τ, R.price (e.traveled d) = .finite c ∧ R.Enters d p e τ ∧ g = c + τ := by
  rw [node_terrain]
  rfl

section Lawful

variable {stored : EdgeId → Option (StoredEdge Exact)} (hR : R.IsLawful stored)
include hR

theorem Enters.nonneg {p : Option (EdgeView Exact)} {e : EdgeView Exact} {τ : Rat}
    (h : R.Enters d p e τ) : 0 ≤ τ := by
  cases d with
  | forward => exact Joins.nonneg hR h
  | backward => exact Joins.nonneg hR h

theorem enters_of_nodeBased (hm : R.mode = .nodeBased) {p : Option (EdgeView Exact)}
    {e : EdgeView Exact} {τ : Rat} : R.Enters d p e τ ↔ τ = 0 := by
  cases d with
  | forward => exact joins_of_nodeBased hR hm
  | backward => exact joins_of_nodeBased hR hm

theorem eq_of_keyOf (hm : R.mode ≠ .nodeBased) {p p' : Option (EdgeView Exact)} {k : StateKey}
    (hp : (R.terrain d root pin π).IsPlace p) (hp' : (R.terrain d root pin π).IsPlace p')
    (hk : (R.terrain d root pin π).keyOf p = some k)
    (hk' : (R.terrain d root pin π).keyOf p' = some k) : p = p' := by
  have hroot : (R.terrain d root pin π).rootKey = none := by
    cases h : R.mode <;> simp_all [terrain, TraversalMode.rootKey]
  cases p with
  | none => cases hroot.symm.trans hk
  | some e =>
    cases p' with
    | none => cases hroot.symm.trans hk'
    | some e' =>
      obtain ⟨_, _, he, _⟩ := hp e rfl
      obtain ⟨_, _, he', _⟩ := hp' e' rfl
      have hkey : R.mode.key e d = R.mode.key e' d := Option.some.inj (hk.trans hk'.symm)
      rw [hR.shows.eq_of_key hm he he' hkey]

omit hR in
theorem keyOf_of_nodeBased (hm : R.mode = .nodeBased) (p : Option (EdgeView Exact)) :
    (R.terrain d root pin π).keyOf p = some ((R.terrain d root pin π).node p) := by
  cases p with
  | none => simp [terrain, hm, TraversalMode.rootKey]
  | some e => simp [terrain, hm, TraversalMode.key]

omit hR in
theorem node_eq_of_keyOf (hm : R.mode = .nodeBased) {p : Option (EdgeView Exact)} {k : StateKey}
    (hk : (R.terrain d root pin π).keyOf p = some k) : (R.terrain d root pin π).node p = k :=
  Option.some.inj ((keyOf_of_nodeBased hm p).symm.trans hk)

theorem terrain_isLawful (hpin : R.mode = .nodeBased → pin = none) :
    (R.terrain d root pin π).IsLawful where
  nonneg {p e g} ha := by
    obtain ⟨he, _, c, τ, hc, ht, rfl⟩ := ha
    obtain ⟨q, hq, hp⟩ := hR.price (hR.shows.traveled_mem he)
    cases hc.symm.trans hp
    exact add_nonneg hq (ht.nonneg hR)
  functional {p e g g'} ha ha' := by
    obtain ⟨_, _, c, τ, hc, ht, rfl⟩ := ha
    obtain ⟨_, _, c', τ', hc', ht', rfl⟩ := ha'
    rw [Exact.finite.inj (hc.symm.trans hc'), ht.functional ht']
  node_congr {p p' k} hp hp' hk hk' := by
    by_cases hm : R.mode = .nodeBased
    · rw [node_eq_of_keyOf hm hk, node_eq_of_keyOf hm hk']
    · rw [eq_of_keyOf hR hm hp hp' hk hk']
  arc_congr {p p' k e g} hp hp' hk hk' ha := by
    by_cases hm : R.mode = .nodeBased
    · obtain ⟨he, _, c, τ, hc, ht, rfl⟩ := arc_terrain_iff.1 ha
      refine arc_terrain_iff.2 ⟨?_, fun _ ↦ hpin hm ▸ fits_none, c, τ, hc, ?_, rfl⟩
      · rw [node_eq_of_keyOf hm hk', ← node_eq_of_keyOf hm hk]
        exact he
      · exact (enters_of_nodeBased hR hm).2 ((enters_of_nodeBased hR hm).1 ht)
    · rwa [← eq_of_keyOf hR hm hp hp' hk hk']

end Lawful

theorem trail_forward_iff {es : List (EdgeView Exact)} {g : Rat} :
    (R.terrain .forward root pin π).Trail es g ↔
      R.Walk root es.reverse ((R.terrain .forward root pin π).node es.head?) g ∧
        (es ≠ [] → Fits pin es.getLast?) := by
  induction es generalizing g with
  | nil =>
    rw [Terrain.trail_nil_iff, List.reverse_nil, walk_nil_iff]
    exact ⟨fun h ↦ ⟨⟨rfl, h⟩, fun hne ↦ absurd rfl hne⟩, fun h ↦ h.1.2⟩
  | cons e es ih =>
    rw [Terrain.trail_cons_iff, List.reverse_cons, walk_append_iff, List.getLast?_reverse]
    constructor
    · rintro ⟨g', _, ht, ha, rfl⟩
      obtain ⟨he, hf, c, τ, hc, hj, rfl⟩ := arc_terrain_iff.1 ha
      obtain ⟨hw, hfits⟩ := ih.1 ht
      refine ⟨⟨_, g', τ, c, hw, hj, walk_singleton_iff.2 ⟨he, hc, rfl⟩, by ring⟩, fun _ ↦ ?_⟩
      cases es with
      | nil => exact hf rfl
      | cons e' es => exact hfits (List.cons_ne_nil _ _)
    · rintro ⟨⟨w, g', τ, c, hw, hj, hlast, rfl⟩, hfits⟩
      obtain ⟨he, hc, _⟩ := walk_singleton_iff.1 hlast
      have hnode : w = (R.terrain .forward root pin π).node es.head? := by
        rw [hw.target_eq, List.getLast?_reverse, node_terrain]
      subst hnode
      have hfits := hfits (List.cons_ne_nil _ _)
      refine ⟨g', c + τ, ih.2 ⟨hw, fun hne ↦ ?_⟩, arc_terrain_iff.2 ⟨he, fun hh ↦ ?_, c, τ, hc, hj,
        rfl⟩, by ring⟩
      · obtain ⟨e', es, rfl⟩ := List.exists_cons_of_ne_nil hne
        exact hfits
      · cases List.head?_eq_none_iff.1 hh
        exact hfits

theorem walk_iff_trail {es : List (EdgeView Exact)} {v : NodeId} {g : Rat} :
    R.Walk root es v g ↔ (R.terrain .forward root none π).Trail es.reverse g ∧
      (R.terrain .forward root none π).node es.getLast? = v := by
  rw [trail_forward_iff, List.reverse_reverse, List.head?_reverse]
  constructor
  · intro hw
    have hnode : (R.terrain .forward root none π).node es.getLast? = v := by
      rw [node_terrain, hw.target_eq]
    exact ⟨⟨hnode ▸ hw, fun _ ↦ fits_none⟩, hnode⟩
  · rintro ⟨⟨hw, _⟩, rfl⟩
    exact hw

theorem trail_backward_iff {stored : EdgeId → Option (StoredEdge Exact)} (hR : R.IsLawful stored)
    {es : List (EdgeView Exact)} {g : Rat} :
    (R.terrain .backward root pin π).Trail es g ↔
      R.Walk ((R.terrain .backward root pin π).node es.head?) (es.map EdgeView.fromEnd) root g ∧
        (es ≠ [] → Fits pin es.getLast?) := by
  induction es generalizing g with
  | nil =>
    rw [Terrain.trail_nil_iff, List.map_nil, walk_nil_iff]
    exact ⟨fun h ↦ ⟨⟨rfl, h⟩, fun hne ↦ absurd rfl hne⟩, fun h ↦ h.1.2⟩
  | cons e es ih =>
    rw [Terrain.trail_cons_iff, List.map_cons, walk_cons_iff, List.head?_map]
    constructor
    · rintro ⟨g', _, ht, ha, rfl⟩
      obtain ⟨he, hf, c, τ, hc, hj, rfl⟩ := arc_terrain_iff.1 ha
      obtain ⟨hw, hfits⟩ := ih.1 ht
      have hbase : e.fromEnd.adj = (R.terrain .backward root pin π).node es.head? := by
        rw [EdgeView.adj_fromEnd, hR.shows.base_eq he]
      refine ⟨⟨c, τ, g', hR.shows.fromEnd_mem he, hc, hj, hbase ▸ hw, by ring⟩, fun _ ↦ ?_⟩
      cases es with
      | nil => exact hf rfl
      | cons e' es => exact hfits (List.cons_ne_nil _ _)
    · rintro ⟨⟨c, τ, g', he, hc, hj, hw, rfl⟩, hfits⟩
      have hbase : e.fromEnd.adj = (R.terrain .backward root pin π).node es.head? := by
        rw [hw.source_eq hR, List.head?_map, Option.map_map, node_terrain]
        cases es with
        | nil => rfl
        | cons e' es => exact e'.base_fromEnd
      have hmem := hR.shows.fromEnd_mem he
      rw [EdgeView.fromEnd_fromEnd, hbase] at hmem
      have hfits := hfits (List.cons_ne_nil _ _)
      refine ⟨g', c + τ, ih.2 ⟨hbase ▸ hw, fun hne ↦ ?_⟩, arc_terrain_iff.2 ⟨hmem, fun hh ↦ ?_, c, τ,
        hc, hj, rfl⟩, by ring⟩
      · obtain ⟨e', es, rfl⟩ := List.exists_cons_of_ne_nil hne
        exact hfits
      · cases List.head?_eq_none_iff.1 hh
        exact hfits

end Roads

end RoadRouting
