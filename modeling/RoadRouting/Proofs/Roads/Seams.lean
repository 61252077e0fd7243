import RoadRouting.Proofs.Bidirectional.Steps
import RoadRouting.Proofs.Roads.Terrain

namespace RoadRouting

open Scalar (Exact)

namespace Roads

open Bidirectional (Query)

def balance (π : NodeId → Rat) : Direction → NodeId → Rat
  | .forward => π
  | .backward => fun u ↦ -π u

variable (R : Roads) (q : Query) (π : NodeId → Rat)

def side (d : Direction) : Terrain := R.terrain d (q.root d) (q.pin d) (balance π d)

/-- An estimate that never falls by more than the price of an edge that is traveled. -/
def IsConsistent (π : NodeId → Rat) : Prop :=
  ∀ {u e c}, e ∈ R.network.edges u .forward → R.price e = .finite c → π u ≤ c + π e.adj

/-- A place of the forward search and one of the backward search between which the walk is
complete, and the cost of the turn there. -/
structure Seam (p p' : Option (EdgeView Exact)) (τ : Rat) : Prop where
  node : (p.map (·.adj)).getD q.source = (p'.map (·.adj)).getD q.target
  joins : R.Joins p (p'.map EdgeView.fromEnd) τ
  first : p = none → Fits q.firstEdge p'
  last : p' = none → Fits q.lastEdge p

def SeamFrom (d : Direction) (p p' : Option (EdgeView Exact)) : Rat → Prop :=
  match d with
  | .forward => R.Seam q p p'
  | .backward => R.Seam q p' p

/-- A seam next to an edge that both searches have traveled, if states are edges. -/
structure Crossing (d : Direction) (p p' : Option (EdgeView Exact)) (τ : Rat) : Prop where
  seam : R.SeamFrom q d p p' τ
  shared : R.mode ≠ .nodeBased → ∃ e, (p = some e ∨ p' = some e) ∧ e.isLoop = false

/-- What both searches have paid for at a state that they share. -/
inductive Overlap (d : Direction) : Option (EdgeView Exact) → Rat → Prop
  | node {p : Option (EdgeView Exact)} : R.mode = .nodeBased → Overlap d p 0
  | edge {e : EdgeView Exact} {c : Rat} : R.mode ≠ .nodeBased →
      R.price (e.traveled d) = .finite c → Overlap d (some e) c

variable {R q π} {d : Direction}

theorem Overlap.functional {p : Option (EdgeView Exact)} {c c' : Rat} (h : R.Overlap d p c)
    (h' : R.Overlap d p c') : c = c' := by
  cases h with
  | node hm =>
    cases h' with
    | node _ => rfl
    | edge hm' _ => exact absurd hm hm'
  | edge hm hc =>
    cases h' with
    | node hm' => exact absurd hm' hm
    | edge _ hc' => exact Exact.finite.inj (hc.symm.trans hc')

theorem traveled_fromEnd (e : EdgeView Exact) (d : Direction) :
    e.fromEnd.traveled d.opposite = e.traveled d := by
  cases d with
  | forward => exact e.fromEnd_fromEnd
  | backward => rfl

@[simp] theorem fits_map_fromEnd {pin : Option EdgeId} {p : Option (EdgeView Exact)} :
    Fits pin (p.map EdgeView.fromEnd) ↔ Fits pin p := by
  simp [Fits, Option.map_map, Function.comp_def]

theorem fits_head?_append {pin : Option EdgeId} {es es' : List (EdgeView Exact)} :
    Fits pin (es ++ es').head? ↔ (es ≠ [] → Fits pin es.head?) ∧
      (es.getLast? = none → Fits pin (es'.head?.map EdgeView.fromEnd)) := by
  cases es with
  | nil => simp
  | cons e es => simp

theorem fits_getLast?_append {pin : Option EdgeId} {es es' : List (EdgeView Exact)} :
    Fits pin (es ++ es').getLast? ↔ (es' ≠ [] → Fits pin es'.getLast?) ∧
      (es'.head?.map EdgeView.fromEnd = none → Fits pin es.getLast?) := by
  cases es' with
  | nil => simp
  | cons e es' => simp [List.getLast?_append, List.getLast?_cons]

theorem Seam.node_eq {es es' : List (EdgeView Exact)} {τ : Rat}
    (h : R.Seam q es.getLast? (es'.head?.map EdgeView.fromEnd) τ) :
    (R.side q π .forward).node es.reverse.head? =
      (R.side q π .backward).node (es'.map EdgeView.fromEnd).head? := by
  rw [List.head?_reverse, List.head?_map, side, side, node_terrain, node_terrain]
  exact h.node

theorem trail_reverse_iff {es : List (EdgeView Exact)} {g : Rat} :
    (R.side q π .forward).Trail es.reverse g ↔
      R.Walk q.source es ((es.getLast?.map (·.adj)).getD q.source) g ∧
        (es ≠ [] → Fits q.firstEdge es.head?) := by
  rw [side, trail_forward_iff, List.reverse_reverse, List.head?_reverse, List.getLast?_reverse,
    node_terrain, ne_eq, List.reverse_eq_nil_iff]
  rfl

section Lawful

variable {stored : EdgeId → Option (StoredEdge Exact)} (hR : R.IsLawful stored)
include hR

theorem trail_map_fromEnd_iff {es : List (EdgeView Exact)} {g : Rat} :
    (R.side q π .backward).Trail (es.map EdgeView.fromEnd) g ↔
      R.Walk (((es.head?.map EdgeView.fromEnd).map (·.adj)).getD q.target) es q.target g ∧
        (es ≠ [] → Fits q.lastEdge es.getLast?) := by
  have hmap : (es.map EdgeView.fromEnd).map EdgeView.fromEnd = es := by
    simp [Function.comp_def]
  rw [side, trail_backward_iff hR, hmap, List.head?_map, List.getLast?_map, node_terrain,
    fits_map_fromEnd, ne_eq, List.map_eq_nil_iff]
  rfl

theorem Walk.source_eq_adj {u v : NodeId} {es : List (EdgeView Exact)} {g : Rat}
    (h : R.Walk u es v g) : u = ((es.head?.map EdgeView.fromEnd).map (·.adj)).getD v := by
  rw [h.source_eq hR, Option.map_map]
  cases es with
  | nil => rfl
  | cons e es => exact e.adj_fromEnd.symm

theorem journey_append_iff {es es' : List (EdgeView Exact)} {g : Rat} :
    R.Journey q (es ++ es') g ↔ ∃ k τ k', (R.side q π .forward).Trail es.reverse k ∧
      R.Seam q es.getLast? (es'.head?.map EdgeView.fromEnd) τ ∧
      (R.side q π .backward).Trail (es'.map EdgeView.fromEnd) k' ∧ g = k + τ + k' := by
  have hturn : (es'.head?.map EdgeView.fromEnd).map EdgeView.fromEnd = es'.head? := by
    cases es' <;> simp
  rw [Journey, walk_append_iff, fits_head?_append, fits_getLast?_append]
  constructor
  · rintro ⟨⟨v, k, τ, k', hk, hj, hk', rfl⟩, ⟨hfirst, hfirst'⟩, hlast, hlast'⟩
    have hv := hk.target_eq
    have hv' := hk'.source_eq_adj hR
    refine ⟨k, τ, k', trail_reverse_iff.2 ⟨hv ▸ hk, hfirst⟩, ⟨hv.symm.trans hv', ?_, hfirst', hlast'⟩,
      (trail_map_fromEnd_iff hR).2 ⟨hv' ▸ hk', hlast⟩, rfl⟩
    rwa [hturn]
  · rintro ⟨k, τ, k', hk, hs, hk', rfl⟩
    obtain ⟨hk, hfirst⟩ := trail_reverse_iff.1 hk
    obtain ⟨hk', hlast⟩ := (trail_map_fromEnd_iff hR).1 hk'
    rw [← hs.node] at hk'
    refine ⟨⟨_, k, τ, k', hk, ?_, hk', rfl⟩, ⟨hfirst, hs.first⟩, hlast, hs.last⟩
    have hj := hs.joins
    rwa [hturn] at hj

theorem side_isConsistent (hπ : R.IsConsistent π) : (R.side q π d).IsConsistent := by
  intro p e g ha
  obtain ⟨he, _, c, τ, hc, ht, rfl⟩ : e ∈ R.network.edges ((R.side q π d).node p) d ∧ _ :=
    arc_terrain_iff.1 ha
  have hτ := ht.nonneg hR
  cases d with
  | forward =>
    have hle := hπ he hc
    change π _ ≤ c + τ + π _
    linarith
  | backward =>
    have hle := hπ (hR.shows.fromEnd_mem he) hc
    rw [EdgeView.adj_fromEnd, hR.shows.base_eq he] at hle
    change -π _ ≤ c + τ + -π _
    linarith

variable (hq : R.mode = .nodeBased → ∀ d, q.pin d = none)
include hq

theorem side_isLawful : (R.side q π d).IsLawful :=
  terrain_isLawful hR fun hm ↦ hq hm d

omit hq in
theorem seamFrom_of_arc {p : Option (EdgeView Exact)} {e : EdgeView Exact} {g c : Rat}
    (ha : (R.side q π d).arc p e g) (hc : R.price (e.traveled d) = .finite c) :
    R.SeamFrom q d p (some e.fromEnd) (g - c) := by
  obtain ⟨he, hf, c', τ, hc', ht, rfl⟩ := ha
  cases hc.symm.trans hc'
  have hτ : c + τ - c = τ := by ring
  have hbase := hR.shows.base_eq he
  cases d with
  | forward =>
    refine ⟨?_, ?_, fun hp ↦ fits_map_fromEnd (p := some e) |>.2 (hf hp), nofun⟩
    · rw [Option.map_some, Option.getD_some, EdgeView.adj_fromEnd, hbase]
      rfl
    · rw [hτ, Option.map_some, EdgeView.fromEnd_fromEnd]
      exact ht
  | backward =>
    refine ⟨?_, ?_, nofun, fun hp ↦ fits_map_fromEnd (p := some e) |>.2 (hf hp)⟩
    · rw [Option.map_some, Option.getD_some, EdgeView.adj_fromEnd, hbase]
      rfl
    · rw [hτ]
      exact ht

omit hq in
/-- A walk can be cut at an edge into trails of both searches that have traveled the edge. -/
theorem Journey.overlap {es es' : List (EdgeView Exact)} {e : EdgeView Exact} {g : Rat}
    (hj : R.Journey q (es ++ e :: es') g) : ∃ k c k',
      (R.side q π .forward).Trail (e :: es.reverse) k ∧ R.price e = .finite c ∧
      (R.side q π .backward).Trail ((e :: es').map EdgeView.fromEnd) k' ∧ g = k + k' - c := by
  obtain ⟨k, τ, k', ht, hs, ht', rfl⟩ := (journey_append_iff (π := π) hR).1 hj
  obtain ⟨_, _, _, ha, _⟩ := Terrain.trail_cons_iff.1 ht'
  obtain ⟨hmem, _, c, _, hc, _, _⟩ := ha
  rw [EdgeView.traveled_backward, EdgeView.fromEnd_fromEnd] at hc
  replace hmem := hR.shows.fromEnd_mem hmem
  rw [EdgeView.fromEnd_fromEnd, EdgeView.adj_fromEnd] at hmem
  have hnode : (es.getLast?.map (·.adj)).getD q.source = e.base := hs.node.trans e.adj_fromEnd
  have hjoin := hs.joins
  rw [List.head?_cons, Option.map_some, Option.map_some, EdgeView.fromEnd_fromEnd] at hjoin
  have hfits : es.getLast? = none → Fits q.firstEdge (some e) :=
    fun h ↦ fits_map_fromEnd (p := some e) |>.1 (hs.first h)
  rw [← List.head?_reverse] at hnode hjoin hfits
  refine ⟨_, c, k', ht.cons ⟨?_, hfits, c, τ, hc, hjoin, rfl⟩, hc, ht', by ring⟩
  exact hnode ▸ hmem

theorem seam_of_nodeBased (hm : R.mode = .nodeBased) {p p' : Option (EdgeView Exact)} {τ : Rat} :
    R.Seam q p p' τ ↔
      (p.map (·.adj)).getD q.source = (p'.map (·.adj)).getD q.target ∧ τ = 0 := by
  have hfirst : q.firstEdge = none := hq hm .forward
  have hlast : q.lastEdge = none := hq hm .backward
  constructor
  · rintro ⟨hn, hj, _, _⟩
    exact ⟨hn, (joins_of_nodeBased hR hm).1 hj⟩
  · rintro ⟨hn, rfl⟩
    exact ⟨hn, (joins_of_nodeBased hR hm).2 rfl, fun _ ↦ hfirst ▸ fits_none,
      fun _ ↦ hlast ▸ fits_none⟩

theorem seamFrom_of_nodeBased (hm : R.mode = .nodeBased) {p p' : Option (EdgeView Exact)}
    {τ : Rat} : R.SeamFrom q d p p' τ ↔
      (p.map (·.adj)).getD (q.root d) = (p'.map (·.adj)).getD (q.root d.opposite) ∧ τ = 0 := by
  cases d with
  | forward => exact seam_of_nodeBased hR hq hm
  | backward => exact (seam_of_nodeBased hR hq hm).trans (and_congr_left' eq_comm)

variable {p p' : Option (EdgeView Exact)} {k : StateKey}

theorem SeamFrom.congr {p₁ : Option (EdgeView Exact)} {τ : Rat} (h : R.SeamFrom q d p p' τ)
    (hp : (R.side q π d).IsPlace p) (hp₁ : (R.side q π d).IsPlace p₁)
    (hk : (R.side q π d).keyOf p = some k) (hk₁ : (R.side q π d).keyOf p₁ = some k) :
    R.SeamFrom q d p₁ p' τ := by
  by_cases hm : R.mode = .nodeBased
  · have hn := (node_eq_of_keyOf hm hk).trans (node_eq_of_keyOf hm hk₁).symm
    rw [node_terrain, node_terrain] at hn
    rw [seamFrom_of_nodeBased hR hq hm] at h ⊢
    exact ⟨hn ▸ h.1, h.2⟩
  · exact eq_of_keyOf hR hm hp hp₁ hk hk₁ ▸ h

theorem Crossing.congr {p₁ : Option (EdgeView Exact)} {τ : Rat} (h : R.Crossing q d p p' τ)
    (hp : (R.side q π d).IsPlace p) (hp₁ : (R.side q π d).IsPlace p₁)
    (hk : (R.side q π d).keyOf p = some k) (hk₁ : (R.side q π d).keyOf p₁ = some k) :
    R.Crossing q d p₁ p' τ :=
  ⟨h.seam.congr hR hq hp hp₁ hk hk₁, fun hm ↦ eq_of_keyOf hR hm hp hp₁ hk hk₁ ▸ h.shared hm⟩

omit hR hq in
theorem Crossing.swap {τ : Rat} (h : R.Crossing q d p p' τ) :
    R.Crossing q d.opposite p' p τ := by
  refine ⟨?_, fun hm ↦ ?_⟩
  · cases d with
    | forward => exact h.seam
    | backward => exact h.seam
  · obtain ⟨e, he, hloop⟩ := h.shared hm
    exact ⟨e, he.symm, hloop⟩

omit hq in
theorem Overlap.congr {p₁ : Option (EdgeView Exact)} {c : Rat} (h : R.Overlap d p c)
    (hp : (R.side q π d).IsPlace p) (hp₁ : (R.side q π d).IsPlace p₁)
    (hk : (R.side q π d).keyOf p = some k) (hk₁ : (R.side q π d).keyOf p₁ = some k) :
    R.Overlap d p₁ c := by
  by_cases hm : R.mode = .nodeBased
  · cases h with
    | node _ => exact .node hm
    | edge hm' _ => exact absurd hm hm'
  · exact eq_of_keyOf hR hm hp hp₁ hk hk₁ ▸ h

omit hq in
theorem eq_fromEnd_of_keyOf (hm : R.mode ≠ .nodeBased) (hp : (R.side q π d).IsPlace p)
    (hp' : (R.side q π d.opposite).IsPlace p') (hk : (R.side q π d).keyOf p = some k)
    (hk' : (R.side q π d.opposite).keyOf p' = some k) :
    ∃ e, p = some e ∧ p' = some e.fromEnd ∧ e.isLoop = false := by
  have hroot : R.mode.rootKey (q.root d) = none ∧ R.mode.rootKey (q.root d.opposite) = none := by
    cases h : R.mode <;> simp_all [TraversalMode.rootKey]
  cases p with
  | none => cases hroot.1.symm.trans hk
  | some e =>
    cases p' with
    | none => cases hroot.2.symm.trans hk'
    | some e' =>
      obtain ⟨_, _, he, _⟩ := hp e rfl
      obtain ⟨_, _, he', _⟩ := hp' e' rfl
      obtain ⟨hloop, rfl⟩ :=
        hR.shows.eq_fromEnd_of_key hm he he' (Option.some.inj (hk.trans hk'.symm))
      exact ⟨e, rfl, rfl, hloop⟩

omit hq in
theorem Overlap.swap {c : Rat} (h : R.Overlap d.opposite p' c) (hp : (R.side q π d).IsPlace p)
    (hp' : (R.side q π d.opposite).IsPlace p') (hk : (R.side q π d).keyOf p = some k)
    (hk' : (R.side q π d.opposite).keyOf p' = some k) : R.Overlap d p c := by
  cases h with
  | node hm => exact .node hm
  | edge hm hc =>
    obtain ⟨e, rfl, he, _⟩ := eq_fromEnd_of_keyOf hR hm hp hp' hk hk'
    cases he
    rw [traveled_fromEnd] at hc
    exact .edge hm hc

end Lawful

end Roads

end RoadRouting
