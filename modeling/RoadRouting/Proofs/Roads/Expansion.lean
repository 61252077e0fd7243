import RoadRouting.Proofs.Roads.Pricing
import RoadRouting.Proofs.Roads.Terrain
import RoadRouting.Proofs.Search.Steps
import RoadRouting.Proofs.Terrain.Explored

namespace RoadRouting

open Scalar (Exact)

namespace SearchSettings

variable (s : SearchSettings Exact) (d : Direction) (estimate : NodeId → Exact)

def pinnedExploration (pin : Option EdgeId) : Exploration Exact :=
  { s.exploration d estimate with
    allows := fun before e ↦ s.allows before e && pin.all (· = e.firstPart) }

theorem pinnedExploration_none : s.pinnedExploration d estimate none = s.exploration d estimate := by
  simp only [pinnedExploration, Option.all_none, Bool.and_true]
  rfl

end SearchSettings

namespace Roads

variable {R : Roads} {w : Weighting Exact} {stored : EdgeId → Option (StoredEdge Exact)}
variable {limit : Nat} {d : Direction} {root : NodeId} {pin : Option EdgeId} {π : NodeId → Rat}
variable {estimate : NodeId → Exact}

/-- The pin that is in force where edges are explored from a place. -/
def pinAt (pin : Option EdgeId) : Option (EdgeView Exact) → Option EdgeId
  | none => pin
  | some _ => none

section Turns

variable (hR : R.IsLawful stored) {p : Option (EdgeView Exact)} {e : EdgeView Exact}
include hR

theorem enters_iff (he : e ∈ R.network.edges ((p.map (·.adj)).getD root) d)
    (hu : R.mode = .edgeBased → p.map (·.edge) ≠ some e.edge) {τ : Rat} :
    R.Enters d p e τ ↔ Weighting.turnWeight R.turns e d (p.map (·.edge)) = .finite τ := by
  cases p with
  | none =>
    have h0 : R.Enters d none e τ ↔ τ = 0 := by
      cases d with
      | forward => exact Iff.rfl
      | backward => exact Iff.rfl
    rw [h0, Option.map_none, Weighting.turnWeight, Exact.zero_eq, Exact.finite.injEq, eq_comm]
  | some e₀ =>
    have hne : R.mode = .edgeBased → e₀.edge ≠ e.edge := fun hm h ↦ hu hm (congrArg some h)
    have hbase : e.base = e₀.adj := hR.shows.base_eq he
    have hfirst := hR.shows.firstPart_eq he
    cases d with
    | forward =>
      simp only [Enters, Joins, Option.map_some, Weighting.turnWeight, hfirst]
      exact and_iff_left hne
    | backward =>
      simp only [Enters, Joins, Option.map_some, Weighting.turnWeight, hfirst, hbase,
        EdgeView.edge_fromEnd, EdgeView.base_fromEnd]
      exact and_iff_left fun hm ↦ (hne hm).symm

omit hR in
theorem Enters.edge_ne {τ : Rat} (ht : R.Enters d p e τ) (hm : R.mode = .edgeBased) :
    p.map (·.edge) ≠ some e.edge := by
  cases p with
  | none => nofun
  | some e₀ =>
    have hne : e₀.edge ≠ e.edge := by
      cases d with
      | forward => exact ht.2 hm
      | backward =>
        have hne := (ht.2 hm).symm
        rwa [EdgeView.edge_fromEnd, EdgeView.edge_fromEnd] at hne
    exact fun h ↦ hne (Option.some.inj h)

theorem turnWeight_cases (before : Option EdgeId) :
    Weighting.turnWeight R.turns e d before = .infinity ∨
      ∃ τ, 0 ≤ τ ∧ Weighting.turnWeight R.turns e d before = .finite τ := by
  cases before with
  | none => exact .inr ⟨0, le_rfl, rfl⟩
  | some a =>
    cases d with
    | forward => exact Exact.zero_le_iff.1 (hR.turns _ _ _)
    | backward => exact Exact.zero_le_iff.1 (hR.turns _ _ _)

theorem allows_iff (he : e ∈ R.network.edges ((p.map (·.adj)).getD root) d) :
    ((R.settings w limit).pinnedExploration d estimate (pinAt pin p)).allows (p.map (·.edge)) e =
      true ↔ (R.mode = .edgeBasedWithUTurns ∨ p.map (·.edge) ≠ some e.edge) ∧
        (p = none → Fits pin (some e)) := by
  have hfirst := hR.shows.firstPart_eq he
  have hpin : (pinAt pin p).all (· = e.firstPart) = true ↔ (p = none → Fits pin (some e)) := by
    cases p with
    | none => cases pin <;> simp [pinAt, Fits, hfirst, eq_comm]
    | some e₀ => simp [pinAt]
  have hallows : (R.settings w limit).allows (p.map (·.edge)) e =
      (R.mode.allowsUTurns || p.map (·.edge) != some e.edge) := Bool.and_true _
  simp only [SearchSettings.pinnedExploration, Bool.and_eq_true, hpin, hallows, Bool.or_eq_true,
    TraversalMode.allowsUTurns, decide_eq_true_eq, bne_iff_ne]

theorem arc_iff_of_allows (he : e ∈ R.network.edges ((p.map (·.adj)).getD root) d)
    (ha : ((R.settings w limit).pinnedExploration d estimate (pinAt pin p)).allows
      (p.map (·.edge)) e = true) {q c : Rat} (hq : R.price (e.traveled d) = .finite q) :
    (R.terrain d root pin π).arc p e c ↔ ∃ τ,
      Weighting.turnWeight R.turns e d (p.map (·.edge)) = .finite τ ∧ c = q + τ := by
  obtain ⟨hu, hfits⟩ := (allows_iff hR he).1 ha
  have hne : R.mode = .edgeBased → p.map (·.edge) ≠ some e.edge := fun hm ↦
    hu.resolve_left fun h ↦ by cases hm.symm.trans h
  constructor
  · rintro ⟨_, _, c', τ, hc, ht, rfl⟩
    cases hc.symm.trans hq
    exact ⟨τ, (enters_iff hR he hne).1 ht, rfl⟩
  · rintro ⟨τ, hτ, rfl⟩
    exact ⟨he, hfits, q, τ, hq, (enters_iff hR he hne).2 hτ, rfl⟩

end Turns

section Expansion

variable {Q M : Type} [PriorityQueue Q Exact] [LawfulQueue Q] [BestMap M]
variable {f : Frontier Exact Q M} {pending : LabelId → EdgeView Exact → Prop}
variable {id : LabelId} {l : Label Exact} {e : EdgeView Exact}

theorem offers_of_edge_eq (hR : R.IsLawful stored) (hm : R.mode = .nodeBased)
    (hpin : R.mode = .nodeBased → pin = none)
    (h : (R.terrain d root pin π).Explored f pending) (hl : f.label? id = some l)
    (he : l.incomingEdge = some e.edge) {c : Rat}
    (ha : (R.terrain d root pin π).arc l.edge e c) :
    Terrain.Offers f ((R.terrain d root pin π).key e) (l.total + c) := by
  have hT : (R.terrain d root pin π).IsLawful := terrain_isLawful hR hpin
  rcases h.label_cases hl with ⟨_, rfl⟩ | ⟨_, e₀, g, parent, lp, c₀, rfl, hlp, ha₀, hle⟩
  · cases he
  · have hmem := (arc_terrain_iff.1 ha).1
    have hmem₀ := (arc_terrain_iff.1 ha₀).1
    have hadj := hR.shows.adj_of_edge_eq hmem₀ hmem (Option.some.inj he)
    have hkey : (R.terrain d root pin π).keyOf lp.edge =
        some ((R.terrain d root pin π).key e) := by
      rw [keyOf_of_nodeBased hm, ← hadj]
      exact (keyOf_of_nodeBased hm (some e)).symm
    refine ⟨parent, lp, h.own hlp hkey, hlp, ?_⟩
    have hc := hT.nonneg ha
    have hc₀ := hT.nonneg ha₀
    rw [Terrain.total_step]
    linarith

variable (limit) in
theorem tryEdge_cases (hR : R.IsWeighedBy w stored d) (hpin : R.mode = .nodeBased → pin = none)
    (hπ : ∀ u < R.network.nodeCount, estimate u = .finite (π u))
    (h : (R.terrain d root pin π).Explored f pending) (hl : f.label? id = some l)
    (he : e ∈ R.network.edges l.node d) :
    let T := R.terrain d root pin π
    let x := (R.settings w limit).pinnedExploration d estimate (pinAt pin l.edge)
    x.tryEdge id l f e = .ok (f, none) ∧
        (∀ c, T.arc l.edge e c → Terrain.Offers f (T.key e) (l.total + c)) ∨
      ∃ c, T.Improves f id l e c ∧
        x.tryEdge id l f e = .ok ((T.follow f id l e c).1, some (T.follow f id l e c).2) := by
  intro T x
  have hmem : e ∈ R.network.edges ((l.edge.map (·.adj)).getD root) d := by
    rw [← node_terrain, ← h.node_eq hl]
    exact he
  obtain ⟨q, hq, hprice⟩ := hR.price (hR.shows.traveled_mem he)
  by_cases hallows : x.allows l.incomingEdge e = true
  · have harc : ∀ c, T.arc l.edge e c ↔ _ := fun c ↦
      arc_iff_of_allows hR.toIsLawful hmem hallows hprice
    have hweight : x.price l e =
        .ok (.finite q + Weighting.turnWeight R.turns e d l.incomingEdge) := by
      rw [← hprice]
      exact hR.weight _ he
    rcases turnWeight_cases (d := d) (e := e) hR.toIsLawful l.incomingEdge with hinf | ⟨τ, hτ, hturn⟩
    · rw [hinf, Exact.finite_add_infinity] at hweight
      refine .inl ⟨?_, fun c ha ↦ ?_⟩
      · rw [Exploration.tryEdge_eq id f hallows hweight, Exact.isInfinite_infinity, if_pos rfl]
      · obtain ⟨τ, hτ, _⟩ := (harc c).1 ha
        cases hτ.symm.trans hinf
    · have hcost : l.cost + .finite (q + τ) = .finite (l.total + (q + τ)) := by
        rw [h.cost_eq hl, Exact.finite_add_finite]
      rw [hturn, Exact.finite_add_finite] at hweight
      have htry := Exploration.tryEdge_eq id f hallows hweight
      have hkey : x.key e = T.key e := rfl
      rw [Exact.isInfinite_finite, if_neg Bool.false_ne_true, hcost, hkey] at htry
      by_cases hoffers : Terrain.Offers f (T.key e) (l.total + (q + τ))
      · refine .inl ⟨?_, fun c ha ↦ ?_⟩
        · rw [htry, if_neg fun hi ↦ h.improves_iff.1 hi hoffers]
        · obtain ⟨τ', hτ', rfl⟩ := (harc c).1 ha
          cases hτ'.symm.trans hturn
          exact hoffers
      · refine .inr ⟨q + τ, ⟨hl, (harc _).2 ⟨τ, hturn, rfl⟩, fun {j lj} hb hlj ↦ ?_⟩, ?_⟩
        · by_contra hle
          exact hoffers ⟨j, lj, hb, hlj, le_of_not_gt hle⟩
        · have hextend : x.extend id l e (.finite (l.total + (q + τ))) =
              .ok (T.step e (l.total + (q + τ)) id) := by
            have hadj := hπ _ (hR.shows.adj_lt_of_mem he)
            simp only [x, SearchSettings.pinnedExploration, SearchSettings.exploration, hadj,
              Exact.finite_add_finite]
            rfl
          rw [htry, if_pos (h.improves_iff.2 hoffers), hextend]
          rfl
  · refine .inl ⟨by rw [Exploration.tryEdge, if_neg hallows], fun c ha ↦ ?_⟩
    obtain ⟨_, hfits, c', τ, _, ht, rfl⟩ := (show T.arc l.edge e c from ha)
    obtain ⟨hturns, hback⟩ := not_or.1 fun hu ↦
      hallows ((allows_iff hR.toIsLawful hmem).2 ⟨hu, hfits⟩)
    have hm : R.mode = .nodeBased := by
      cases hm : R.mode with
      | nodeBased => rfl
      | edgeBased => exact absurd (not_not.1 hback) (ht.edge_ne hm)
      | edgeBasedWithUTurns => exact absurd hm hturns
    exact offers_of_edge_eq hR.toIsLawful hm hpin h hl (not_not.1 hback) ha

theorem explored_pop {next : Frontier Exact Q M}
    (h : (R.terrain d root pin π).Explored f fun _ _ ↦ False) (hp : f.pop? = some (id, next)) :
    ∃ l, next.label? id = some l ∧ f.priority? id = some l.priority ∧
      (R.terrain d root pin π).Explored next
        fun j e ↦ j = id ∧ e ∈ R.network.edges l.node d := by
  obtain ⟨k, hk, _⟩ := Frontier.least_of_pop h.queue hp
  obtain ⟨l, hl, rfl⟩ := h.queued hk
  have hnext := (congrFun (Frontier.label?_of_pop? hp) id).trans hl
  refine ⟨l, hnext, hk, (h.pop hp).resolve fun {j e lj c} hj hlj ha ↦ .inl ?_⟩
  obtain rfl := hj.resolve_left not_false
  cases hnext.symm.trans hlj
  rw [h.node_eq hl]
  exact ⟨rfl, (arc_terrain_iff.1 ha).1⟩

variable (limit) in
/-- Exploring all edges of a label leaves nothing pending. What following an edge preserves holds
afterwards. -/
theorem expand_isOk (hR : R.IsWeighedBy w stored d) (hpin : R.mode = .nodeBased → pin = none)
    (hπ : ∀ u < R.network.nodeCount, estimate u = .finite (π u)) {es : List (EdgeView Exact)}
    (h : (R.terrain d root pin π).Explored f fun j e ↦ j = id ∧ e ∈ es)
    (hl : f.label? id = some l) (hes : ∀ e ∈ es, e ∈ R.network.edges l.node d)
    {P : Frontier Exact Q M → Prop}
    (hfollow : ∀ {f e c} {pending : LabelId → EdgeView Exact → Prop},
      (R.terrain d root pin π).Explored f pending →
      (R.terrain d root pin π).Improves f id l e c → P f →
      P ((R.terrain d root pin π).follow f id l e c).1) (hP : P f) :
    ∃ f', ((R.settings w limit).pinnedExploration d estimate (pinAt pin l.edge)).expand id l f es =
      .ok f' ∧ (R.terrain d root pin π).Explored f' (fun _ _ ↦ False) ∧ P f' := by
  have hT : (R.terrain d root pin π).IsLawful := terrain_isLawful hR.toIsLawful hpin
  induction es generalizing f with
  | nil => exact ⟨f, rfl, h.resolve fun hp _ _ ↦ absurd hp.2 List.not_mem_nil, hP⟩
  | cons e es ih =>
    have hrest : ∀ e ∈ es, e ∈ R.network.edges l.node d :=
      fun e he ↦ hes e (List.mem_cons_of_mem _ he)
    rcases tryEdge_cases limit hR hpin hπ h hl (hes e List.mem_cons_self) with
      ⟨htry, ho⟩ | ⟨c, hi, htry⟩
    · obtain ⟨f', hf', hdone⟩ := ih (h.skip hl ho) hl hrest hP
      exact ⟨f', by rw [← hf', Exploration.expand, List.foldlM_cons, htry]; rfl, hdone⟩
    · have hl' := (h.label?_follow_of_ne (h.follow_ne hi hT).symm).trans hl
      obtain ⟨f', hf', hdone⟩ := ih (h.follow_next hT hi) hl' hrest (hfollow h hi hP)
      exact ⟨f', by rw [← hf', Exploration.expand, List.foldlM_cons, htry]; rfl, hdone⟩

variable (limit) in
theorem expand_unpinned_isOk (hR : R.IsWeighedBy w stored d)
    (hπ : ∀ u < R.network.nodeCount, estimate u = .finite (π u))
    (h : (R.terrain d root none π).Explored f fun j e ↦ j = id ∧ e ∈ R.network.edges l.node d)
    (hl : f.label? id = some l) {P : Frontier Exact Q M → Prop}
    (hfollow : ∀ {f e c} {pending : LabelId → EdgeView Exact → Prop},
      (R.terrain d root none π).Explored f pending →
      (R.terrain d root none π).Improves f id l e c → P f →
      P ((R.terrain d root none π).follow f id l e c).1) (hP : P f) :
    ∃ f', ((R.settings w limit).exploration d estimate).expand id l f
        (R.network.edges l.node d) = .ok f' ∧
      (R.terrain d root none π).Explored f' (fun _ _ ↦ False) ∧ P f' := by
  have hpin : pinAt none l.edge = none := by cases l.edge <;> rfl
  have hexpand := expand_isOk limit hR (fun _ ↦ rfl) hπ h hl (fun e he ↦ he) hfollow hP
  rwa [hpin, SearchSettings.pinnedExploration_none] at hexpand

end Expansion

end Roads

end RoadRouting
