import RoadRouting.Proofs.Exact
import RoadRouting.Proofs.Network.Views
import RoadRouting.Search.Bidirectional
import RoadRouting.Weighting.Decorators
import Mathlib.Tactic.Ring

namespace RoadRouting

open Scalar (Exact)

structure Roads where
  network : Network Exact
  mode : TraversalMode
  price : EdgeView Exact → Exact
  turns : TurnCosts Exact

namespace Roads

variable (R : Roads)

/-- What it costs to go on from an edge to the next one, if that is allowed. Only the mode with
edges as states and without u-turns keeps an edge from following itself. -/
def Joins : Option (EdgeView Exact) → Option (EdgeView Exact) → Rat → Prop
  | some e, some e', τ =>
    R.turns e.edge e'.base e'.edge = .finite τ ∧ (R.mode = .edgeBased → e.edge ≠ e'.edge)
  | _, _, τ => τ = 0

/-- Edges that are traveled one after the other from a node to another one, and what they and the
turns between them cost. -/
inductive Walk : NodeId → List (EdgeView Exact) → NodeId → Rat → Prop
  | nil {u : NodeId} : Walk u [] u 0
  | cons {u v : NodeId} {e : EdgeView Exact} {es : List (EdgeView Exact)} {c τ g : Rat} :
      e ∈ R.network.edges u .forward → R.price e = .finite c → R.Joins (some e) es.head? τ →
      Walk e.adj es v g → Walk u (e :: es) v (c + τ + g)

/-- What prices and turn costs have to be like. -/
structure IsLawful (stored : EdgeId → Option (StoredEdge Exact)) : Prop where
  shows : R.network.Shows stored
  price : ∀ {u e}, e ∈ R.network.edges u .forward → ∃ q, 0 ≤ q ∧ R.price e = .finite q
  turns : ∀ a v b, 0 ≤ R.turns a v b
  nodeBased : R.mode = .nodeBased → ∀ a v b, R.turns a v b = 0

variable {R}

theorem Joins.functional {p p' : Option (EdgeView Exact)} {τ τ' : Rat} (h : R.Joins p p' τ)
    (h' : R.Joins p p' τ') : τ = τ' := by
  cases p with
  | none => exact Eq.trans h h'.symm
  | some e =>
    cases p' with
    | none => exact Eq.trans h h'.symm
    | some e' => exact Exact.finite.inj (h.1.symm.trans h'.1)

section Lawful

variable {stored : EdgeId → Option (StoredEdge Exact)} (hR : R.IsLawful stored)
include hR

theorem Joins.nonneg {p p' : Option (EdgeView Exact)} {τ : Rat} (h : R.Joins p p' τ) :
    0 ≤ τ := by
  cases p with
  | none => exact (show τ = 0 from h).ge
  | some e =>
    cases p' with
    | none => exact (show τ = 0 from h).ge
    | some e' =>
      have hle := hR.turns e.edge e'.base e'.edge
      rwa [h.1, Exact.zero_eq, Exact.finite_le_finite] at hle

theorem joins_of_nodeBased (hm : R.mode = .nodeBased) {p p' : Option (EdgeView Exact)} {τ : Rat} :
    R.Joins p p' τ ↔ τ = 0 := by
  cases p with
  | none => exact Iff.rfl
  | some e =>
    cases p' with
    | none => exact Iff.rfl
    | some e' =>
      rw [Joins, hR.nodeBased hm, hm, Exact.zero_eq, Exact.finite.injEq]
      simp [eq_comm]

end Lawful

theorem walk_nil_iff {u v : NodeId} {g : Rat} : R.Walk u [] v g ↔ v = u ∧ g = 0 := by
  constructor
  · rintro ⟨⟩
    exact ⟨rfl, rfl⟩
  · rintro ⟨rfl, rfl⟩
    exact .nil

theorem walk_cons_iff {u v : NodeId} {e : EdgeView Exact} {es : List (EdgeView Exact)} {g : Rat} :
    R.Walk u (e :: es) v g ↔ ∃ c τ g', e ∈ R.network.edges u .forward ∧ R.price e = .finite c ∧
      R.Joins (some e) es.head? τ ∧ R.Walk e.adj es v g' ∧ g = c + τ + g' := by
  constructor
  · rintro ⟨⟩
    exact ⟨_, _, _, ‹_›, ‹_›, ‹_›, ‹_›, rfl⟩
  · rintro ⟨c, τ, g', he, hc, hj, hw, rfl⟩
    exact .cons he hc hj hw

theorem walk_singleton_iff {u v : NodeId} {e : EdgeView Exact} {g : Rat} :
    R.Walk u [e] v g ↔ e ∈ R.network.edges u .forward ∧ R.price e = .finite g ∧ v = e.adj := by
  rw [walk_cons_iff]
  constructor
  · rintro ⟨c, τ, g', he, hc, hj, hw, rfl⟩
    obtain ⟨rfl, rfl⟩ := walk_nil_iff.1 hw
    rw [show τ = 0 from hj, add_zero, add_zero]
    exact ⟨he, hc, rfl⟩
  · rintro ⟨he, hc, rfl⟩
    exact ⟨g, 0, 0, he, hc, rfl, .nil, by ring⟩

theorem Walk.functional {u v v' : NodeId} {es : List (EdgeView Exact)} {g g' : Rat}
    (h : R.Walk u es v g) (h' : R.Walk u es v' g') : v = v' ∧ g = g' := by
  induction h generalizing g' with
  | nil => exact (walk_nil_iff.1 h').imp Eq.symm Eq.symm
  | cons _ hc hj _ ih =>
    obtain ⟨c', τ', k, _, hc', hj', hw', rfl⟩ := walk_cons_iff.1 h'
    obtain ⟨hv, hg⟩ := ih hw'
    rw [Exact.finite.inj (hc.symm.trans hc'), hj.functional hj', hg]
    exact ⟨hv, rfl⟩

theorem Walk.exists_mem {u v : NodeId} {e : EdgeView Exact} {es : List (EdgeView Exact)} {g : Rat}
    (h : R.Walk u es v g) (he : e ∈ es) : ∃ u', e ∈ R.network.edges u' .forward := by
  induction h with
  | nil => cases he
  | cons hmem _ _ _ ih =>
    rcases List.mem_cons.1 he with rfl | he
    · exact ⟨_, hmem⟩
    · exact ih he

theorem Walk.target_eq {u v : NodeId} {es : List (EdgeView Exact)} {g : Rat}
    (h : R.Walk u es v g) : v = (es.getLast?.map (·.adj)).getD u := by
  induction h with
  | nil => rfl
  | @cons u v e es c τ g _ _ _ _ ih =>
    cases es with
    | nil => exact ih
    | cons e' es => exact ih

theorem walk_append_iff {u v : NodeId} {es es' : List (EdgeView Exact)} {g : Rat} :
    R.Walk u (es ++ es') v g ↔ ∃ w k τ k', R.Walk u es w k ∧ R.Joins es.getLast? es'.head? τ ∧
      R.Walk w es' v k' ∧ g = k + τ + k' := by
  induction es generalizing u g with
  | nil =>
    constructor
    · intro h
      exact ⟨u, 0, 0, g, .nil, rfl, h, by ring⟩
    · rintro ⟨w, k, τ, k', hw, hj, hw', rfl⟩
      obtain ⟨rfl, rfl⟩ := walk_nil_iff.1 hw
      rw [show τ = 0 from hj, add_zero, zero_add]
      exact hw'
  | cons e es ih =>
    rw [List.cons_append, walk_cons_iff]
    cases es with
    | nil =>
      constructor
      · rintro ⟨c, τ, g', he, hc, hj, hw, rfl⟩
        exact ⟨e.adj, c + 0 + 0, τ, g', .cons he hc rfl .nil, hj, hw, by ring⟩
      · rintro ⟨w, k, τ, k', hw, hj, hw', rfl⟩
        obtain ⟨c, τ', g', he, hc, rfl, hnil, rfl⟩ := walk_cons_iff.1 hw
        obtain ⟨rfl, rfl⟩ := walk_nil_iff.1 hnil
        exact ⟨c, τ, k', he, hc, hj, hw', by ring⟩
    | cons e' es =>
      constructor
      · rintro ⟨c, τ, g', he, hc, hj, hw, rfl⟩
        obtain ⟨w, k, τ', k', hk, hj', hw', rfl⟩ := ih.1 hw
        exact ⟨w, c + τ + k, τ', k', .cons he hc hj hk, hj', hw', by ring⟩
      · rintro ⟨w, k, τ, k', hw, hj, hw', rfl⟩
        obtain ⟨c, τ', g', he, hc, hj', hg, rfl⟩ := walk_cons_iff.1 hw
        exact ⟨c, τ', g' + τ + k', he, hc, hj', ih.2 ⟨w, g', τ, k', hg, hj, hw', rfl⟩, by ring⟩

section Lawful

variable {stored : EdgeId → Option (StoredEdge Exact)} (hR : R.IsLawful stored)
include hR

theorem Walk.nonneg {u v : NodeId} {es : List (EdgeView Exact)} {g : Rat}
    (h : R.Walk u es v g) : 0 ≤ g := by
  induction h with
  | nil => exact le_rfl
  | cons he hc hj _ ih =>
    obtain ⟨q, hq, hp⟩ := hR.price he
    cases hc.symm.trans hp
    have hτ := hj.nonneg hR
    linarith

theorem Walk.source_eq {u v : NodeId} {es : List (EdgeView Exact)} {g : Rat}
    (h : R.Walk u es v g) : u = (es.head?.map (·.base)).getD v := by
  cases h with
  | nil => rfl
  | cons he _ _ _ => exact (hR.shows.base_eq he).symm

theorem Walk.target_lt {u v : NodeId} {es : List (EdgeView Exact)} {g : Rat}
    (h : R.Walk u es v g) (hu : u < R.network.nodeCount) : v < R.network.nodeCount := by
  induction h with
  | nil => exact hu
  | cons he _ _ _ ih => exact ih (hR.shows.adj_lt_of_mem he)

end Lawful

def Fits (pin : Option EdgeId) (p : Option (EdgeView Exact)) : Prop :=
  ∀ a, pin = some a → p.map (·.edge) = some a

@[simp] theorem fits_none {p : Option (EdgeView Exact)} : Fits none p := nofun

variable (R) in
/-- The walks that a query admits. -/
def Journey (q : Bidirectional.Query) (es : List (EdgeView Exact)) (g : Rat) : Prop :=
  R.Walk q.source es q.target g ∧ Fits q.firstEdge es.head? ∧ Fits q.lastEdge es.getLast?

end Roads

/-- The answer to a query is the cheapest of the walks that it admits, or that there is none; or the
search has visited more than it may. -/
def Answer.IsBest (a : Answer Exact (Outcome Exact)) (walk : List (EdgeView Exact) → Rat → Prop)
    (limit : Nat) : Prop :=
  match a.result with
  | .ok (.found r) => ∃ g, walk r.edges g ∧ r.weight = .finite g ∧ ∀ es g', walk es g' → g ≤ g'
  | .ok .unreachable => ∀ es g, ¬walk es g
  | .ok .visitLimitReached => limit < a.visited
  | .error _ => False

end RoadRouting
