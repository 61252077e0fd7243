import RoadRouting.Proofs.Bidirectional.Outcome
import RoadRouting.Proofs.Network.Built

namespace RoadRouting

open Scalar (Exact)

namespace Roads

open Bidirectional (Query Meeting Method Side State)

variable {Q M : Type} [PriorityQueue Q Exact] [LawfulQueue Q] [BestMap M]
variable {R : Roads} {w : Weighting Exact} {stored : EdgeId → Option (StoredEdge Exact)}
variable {limit : Nat} {h : Estimate Exact} {offset : Exact} {q : Query} {π : NodeId → Rat}

theorem journey_of_no_pins {source target : NodeId} :
    R.Journey { source, target } = fun es g ↦ R.Walk source es target g := by
  funext es g
  simp [Journey]

theorem checkPins_isOk (hq : R.mode = .nodeBased → ∀ d, q.pin d = none) :
    (R.method w limit h offset).checkPins q = .ok () := by
  by_cases hm : R.mode = .nodeBased
  · have hfirst : q.firstEdge = none := hq hm .forward
    have hlast : q.lastEdge = none := hq hm .backward
    simp [Method.checkPins, hfirst, hlast]
  · simp [Method.checkPins, method, settings, TraversalMode.isEdgeBased, hm]

omit [LawfulQueue Q] in
theorem bestRoute_eq (hroot : ∀ d, q.root d < R.network.nodeCount)
    (hq : R.mode = .nodeBased → ∀ d, q.pin d = none) {st : State Exact Q M Unit}
    (hst : (R.method w limit h offset).search q = (st, .ok ())) :
    (R.method w limit h offset).bestRoute Q M q =
      ⟨st.visited, (R.method w limit h offset).outcome q st⟩ := by
  have hpins : (R.method w limit h offset).checkPins q = .ok () := checkPins_isOk hq
  have hnodes : (R.method w limit h offset).settings.checkNodes [q.source, q.target] = .ok () :=
    checkNodes_isOk (hroot .forward) (hroot .backward)
  rw [Method.bestRoute, hpins, hnodes]
  simp only [hst]
  rfl

section Best

variable (hR : R.IsPricedBy w stored) (hroot : ∀ d, q.root d < R.network.nodeCount)
include hR

omit [LawfulQueue Q] in
theorem isBest_meetAtStart (ht : q.source = q.target ∧ q.firstEdge = none ∧ q.lastEdge = none) :
    let st : State Exact Q M Unit := Method.meetAtStart ((R.method w limit h offset).start q)
    (Answer.mk st.visited ((R.method w limit h offset).outcome q st)).IsBest (R.Journey q)
      limit := by
  intro st
  have hj : R.Journey q [] 0 := journey_nil_iff.2 ⟨ht, rfl⟩
  obtain ⟨r, hr, hnil, hweight⟩ := ofEdges_isOk hR hj.1 q.source 0
  have hroute : (R.method w limit h offset).meetingRoute q st (0, 0) = .ok r :=
    (Method.meetingRoute_meetAtStart _ q).trans hr
  have hresult : (R.method w limit h offset).outcome q st = .ok (.found r) :=
    congrArg (Except.map Outcome.found) hroute
  rw [Answer.IsBest, hresult]
  exact ⟨0, hnil ▸ hj, hweight, fun es g hj' ↦ hj'.1.nonneg hR.toIsLawful⟩

variable (hq : R.mode = .nodeBased → ∀ d, q.pin d = none)
variable (hπ : ∀ d, ∀ u < R.network.nodeCount,
  h.balanced q.source q.target d u = .finite (balance π d u))
include hroot hq hπ

theorem isBest_of_balanced (hc : R.IsConsistent π) (hoffset : 0 ≤ offset)
    (hloop : R.mode ≠ .nodeBased → R.AvoidsLoops q) :
    ((R.method w limit h offset).bestRoute Q M q).IsBest (R.Journey q) limit := by
  by_cases ht : q.source = q.target ∧ q.firstEdge = none ∧ q.lastEdge = none
  · rw [bestRoute_eq hroot hq (by rw [Method.search, if_pos ht])]
    exact isBest_meetAtStart hR ht
  · obtain ⟨st, hst, hg, hend⟩ :=
      search_isOk (Q := Q) (M := M) limit offset hπ hroot hR hq hc ht
    rw [bestRoute_eq hroot hq hst]
    have hne : R.mode ≠ .nodeBased → ∀ g, ¬R.Journey q [] g := fun _ g hj ↦
      ht (journey_nil_iff.1 hj).1
    exact isBest_outcome limit h hR hq hc hoffset hloop hne hg hend

end Best

/-- An estimate that is finite and consistent toward both ends of a query. -/
structure IsConsistentBetween (R : Roads) (h : Estimate Exact) (source target : NodeId) :
    Prop where
  toTarget_finite : ∀ u < R.network.nodeCount, ∃ x, h.toward (some target) u = .finite x
  toSource_finite : ∀ u < R.network.nodeCount, ∃ x, h.toward (some source) u = .finite x
  toTarget_le : ∀ {u e}, e ∈ R.network.edges u .forward →
    h.toward (some target) u ≤ R.price e + h.toward (some target) e.adj
  toSource_le : ∀ {u e}, e ∈ R.network.edges u .forward →
    h.toward (some source) e.adj ≤ R.price e + h.toward (some source) u

theorem isConsistentBetween_zero {source target : NodeId}
    (hprice : ∀ {u e}, e ∈ R.network.edges u .forward → ∃ c, 0 ≤ c ∧ R.price e = .finite c) :
    R.IsConsistentBetween .zero source target := by
  have hle : ∀ {u e}, e ∈ R.network.edges u .forward → (0 : Exact) ≤ R.price e + 0 :=
    fun {u e} he ↦ by
      obtain ⟨c, hc, hp⟩ := hprice he
      rwa [hp, Exact.finite_add_zero, Exact.zero_eq, Exact.finite_le_finite]
  exact ⟨fun _ _ ↦ ⟨0, rfl⟩, fun _ _ ↦ ⟨0, rfl⟩, hle, hle⟩

def halfDifference (h : Estimate Exact) (source target u : NodeId) : Rat :=
  ((h.toward (some target) u).value - (h.toward (some source) u).value) / 2

section Consistent

variable {source target : NodeId}

theorem balanced_eq (htarget : ∀ u < R.network.nodeCount, ∃ x, h.toward (some target) u = .finite x)
    (hsource : ∀ u < R.network.nodeCount, ∃ x, h.toward (some source) u = .finite x)
    (d : Direction) {u : NodeId} (hu : u < R.network.nodeCount) :
    h.balanced source target d u = .finite (balance (halfDifference h source target) d u) := by
  obtain ⟨x, hx⟩ := htarget u hu
  obtain ⟨y, hy⟩ := hsource u hu
  cases d with
  | forward =>
    simp only [Estimate.balanced, hx, hy, Exact.half_eq, Exact.finite_sub_finite,
      Exact.finite_mul_finite, balance, halfDifference, Exact.value_finite]
    ring_nf
  | backward =>
    simp only [Estimate.balanced, hx, hy, Exact.half_eq, Exact.finite_sub_finite,
      Exact.finite_mul_finite, balance, halfDifference, Exact.value_finite]
    ring_nf

variable (hh : R.IsConsistentBetween h source target)
include hh

theorem IsConsistentBetween.isConsistent (hR : R.IsLawful stored) :
    R.IsConsistent (halfDifference h source target) := by
  intro u e c he hc
  have hu := hR.shows.lt_of_mem he
  obtain ⟨x, hx⟩ := hh.toTarget_finite u hu
  obtain ⟨y, hy⟩ := hh.toSource_finite u hu
  obtain ⟨x', hx'⟩ := hh.toTarget_finite e.adj (hR.shows.adj_lt_of_mem he)
  obtain ⟨y', hy'⟩ := hh.toSource_finite e.adj (hR.shows.adj_lt_of_mem he)
  have hle := hh.toTarget_le he
  have hle' := hh.toSource_le he
  rw [hc, hx, hx', Exact.finite_add_finite, Exact.finite_le_finite] at hle
  rw [hc, hy, hy', Exact.finite_add_finite, Exact.finite_le_finite] at hle'
  simp only [halfDifference, hx, hy, hx', hy', Exact.value_finite]
  linarith

end Consistent

theorem isBest_of_isConsistentBetween (hn : R.network.IsBuilt) (hm : R.network.IsMeasured)
    (hw : Weighting.Charges R.mode R.price w R.turns)
    (hq : R.mode = .nodeBased → ∀ d, q.pin d = none)
    (hloop : R.mode ≠ .nodeBased → R.AvoidsLoops q) (hs : q.source < R.network.nodeCount)
    (ht : q.target < R.network.nodeCount) (hh : R.IsConsistentBetween h q.source q.target)
    (hoffset : 0 ≤ offset) :
    ((R.method w limit h offset).bestRoute Q M q).IsBest (R.Journey q) limit := by
  obtain ⟨stored, hshows⟩ := hn.exists_shows
  have hR : R.IsPricedBy w stored := isPricedBy hshows hm hw
  have hroot : ∀ d, q.root d < R.network.nodeCount := fun d ↦ by
    cases d with
    | forward => exact hs
    | backward => exact ht
  exact isBest_of_balanced hR hroot hq
    (fun d _ hu ↦ balanced_eq hh.toTarget_finite hh.toSource_finite d hu)
    (hh.isConsistent hR.toIsLawful) hoffset hloop

variable {source target : NodeId}

/-- With nodes as states a search from both ends finds a cheapest walk. -/
theorem isBest_bestRoute_nodeBased (hn : R.network.IsBuilt) (hm : R.network.IsMeasured)
    (hw : Weighting.Charges R.mode R.price w R.turns) (hs : source < R.network.nodeCount)
    (ht : target < R.network.nodeCount) (hh : R.IsConsistentBetween h source target)
    (hoffset : 0 ≤ offset) (hmode : R.mode = .nodeBased) :
    ((R.method w limit h offset).bestRoute Q M { source, target }).IsBest
      (fun es g ↦ R.Walk source es target g) limit := by
  rw [← journey_of_no_pins]
  refine isBest_of_isConsistentBetween hn hm hw (fun _ d ↦ ?_) (absurd hmode) hs ht hh hoffset
  cases d <;> rfl

def turningPlace : Roads where
  network := (RoadGraph.ofEdges 2 [.twoWay 0 1 (.finite 10) (.finite 36),
    .oneWay 1 0 (.finite 0) (.finite 50), .twoWay 1 1 (.finite 5) (.finite 36)]).network
  mode := .nodeBased
  price e := e.distance
  turns _ _ _ := 0

theorem isMeasured_turningPlace : turningPlace.network.IsMeasured :=
  isMeasured_ofEdges (by decide +kernel)

theorem isBest_bestRoute_turningPlace :
    let a := (turningPlace.method (.shortest .stored) noVisitLimit .zero 0).bestRoute
      (SortedQueue Exact) SparseMap { source := 0, target := 1 }
    a.IsBest (fun es g ↦ turningPlace.Walk 0 es 1 g) noVisitLimit ∧
      ∃ r, a.result = .ok (.found r) ∧
        (r.nodes, r.edges.map (·.edge), r.weight) = ([0, 1], [0], .finite 10) := by
  have hn : turningPlace.network.IsBuilt := isBuilt_network_ofEdges _ _
  have hw : Weighting.Charges turningPlace.mode turningPlace.price (.shortest .stored)
      turningPlace.turns := .plain (.shortest fun _ _ ↦ rfl)
  have hcount : turningPlace.network.nodeCount = 2 := RoadGraph.nodeCount_ofEdges _ _
  have hs : 0 < turningPlace.network.nodeCount := by omega
  have ht : 1 < turningPlace.network.nodeCount := by omega
  refine ⟨?_, exists_found_of_route? (by decide +kernel)⟩
  exact isBest_bestRoute_nodeBased hn isMeasured_turningPlace hw hs ht
    (isConsistentBetween_zero isMeasured_turningPlace.distance) (Exact.finite_le_finite.2 le_rfl)
    rfl

/-- With edges as states it does so if there are no loops, whatever the turns cost. -/
theorem isBest_bestRoute_edgeBased (hn : R.network.IsBuilt) (hm : R.network.IsMeasured)
    (hw : Weighting.Charges R.mode R.price w R.turns) (hs : source < R.network.nodeCount)
    (ht : target < R.network.nodeCount) (hh : R.IsConsistentBetween h source target)
    (hoffset : 0 ≤ offset) (hmode : R.mode ≠ .nodeBased) (hloop : R.network.IsLoopFree) :
    ((R.method w limit h offset).bestRoute Q M { source, target }).IsBest
      (fun es g ↦ R.Walk source es target g) limit := by
  rw [← journey_of_no_pins]
  exact isBest_of_isConsistentBetween hn hm hw (fun h ↦ absurd h hmode)
    (fun _ ↦ avoidsLoops_of_isLoopFree hloop) hs ht hh hoffset

def costlyTurns : TurnCosts Exact := fun a _ b ↦ if a = b then .infinity else .finite 2

theorem costlyTurns_nonneg (a : EdgeId) (v : NodeId) (b : EdgeId) : 0 ≤ costlyTurns a v b := by
  unfold costlyTurns
  split
  · rfl
  · exact Exact.finite_le_finite.2 (by norm_num)

def threeInARow : Roads where
  network := (RoadGraph.ofEdges 3 [.twoWay 0 1 (.finite 10) (.finite 36),
    .twoWay 1 2 (.finite 20) (.finite 50)]).network
  mode := .edgeBased
  price e := e.distance
  turns := costlyTurns

theorem isMeasured_threeInARow : threeInARow.network.IsMeasured :=
  isMeasured_ofEdges (by decide +kernel)

theorem charges_threeInARow : Weighting.Charges threeInARow.mode threeInARow.price
    ((Weighting.shortest .stored).withTurns costlyTurns) threeInARow.turns :=
  .turns (.shortest fun _ _ ↦ rfl) nofun costlyTurns_nonneg

theorem isLoopFree_threeInARow : threeInARow.network.IsLoopFree := isLoopFree_ofEdges (by decide)

theorem isBest_bestRoute_threeInARow :
    let a := (threeInARow.method ((Weighting.shortest .stored).withTurns costlyTurns) noVisitLimit
      .zero 0).bestRoute (SortedQueue Exact) SparseMap { source := 0, target := 2 }
    a.IsBest (fun es g ↦ threeInARow.Walk 0 es 2 g) noVisitLimit ∧
      ∃ r, a.result = .ok (.found r) ∧
        (r.nodes, r.edges.map (·.edge), r.weight) = ([0, 1, 2], [0, 1], .finite 32) := by
  have hn : threeInARow.network.IsBuilt := isBuilt_network_ofEdges _ _
  have hcount : threeInARow.network.nodeCount = 3 := RoadGraph.nodeCount_ofEdges _ _
  have hs : 0 < threeInARow.network.nodeCount := by omega
  have ht : 2 < threeInARow.network.nodeCount := by omega
  refine ⟨?_, exists_found_of_route? (by decide +kernel)⟩
  exact isBest_bestRoute_edgeBased hn isMeasured_threeInARow charges_threeInARow hs ht
    (isConsistentBetween_zero isMeasured_threeInARow.distance) (Exact.finite_le_finite.2 le_rfl)
    nofun isLoopFree_threeInARow

end Roads

end RoadRouting
