import RoadRouting.Proofs.Bidirectional.BestRoute
import RoadRouting.Weighting.Basic

namespace RoadRouting

open Scalar (Exact)

namespace Roads

open Bidirectional (Query Meeting Method State)

variable {Q M : Type} [PriorityQueue Q Exact] [LawfulQueue Q] [BestMap M]
variable {R : Roads} {w : Weighting Exact} {stored : EdgeId → Option (StoredEdge Exact)}
variable {limit : Nat} {h : Estimate Exact} {offset : Exact} {q : Query} {π : NodeId → Rat}

/-- What holds of the search in a direction with any finite estimate. -/
structure Explores (R : Roads) (q : Query) (π : NodeId → Rat) (d : Direction)
    (own other : Frontier Exact Q M) (mt : Meeting Exact) : Prop where
  here : (R.side q π d).Explored own fun _ _ ↦ False
  there : (R.side q π d.opposite).Explored other fun _ _ ↦ False
  meeting : R.IsLeastMeeting q d own other mt

variable {d : Direction} {own other own' : Frontier Exact Q M} {mt mt' : Meeting Exact}

theorem Explores.swap (hR : R.IsLawful stored) (h : R.Explores q π d own other mt) :
    R.Explores q π d.opposite other own mt where
  here := h.there
  there := by
    cases d with
    | forward => exact h.here
    | backward => exact h.here
  meeting := h.meeting.swap hR h.here h.there

section Nodes

variable (hR : R.IsPricedBy w stored) (hq : ∀ d, q.pin d = none)
variable (hπ : ∀ d, ∀ u < R.network.nodeCount,
  h.balanced q.source q.target d u = .finite (balance π d u))
include hR hq hπ

theorem Explores.advances (hx : R.Explores q π d own other mt)
    (ha : (R.method w limit h offset).Advances
      ((R.method w limit h offset).exploration q d none) d own other mt own' mt') :
    R.Explores q π d own' other mt' := by
  cases ha with
  | exhausted => exact hx
  | pruned _ hpruned => exact hpruned.elim nofun nofun
  | @expanded id next _ _ hp hexpand =>
    obtain ⟨l, hl, _, hnext⟩ := explored_pop hx.here hp
    have hpin : pinAt (q.pin d) l.edge = none := by
      rw [hq d]
      cases l.edge <;> rfl
    obtain ⟨f', mt₁, hf', hdone, hmeeting, _⟩ := expand_joining_isOk limit offset hR
      (fun _ ↦ hq) (hπ d) hnext hx.there (hx.meeting.pop hp) hl (fun e he ↦ he)
      (P := fun _ ↦ True) (fun _ _ _ ↦ trivial) trivial
    rw [Frontier.label_eq hl] at hexpand
    rw [hpin] at hf'
    cases hexpand.symm.trans hf'
    exact ⟨hdone, hx.there, hmeeting⟩

theorem explores_of_advance {st st' : State Exact Q M Unit}
    (hst : st.Satisfies (R.Explores q π))
    (h : (R.method w limit h offset).advance q d none st = (st', .ok ())) :
    st'.Satisfies (R.Explores q π) := by
  refine Method.satisfies_of_advance (fun hx ↦ ?_) (fun hx ha ↦ ?_) hst h
  · exact hx.swap hR.toIsLawful
  · exact hx.advances hR hq hπ ha

variable (hroot : ∀ d, q.root d < R.network.nodeCount)
include hroot

omit hq in
variable (limit offset) in
theorem explores_start (hne : q.source ≠ q.target) :
    ((R.method w limit h offset).start q : State Exact Q M Unit).Satisfies (R.Explores q π) := by
  have hstart : ∀ d, (R.side q π d).Explored
      ((R.method w limit h offset).startSide q d (q.root d) : Bidirectional.Side Exact Q M).frontier
      fun _ _ ↦ False := fun d ↦ (exploresInOrder_startSide w limit offset hπ hroot d).explored
  have hforward : R.Explores q π .forward
      ((R.method w limit h offset).start q : State Exact Q M Unit).forward.frontier
      ((R.method w limit h offset).start q : State Exact Q M Unit).backward.frontier
      ⟨Scalar.infinity, none⟩ :=
    ⟨hstart .forward, hstart .backward, isLeastMeeting_start hπ hroot fun _ ↦ hne⟩
  intro d
  cases d with
  | forward => exact hforward
  | backward => exact hforward.swap hR.toIsLawful

omit hq hπ hroot in
theorem exists_walk_of_meetingRoute (hm : R.mode = .nodeBased) {st : State Exact Q M Unit}
    (hst : st.Satisfies (R.Explores q π)) {labels : LabelId × LabelId}
    (hl : st.meeting.labels = some labels) {r : Route Exact}
    (hr : (R.method w limit h offset).meetingRoute q st labels = .ok r) :
    ∃ g m, R.Walk q.source r.edges q.target g ∧ r.weight = .finite m ∧ g ≤ m := by
  obtain ⟨hforward, hbackward, hmeeting⟩ := hst .forward
  obtain ⟨g, m, hj, hcost, hle⟩ := hmeeting.exists_journey hR.toIsLawful hforward hbackward hl
  have hno : ∀ e ∈ st.backward.frontier.edgesTo labels.2, e.isLoop = false := by
    obtain ⟨_, _, _, _, _, _, rfl, _, hb, _⟩ := hmeeting.met hl
    exact fun e he ↦ isLoop_of_mem_edgesTo hR.toIsLawful hm hbackward hb he
  rw [Method.meetingRoute] at hr
  obtain ⟨t, rfl⟩ := Route.exists_duration hr
  exact ⟨g, m, pathFrom_eq hno ▸ hj.1, hcost, hle⟩

end Nodes

variable {source target : NodeId} {r : Route Exact}

/-- Whatever the estimate is, the route costs no more than reported. It costs as much where half of
the difference of the estimates toward both ends is consistent. -/
theorem le_weight_of_found (hn : R.network.IsBuilt) (hm : R.network.IsMeasured)
    (hw : Weighting.Charges R.mode R.price w R.turns) (hmode : R.mode = .nodeBased)
    (htarget : ∀ u < R.network.nodeCount, ∃ x, h.toward (some target) u = .finite x)
    (hsource : ∀ u < R.network.nodeCount, ∃ x, h.toward (some source) u = .finite x)
    (hoffset : 0 ≤ offset)
    (hfound : ((R.method w limit h offset).bestRoute Q M { source, target }).result =
      .ok (.found r)) :
    ∃ g m, R.Walk source r.edges target g ∧ r.weight = .finite m ∧ g ≤ m ∧
      (R.IsConsistent (halfDifference h source target) → g = m) := by
  obtain ⟨stored, hshows⟩ := hn.exists_shows
  have hR : R.IsPricedBy w stored := isPricedBy hshows hm hw
  have hq : ∀ d, Query.pin { source, target } d = none := by
    intro d
    cases d <;> rfl
  have hπ : ∀ d, ∀ u < R.network.nodeCount, h.balanced source target d u =
      .finite (balance (halfDifference h source target) d u) :=
    fun d _ hu ↦ balanced_eq htarget hsource d hu
  obtain ⟨hs, ht⟩ := Method.lt_of_bestRoute hfound
  have hroot : ∀ d, Query.root { source, target } d < R.network.nodeCount := by
    intro d
    cases d with
    | forward => exact hs
    | backward => exact ht
  obtain ⟨g, m, hwalk, hweight, hle⟩ : ∃ g m, R.Walk source r.edges target g ∧
      r.weight = .finite m ∧ g ≤ m := by
    rcases Method.exists_of_bestRoute
      (fun hst hadvance ↦ explores_of_advance hR hq hπ hst hadvance)
      (fun hne hforward hbackward ↦ by
        have hstart := explores_start (Q := Q) (M := M) limit offset hR hπ hroot
          fun hst ↦ hne ⟨hst, rfl, rfl⟩
        exact explores_of_advance hR hq hπ (explores_of_advance hR hq hπ hstart hforward)
          hbackward) hfound with
      ⟨⟨hst, _⟩, hroute⟩ | ⟨st, labels, hst, hl, hroute⟩
    · obtain ⟨t, rfl⟩ := Route.exists_duration hroute
      exact ⟨0, 0, walk_nil_iff.2 ⟨hst.symm, rfl⟩, rfl, le_rfl⟩
    · exact exists_walk_of_meetingRoute hR hmode hst hl hroute
  refine ⟨g, m, hwalk, hweight, hle, fun hc ↦ ?_⟩
  have hbest : ((R.method w limit h offset).bestRoute Q M { source, target }).IsBest
      (R.Journey { source, target }) limit :=
    isBest_of_balanced hR hroot (fun _ ↦ hq) hπ hc hoffset (absurd hmode)
  rw [Answer.IsBest, hfound, journey_of_no_pins] at hbest
  obtain ⟨g', hwalk', hweight', _⟩ := hbest
  obtain ⟨_, rfl⟩ := hwalk.functional hwalk'
  exact Exact.finite.inj (hweight'.symm.trans hweight)

def shrunkRoads : Roads where
  network := (RoadGraph.ofPlaces
    ([0, 0].map (Position.mk 0 <| .finite ·) ++ [10, 10, 10, 10, 10, 10].map (.mk 0 <| .finite ·))
    [.oneWay 0 3 (.finite 6) (.finite 36), .oneWay 0 1 (.finite 1) (.finite 36),
      .oneWay 1 3 (.finite 1) (.finite 36), .oneWay 3 4 (.finite 1) (.finite 36),
      .oneWay 4 2 (.finite 5) (.finite 36), .oneWay 5 2 (.finite 1) (.finite 36),
      .oneWay 6 2 (.finite 2) (.finite 36), .oneWay 7 2 (.finite 3) (.finite 36)]).network
  mode := .nodeBased
  price e := e.distance
  turns _ _ _ := 0

def distanceOnLine (p q : Position Exact) : Exact := if p.y ≤ q.y then q.y - p.y else p.y - q.y

def beelineOnLine : Estimate Exact :=
  .beeline shrunkRoads.network distanceOnLine (.shortest .stored) (.finite 1)

def wayOver : List (EdgeView Exact) :=
  [(StoredEdge.oneWay 0 1 (.finite 1) (.finite 36)).view 1 0,
    (StoredEdge.oneWay 1 3 (.finite 1) (.finite 36)).view 2 1,
    (StoredEdge.oneWay 3 4 (.finite 1) (.finite 36)).view 3 3,
    (StoredEdge.oneWay 4 2 (.finite 5) (.finite 36)).view 4 4]

theorem walk_wayOver : shrunkRoads.Walk 0 wayOver 2 8 := by
  have hj : ∀ e e', shrunkRoads.Joins (some e) (some e') 0 := fun _ _ ↦ ⟨rfl, nofun⟩
  refine walk_cons_iff.2 ⟨1, 0, 7, by decide +kernel, rfl, hj _ _, ?_, by norm_num⟩
  refine walk_cons_iff.2 ⟨1, 0, 6, by decide +kernel, rfl, hj _ _, ?_, by norm_num⟩
  refine walk_cons_iff.2 ⟨1, 0, 5, by decide +kernel, rfl, hj _ _, ?_, by norm_num⟩
  exact walk_singleton_iff.2 ⟨by decide +kernel, rfl, rfl⟩

theorem exists_found_shrunkRoads :
    ∃ r, ((shrunkRoads.method (.shortest .stored) noVisitLimit beelineOnLine 0).bestRoute
      (SortedQueue Exact) SparseMap { source := 0, target := 2 }).result = .ok (.found r) ∧
      (r.weight, r.edges) = (.finite 12, wayOver) :=
  exists_found_of_route? (f := fun r ↦ (r.weight, r.edges)) (by decide +kernel)

/-- The way over the second node makes a label of a meeting better, but the searches end before the
labels that come of it meet. -/
theorem weight_ne_shrunkRoads :
    ∃ r, ((shrunkRoads.method (.shortest .stored) noVisitLimit beelineOnLine 0).bestRoute
      (SortedQueue Exact) SparseMap { source := 0, target := 2 }).result = .ok (.found r) ∧
      ∀ g, shrunkRoads.Walk 0 r.edges 2 g → r.weight ≠ .finite g := by
  obtain ⟨r, hfound, hr⟩ := exists_found_shrunkRoads
  obtain ⟨hweight, hedges⟩ := Prod.mk.inj hr
  refine ⟨r, hfound, fun g hwalk heq ↦ ?_⟩
  rw [hedges] at hwalk
  obtain ⟨_, rfl⟩ := hwalk.functional walk_wayOver
  cases hweight.symm.trans heq

theorem le_weight_shrunkRoads :
    ∃ r, ((shrunkRoads.method (.shortest .stored) noVisitLimit beelineOnLine 0).bestRoute
      (SortedQueue Exact) SparseMap { source := 0, target := 2 }).result = .ok (.found r) ∧
      ∃ g m, shrunkRoads.Walk 0 r.edges 2 g ∧ r.weight = .finite m ∧ g ≤ m ∧
        (shrunkRoads.IsConsistent (halfDifference beelineOnLine 0 2) → g = m) := by
  obtain ⟨r, hfound, _⟩ := exists_found_shrunkRoads
  have hm : shrunkRoads.network.IsMeasured := isMeasured_ofPlaces (by decide +kernel)
  have hfinite : ∀ t ∈ [0, 2], ∀ u < shrunkRoads.network.nodeCount,
      beelineOnLine.toward (some t) u = .finite (beelineOnLine.toward (some t) u).value := by
    decide +kernel
  refine ⟨r, hfound, le_weight_of_found (.road (RoadGraph.isBuilt_ofPlaces _ _)) hm
    (.plain (.shortest fun _ _ ↦ rfl)) rfl ?_ ?_ (Exact.finite_le_finite.2 le_rfl) hfound⟩
  · exact fun u hu ↦ ⟨_, hfinite 2 (by decide) u hu⟩
  · exact fun u hu ↦ ⟨_, hfinite 0 (by decide) u hu⟩

end Roads

end RoadRouting
