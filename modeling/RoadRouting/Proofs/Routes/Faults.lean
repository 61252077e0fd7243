import RoadRouting.Proofs.Routes.Meetings
import RoadRouting.Proofs.Search.Success
import RoadRouting.Proofs.Weighting.Safe
import RoadRouting.Search.Unidirectional

namespace RoadRouting

open Scalar (Exact IsOrdered IsSigned)
open Bidirectional (Method Query State GrowsPastRoots)

namespace QueryError

variable {K : Type}

def isRoadFault : QueryError K → Bool
  | invalidSpeed _ _ => true
  | zeroSpeed _ => true
  | blockedDirection _ _ _ _ => true
  | _ => false

end QueryError

/-- The road leads back to where it begins, and can be traveled along only. -/
structure StoredEdge.IsOneWayLoop {K : Type} (s : StoredEdge K) : Prop where
  adj_eq : s.adj = s.base
  access : s.access = ⟨true, false⟩

section Errors

variable {K : Type}

theorem Route.exists_of_totalDuration {w : Weighting K} {before : Option EdgeId} {total : Duration}
    {es : List (EdgeView K)} {error : QueryError K}
    (h : totalDuration w before total es = .error error) :
    ∃ e ∈ es, ∃ before, w.duration e .forward before = .error error := by
  induction es generalizing before total with
  | nil => cases h
  | cons e es ih =>
    rw [totalDuration] at h
    cases he : w.duration e .forward before with
    | error _ =>
      rw [he] at h
      cases h
      exact ⟨e, List.mem_cons_self, before, he⟩
    | ok t =>
      rw [he] at h
      obtain ⟨e', hmem, before', he'⟩ := ih h
      exact ⟨e', List.mem_cons_of_mem e hmem, before', he'⟩

theorem Route.exists_of_ofEdges [Scalar K] {w : Weighting K} {start : NodeId}
    {es : List (EdgeView K)} {weight : K} {error : QueryError K}
    (h : ofEdges w start es weight = .error error) :
    ∃ e ∈ es, ∃ before, w.duration e .forward before = .error error := by
  rw [ofEdges] at h
  cases ht : totalDuration w none 0 es with
  | error _ =>
    rw [ht] at h
    cases h
    exact exists_of_totalDuration ht
  | ok _ =>
    rw [ht] at h
    cases h

theorem Route.ofEdges_isOk [Scalar K] {w : Weighting K} {es : List (EdgeView K)}
    (h : ∀ e ∈ es, ∀ before error, w.duration e .forward before ≠ .error error) (start : NodeId)
    (weight : K) : ∃ r, ofEdges w start es weight = .ok r := by
  cases hr : ofEdges w start es weight with
  | ok r => exact ⟨r, rfl⟩
  | error error =>
    obtain ⟨e, hmem, before, he⟩ := exists_of_ofEdges hr
    exact absurd he (h e hmem before error)

theorem SearchSettings.not_isRoadFault_of_checkNodes {s : SearchSettings K} {nodes : List NodeId}
    {error : QueryError K} (h : s.checkNodes nodes = .error error) : error.isRoadFault = false := by
  rw [checkNodes] at h
  split at h
  · cases h
    rfl
  · cases h

theorem Bidirectional.Method.not_isRoadFault_of_checkPins {σ : Type} {p : Method K σ} {q : Query}
    {error : QueryError K} (h : p.checkPins q = .error error) : error.isRoadFault = false := by
  rw [checkPins] at h
  split at h
  · cases h
    rfl
  · cases h

theorem Network.Shows.isSafe [Scalar K] {n : Network K} {stored : EdgeId → Option (StoredEdge K)}
    (hn : n.Shows stored) (hsafe : ∀ {id v}, stored id = some v → v.IsSafe) {u : NodeId}
    {d : Direction} {e : EdgeView K} (he : e ∈ n.edges u d) : e.IsSafe := by
  obtain ⟨id, v, hv, _, rfl, _⟩ := hn.mem_edges.1 he
  exact (hsafe hv).view id u

end Errors

namespace Frontier

variable {K Q M : Type} [Scalar K] {f : Frontier K Q M}

namespace IsGrown

variable [PriorityQueue Q K] [LawfulQueue Q] [BestMap M] {s : SearchSettings K} {d : Direction}
variable {origin : NodeId} {pin : Option EdgeId} {start : Label K} {id : LabelId} {e : EdgeView K}
variable (h : f.IsGrown s d origin pin start)
include h

theorem exists_listed (he : e ∈ f.edgesTo id) : ∃ u, e ∈ s.network.edges u d := by
  obtain ⟨_, _, hl, hedge⟩ := exists_of_mem_edgesTo he
  obtain ⟨_, hf⟩ := h.exists_follows hl e hedge
  exact ⟨_, hf.listed⟩

theorem isLoop_eq_false {stored : EdgeId → Option (StoredEdge K)} (hn : s.network.Shows stored)
    (hm : s.mode = .nodeBased) (he : e ∈ f.edgesTo id) : e.isLoop = false := by
  obtain ⟨j, l, hl, hedge⟩ := exists_of_mem_edgesTo he
  have hj : j ≠ 0 := by
    rintro rfl
    cases hl.symm.trans h.root
    cases h.start_edge.symm.trans hedge
  obtain ⟨e', parent, lp, hedge', _, hparent, hlp, hf⟩ := h.form hl hj
  cases hedge.symm.trans hedge'
  have hown := h.own hl (SearchSettings.keyOf_of_nodeBased hm l.edge)
  have hownp := h.own hlp (SearchSettings.keyOf_of_nodeBased hm lp.edge)
  rw [← hn.base_eq hf.listed] at hownp
  rw [hedge] at hown
  rw [← Bool.not_eq_true, EdgeView.isLoop_iff]
  intro hloop
  rw [hloop] at hownp
  obtain rfl : parent = j := Option.some.inj (hownp.symm.trans hown)
  obtain ⟨ids, hids⟩ := h.lineage hl
  have hnot := Lineage.not_mem hl hparent hids
  cases hids <;> exact hnot List.mem_cons_self

end IsGrown

end Frontier

namespace SearchSettings

variable {K Q M : Type} [Scalar K] [PriorityQueue Q K] [LawfulQueue Q] [BestMap M] [IsSigned K]
variable {s : SearchSettings K} {stored : EdgeId → Option (StoredEdge K)} {error : QueryError K}

section Roads

variable (hn : s.network.Shows stored) (hsafe : ∀ {id v}, stored id = some v → v.IsSafe)
variable (hw : s.weighting.IsStatic)
include hn hsafe hw

omit [PriorityQueue Q K] [LawfulQueue Q] [BestMap M]

theorem isPriced_of_isSafe : s.IsPriced := fun before he ↦
  hw.weight_isOk (hn.isSafe hsafe he) _ before

theorem isNonneg_of_isSafe : s.weighting.IsNonneg s.network :=
  hw.isAssembled.isNonneg fun he ↦ (hn.isSafe hsafe he).distance

theorem duration_ne_error {u : NodeId} {d : Direction} {e : EdgeView K}
    (he : e ∈ s.network.edges u d) (before : Option EdgeId) :
    s.weighting.duration e d before ≠ .error error := by
  intro h
  obtain ⟨hclosed, _⟩ := hw.error_of_duration (hn.isSafe hsafe he) h
  cases (hn.isOpen he).symm.trans hclosed

theorem ofEdges_isOk_of_listed {start : NodeId} {es : List (EdgeView K)}
    (hes : ∀ e ∈ es, ∃ u, e ∈ s.network.edges u .forward) (weight : K) :
    ∃ r, Route.ofEdges s.weighting start es weight = .ok r := by
  refine Route.ofEdges_isOk (fun e he before error ↦ ?_) start weight
  obtain ⟨u, hu⟩ := hes e he
  exact duration_ne_error hn hsafe hw hu before

end Roads

section OneEnd

variable (hn : s.network.Shows stored) (hsafe : ∀ {id v}, stored id = some v → v.IsSafe)
variable (hw : s.weighting.IsStatic) {source target : NodeId}
include hn hsafe hw

theorem isGrown_explore {σ : Type} (w : Watch K σ) (estimate : NodeId → K) (limit : Nat)
    (priority : K) (watched : σ) :
    ((s.exploration .forward estimate).explore (Q := Q) (M := M) w limit (.root source priority)
      (s.mode.rootKey source) watched).frontier.IsGrown s .forward source none
        (.root source priority) := by
  refine Exploration.explore_preserves
    (I := fun f ↦ f.IsGrown s .forward source none (.root source priority))
    (fun {id f next} hf hp ↦ ?_) w limit (.addRoot s .forward rfl rfl rfl rfl) watched
  obtain ⟨l, hl, _⟩ := hf.label?_of_pop hp
  rw [← Frontier.label?_of_pop? hp] at hl
  refine ⟨hf.pop hp, fun hexpand ↦ ?_⟩
  rw [Frontier.label_eq hl] at hexpand
  have hx := keepsTo_exploration (d := .forward) (isNonneg_of_isSafe hn hsafe hw) estimate
  exact (hf.pop hp).expand hn (fun _ ↦ rfl) hx hl (fun _ ↦ rfl) hexpand

theorem routeTo_isOk {f : Frontier K Q M} {start : Label K}
    (hf : f.IsGrown s .forward source none start) (goal : LabelId) :
    ∃ r, s.routeTo source f goal = .ok r := by
  apply ofEdges_isOk_of_listed hn hsafe hw
  intro e he
  exact hf.exists_listed (List.mem_reverse.1 he)

omit hn hsafe hw [Scalar K] [PriorityQueue Q K] [LawfulQueue Q] [BestMap M] [IsSigned K] in
theorem exists_outcome (explored : Explored K Q M (Option LabelId))
    (route : LabelId → Except (QueryError K) (Route K))
    (hend : ∃ ending, explored.ending = .ok ending) (hroute : ∀ goal, ∃ r, route goal = .ok r) :
    ∃ outcome, (do
      match ← explored.ending, explored.watched with
      | .limited, _ => return .visitLimitReached
      | .done, some goal => return .found (← route goal)
      | _, _ => return .unreachable : Except (QueryError K) (Outcome K)) = .ok outcome := by
  obtain ⟨ending, hend⟩ := hend
  rw [hend]
  cases ending with
  | limited => exact ⟨_, rfl⟩
  | exhausted => cases explored.watched <;> exact ⟨_, rfl⟩
  | done =>
    cases explored.watched with
    | none => exact ⟨_, rfl⟩
    | some goal =>
      obtain ⟨r, hr⟩ := hroute goal
      refine ⟨.found r, ?_⟩
      simp only [bind, Except.bind, hr]
      rfl

theorem bestRoute_isOk (h : Estimate K) (hnodes : s.checkNodes [source, target] = .ok ()) :
    ∃ outcome, (s.bestRoute Q M h source target).result = .ok outcome := by
  have hx : (s.exploration .forward (h.toward (some target))).NeverFails :=
    Exploration.neverFails_exploration (isPriced_of_isSafe hn hsafe hw) _ _
  rw [bestRoute, hnodes]
  exact exists_outcome (s.exploreToward Q M h source target) _ (hx.explore_isOk _ _ _ _ _)
    (routeTo_isOk hn hsafe hw (isGrown_explore hn hsafe hw _ _ _ _ _))

theorem bestRoutes_isOk {targets : List NodeId} (hnodes : s.checkNodes (source :: targets) = .ok ()) :
    ∃ outcomes, (s.bestRoutes Q M source targets).result = .ok outcomes := by
  have hx : (s.exploration .forward fun _ ↦ 0).NeverFails :=
    Exploration.neverFails_exploration (isPriced_of_isSafe hn hsafe hw) _ _
  obtain ⟨ending, hend⟩ : ∃ ending, (s.exploreAll Q M source targets).ending = .ok ending :=
    hx.explore_isOk _ _ _ _ _
  have hroute : ∀ target ∈ targets, ∃ outcome,
      s.outcomeFor source (s.exploreAll Q M source targets) ending target = .ok outcome := by
    intro target _
    rw [outcomeFor]
    split
    · next goal _ =>
      obtain ⟨r, hr⟩ := routeTo_isOk hn hsafe hw
        (isGrown_explore (Q := Q) (M := M) hn hsafe hw .reachAll _ _ _ _) goal
      rw [exploreAll, hr]
      exact ⟨_, rfl⟩
    · exact ⟨_, rfl⟩
  obtain ⟨outcomes, houtcomes⟩ := mapM_succeeds hroute
  refine ⟨outcomes, ?_⟩
  rw [bestRoutes, hnodes]
  simp only [hend]
  exact houtcomes

end OneEnd

end SearchSettings

theorem Network.Shows.isOneWayLoop {K : Type} {n : Network K}
    {stored : EdgeId → Option (StoredEdge K)} (hn : n.Shows stored) {u : NodeId} {e : EdgeView K}
    (he : e ∈ n.edges u .backward) (hclosed : e.reversed.isOpen .forward = false) :
    e.isLoop = true ∧ ∃ v, stored e.edge = some v ∧ v.IsOneWayLoop ∧ v.base = e.base := by
  have hloop : e.isLoop = true := by
    by_contra hloop
    have hopen := e.isOpen_fromEnd .backward
    rw [EdgeView.fromEnd_of_not_isLoop (Bool.not_eq_true _ ▸ hloop), hn.isOpen he] at hopen
    cases hclosed.symm.trans hopen
  refine ⟨hloop, ?_⟩
  obtain ⟨id, v, hv, hu, rfl, ho⟩ := hn.mem_edges.1 he
  have hnode := (EdgeView.isLoop_iff _).1 hloop
  rw [v.base_view id hu, v.adj_view] at hnode
  have hbase : u = v.base := by grind
  have hadj : v.adj = v.base := by grind
  have hview : v.view id u = v.stored id := if_pos hbase
  rw [EdgeView.isOpen, EdgeView.reading, if_pos hloop, hview] at ho
  rw [EdgeView.isOpen, EdgeView.reading_forward, hview] at hclosed
  rw [v.edge_view, v.base_view id hu]
  exact ⟨v, hv, ⟨hadj, congrArg₂ Sides.mk ho hclosed⟩, hbase.symm⟩

namespace Bidirectional.Method

variable {K Q M σ : Type} [Scalar K] [PriorityQueue Q K] [LawfulQueue Q] [BestMap M]
variable [IsSigned K] {p : Method K σ} {q : Query} {error : QueryError K}
variable {stored : EdgeId → Option (StoredEdge K)}

omit [PriorityQueue Q K] [LawfulQueue Q] [BestMap M] [IsSigned K] in
theorem exists_of_outcome_error {st : State K Q M σ} (h : p.outcome q st = .error error) :
    ∃ labels, st.meeting.labels = some labels ∧ p.meetingRoute q st labels = .error error := by
  rcases p.outcome_cases q st with hnone | hnone | ⟨labels, hlabels, _, hroute⟩
  · cases hnone.symm.trans h
  · cases hnone.symm.trans h
  · exact ⟨labels, hlabels, eq_error_of_map (hroute.symm.trans h)⟩

variable (hn : p.settings.network.Shows stored) (hsafe : ∀ {id v}, stored id = some v → v.IsSafe)
variable (hw : p.settings.weighting.IsStatic)
include hn hsafe hw

theorem error_of_meetingRoute {st : State K Q M σ} {labels : LabelId × LabelId}
    (hst : st.Satisfies (GrowsPastRoots p.settings q))
    (h : p.meetingRoute q st labels = .error error) :
    p.settings.mode ≠ .nodeBased ∧ ∃ id v, stored id = some v ∧ v.IsOneWayLoop ∧
      error = .blockedDirection id v.base v.base false := by
  obtain ⟨_, hforward⟩ := (hst .forward).here
  obtain ⟨_, hbackward⟩ := (hst .forward).there
  obtain ⟨e, hmem, before, he⟩ := Route.exists_of_ofEdges h
  rcases List.mem_append.1 hmem with hmem | hmem
  · obtain ⟨u, hu⟩ := hforward.exists_listed (List.mem_reverse.1 hmem)
    exact absurd he (SearchSettings.duration_ne_error hn hsafe hw hu before)
  · -- this half has been explored from the target, and is timed as seen from the other end
    obtain ⟨e, hedge, rfl⟩ := List.mem_map.1 hmem
    obtain ⟨u, hu⟩ := hbackward.exists_listed hedge
    obtain ⟨hclosed, rfl⟩ := hw.error_of_duration (hn.isSafe hsafe hu).reversed he
    obtain ⟨hloop, v, hv, hone, hbase⟩ := hn.isOneWayLoop hu hclosed
    constructor
    · intro hm
      cases hloop.symm.trans (hbackward.isLoop_eq_false hn hm hedge)
    · refine ⟨e.edge, v, hv, hone, ?_⟩
      have hadj := (EdgeView.isLoop_iff e).1 hloop
      rw [EdgeView.reading_forward, hbase]
      change QueryError.blockedDirection e.edge e.adj e.base false = _
      rw [hadj]

theorem error_of_bestRoute (herror : (p.bestRoute Q M q).result = .error error)
    (hroad : error.isRoadFault = true) :
    p.settings.mode ≠ .nodeBased ∧ ∃ id v, stored id = some v ∧ v.IsOneWayLoop ∧
      error = .blockedDirection id v.base v.base false := by
  rw [bestRoute] at herror
  cases hc : p.checkPins q with
  | error _ =>
    rw [hc] at herror
    cases herror
    cases hroad.symm.trans (not_isRoadFault_of_checkPins hc)
  | ok _ =>
    cases hnodes : p.settings.checkNodes [q.source, q.target] with
    | error _ =>
      rw [hc, hnodes] at herror
      cases herror
      cases hroad.symm.trans (SearchSettings.not_isRoadFault_of_checkNodes hnodes)
    | ok _ =>
      have hpriced : p.settings.IsPriced :=
        SearchSettings.isPriced_of_isSafe hn hsafe hw
      have hsearch : p.search q = (((p.search q).1 : State K Q M σ), .ok ()) :=
        Prod.ext rfl (search_isOk hpriced q)
      rw [hc, hnodes, hsearch] at herror
      obtain ⟨labels, hlabels, hroute⟩ := exists_of_outcome_error herror
      have hcosts := SearchSettings.isNonneg_of_isSafe hn hsafe hw
      have hpins : p.settings.mode = .nodeBased → ∀ d, q.pin d = none := by
        intro hm d
        obtain ⟨hfirst, hlast⟩ := no_pins_of_checkPins hc hm
        cases d with
        | forward => exact hfirst
        | backward => exact hlast
      by_cases hne : q.source = q.target ∧ q.firstEdge = none ∧ q.lastEdge = none
      · rw [search, if_pos hne] at hlabels hroute
        cases hlabels
        cases (meetingRoute_meetAtStart p q).symm.trans hroute
      · refine error_of_meetingRoute hn hsafe hw ?_ hroute
        refine search_preserves (I := fun st ↦ st.Satisfies (GrowsPastRoots p.settings q))
          (fun hst ↦ satisfies_of_advance (·.swap) (·.advances hn hcosts hpins ·) hst) ?_ hne hsearch
        intro st st' _
        exact Bidirectional.satisfies_growsPastRoots hn hcosts hpins

end Bidirectional.Method

namespace SearchSettings

section Faults

variable {K Q M : Type} [Scalar K] [PriorityQueue Q K] [LawfulQueue Q] [BestMap M] [IsSigned K]
variable {s : SearchSettings K}

/-- On roads with the right speeds a query from one end never fails because of a road, and a query
from both ends only where states are edges, at a loop that can be traveled one way. -/
theorem isOneWayLoop_of_isRoadFault {g : RoadGraph K} (hg : g.IsBuilt)
    (hs : s.network = g.network ∨ s.network = (PackedGraph.pack g).network)
    (hsafe : ∀ {id v}, g.edge? id = some v → v.IsSafe) (hw : s.weighting.IsStatic) :
    (∀ {h source target error}, (s.bestRoute Q M h source target).result = .error error →
        error.isRoadFault = false) ∧
      (∀ {source targets error}, (s.bestRoutes Q M source targets).result = .error error →
        error.isRoadFault = false) ∧
      ∀ {σ} {p : Method K σ} {q error}, p.settings = s →
        (p.bestRoute Q M q).result = .error error → error.isRoadFault = true →
        s.mode ≠ .nodeBased ∧ ∃ id v, g.edge? id = some v ∧ v.IsOneWayLoop ∧
          error = .blockedDirection id v.base v.base false := by
  have hn : s.network.Shows g.edge? := hg.shows hs
  refine ⟨?_, ?_, ?_⟩
  · intro h source target error herror
    cases hnodes : s.checkNodes [source, target] with
    | error _ =>
      rw [bestRoute, hnodes] at herror
      cases herror
      exact not_isRoadFault_of_checkNodes hnodes
    | ok _ =>
      obtain ⟨_, hok⟩ := bestRoute_isOk (Q := Q) (M := M) hn hsafe hw h hnodes
      cases hok.symm.trans herror
  · intro source targets error herror
    cases hnodes : s.checkNodes (source :: targets) with
    | error _ =>
      rw [bestRoutes, hnodes] at herror
      cases herror
      exact not_isRoadFault_of_checkNodes hnodes
    | ok _ =>
      obtain ⟨_, hok⟩ := bestRoutes_isOk (Q := Q) (M := M) hn hsafe hw hnodes
      cases hok.symm.trans herror
  · intro σ p q error hp
    subst hp
    exact Method.error_of_bestRoute hn hsafe hw

end Faults

def loopAtEnd : RoadGraph Exact :=
  .ofEdges 2 [.oneWay 0 1 (.finite 10) (.finite 36), .oneWay 1 1 (.finite 5) (.finite 36)]

def loopAtEndSettings : SearchSettings Exact where
  network := loopAtEnd.network
  weighting := .shortest .stored
  mode := .edgeBased
  visitLimit := 50

theorem isSafe_loopAtEnd {id : EdgeId} {v : StoredEdge Exact} (hv : loopAtEnd.edge? id = some v) :
    v.IsSafe := by
  have hmeasured : ∀ s ∈ loopAtEnd.edges, s.IsMeasured := by decide +kernel
  exact (hmeasured v (Array.mem_of_getElem? hv)).isSafe

theorem bestRoute_loopAtEnd :
    ((Method.mk loopAtEndSettings .zero .never 0).bestRoute (SortedQueue Exact) SparseMap
      ⟨0, 1, none, some 1⟩).result = .error (.blockedDirection 1 1 1 false) := by
  decide +kernel

/-- The search from both ends finds the loop and fails when it asks how long it takes. -/
theorem isRoadFault_loopAtEnd : (∀ {id v}, loopAtEnd.edge? id = some v → v.IsSafe) ∧
    loopAtEndSettings.weighting.IsStatic ∧
    ∃ error, ((Method.mk loopAtEndSettings .zero .never 0).bestRoute (SortedQueue Exact) SparseMap
      ⟨0, 1, none, some 1⟩).result = .error error ∧ error.isRoadFault = true :=
  ⟨isSafe_loopAtEnd, .shortest fun _ _ ↦ rfl, _, bestRoute_loopAtEnd, rfl⟩

theorem isOneWayLoop_loopAtEnd : ∃ error,
    ((Method.mk loopAtEndSettings .zero .never 0).bestRoute (SortedQueue Exact) SparseMap
      ⟨0, 1, none, some 1⟩).result = .error error ∧ error.isRoadFault = true ∧
    loopAtEndSettings.mode ≠ .nodeBased ∧ ∃ id v, loopAtEnd.edge? id = some v ∧ v.IsOneWayLoop ∧
      error = .blockedDirection id v.base v.base false := by
  have hfaults := isOneWayLoop_of_isRoadFault (Q := SortedQueue Exact) (M := SparseMap)
    (s := loopAtEndSettings) (RoadGraph.isBuilt_ofEdges _ _) (.inl rfl) isSafe_loopAtEnd
    (.shortest fun _ _ ↦ rfl)
  exact ⟨_, bestRoute_loopAtEnd, rfl, hfaults.2.2 rfl bestRoute_loopAtEnd rfl⟩

end SearchSettings

end RoadRouting
