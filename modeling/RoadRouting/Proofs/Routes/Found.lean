import RoadRouting.Proofs.Bidirectional.BestRoute
import RoadRouting.Proofs.Routes.Meetings
import RoadRouting.Proofs.Search.Found
import RoadRouting.Proofs.Search.OneToMany

namespace RoadRouting

open Scalar (Exact IsOrdered)
open Bidirectional (Method Query Meets GrowsAndMeets GrowsPastRoots)

theorem Obeys.reversed {K : Type} {pin : Option EdgeId} {p : Option (EdgeView K)}
    (h : Obeys pin p) : Obeys pin (p.map (·.reversed)) := by
  intro a ha
  rw [Option.map_map]
  exact h a ha

namespace SearchSettings

variable {K : Type} [Scalar K]

/-- Edges that lead from the source of a query to its target with turns that are permitted. -/
structure Answers (s : SearchSettings K) (stored : EdgeId → Option (StoredEdge K)) (q : Query)
    (es : List (EdgeView K)) : Prop where
  leads : Leads stored q.source es q.target
  first : Obeys q.firstEdge es.head?
  last : Obeys q.lastEdge es.getLast?
  turns : es.IsChain fun e e' ↦ s.Permits e.edge e.adj e'.edge

/-- A route that one of the searches has found: from one source to one target or to many, at an
instant, or from both ends. -/
inductive Finds (Q M : Type) [PriorityQueue Q K] [BestMap M] (s : SearchSettings K) :
    Query → Route K → Prop
  | oneToOne {source target : NodeId} {r : Route K} (h : Estimate K) :
      (s.bestRoute Q M h source target).result = .ok (.found r) →
      Finds Q M s ⟨source, target, none, none⟩ r
  | oneToMany {source target : NodeId} {r : Route K} {targets : List NodeId}
      {outcomes : List (Outcome K)} : (s.bestRoutes Q M source targets).result = .ok outcomes →
      (target, .found r) ∈ targets.zip outcomes → Finds Q M s ⟨source, target, none, none⟩ r
  | timed {source target : NodeId} {r : Route K} (d : Direction) (t : Instant) :
      (s.bestRouteAt Q M d source target t).result = .ok (.found r) →
      Finds Q M s ⟨source, target, none, none⟩ r
  | bothEnds {q : Query} {r : Route K} {σ : Type} (p : Method K σ) : p.settings = s →
      (p.bestRoute Q M q).result = .ok (.found r) → Finds Q M s q r

section Traces

variable {s : SearchSettings K} {stored : EdgeId → Option (StoredEdge K)}
variable (hn : s.network.Shows stored) {u v : NodeId} {es es' : List (EdgeView K)}
include hn

theorem Trace.answers_reverse (h : s.Trace .forward u none es)
    (hend : (es.head?.map (·.adj)).getD u = v) :
    s.Answers stored ⟨u, v, none, none⟩ es.reverse where
  leads := hend ▸ h.leads_reverse hn
  first := nofun
  last := nofun
  turns := h.isChain_reverse hn

theorem Trace.answers_reversed (h : s.Trace .backward v none es)
    (hend : (es.head?.map (·.adj)).getD v = u) :
    s.Answers stored ⟨u, v, none, none⟩ (es.map (·.reversed)) where
  leads := hend ▸ h.leads_reversed hn
  first := nofun
  last := nofun
  turns := h.isChain_reversed

theorem Trace.answers_append {q : Query} (h : s.Trace .forward q.source q.firstEdge es)
    (h' : s.Trace .backward q.target q.lastEdge es')
    (hmeets : Meets s q .forward es.head? es'.head?) :
    s.Answers stored q (es.reverse ++ es'.map (·.reversed)) where
  leads := by
    have hleads := h.leads_reverse hn
    rw [show (es.head?.map (·.adj)).getD q.source = _ from hmeets.node] at hleads
    exact hleads.append (h'.leads_reversed hn)
  first := by
    cases es with
    | nil =>
      rw [List.reverse_nil, List.nil_append, List.head?_map]
      exact (hmeets.pinned rfl).reversed
    | cons e es =>
      rw [List.head?_append_of_ne_nil _ (by simp), List.head?_reverse]
      exact h.obeys (List.cons_ne_nil e es)
  last := by
    cases es' with
    | nil =>
      rw [List.map_nil, List.append_nil, List.getLast?_reverse]
      exact hmeets.pinned_opposite rfl
    | cons e es' =>
      rw [List.getLast?_append_of_ne_nil _ (by simp), List.getLast?_map]
      exact (h'.obeys (List.cons_ne_nil e es')).reversed
  turns := by
    refine List.isChain_append.2 ⟨h.isChain_reverse hn, h'.isChain_reversed, fun e he e' he' ↦ ?_⟩
    rw [List.getLast?_reverse] at he
    rw [List.head?_map] at he'
    obtain ⟨e₀, he₀, rfl⟩ := Option.map_eq_some_iff.1 he'
    exact hmeets.turn e he e₀ he₀

end Traces

section Searches

variable {Q M : Type} [PriorityQueue Q K] [LawfulQueue Q] [BestMap M] [IsOrdered K]
variable {s : SearchSettings K} {stored : EdgeId → Option (StoredEdge K)}
variable {source target : NodeId} {r : Route K}

section OneEnd

variable (hn : s.network.Shows stored) (hw : s.weighting.IsNonneg s.network)
include hn hw

theorem exists_answers_of_bestRoute {h : Estimate K}
    (hfound : (s.bestRoute Q M h source target).result = .ok (.found r)) :
    ∃ es weight t, r = Route.ofEdgesWithDuration source es weight t ∧
      s.Answers stored ⟨source, target, none, none⟩ es := by
  obtain ⟨f, next, goal, l, hf, hp, hl, hgoal, hroute⟩ := exists_of_bestRoute
    (I := fun f ↦ f.IsGrown s .forward source none
      (.root source (h.toward (some target) source)))
    (.addRoot s .forward rfl rfl rfl rfl)
    (fun hI hp ↦ by
      obtain ⟨l, hl, _⟩ := hI.label?_of_pop hp
      exact ⟨l, Frontier.label?_of_pop? hp ▸ hl⟩)
    (fun hI hp hl hx ↦ (hI.pop hp).expand hn (fun _ ↦ rfl) (keepsTo_exploration hw _) hl
      (fun _ ↦ rfl) hx) hfound
  obtain ⟨htrace, hend⟩ := hf.trace_of_pop hp hl
  obtain ⟨t, rfl⟩ := Route.exists_duration hroute
  exact ⟨_, _, t, rfl, htrace.answers_reverse hn (hend.trans hgoal)⟩

theorem exists_answers_of_bestRouteAt {d : Direction} {t : Instant}
    (hfound : (s.bestRouteAt Q M d source target t).result = .ok (.found r)) :
    ∃ es weight t, r = Route.ofEdgesWithDuration source es weight t ∧
      s.Answers stored ⟨source, target, none, none⟩ es := by
  obtain ⟨f, next, goal, l, hf, hp, hl, hgoal, rfl⟩ := exists_of_bestRouteAt
    (I := fun f ↦ f.IsGrown s d (ends source target d).1 none
      ((Label.root (ends source target d).1 0).withTime t))
    (.addRoot s d rfl rfl rfl rfl)
    (fun hI hp ↦ by
      obtain ⟨l, hl, _⟩ := hI.label?_of_pop hp
      exact ⟨l, Frontier.label?_of_pop? hp ▸ hl⟩)
    (fun hI hp hl hx ↦ (hI.pop hp).expand hn (fun _ ↦ rfl) (keepsTo_timedExploration hw) hl
      (fun _ ↦ rfl) hx) hfound
  obtain ⟨htrace, hend⟩ := hf.trace_of_pop hp hl
  refine ⟨_, _, _, rfl, ?_⟩
  cases d with
  | forward => exact htrace.answers_reverse hn (hend.trans hgoal)
  | backward => exact htrace.answers_reversed hn (hend.trans hgoal)

end OneEnd

theorem exists_answers_of_bothEnds {σ : Type} {p : Method K σ} {q : Query}
    (hn : p.settings.network.Shows stored)
    (hw : p.settings.weighting.IsNonneg p.settings.network)
    (hfound : (p.bestRoute Q M q).result = .ok (.found r)) :
    ∃ es weight t, r = Route.ofEdgesWithDuration q.source es weight t ∧
      p.settings.Answers stored q es := by
  have hpins : p.settings.mode = .nodeBased → ∀ d, q.pin d = none := by
    intro hm d
    obtain ⟨hfirst, hlast⟩ := Method.no_pins_of_bestRoute hfound hm
    cases d with
    | forward => exact hfirst
    | backward => exact hlast
  rcases Method.exists_of_bestRoute (I := fun st ↦ st.Satisfies (GrowsPastRoots p.settings q))
    (fun hst ↦ Method.satisfies_of_advance (·.swap) (·.advances hn hw hpins ·) hst)
    (fun _ ↦ Bidirectional.satisfies_growsPastRoots hn hw hpins) hfound with
    ⟨⟨hends, hfirst, hlast⟩, hroute⟩ | ⟨st, labels, hst, hlabels, hroute⟩
  · obtain ⟨t, rfl⟩ := Route.exists_duration hroute
    refine ⟨[], _, t, rfl, hends ▸ leads_nil q.source, ?_, ?_, .nil⟩
    · rw [hfirst]
      nofun
    · rw [hlast]
      nofun
  · obtain ⟨a, b, la, lb, rfl, ha, hb, hmeets⟩ := (hst .forward).met hlabels
    obtain ⟨_, hgrown⟩ := (hst .forward).here
    obtain ⟨_, hgrown'⟩ := (hst .forward).there
    obtain ⟨htrace, hhead⟩ := hgrown.trace_edgesTo ha
    obtain ⟨htrace', hhead'⟩ := hgrown'.trace_edgesTo hb
    obtain ⟨t, rfl⟩ := Route.exists_duration hroute
    exact ⟨_, _, t, rfl, htrace.answers_append hn htrace' (hhead ▸ hhead' ▸ hmeets)⟩

/-- A route that is found is a connected walk over stored edges from the source to the target, begins
and ends with the edges that are prescribed, and takes permitted turns only. -/
theorem connects_of_found {g : RoadGraph K} {q : Query} (hg : g.IsBuilt)
    (hs : s.network = g.network ∨ s.network = (PackedGraph.pack g).network)
    (hw : s.weighting.IsNonneg s.network) (hfound : s.Finds Q M q r) :
    r.Connects g.edge? q.source q.target ∧ Obeys q.firstEdge r.edges.head? ∧
      Obeys q.lastEdge r.edges.getLast? ∧
      r.edges.IsChain fun e e' ↦ s.Permits e.edge e.adj e'.edge := by
  have hn : s.network.Shows g.edge? := hg.shows hs
  have hanswers : ∃ es weight t, r = Route.ofEdgesWithDuration q.source es weight t ∧
      s.Answers g.edge? q es := by
    cases hfound with
    | oneToOne h hfound => exact exists_answers_of_bestRoute hn hw hfound
    | oneToMany hfound hmem =>
      exact exists_answers_of_bestRoute hn hw (bestRoute_of_mem_zip hw.weight hfound hmem)
    | timed d t hfound => exact exists_answers_of_bestRouteAt hn hw hfound
    | bothEnds p hp hfound =>
      subst hp
      exact exists_answers_of_bothEnds hn hw hfound
  obtain ⟨es, weight, t, rfl, h⟩ := hanswers
  exact ⟨Route.connects_of_leads h.leads weight t, h.first, h.last, h.turns⟩

end Searches

def corner : RoadGraph Exact :=
  .ofEdges 4 [.twoWay 0 1 (.finite 10) (.finite 36), .twoWay 1 2 (.finite 10) (.finite 36),
    .twoWay 1 3 (.finite 10) (.finite 36), .twoWay 3 2 (.finite 10) (.finite 36)]

def cornerTurns : TurnCosts Exact := fun a _ b ↦ if a = 0 ∧ b = 1 then .infinity else 0

def cornerSettings : SearchSettings Exact where
  network := corner.network
  weighting := (Weighting.shortest .stored).withTurns cornerTurns
  mode := .edgeBased
  visitLimit := 50

theorem isNonneg_cornerSettings : cornerSettings.weighting.IsNonneg cornerSettings.network := by
  have hmeasured : corner.network.IsMeasured := isMeasured_ofEdges (by decide +kernel)
  have hshows : corner.network.Shows corner.edge? := (RoadGraph.isBuilt_ofEdges _ _).isWired.shows
  have hturns : ∀ a v b, 0 ≤ cornerTurns a v b := by
    intro a v b
    unfold cornerTurns
    split
    · rfl
    · exact IsOrdered.zero_le_zero
  exact Weighting.IsAssembled.isNonneg (Weighting.distance_nonneg hshows hmeasured)
    (.withTurns (.shortest .stored) hturns)

theorem connects_of_found_corner : ∃ r,
    cornerSettings.Finds (SortedQueue Exact) SparseMap ⟨0, 2, some 0, none⟩ r ∧
      r.nodes = [0, 1, 3, 2] ∧ r.Connects corner.edge? 0 2 ∧ Obeys (some 0) r.edges.head? ∧
      Obeys none r.edges.getLast? ∧
      r.edges.IsChain fun e e' ↦ cornerSettings.Permits e.edge e.adj e'.edge := by
  obtain ⟨r, hfound, hnodes⟩ : ∃ r, ((Method.mk cornerSettings .zero .never 0).bestRoute
      (SortedQueue Exact) SparseMap ⟨0, 2, some 0, none⟩).result = .ok (.found r) ∧
        r.nodes = [0, 1, 3, 2] := exists_found_of_route? (by decide +kernel)
  have h := Finds.bothEnds _ rfl hfound
  exact ⟨r, h, hnodes,
    connects_of_found (RoadGraph.isBuilt_ofEdges _ _) (.inl rfl) isNonneg_cornerSettings h⟩

end SearchSettings

end RoadRouting
