import RoadRouting.Proofs.Routes.Faults
import RoadRouting.Proofs.Routes.Found

namespace RoadRouting

open Scalar (Exact)
open Bidirectional (Method Query State)

/-- Regard to the edge traversed before only excludes more. -/
def EdgeFilter.IsRefined {K : Type} (f : EdgeFilter K) : Prop :=
  ∀ before e, f.acceptsAfter before e = true → f.accepts e = true

structure Exploration.Respects {K : Type} (x : Exploration K) (s : SearchSettings K)
    (d : Direction) : Prop where
  steps : x.MakesSteps
  edges : ∀ u, x.edges u = s.network.edges u d
  allows : ∀ {before e}, x.allows before e = true → s.allows before e = true

namespace SearchSettings

variable {K : Type} (s : SearchSettings K) (d : Direction)

theorem respects_exploration [Scalar K] (estimate : NodeId → K) :
    (s.exploration d estimate).Respects s d where
  steps := s.makesSteps_exploration d estimate
  edges _ := rfl
  allows := id

theorem respects_timedExploration : (s.timedExploration d).Respects s d where
  steps := s.makesSteps_timedExploration d
  edges _ := rfl
  allows := id

/-- An edge that a search in the direction may explore as far as the filter is concerned. -/
structure Passes (e : EdgeView K) : Prop where
  listed : ∃ u, e ∈ s.network.edges u d
  accepted : s.filter.accepts e = true

end SearchSettings

theorem Bidirectional.Method.respects_exploration {K σ : Type} [Scalar K] (p : Method K σ)
    (q : Query) (d : Direction) (pin : Option EdgeId) :
    (p.exploration q d pin).Respects p.settings d where
  steps := p.makesSteps_exploration q d pin
  edges _ := rfl
  allows h := (Bool.and_eq_true_iff.1 h).1

namespace Frontier

variable {K Q M : Type} [Scalar K] [PriorityQueue Q K] [BestMap M]
variable {f next f' : Frontier K Q M} {s : SearchSettings K} {d : Direction} {x : Exploration K}
variable {id : LabelId}

omit [Scalar K] [PriorityQueue Q K] [BestMap M] in
def IsFiltered (f : Frontier K Q M) (s : SearchSettings K) (d : Direction) : Prop :=
  ∀ id l e, f.label? id = some l → l.edge = some e → s.Passes d e

namespace IsFiltered

omit [Scalar K] in
protected theorem addRoot {start : Label K} (h : start.edge = none) (key : Option StateKey) :
    ((empty : Frontier K Q M).addRoot start key).IsFiltered s d := by
  intro id l e hl he
  rw [label?_addRoot] at hl
  split at hl
  · cases hl
    cases h.symm.trans he
  · cases hl

omit [Scalar K] [BestMap M] in
protected theorem pop (h : f.IsFiltered s d) (hp : f.pop? = some (id, next)) :
    next.IsFiltered s d := by
  intro j l e hl
  rw [label?_of_pop? hp] at hl
  exact h j l e hl

protected theorem store (h : f.IsFiltered s d) (hf : s.filter.IsRefined) (hx : x.Respects s d)
    {l made : Label K} {e : EdgeView K} {w : K} (he : e ∈ x.edges l.node)
    (hs : x.Stores id l f e made w) : (f.store (x.key e) made).1.IsFiltered s d := by
  intro j lj e' hlj he'
  rcases label?_store_cases hlj with rfl | hlj
  · cases (hx.steps hs.extend).1.symm.trans he'
    exact ⟨⟨_, hx.edges l.node ▸ he⟩, hf _ _ (Bool.and_eq_true_iff.1 (hx.allows hs.allowed)).2⟩
  · exact h j lj e' hlj he'

theorem expand (h : f.IsFiltered s d) (hf : s.filter.IsRefined) (hx : x.Respects s d)
    {l : Label K} (hexpand : x.expand id l f (x.edges l.node) = .ok f') : f'.IsFiltered s d :=
  Exploration.expand_preserves (P := fun f ↦ f.IsFiltered s d)
    (fun he h hs ↦ h.store hf hx he hs) h hexpand

theorem explore {σ : Type} (hf : s.filter.IsRefined) (hx : x.Respects s d) (w : Watch K σ)
    (limit : Nat) {root : Label K} (hroot : root.edge = none) (key : Option StateKey) (watched : σ) :
    (x.explore w limit root key watched : Explored K Q M σ).frontier.IsFiltered s d :=
  Exploration.explore_preserves (I := fun f ↦ f.IsFiltered s d)
    (fun h hp ↦ ⟨h.pop hp, fun hexpand ↦ (h.pop hp).expand hf hx hexpand⟩) w limit
    (.addRoot hroot key) watched

omit [PriorityQueue Q K] [BestMap M] in
theorem of_mem_edgesTo (h : f.IsFiltered s d) {e : EdgeView K} (he : e ∈ f.edgesTo id) :
    s.Passes d e := by
  obtain ⟨j, l, hl, hedge⟩ := exists_of_mem_edgesTo he
  exact h j l e hl hedge

omit [PriorityQueue Q K] [BestMap M] in
theorem of_mem_pathTo (h : f.IsFiltered s d) {e : EdgeView K} (he : e ∈ f.pathTo id) :
    s.Passes d e :=
  h.of_mem_edgesTo (List.mem_reverse.1 he)

omit [PriorityQueue Q K] [BestMap M] in
theorem of_mem_pathFrom (h : f.IsFiltered s d) {e : EdgeView K} (he : e ∈ f.pathFrom id) :
    s.Passes d e.reversed := by
  obtain ⟨e', he', rfl⟩ := List.mem_map.1 he
  rw [EdgeView.reversed_reversed]
  exact h.of_mem_edgesTo he'

end IsFiltered

end Frontier

namespace Bidirectional.Method

variable {K Q M σ : Type} [Scalar K] [PriorityQueue Q K] [BestMap M]
variable {p : Method K σ} {q : Query} {d : Direction}

def BothFiltered (s : SearchSettings K) (d : Direction) (own other : Frontier K Q M)
    (_ : Meeting K) : Prop :=
  own.IsFiltered s d ∧ other.IsFiltered s d.opposite

variable (hf : p.settings.filter.IsRefined)
include hf

theorem isFiltered_of_advances {pin : Option EdgeId} {own other own' : Frontier K Q M}
    {mt mt' : Meeting K} (h : own.IsFiltered p.settings d)
    (ha : p.Advances (p.exploration q d pin) d own other mt own' mt') :
    own'.IsFiltered p.settings d := by
  cases ha with
  | exhausted _ => exact h
  | pruned hp _ => exact h.pop hp
  | expanded hp hexpand =>
    exact expand_preserves (P := fun f _ ↦ f.IsFiltered p.settings d)
      (fun he h hs _ ↦ h.store hf (p.respects_exploration q d pin) he hs) (h.pop hp) hexpand

theorem satisfies_bothFiltered {pin : Option EdgeId} {st st' : State K Q M σ}
    (h : st.Satisfies (BothFiltered p.settings)) (ha : p.advance q d pin st = (st', .ok ())) :
    st'.Satisfies (BothFiltered p.settings) := by
  refine satisfies_of_advance (fun {d _ _ _} h ↦ ⟨h.2, ?_⟩)
    (fun h hadvances ↦ ⟨isFiltered_of_advances hf h.1 hadvances, h.2⟩) h ha
  cases d with
  | forward => exact h.1
  | backward => exact h.1

omit hf in
theorem satisfies_bothFiltered_start :
    (p.start q : State K Q M σ).Satisfies (BothFiltered p.settings) := by
  intro d
  cases d with
  | forward => exact ⟨.addRoot rfl _, .addRoot rfl _⟩
  | backward => exact ⟨.addRoot rfl _, .addRoot rfl _⟩

end Bidirectional.Method

namespace SearchSettings

section Searches

variable {K Q M : Type} [Scalar K] [PriorityQueue Q K] [BestMap M]
variable {s : SearchSettings K} {q : Query} {r : Route K}

/-- What a search has found that begins at the source only: with an estimate, for many targets, or
for a departure. -/
def FindsForward (Q M : Type) [PriorityQueue Q K] [BestMap M] (s : SearchSettings K)
    (source target : NodeId) (r : Route K) : Prop :=
  (∃ h, (s.bestRoute Q M h source target).result = .ok (.found r)) ∨
    (∃ targets outcomes, (s.bestRoutes Q M source targets).result = .ok outcomes ∧
      (target, .found r) ∈ targets.zip outcomes) ∨
    ∃ t, (s.bestRouteAt Q M .forward source target t).result = .ok (.found r)

variable (hf : s.filter.IsRefined)
include hf

theorem passes_of_bestRoute {h : Estimate K} {source target : NodeId}
    (hfound : (s.bestRoute Q M h source target).result = .ok (.found r)) :
    ∀ e ∈ r.edges, s.Passes .forward e := by
  obtain ⟨goal, _, _, hroute⟩ := exists_goal_of_bestRoute hfound
  obtain ⟨t, rfl⟩ := Route.exists_duration hroute
  intro e he
  exact (Frontier.IsFiltered.explore hf (s.respects_exploration .forward _) _ _ rfl _
    _).of_mem_pathTo he

theorem passes_of_bestRoutes {source target : NodeId} {targets : List NodeId}
    {outcomes : List (Outcome K)} (hresult : (s.bestRoutes Q M source targets).result = .ok outcomes)
    (hmem : (target, .found r) ∈ targets.zip outcomes) :
    ∀ e ∈ r.edges, s.Passes .forward e := by
  obtain ⟨goal, _, hroute⟩ := exists_goal_of_mem_zip hresult hmem
  obtain ⟨t, rfl⟩ := Route.exists_duration hroute
  intro e he
  exact (Frontier.IsFiltered.explore hf (s.respects_exploration .forward _) _ _ rfl _
    _).of_mem_pathTo he

theorem passes_of_bestRouteAt {d : Direction} {source target : NodeId} {t : Instant}
    (hfound : (s.bestRouteAt Q M d source target t).result = .ok (.found r)) :
    ∀ e ∈ r.edges, match d with
      | .forward => s.Passes .forward e
      | .backward => s.Passes .backward e.reversed := by
  obtain ⟨goal, _, _, rfl⟩ := exists_goal_of_bestRouteAt hfound
  have hfiltered : (s.exploreFrom Q M d (ends source target d).1 (ends source target d).2
      t).frontier.IsFiltered s d := .explore hf (s.respects_timedExploration d) _ _ rfl _ _
  intro e he
  cases d with
  | forward => exact hfiltered.of_mem_pathTo he
  | backward => exact hfiltered.of_mem_pathFrom he

omit hf in
theorem passes_of_bothEnds {σ : Type} {p : Method K σ} (hf : p.settings.filter.IsRefined)
    (hfound : (p.bestRoute Q M q).result = .ok (.found r)) :
    ∀ e ∈ r.edges, p.settings.Passes .forward e ∨ p.settings.Passes .backward e.reversed := by
  rcases Method.exists_of_bestRoute (I := fun st ↦ st.Satisfies (Method.BothFiltered p.settings))
    (fun h ha ↦ Method.satisfies_bothFiltered hf h ha)
    (fun _ hforward hbackward ↦ Method.satisfies_bothFiltered hf
      (Method.satisfies_bothFiltered hf Method.satisfies_bothFiltered_start hforward) hbackward)
    hfound with ⟨_, hroute⟩ | ⟨st, labels, hst, _, hroute⟩
  · obtain ⟨t, rfl⟩ := Route.exists_duration hroute
    nofun
  · obtain ⟨t, rfl⟩ := Route.exists_duration hroute
    obtain ⟨hforward, hbackward⟩ := hst .forward
    intro e he
    rcases List.mem_append.1 he with he | he
    · exact .inl (hforward.of_mem_pathTo he)
    · exact .inr (hbackward.of_mem_pathFrom he)

/-- No search from the source finds a route with an edge that the filter rejects, and no search at
all does if the filter lets an edge through that it lets through as seen from the other end. -/
theorem filter_accepts_of_found :
    (∀ {source target r}, s.FindsForward Q M source target r →
      ∀ e ∈ r.edges, s.filter.accepts e = true) ∧
    ((∀ {u e}, e ∈ s.network.edges u .backward → s.filter.accepts e = true →
        s.filter.accepts e.reversed = true) →
      ∀ {q r}, s.Finds Q M q r → ∀ e ∈ r.edges, s.filter.accepts e = true) := by
  refine ⟨fun {source target r} hfound e he ↦ ?_, fun hsides {q r} hfound e he ↦ ?_⟩
  · rcases hfound with ⟨h, hfound⟩ | ⟨targets, outcomes, hresult, hmem⟩ | ⟨t, hfound⟩
    · exact (passes_of_bestRoute hf hfound e he).accepted
    · exact (passes_of_bestRoutes hf hresult hmem e he).accepted
    · exact (passes_of_bestRouteAt hf hfound e he).accepted
  · have hback : s.Passes .backward e.reversed → s.filter.accepts e = true := by
      rintro ⟨⟨u, hu⟩, haccepted⟩
      have hpasses := hsides hu haccepted
      rwa [EdgeView.reversed_reversed] at hpasses
    cases hfound with
    | oneToOne h hfound => exact (passes_of_bestRoute hf hfound e he).accepted
    | oneToMany hresult hmem => exact (passes_of_bestRoutes hf hresult hmem e he).accepted
    | timed d t hfound =>
      have hpasses := passes_of_bestRouteAt hf hfound e he
      cases d with
      | forward => exact hpasses.accepted
      | backward => exact hback hpasses
    | bothEnds p hp hfound =>
      subst hp
      exact (passes_of_bothEnds hf hfound e he).elim (·.accepted) hback

end Searches

def filteredRing (accepts : EdgeView Exact → Bool) : SearchSettings Exact where
  network := Roads.wayRound.network
  weighting := .shortest .stored
  mode := .nodeBased
  filter := { accepts }
  visitLimit := 20

def closedOneWay (e : EdgeView Exact) : Bool := e.base ≠ 0 || e.adj ≠ 1

theorem filter_accepts_of_found_filteredRing :
    (∃ r, (filteredRing closedOneWay).FindsForward (SortedQueue Exact) SparseMap 0 1 r ∧
        r.nodes = [0, 2, 1] ∧ ∀ e ∈ r.edges, closedOneWay e = true) ∧
      ∃ r, (filteredRing fun e ↦ e.edge ≠ 0).Finds (SortedQueue Exact) SparseMap
        ⟨0, 1, none, none⟩ r ∧ r.nodes = [0, 2, 1] ∧ ∀ e ∈ r.edges, decide (e.edge ≠ 0) = true := by
  constructor
  · obtain ⟨r, hr, hnodes⟩ : ∃ r, ((filteredRing closedOneWay).bestRoute (SortedQueue Exact)
        SparseMap .zero 0 1).result = .ok (.found r) ∧ r.nodes = [0, 2, 1] :=
      exists_found_of_route? (by decide +kernel)
    have hfound : (filteredRing closedOneWay).FindsForward (SortedQueue Exact) SparseMap 0 1 r :=
      .inl ⟨.zero, hr⟩
    exact ⟨r, hfound, hnodes, (filter_accepts_of_found fun _ _ ↦ id).1 hfound⟩
  · obtain ⟨r, hr, hnodes⟩ : ∃ r, ((Method.mk (filteredRing fun e ↦ e.edge ≠ 0) .zero .never
        0).bestRoute (SortedQueue Exact) SparseMap ⟨0, 1, none, none⟩).result = .ok (.found r) ∧
          r.nodes = [0, 2, 1] :=
      exists_found_of_route? (by decide +kernel)
    have hfound := Finds.bothEnds _ rfl hr
    exact ⟨r, hfound, hnodes, (filter_accepts_of_found fun _ _ ↦ id).2 (fun _ h ↦ h) hfound⟩

/-- Searches that begin at the target see the road from the side that is open, and take it. -/
theorem filter_rejects_of_found_filteredRing :
    (∃ r, ((Method.mk (filteredRing closedOneWay) .zero .never 0).bestRoute (SortedQueue Exact)
        SparseMap ⟨0, 1, none, none⟩).result = .ok (.found r) ∧
      ∃ e ∈ r.edges, closedOneWay e = false) ∧
    ∃ r, ((filteredRing closedOneWay).bestRouteAt (SortedQueue Exact) SparseMap .backward 0 1
        0).result = .ok (.found r) ∧ ∃ e ∈ r.edges, closedOneWay e = false := by
  constructor
  · obtain ⟨r, hr, hrejects⟩ : ∃ r, ((Method.mk (filteredRing closedOneWay) .zero .never
        0).bestRoute (SortedQueue Exact) SparseMap ⟨0, 1, none, none⟩).result = .ok (.found r) ∧
          r.edges.all closedOneWay = false :=
      exists_found_of_route? (by decide +kernel)
    exact ⟨r, hr, by simpa using hrejects⟩
  · obtain ⟨r, hr, hrejects⟩ : ∃ r, ((filteredRing closedOneWay).bestRouteAt (SortedQueue Exact)
        SparseMap .backward 0 1 0).result = .ok (.found r) ∧ r.edges.all closedOneWay = false :=
      exists_found_of_route? (by decide +kernel)
    exact ⟨r, hr, by simpa using hrejects⟩

end SearchSettings

end RoadRouting
