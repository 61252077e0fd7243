import RoadRouting.Proofs.Bidirectional.BestRoute

namespace RoadRouting

open Scalar (Exact)

namespace Bidirectional.Query

def IsPinned (q : Query) : Prop := q.firstEdge ≠ none ∨ q.lastEdge ≠ none

def around (u : NodeId) (edge : EdgeId) : Query := ⟨u, u, some edge, some edge⟩

end Bidirectional.Query

namespace Roads

open Bidirectional (Query Meeting Method Side State)

variable (Q M : Type) [PriorityQueue Q Exact] [LawfulQueue Q] [BestMap M]
variable (R : Roads) (w : Weighting Exact) (limit : Nat) (offset : Exact) (q : Query)

/-- The answer of a search without estimates is the best one, and the limit has no part in it. -/
def Solves : Prop :=
  ((R.method w limit .zero offset).bestRoute Q M q).IsBest (R.Journey q) limit ∧
    ((R.method w limit .zero offset).bestRoute Q M q).result ≠ .ok .visitLimitReached

variable {Q M R w limit offset q} {stored : EdgeId → Option (StoredEdge Exact)}

section Pinned

variable (hR : R.IsPricedBy w stored) (hmode : R.mode ≠ .nodeBased)
variable (hlimit : 2 * (2 * R.network.edgeCount + 1) ≤ limit)
variable (hroot : ∀ d, q.root d < R.network.nodeCount)
include hR hmode hlimit hroot

variable (Q M offset) in
theorem exists_finished (hp : q.IsPinned) : ∃ st : State Exact Q M Unit,
    (R.method w limit .zero offset).bestRoute Q M q =
      ⟨st.visited, (R.method w limit .zero offset).outcome q st⟩ ∧
    R.SearchesInOrder q (halfDifference .zero q.source q.target) st ∧ st.isFinished offset = true ∧
    st.visited ≤ limit := by
  have hh : R.IsConsistentBetween .zero q.source q.target := isConsistentBetween_zero hR.price
  have hq : R.mode = .nodeBased → ∀ d, q.pin d = none := fun h ↦ absurd h hmode
  obtain ⟨st, hst, hg, hend⟩ := search_isOk (Q := Q) (M := M) limit offset
    (fun d _ hu ↦ balanced_eq hh.toTarget_finite hh.toSource_finite d hu) hroot hR hq
    (hh.isConsistent hR.toIsLawful)
    fun h ↦ hp.elim (fun hp ↦ hp h.2.1) fun hp ↦ hp h.2.2
  have hvisited := (hg.visited_le hR.toIsLawful hmode).trans hlimit
  exact ⟨st, bestRoute_eq hroot hq hst, hg, hend.resolve_right (not_lt.2 hvisited), hvisited⟩

theorem solves_of_avoidsLoops (hoffset : 0 ≤ offset) (hp : q.IsPinned) (hloop : R.AvoidsLoops q) :
    R.Solves Q M w limit offset q := by
  have hh : R.IsConsistentBetween .zero q.source q.target := isConsistentBetween_zero hR.price
  obtain ⟨st, hst, hg, hfin, hvisited⟩ := exists_finished Q M offset hR hmode hlimit hroot hp
  have hbest := isBest_outcome limit .zero hR (fun h ↦ absurd h hmode)
    (hh.isConsistent hR.toIsLawful) hoffset (fun _ ↦ hloop)
    (fun _ g hj ↦ hp.elim (fun hp ↦ hp (journey_nil_iff.1 hj).1.2.1)
      fun hp ↦ hp (journey_nil_iff.1 hj).1.2.2) hg (.inl hfin)
  rw [Solves, hst]
  refine ⟨hbest, fun hresult ↦ ?_⟩
  rw [Answer.IsBest, hresult] at hbest
  exact absurd hbest (not_lt.2 hvisited)

end Pinned

section Loop

variable {u : NodeId} {e : EdgeView Exact} {π : NodeId → Rat} {st : State Exact Q M Unit}
variable (he : e ∈ R.network.edges u .forward) (hloop : e.isLoop = true)
include he hloop

theorem exists_loop_of_met (hR : R.IsLawful stored) (hmode : R.mode ≠ .nodeBased)
    (hg : R.SearchesInOrder (.around u e.edge) π st) {labels : LabelId × LabelId}
    (hl : st.meeting.labels = some labels) : ∃ e' v,
      e' ∈ st.backward.frontier.edgesTo labels.2 ∧ e' ∈ R.network.edges v .backward ∧
        e'.isLoop = true := by
  obtain ⟨a, b, la, lb, τ, m, hlabels, ha, hb, hcross, _, _⟩ := hg.meeting.met hl
  obtain rfl : labels = (a, b) := hlabels
  obtain ⟨g, htrail, _, hhead⟩ := (hg.side .backward).explored.trail_edgesTo hb
  obtain ⟨_, hfits⟩ := (trail_backward_iff hR).1 htrail
  have hne : (st.side .backward).frontier.edgesTo b ≠ [] := by
    intro hnil
    have hlb : lb.edge = none := by rw [← hhead, hnil, List.head?_nil]
    obtain ⟨x, hx, hxloop⟩ := hcross.shared hmode
    have hla : la.edge = some x := hx.resolve_right fun h ↦ by cases hlb.symm.trans h
    have hlast := hcross.seam.last hlb e.edge rfl
    rw [hla] at hlast
    obtain ⟨p, c, harc⟩ := (hg.side .forward).explored.isPlace ha x hla
    have hmem := (arc_terrain_iff.1 harc).1
    have hsame := hR.shows.isLoop_of_edge_eq hmem he (Option.some.inj hlast)
    rw [hxloop, hloop] at hsame
    cases hsame
  have hlast := hfits hne e.edge rfl
  cases he' : ((st.side .backward).frontier.edgesTo b).getLast? with
  | none => rw [he'] at hlast; cases hlast
  | some e' =>
    rw [he'] at hlast
    have hmem' := List.mem_of_getLast? he'
    obtain ⟨p, c, harc⟩ := htrail.exists_arc hmem'
    have hmem := (arc_terrain_iff.1 harc).1
    refine ⟨e', _, hmem', hmem, ?_⟩
    rw [hR.shows.isLoop_of_edge_eq hmem he (Option.some.inj hlast), hloop]

theorem not_solves_around (hR : R.IsPricedBy w stored) (hmode : R.mode ≠ .nodeBased)
    (hlimit : 2 * (2 * R.network.edgeCount + 1) ≤ limit) :
    ¬R.Solves Q M w limit offset (.around u e.edge) := by
  rintro ⟨hbest, hvisited⟩
  have hroot : ∀ d, (Query.around u e.edge).root d < R.network.nodeCount := fun d ↦ by
    cases d <;> exact hR.shows.lt_of_mem he
  obtain ⟨st, hst, hg, hfin, _⟩ := exists_finished (q := .around u e.edge) Q M offset hR hmode
    hlimit hroot (.inl nofun)
  have hfin' : st.isFinished (R.method w limit .zero offset).offset = true := hfin
  rw [hst, Answer.IsBest, Method.outcome, if_pos hfin'] at hbest
  cases hl : st.meeting.labels with
  | none =>
    -- nothing was found, but the loop alone is a way
    obtain ⟨c, _, hc⟩ := hR.price he
    rw [hl] at hbest
    refine hbest [e] c ⟨walk_singleton_iff.2 ⟨he, hc, ?_⟩, fun _ h ↦ h, fun _ h ↦ h⟩
    exact (hR.shows.base_eq he).symm.trans ((EdgeView.isLoop_iff e).1 hloop)
  | some labels =>
    -- the route shows the loop the wrong way round, as no node lists it
    obtain ⟨e', v, hmem', he', hloop'⟩ := exists_loop_of_met he hloop hR.toIsLawful hmode hg hl
    obtain ⟨_, _, _, _, _, m, _, _, _, _, hm, _⟩ := hg.meeting.met hl
    simp only [hl, hm, Exact.isFinite_finite, if_true] at hbest
    cases hr : (R.method w limit .zero offset).meetingRoute (.around u e.edge) st labels with
    | error _ => rw [hr] at hbest; exact hbest
    | ok r =>
      rw [hr] at hbest
      obtain ⟨g, hj, _⟩ := hbest
      have hedges : r.edges =
          st.forward.frontier.pathTo labels.1 ++ st.backward.frontier.pathFrom labels.2 :=
        Route.edges_of_ofEdges hr
      rw [hedges] at hj
      obtain ⟨_, hmem⟩ := hj.1.exists_mem (List.mem_append_right _ (List.mem_map_of_mem hmem'))
      exact hR.shows.reversed_notMem_of_isLoop he' hloop' hmem

end Loop

/-- Without loops all queries are answered that prescribe an edge, and with a loop one of them is
not. Those are answered in any case for which every walk with a loop is too expensive. -/
theorem solves_pinned (hn : R.network.IsBuilt) (hm : R.network.IsMeasured)
    (hw : Weighting.Charges R.mode R.price w R.turns) (hmode : R.mode ≠ .nodeBased)
    (hlimit : 2 * (2 * R.network.edgeCount + 1) ≤ limit) (hoffset : 0 ≤ offset) :
    (∀ q : Query, q.IsPinned → (∀ d, q.root d < R.network.nodeCount) → R.AvoidsLoops q →
      R.Solves Q M w limit offset q) ∧
    ((∀ q : Query, q.IsPinned → (∀ d, q.root d < R.network.nodeCount) →
      R.Solves Q M w limit offset q) ↔ R.network.IsLoopFree) := by
  obtain ⟨stored, hshows⟩ := hn.exists_shows
  have hR : R.IsPricedBy w stored := isPricedBy hshows hm hw
  have havoids : ∀ q : Query, q.IsPinned → (∀ d, q.root d < R.network.nodeCount) →
      R.AvoidsLoops q → R.Solves Q M w limit offset q := fun _ hp hroot hloop ↦
    solves_of_avoidsLoops hR hmode hlimit hroot hoffset hp hloop
  refine ⟨havoids, fun hsolves u e he ↦ ?_, fun hfree q hp hroot ↦ ?_⟩
  · rw [← Bool.not_eq_true]
    intro hloop
    refine not_solves_around he hloop hR hmode hlimit (hsolves _ (.inl nofun) fun d ↦ ?_)
    cases d <;> exact hshows.lt_of_mem he
  · exact havoids q hp hroot (avoidsLoops_of_isLoopFree hfree)

theorem solves_threeInARow : threeInARow.Solves (SortedQueue Exact) SparseMap
    ((Weighting.shortest .stored).withTurns costlyTurns) noVisitLimit 0
      ⟨0, 2, some 0, some 1⟩ := by
  have hn : threeInARow.network.IsBuilt := isBuilt_network_ofEdges _ _
  have hlimit : 2 * (2 * threeInARow.network.edgeCount + 1) ≤ noVisitLimit := by decide
  exact (solves_pinned hn isMeasured_threeInARow charges_threeInARow nofun hlimit
    (Exact.finite_le_finite.2 le_rfl)).2.2 isLoopFree_threeInARow _ (.inl nofun)
      fun d ↦ by cases d <;> decide

def loopRoad : Roads where
  network := (RoadGraph.ofEdges 1 [.twoWay 0 0 (.finite 10) (.finite 36)]).network
  mode := .edgeBased
  price e := e.distance
  turns _ _ _ := 0

/-- Around a loop there is a way, but the search finds none. -/
theorem unreachable_around_loopRoad :
    ((loopRoad.method (.shortest .stored) noVisitLimit .zero 0).bestRoute (SortedQueue Exact)
      SparseMap ⟨0, 0, some 0, none⟩).result = .ok .unreachable ∧
    loopRoad.Journey ⟨0, 0, some 0, none⟩
      [(StoredEdge.twoWay 0 0 (.finite 10) (.finite 36)).view 0 0] 10 :=
  ⟨rfl, walk_singleton_iff.2 ⟨List.mem_singleton.2 rfl, rfl, rfl⟩, fun _ h ↦ h, nofun⟩

end Roads

end RoadRouting
