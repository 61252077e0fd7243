import RoadRouting.Proofs.Roads.Pricing
import RoadRouting.Proofs.Search.Levels
import RoadRouting.Search.Unidirectional

namespace RoadRouting

open Scalar (Exact IsOrdered)

theorem forall₂_of_mapM {ε α β : Type} {f : α → Except ε β} {xs : List α} {ys : List β}
    (h : xs.mapM f = .ok ys) : List.Forall₂ (fun x y ↦ f x = .ok y) xs ys := by
  induction xs generalizing ys with
  | nil =>
    cases h
    exact .nil
  | cons x xs ih =>
    rw [List.mapM_cons] at h
    obtain ⟨y, hy, h⟩ := exists_ok_of_bind h
    obtain ⟨ys', hys', h⟩ := exists_ok_of_bind h
    cases h
    exact .cons hy (ih hys')

namespace Exploration

variable {K Q M σ : Type} [Scalar K] [PriorityQueue Q K] [BestMap M]
variable {x : Exploration K}

theorem run_watched {w : Watch K σ} {P : σ → Prop} (hnote : ∀ seen id l, P seen → P (w.note seen id l))
    (left visited : Nat) (f : Frontier K Q M) {seen : σ} (h : P seen) :
    P (x.run w left visited f seen).watched := by
  induction left generalizing visited f seen with
  | zero =>
    rw [run]
    split
    · exact h
    · exact h
  | succ left ih =>
    rw [run]
    split
    · exact h
    · dsimp only
      split
      · exact hnote _ _ _ h
      · split
        · exact ih _ _ (hnote _ _ _ h)
        · exact hnote _ _ _ h

end Exploration

namespace TargetsSeen

variable {K : Type} {seen : TargetsSeen} {target : NodeId} (id : LabelId) {l : Label K}

theorem note_eq (hn : l.node = target) (hr : target ∈ seen.remaining) :
    Watch.reachAll.note seen id l =
      ⟨seen.remaining.filter (· ≠ target), (target, id) :: seen.settled⟩ := by
  subst hn
  simp [Watch.reachAll, hr]

theorem mem_remaining_note (hn : l.node ≠ target) (hr : target ∈ seen.remaining) :
    target ∈ (Watch.reachAll.note seen id l).remaining := by
  simp only [Watch.reachAll]
  split
  · simp [hr, hn.symm]
  · exact hr

theorem lookup_note (hn : l.node ≠ target) :
    (Watch.reachAll.note seen id l).settled.lookup target = seen.settled.lookup target := by
  simp only [Watch.reachAll]
  split
  · rw [List.lookup_cons, beq_false_of_ne hn.symm]
  · rfl

theorem isDone_of_mem (hr : target ∈ seen.remaining) :
    (Watch.reachAll : Watch K TargetsSeen).isDone seen = false := by
  cases hrem : seen.remaining with
  | nil =>
    rw [hrem] at hr
    cases hr
  | cons u us => simp [Watch.reachAll, hrem]

theorem note_of_not_mem {goal : Option LabelId}
    (h : target ∉ seen.remaining ∧ seen.settled.lookup target = goal) :
    target ∉ (Watch.reachAll.note seen id l).remaining ∧
      (Watch.reachAll.note seen id l).settled.lookup target = goal := by
  by_cases hn : l.node = target
  · have hsame : Watch.reachAll.note seen id l = seen := by
      simp [Watch.reachAll, hn, h.1]
    rwa [hsame]
  · refine ⟨fun hr ↦ h.1 ?_, (lookup_note id hn).trans h.2⟩
    simp only [Watch.reachAll] at hr
    split at hr
    · exact (List.mem_filter.1 hr).1
    · exact hr

theorem lookup_run {Q M : Type} [Scalar K] [PriorityQueue Q K] [BestMap M] (x : Exploration K)
    (left visited : Nat) (f : Frontier K Q M) {goal : Option LabelId}
    (h : target ∉ seen.remaining) (hgoal : seen.settled.lookup target = goal) :
    (x.run .reachAll left visited f seen).watched.settled.lookup target = goal :=
  (Exploration.run_watched (w := .reachAll) (P := fun seen : TargetsSeen ↦
    target ∉ seen.remaining ∧ seen.settled.lookup target = goal)
    (fun _ id _ h ↦ note_of_not_mem id h) left visited f ⟨h, hgoal⟩).2

end TargetsSeen

namespace SearchSettings

variable {K Q M : Type} [Scalar K] [IsOrdered K] [PriorityQueue Q K] [LawfulQueue Q] [BestMap M]
variable {s : SearchSettings K} {source target : NodeId} {targets : List NodeId}

/-- How a search for one target ends compared to a search for more targets. -/
inductive Agrees (target : NodeId) (start : Label K)
    (keyOf : Option (EdgeView K) → Option StateKey) (ending : Ending)
    (all : Explored K Q M TargetsSeen) (one : Explored K Q M (Option LabelId)) : Prop
  | settled {goal : LabelId} {l : Label K} {k : K} : one.ending = .ok .done →
      one.watched = some goal → all.watched.settled.lookup target = some goal →
      one.frontier.IsLevelled start keyOf k → one.frontier.label? goal = some l →
      one.frontier.priority? goal = none → one.frontier.Keeps all.frontier →
      Agrees target start keyOf ending all one
  | missed : one.ending = .ok ending → one.watched = none →
      all.watched.settled.lookup target = none → Agrees target start keyOf ending all one

section Run

variable {f : Frontier K Q M} {start : Label K} {k : K} {seen : TargetsSeen} {ending : Ending}
variable (hs : s.HasCosts .forward)
include hs

omit [IsOrdered K] hs in
theorem agrees_of_pop_eq_none (left visited : Nat) {x : Exploration K} (hp : f.pop? = none)
    (hnone : seen.settled.lookup target = none)
    (hend : (x.run .reachAll left visited f seen).ending = .ok ending) :
    Agrees target start (s.keyOf .forward source) ending (x.run .reachAll left visited f seen)
      (x.run (Watch.reach target) left visited f none) := by
  rw [Exploration.run_of_pop_eq_none hp] at hend ⊢
  rw [Exploration.run_of_pop_eq_none hp]
  exact .missed hend rfl hnone

theorem agrees_of_settled (left visited : Nat) {id : LabelId} {next : Frontier K Q M} {l : Label K}
    (h : f.IsLevelled start (s.keyOf .forward source) k) (hp : f.pop? = some (id, next))
    (hl : next.label? id = some l) (hn : l.node = target) (hr : target ∈ seen.remaining)
    (hend : ((s.exploration .forward fun _ ↦ 0).run .reachAll (left + 1) visited f seen).ending =
      .ok ending) :
    Agrees target start (s.keyOf .forward source) ending
      ((s.exploration .forward fun _ ↦ 0).run .reachAll (left + 1) visited f seen)
      ((s.exploration .forward fun _ ↦ 0).run (Watch.reach target) (left + 1) visited f none) := by
  obtain ⟨l', hl', hq, hnext, _, hstep⟩ := (goesByCost hs source).advance_isLevelled h hp
  cases hl'.symm.trans hl
  have hone : (Watch.reach target).note none id l = some id := if_pos hn
  rw [Exploration.run_of_done (w := Watch.reach target) hp hl (by rw [hone]; rfl), hone]
  have hseen := TargetsSeen.note_eq id hn hr
  cases hd : Watch.reachAll.isDone (Watch.reachAll.note seen id l) with
  | true =>
    rw [Exploration.run_of_done hp hl hd, hseen]
    exact .settled rfl rfl List.lookup_cons_self hnext hl hq (Frontier.Keeps.refl next)
  | false =>
    cases hx : (s.exploration .forward fun _ ↦ 0).expand id l next
        (s.network.edges l.node .forward) with
    | error error => rw [Exploration.run_of_error hp hl hd hx] at hend; cases hend
    | ok f' =>
      obtain ⟨hf', hkeeps⟩ := hstep hx
      rw [Exploration.run_of_expand hp hl hd hx]
      refine .settled rfl rfl ?_ hnext hl hq (hkeeps.trans ((goesByCost hs source).keeps_run _ _ _ _ hf'))
      rw [hseen]
      exact TargetsSeen.lookup_run _ _ _ _ (by simp) List.lookup_cons_self

theorem run_agrees (left visited : Nat) (h : f.IsLevelled start (s.keyOf .forward source) k)
    (hr : target ∈ seen.remaining) (hnone : seen.settled.lookup target = none)
    (hend : ((s.exploration .forward fun _ ↦ 0).run .reachAll left visited f seen).ending =
      .ok ending) :
    Agrees target start (s.keyOf .forward source) ending
      ((s.exploration .forward fun _ ↦ 0).run .reachAll left visited f seen)
      ((s.exploration .forward fun _ ↦ 0).run (Watch.reach target) left visited f none) := by
  induction left generalizing visited f k seen with
  | zero =>
    cases hp : f.pop? with
    | none => exact agrees_of_pop_eq_none 0 visited hp hnone hend
    | some popped =>
      rw [Exploration.run_of_limit hp] at hend ⊢
      rw [Exploration.run_of_limit hp]
      exact .missed hend rfl hnone
  | succ left ih =>
    cases hp : f.pop? with
    | none => exact agrees_of_pop_eq_none (left + 1) visited hp hnone hend
    | some popped =>
      obtain ⟨id, next⟩ := popped
      obtain ⟨l, hl, _, _, _, hstep⟩ := (goesByCost hs source).advance_isLevelled h hp
      by_cases hn : l.node = target
      · exact agrees_of_settled hs left visited h hp hl hn hr hend
      · have hone : (Watch.reach target).note none id l = none := if_neg hn
        have hr' := TargetsSeen.mem_remaining_note id hn hr
        have hd := TargetsSeen.isDone_of_mem (K := K) hr'
        have hd' : (Watch.reach (K := K) target).isDone ((Watch.reach target).note none id l) =
            false := by
          rw [hone]
          rfl
        cases hx : (s.exploration .forward fun _ ↦ 0).expand id l next
            (s.network.edges l.node .forward) with
        | error error => rw [Exploration.run_of_error hp hl hd hx] at hend; cases hend
        | ok f' =>
          rw [Exploration.run_of_expand hp hl hd hx] at hend ⊢
          rw [Exploration.run_of_expand hp hl hd' hx, hone]
          exact ih _ (hstep hx).1 hr' ((TargetsSeen.lookup_note id hn).trans hnone) hend

end Run

omit [IsOrdered K] [LawfulQueue Q] in
theorem exists_of_bestRoutes {outcomes : List (Outcome K)}
    (h : (s.bestRoutes Q M source targets).result = .ok outcomes) :
    ∃ ending, (s.exploreAll Q M source targets).ending = .ok ending ∧
      (∀ u ∈ source :: targets, u < s.network.nodeCount) ∧
      List.Forall₂ (fun target outcome ↦
        s.outcomeFor source (s.exploreAll Q M source targets) ending target = .ok outcome)
        targets outcomes := by
  rw [bestRoutes] at h
  cases hc : s.checkNodes (source :: targets) with
  | error _ => rw [hc] at h; cases h
  | ok _ =>
    rw [hc] at h
    obtain ⟨ending, hend, h⟩ := exists_ok_of_bind h
    exact ⟨ending, hend, checkNodes_eq_ok_iff.1 hc, forall₂_of_mapM h⟩

omit [IsOrdered K] [LawfulQueue Q] in
theorem length_of_bestRoutes {outcomes : List (Outcome K)}
    (h : (s.bestRoutes Q M source targets).result = .ok outcomes) :
    outcomes.length = targets.length := by
  obtain ⟨_, _, _, hall⟩ := exists_of_bestRoutes h
  exact hall.length_eq.symm

omit [IsOrdered K] [LawfulQueue Q] in
theorem exists_goal_of_mem_zip {outcomes : List (Outcome K)} {r : Route K}
    (h : (s.bestRoutes Q M source targets).result = .ok outcomes)
    (hmem : (target, .found r) ∈ targets.zip outcomes) :
    ∃ goal, (s.exploreAll Q M source targets).watched.settled.lookup target = some goal ∧
      s.routeTo source (s.exploreAll Q M source targets).frontier goal = .ok r := by
  obtain ⟨_, _, _, hall⟩ := exists_of_bestRoutes h
  have houtcome := (List.forall₂_iff_zip.1 hall).2 hmem
  rw [outcomeFor] at houtcome
  split at houtcome
  · next goal hgoal =>
    obtain ⟨_, hroute, hr⟩ := exists_ok_of_map_eq_ok houtcome
    cases hr
    exact ⟨goal, hgoal, hroute⟩
  · split at houtcome
    · cases houtcome
    · cases houtcome

variable (hs : s.HasCosts .forward)
include hs

variable (Q M) in
theorem outcomeFor_eq_bestRoute (hsource : source < s.network.nodeCount)
    (htarget : target < s.network.nodeCount) (ht : target ∈ targets) {ending : Ending}
    (hend : (s.exploreAll Q M source targets).ending = .ok ending) :
    s.outcomeFor source (s.exploreAll Q M source targets) ending target =
      (s.bestRoute Q M .zero source target).result := by
  have hagrees : Agrees target (.root source 0) (s.keyOf .forward source) ending
      (s.exploreAll Q M source targets) (s.exploreToward Q M .zero source target) := by
    have hd : Watch.reachAll.isDone ⟨targets, []⟩ = false := TargetsSeen.isDone_of_mem (K := K) ht
    rw [exploreAll, Exploration.explore, hd] at hend ⊢
    have hstart : (Frontier.empty.addRoot (.root source 0) (s.keyOf .forward source none) :
        Frontier K Q M).IsLevelled (.root source 0) (s.keyOf .forward source) 0 :=
      .addRoot _ rfl rfl IsOrdered.zero_le_zero IsOrdered.zero_le_zero
    exact run_agrees hs _ _ hstart ht rfl hend
  have hcheck : s.checkNodes [source, target] = .ok () := by
    rw [checkNodes_eq_ok_iff]
    simp [hsource, htarget]
  rw [outcomeFor, bestRoute, hcheck]
  cases hagrees with
  | @settled goal l k hone hseen hlookup hlevelled hl hq hkeeps =>
    have hroute : s.routeTo source (s.exploreAll Q M source targets).frontier goal =
        s.routeTo source (s.exploreToward Q M .zero source target).frontier goal := by
      rw [routeTo, routeTo, Frontier.pathTo, Frontier.pathTo, hlevelled.edgesTo_eq hl hq hkeeps,
        Frontier.label_eq hl, Frontier.label_eq (hkeeps goal l hl hq).1]
    simp only [hlookup, hone, hseen, hroute]
    change _ = s.routeTo source _ goal >>= _
    cases s.routeTo source (s.exploreToward Q M .zero source target).frontier goal with
    | error _ => rfl
    | ok _ => rfl
  | missed hone hseen hlookup =>
    simp only [hlookup, hone, hseen]
    cases ending with
    | done => rfl
    | exhausted => rfl
    | limited => rfl

theorem bestRoute_of_mem_zip {outcomes : List (Outcome K)} {outcome : Outcome K}
    (h : (s.bestRoutes Q M source targets).result = .ok outcomes)
    (hmem : (target, outcome) ∈ targets.zip outcomes) :
    (s.bestRoute Q M .zero source target).result = .ok outcome := by
  obtain ⟨ending, hend, hnodes, hall⟩ := exists_of_bestRoutes h
  have ht := (List.of_mem_zip hmem).1
  rw [← outcomeFor_eq_bestRoute Q M hs (hnodes source List.mem_cons_self)
    (hnodes target (List.mem_cons_of_mem _ ht)) ht hend]
  exact (List.forall₂_iff_zip.1 hall).2 hmem

/-- A search for many targets answers each of them as a search for it alone does. -/
theorem forall₂_bestRoutes {outcomes : List (Outcome K)}
    (h : (s.bestRoutes Q M source targets).result = .ok outcomes) :
    List.Forall₂ (fun target outcome ↦
      (s.bestRoute Q M .zero source target).result = .ok outcome) targets outcomes := by
  exact List.forall₂_iff_zip.2 ⟨(length_of_bestRoutes h).symm, bestRoute_of_mem_zip hs h⟩

end SearchSettings

namespace Roads

def wayRound : Roads where
  network := (RoadGraph.ofEdges 4 [.twoWay 0 1 (.finite 10) (.finite 36),
    .twoWay 0 2 (.finite 30) (.finite 36), .twoWay 1 2 (.finite 10) (.finite 36)]).network
  mode := .edgeBased
  price e := e.distance
  turns _ _ _ := 0

theorem isMeasured_wayRound : wayRound.network.IsMeasured := isMeasured_ofEdges (by decide +kernel)

theorem forall₂_bestRoutes_wayRound : ∃ outcomes,
    ((wayRound.settings (.shortest .stored) 20).bestRoutes (SortedQueue Exact) SparseMap 0
      [2, 1, 2, 0, 3]).result = .ok outcomes ∧
    outcomes.map Outcome.weight? =
      [some (.finite 20), some (.finite 10), some (.finite 20), some 0, none] ∧
    List.Forall₂ (fun target outcome ↦
      ((wayRound.settings (.shortest .stored) 20).bestRoute (SortedQueue Exact) SparseMap .zero 0
        target).result = .ok outcome) [2, 1, 2, 0, 3] outcomes := by
  have hn : wayRound.network.IsBuilt := isBuilt_network_ofEdges _ _
  obtain ⟨stored, hshows⟩ := hn.exists_shows
  have hR : wayRound.IsPricedBy (.shortest .stored) stored :=
    isPricedBy hshows isMeasured_wayRound (.plain (.shortest fun _ _ ↦ rfl))
  obtain ⟨outcomes, hfound, hweights⟩ : ∃ outcomes,
      ((wayRound.settings (.shortest .stored) 20).bestRoutes (SortedQueue Exact) SparseMap 0
        [2, 1, 2, 0, 3]).result = .ok outcomes ∧
      outcomes.map Outcome.weight? =
        [some (.finite 20), some (.finite 10), some (.finite 20), some 0, none] :=
    exists_ok_of_map (by decide +kernel)
  exact ⟨outcomes, hfound, hweights,
    SearchSettings.forall₂_bestRoutes (hasCosts_settings hR 20 .forward) hfound⟩

end Roads

end RoadRouting
