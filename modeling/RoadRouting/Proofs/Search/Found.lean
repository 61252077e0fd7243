import RoadRouting.Proofs.Search.Steps
import RoadRouting.Search.Unidirectional

namespace RoadRouting.SearchSettings

variable {K Q M : Type} [Scalar K] [PriorityQueue Q K] [BestMap M]
variable {s : SearchSettings K} {source target : NodeId} {r : Route K} {I : Frontier K Q M → Prop}

omit [Scalar K] [PriorityQueue Q K] [BestMap M] in
theorem exists_goal_of_found (explored : Explored K Q M (Option LabelId))
    (route : LabelId → Except (QueryError K) (Route K))
    (hfound : (do
      match ← explored.ending, explored.watched with
      | .limited, _ => return .visitLimitReached
      | .done, some goal => return .found (← route goal)
      | _, _ => return .unreachable : Except (QueryError K) (Outcome K)) = .ok (.found r)) :
    ∃ goal, explored.ending = .ok .done ∧ explored.watched = some goal ∧ route goal = .ok r := by
  obtain ⟨ending, hend, hfound⟩ := exists_ok_of_bind hfound
  cases hseen : explored.watched with
  | none =>
    rw [hseen] at hfound
    cases ending <;> cases hfound
  | some goal =>
    rw [hseen] at hfound
    cases ending with
    | limited => cases hfound
    | exhausted => cases hfound
    | done =>
      obtain ⟨r', hr', hfound⟩ := exists_ok_of_bind hfound
      cases hfound
      exact ⟨goal, hend, rfl, hr'⟩

section Timeless

variable {h : Estimate K}

theorem lt_of_bestRoute (hfound : (s.bestRoute Q M h source target).result = .ok (.found r)) :
    source < s.network.nodeCount ∧ target < s.network.nodeCount := by
  rw [bestRoute] at hfound
  cases hc : s.checkNodes [source, target] with
  | error _ => rw [hc] at hfound; cases hfound
  | ok _ => simpa using checkNodes_eq_ok_iff.1 hc

theorem exists_goal_of_bestRoute
    (hfound : (s.bestRoute Q M h source target).result = .ok (.found r)) :
    ∃ goal, (s.exploreToward Q M h source target).ending = .ok .done ∧
      (s.exploreToward Q M h source target).watched = some goal ∧
      s.routeTo source (s.exploreToward Q M h source target).frontier goal = .ok r := by
  rw [bestRoute] at hfound
  cases hc : s.checkNodes [source, target] with
  | error _ => rw [hc] at hfound; cases hfound
  | ok _ =>
    rw [hc] at hfound
    exact exists_goal_of_found _ _ hfound

theorem exists_of_bestRoute
    (hstart : I (Frontier.empty.addRoot (.root source (h.toward (some target) source))
      (s.mode.rootKey source)))
    (hlabel : ∀ {id f next}, I f → f.pop? = some (id, next) → ∃ l, next.label? id = some l)
    (hstep : ∀ {id f next f' l}, I f → f.pop? = some (id, next) → next.label? id = some l →
      (s.exploration .forward (h.toward (some target))).expand id l next
        (s.network.edges l.node .forward) = .ok f' → I f')
    (hfound : (s.bestRoute Q M h source target).result = .ok (.found r)) :
    ∃ f next goal l, I f ∧ f.pop? = some (goal, next) ∧ f.label? goal = some l ∧
      l.node = target ∧ s.routeTo source next goal = .ok r := by
  obtain ⟨goal, hend, hseen, hr⟩ := exists_goal_of_bestRoute hfound
  obtain ⟨f, l, hf, hp, hl, hn⟩ := Exploration.exists_of_run_reach hlabel hstep hstart hend hseen
  exact ⟨f, _, goal, l, hf, hp, hl, hn, hr⟩

end Timeless

section Timed

variable {d : Direction} {t : Instant}

def ends (source target : NodeId) : Direction → NodeId × NodeId
  | .forward => (source, target)
  | .backward => (target, source)

section Checked

variable (hc : s.checkNodes [source, target] = .ok ())
include hc

theorem result_of_done {goal : LabelId}
    (hend : (s.exploreFrom Q M d (ends source target d).1 (ends source target d).2 t).ending =
      .ok .done)
    (hseen : (s.exploreFrom Q M d (ends source target d).1 (ends source target d).2 t).watched =
      some goal) :
    (s.bestRouteAt Q M d source target t).result = .ok (.found (timedRouteTo source d t
      (s.exploreFrom Q M d (ends source target d).1 (ends source target d).2 t).frontier goal)) := by
  cases d with
  | forward =>
    rw [ends] at hend hseen
    simp only [bestRouteAt, hc, hend, hseen]
    rfl
  | backward =>
    rw [ends] at hend hseen
    simp only [bestRouteAt, hc, hend, hseen]
    rfl

theorem result_of_exhausted
    (hend : (s.exploreFrom Q M d (ends source target d).1 (ends source target d).2 t).ending =
      .ok .exhausted) : (s.bestRouteAt Q M d source target t).result = .ok .unreachable := by
  cases d with
  | forward =>
    rw [ends] at hend
    simp only [bestRouteAt, hc, hend]
    rfl
  | backward =>
    rw [ends] at hend
    simp only [bestRouteAt, hc, hend]
    rfl

end Checked

theorem exists_goal_of_bestRouteAt
    (hfound : (s.bestRouteAt Q M d source target t).result = .ok (.found r)) :
    let explored := s.exploreFrom Q M d (ends source target d).1 (ends source target d).2 t
    ∃ goal, explored.ending = .ok .done ∧ explored.watched = some goal ∧
      r = timedRouteTo source d t explored.frontier goal := by
  intro explored
  unfold bestRouteAt at hfound
  cases hc : s.checkNodes [source, target] with
  | error _ => rw [hc] at hfound; cases hfound
  | ok _ =>
    rw [hc] at hfound
    obtain ⟨goal, hend, hseen, hr⟩ := exists_goal_of_found explored
      (fun goal ↦ .ok (timedRouteTo source d t _ goal)) hfound
    exact ⟨goal, hend, hseen, (Except.ok.inj hr).symm⟩

theorem exists_of_bestRouteAt
    (hstart : I (Frontier.empty.addRoot ((Label.root (ends source target d).1 0).withTime t)
      (s.mode.rootKey (ends source target d).1)))
    (hlabel : ∀ {id f next}, I f → f.pop? = some (id, next) → ∃ l, next.label? id = some l)
    (hstep : ∀ {id f next f' l}, I f → f.pop? = some (id, next) → next.label? id = some l →
      (s.timedExploration d).expand id l next (s.network.edges l.node d) = .ok f' → I f')
    (hfound : (s.bestRouteAt Q M d source target t).result = .ok (.found r)) :
    ∃ f next goal l, I f ∧ f.pop? = some (goal, next) ∧ f.label? goal = some l ∧
      l.node = (ends source target d).2 ∧ r = timedRouteTo source d t next goal := by
  obtain ⟨goal, hend, hseen, hr⟩ := exists_goal_of_bestRouteAt hfound
  obtain ⟨f, l, hf, hp, hl, hn⟩ := Exploration.exists_of_run_reach hlabel hstep hstart hend hseen
  exact ⟨f, _, goal, l, hf, hp, hl, hn, hr⟩

end Timed

end RoadRouting.SearchSettings
