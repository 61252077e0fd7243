import RoadRouting.Proofs.Search.Alike
import RoadRouting.Proofs.Search.Replay

namespace RoadRouting

open Scalar (Exact IsOrdered)

namespace Weighting

variable {K : Type}

/-- The instant makes no difference to any weight or duration. -/
structure IsSteady (w : Weighting K) : Prop where
  weightAt_eq : ∀ e d before t, w.weightAt e d before t = w.weight e d before
  durationAt_eq : ∀ e d before t, w.durationAt e d before t = w.duration e d before

variable [Scalar K]

theorem isSteady_shortest {speeds : SpeedSource K}
    (hspeeds : ∀ e side t, speeds.speed e side (some t) = speeds.speed e side none) :
    (shortest speeds).IsSteady where
  weightAt_eq _ _ _ _ := rfl
  durationAt_eq e d _ t := by
    change millisAt speeds e d (some t) = millisAt speeds e d none
    rw [millisAt, hspeeds, millisAt]

theorem IsSteady.withTurns {w : Weighting K} (h : w.IsSteady) (turns : TurnCosts K) :
    (w.withTurns turns).IsSteady where
  weightAt_eq e d before t := by simp only [Weighting.withTurns, h.weightAt_eq]
  durationAt_eq e d before t := by simp only [Weighting.withTurns, h.durationAt_eq]

theorem IsSteady.withAccess {w : Weighting K} (h : w.IsSteady) {access : AccessPolicy K}
    (hopen : ∀ e t, access e t = true) : (w.withAccess access).IsSteady where
  weightAt_eq e d before t := by
    change (if access e t then w.weightAt e d before t else _) = w.weight e d before
    rw [if_pos (hopen e t), h.weightAt_eq]
  durationAt_eq := h.durationAt_eq

omit [Scalar K] in
theorem IsSteady.totalDuration_eq {w : Weighting K} (h : w.IsSteady)
    {before : Option EdgeId} {t : Int} {es : List (EdgeView K)} {legs : List (Leg K)}
    (hreplay : w.replay .forward before t es = .ok legs) (total : Duration) :
    Route.totalDuration w before total es =
      .ok (legs.foldl (fun total leg ↦ total + leg.duration) total) := by
  induction es generalizing before t legs total with
  | nil =>
    cases hreplay
    rfl
  | cons e es ih =>
    obtain ⟨_, _, hreplay⟩ := exists_ok_of_bind hreplay
    obtain ⟨duration, hduration, hreplay⟩ := exists_ok_of_bind hreplay
    obtain ⟨rest, hrest, hreplay⟩ := exists_ok_of_bind hreplay
    cases hreplay
    rw [h.durationAt_eq] at hduration
    rw [Route.totalDuration, hduration]
    exact ih hrest (total + duration)

end Weighting

theorem Leg.toNat_foldl_add {K : Type} {legs : List (Leg K)} {total : Duration}
    (hlt : total.toNat + Leg.total legs < 2 ^ 64) :
    (legs.foldl (fun total leg ↦ total + leg.duration) total).toNat =
      total.toNat + Leg.total legs := by
  induction legs generalizing total with
  | nil => simp [Leg.total]
  | cons leg legs ih =>
    have hsum : Leg.total (leg :: legs) = leg.duration.toNat + Leg.total legs := by
      simp [Leg.total]
    rw [hsum] at hlt ⊢
    have hadd : (total + leg.duration).toNat = total.toNat + leg.duration.toNat := by
      rw [UInt64.toNat_add]
      apply Nat.mod_eq_of_lt
      omega
    rw [List.foldl_cons, ih (by omega), hadd]
    omega

namespace SearchSettings

variable {s : SearchSettings Exact} {d : Direction}

def HasDurations (s : SearchSettings Exact) (d : Direction) : Prop :=
  ∀ {u e} before, e ∈ s.network.edges u d → ∃ δ, s.weighting.duration e d before = .ok δ

theorem resembles_exploration (hw : s.weighting.IsSteady) (hs : s.HasDurations d) :
    (s.timedExploration d).Resembles (fun l ↦ l.withTime 0) (s.exploration d fun _ ↦ 0) where
  edges_eq := rfl
  allows_eq := rfl
  key_eq := rfl
  price_eq {l e} _ := (hw.weightAt_eq e d l.incomingEdge l.time).symm
  extend_alike {l e} he id cost := by
    obtain ⟨δ, hδ⟩ := hs l.incomingEdge he
    simp only [timedExploration, exploration, hw.durationAt_eq, hδ, Exact.add_zero]
    exact .ok rfl

variable (Q M : Type) [PriorityQueue Q Exact] [BestMap M]

theorem exploreFrom_resembles (hw : s.weighting.IsSteady) (hs : s.HasDurations d)
    (start goal : NodeId) (t : Instant) :
    (s.exploreFrom Q M d start goal t).Resembles (fun l ↦ l.withTime 0)
      ((s.exploration d fun _ ↦ 0).explore (Watch.reach goal) s.visitLimit (.root start 0)
        (s.mode.rootKey start) none : Explored Exact Q M (Option LabelId)) :=
  (resembles_exploration hw hs).explore_alike Label.isView_withTime
    (Watch.note_reach Label.isView_withTime goal) s.visitLimit ((Label.root start 0).withTime t)
    (s.mode.rootKey start) none

variable {Q M} {source target : NodeId} {t : Instant}

theorem routeTo_eq_timedRouteTo (hw : s.weighting.IsSteady) {f f' : Frontier Exact Q M}
    (hf : f.Resembles (fun l ↦ l.withTime 0) f') (source : NodeId) {goal : LabelId}
    {legs : List (Leg Exact)}
    (hreplay : s.weighting.replay .forward none t.toInt (f.pathTo goal) = .ok legs) :
    s.routeTo source f' goal = .ok { timedRouteTo source .forward t f goal with
      duration := legs.foldl (fun total leg ↦ total + leg.duration) 0 } := by
  have hpath := hf.pathTo_eq Label.isView_withTime goal
  have hlabel := hf.label_eq Label.isView_withTime goal
  rw [routeTo, Route.ofEdges, hpath, hlabel, hw.totalDuration_eq hreplay]
  rfl

omit [PriorityQueue Q Exact] [BestMap M] in
theorem exists_goal_or_eq {r r' : Explored Exact Q M (Option LabelId)}
    (hend : r'.ending = r.ending) (hseen : r'.watched = r.watched)
    (route route' : LabelId → Except (QueryError Exact) (Route Exact)) :
    (∃ goal, r.ending = .ok .done ∧ r.watched = some goal) ∨
      (do
        match ← r'.ending, r'.watched with
        | .limited, _ => return .visitLimitReached
        | .done, some goal => return .found (← route' goal)
        | _, _ => return .unreachable : Except (QueryError Exact) (Outcome Exact)) =
      (do
        match ← r.ending, r.watched with
        | .limited, _ => return .visitLimitReached
        | .done, some goal => return .found (← route goal)
        | _, _ => return .unreachable) := by
  rw [hend, hseen]
  cases r.ending with
  | error error => exact .inr rfl
  | ok ending =>
    cases ending with
    | limited => exact .inr rfl
    | exhausted => exact .inr rfl
    | done =>
      cases r.watched with
      | none => exact .inr rfl
      | some goal => exact .inl ⟨goal, rfl, rfl⟩

variable [LawfulQueue Q]

variable (Q M source target t) in
theorem bestRouteAt_cases (hw : s.weighting.IsSteady) (hs : s.HasDurations .forward)
    (hcosts : s.HasCostsAt .forward) :
    let answer := s.bestRouteAt Q M .forward source target t
    s.bestRoute Q M .zero source target = answer ∨ ∃ r legs, answer.result = .ok (.found r) ∧
      s.weighting.replay .forward none t.toInt r.edges = .ok legs ∧
      (Leg.total legs < 2 ^ 63 → r.duration.toNat = Leg.total legs) ∧
      s.bestRoute Q M .zero source target = { answer with
        result := .ok (.found { r with
          duration := legs.foldl (fun total leg ↦ total + leg.duration) 0 }) } := by
  intro answer
  cases hc : s.checkNodes [source, target] with
  | error error =>
    left
    simp only [answer, bestRoute, bestRouteAt, hc]
  | ok _ =>
    have hx : (s.exploreFrom Q M .forward source target t).Resembles (fun l ↦ l.withTime 0)
        (s.exploreToward Q M .zero source target) :=
      exploreFrom_resembles Q M hw hs source target t
    rcases exists_goal_or_eq hx.ending_eq hx.watched_eq
      (fun goal ↦ .ok (timedRouteTo source .forward t
        (s.exploreFrom Q M .forward source target t).frontier goal))
      (s.routeTo source (s.exploreToward Q M .zero source target).frontier) with
      ⟨goal, hend, hseen⟩ | hresult
    · right
      have hfound : answer.result = .ok (.found (timedRouteTo source .forward t
          (s.exploreFrom Q M .forward source target t).frontier goal)) :=
        result_of_done hc hend hseen
      obtain ⟨l, legs, hlegs, _, hduration⟩ := exists_retraces_of_found hcosts hfound
      refine ⟨_, legs, hfound, hlegs.replay, fun hlt ↦ ?_, ?_⟩
      · rw [hduration, hlegs.timeBetween_eq hlt]
      · have hroute := routeTo_eq_timedRouteTo hw hx.frontier source hlegs.replay
        simp only [bestRoute, hc, hx.ending_eq, hx.watched_eq, hend, hseen, hx.visited_eq]
        simp only [bind, Except.bind, hroute]
        simp only [answer, bestRouteAt, hc]
        rfl
    · left
      rw [bestRoute, hc]
      simp only [answer, bestRouteAt, hc]
      congr 1
      exact hx.visited_eq

theorem bestRouteAt_eq_bestRoute (hw : s.weighting.IsSteady) (hs : s.HasDurations .forward)
    (hcosts : s.HasCostsAt .forward)
    (hfits : ∀ r legs, (s.bestRouteAt Q M .forward source target t).result = .ok (.found r) →
      s.weighting.replay .forward none t.toInt r.edges = .ok legs → Leg.total legs < 2 ^ 63) :
    s.bestRouteAt Q M .forward source target t = s.bestRoute Q M .zero source target := by
  rcases bestRouteAt_cases Q M source target t hw hs hcosts with
    heq | ⟨r, legs, hfound, hreplay, hduration, heq⟩
  · exact heq.symm
  · have hlt := hfits r legs hfound hreplay
    have hsum : legs.foldl (fun total leg ↦ total + leg.duration) 0 = r.duration := by
      apply UInt64.toNat_inj.1
      rw [hduration hlt, Leg.toNat_foldl_add]
      · exact Nat.zero_add _
      · exact (Nat.zero_add _).trans_lt (hlt.trans (by decide))
    rw [heq, hsum]
    exact congrArg (Answer.mk _) hfound

variable (Q M source target t) in
theorem bestRouteAt_alike (hw : s.weighting.IsSteady) (hs : s.HasDurations .forward)
    (hcosts : s.HasCostsAt .forward) :
    EndAlike (fun o o' ↦ o.weight? = o'.weight?)
      (s.bestRouteAt Q M .forward source target t).result
      (s.bestRoute Q M .zero source target).result := by
  rcases bestRouteAt_cases Q M source target t hw hs hcosts with heq | ⟨r, legs, hfound, _, _, heq⟩
  · rw [heq]
    apply EndAlike.refl
    intro o
    rfl
  · rw [heq, hfound]
    exact .ok rfl

end SearchSettings

end RoadRouting
