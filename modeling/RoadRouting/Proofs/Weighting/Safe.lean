import RoadRouting.Proofs.Weighting.Nonneg

namespace RoadRouting

open Scalar (Exact IsSigned)

variable {K : Type} [Scalar K]

def Sides.HaveSpeeds (access : Sides Bool) (speed : Sides K) : Prop :=
  ∀ side, access.get side = true → Scalar.isFinite (speed.get side) = true ∧ 0 < speed.get side

theorem Sides.haveSpeeds_iff {access : Sides Bool} {speed : Sides K} : access.HaveSpeeds speed ↔
    (access.along = true → Scalar.isFinite speed.along = true ∧ 0 < speed.along) ∧
      (access.against = true → Scalar.isFinite speed.against = true ∧ 0 < speed.against) := by
  constructor
  · intro h
    exact ⟨h .forward, h .backward⟩
  · intro ⟨halong, hagainst⟩ side
    cases side with
    | forward => exact halong
    | backward => exact hagainst

structure StoredEdge.IsSafe (s : StoredEdge K) : Prop where
  distance : 0 ≤ s.distance
  speeds : s.access.HaveSpeeds s.speed

structure EdgeView.IsSafe (e : EdgeView K) : Prop where
  distance : 0 ≤ e.distance
  speeds : e.access.HaveSpeeds e.speed

theorem EdgeView.IsSafe.reversed {e : EdgeView K} (h : e.IsSafe) : e.reversed.IsSafe where
  distance := h.distance
  speeds side ho := by
    cases side with
    | forward => exact h.speeds .backward ho
    | backward => exact h.speeds .forward ho

theorem StoredEdge.IsSafe.view {s : StoredEdge K} (h : s.IsSafe) (id : EdgeId) (u : NodeId) :
    (s.view id u).IsSafe := by
  have hstored : (s.stored id).IsSafe := ⟨h.distance, h.speeds⟩
  unfold StoredEdge.view
  split
  · exact hstored
  · exact hstored.reversed

theorem StoredEdge.IsMeasured.isSafe {s : StoredEdge Exact} (h : s.IsMeasured) : s.IsSafe where
  distance := by
    obtain ⟨q, hq, hd⟩ := h.distance
    rw [hd, Exact.zero_eq, Exact.finite_le_finite]
    exact hq
  speeds side ho := by
    obtain ⟨q, hq, hs⟩ := h.speed side ho
    rw [hs]
    exact ⟨rfl, Exact.zero_lt_finite.2 hq⟩

namespace Weighting

variable {speeds : SpeedSource K} {w : Weighting K} {e : EdgeView K} {d : Direction}

inductive IsStatic : Weighting K → Prop
  | fastest {speeds : SpeedSource K} (maxSpeed : K) :
      (∀ e side, speeds.speed e side none = e.speed.get side) → IsStatic (fastest speeds maxSpeed)
  | shortest {speeds : SpeedSource K} :
      (∀ e side, speeds.speed e side none = e.speed.get side) → IsStatic (shortest speeds)
  | withTurns {w : Weighting K} {turns : TurnCosts K} : IsStatic w →
      (∀ a v b, 0 ≤ turns a v b) → IsStatic (w.withTurns turns)

theorem IsStatic.isAssembled (h : w.IsStatic) : w.IsAssembled := by
  induction h with
  | fastest maxSpeed _ => exact .fastest _ maxSpeed
  | shortest _ => exact .shortest _
  | withTurns _ hturns ih => exact ih.withTurns hturns

variable [IsSigned K]

variable (hs : ∀ e side, speeds.speed e side none = e.speed.get side) (he : e.IsSafe)
include hs he

theorem secondsAt_isOk (d : Direction) : ∃ x, secondsAt speeds e d none = .ok x := by
  by_cases ho : e.isOpen d = true
  · obtain ⟨hfinite, hpos⟩ := he.speeds (e.reading d) ho
    rw [secondsAt, if_pos ho, travelSeconds, hs, checkedSpeed_eq hfinite hpos]
    exact ⟨_, rfl⟩
  · rw [secondsAt, if_neg ho]
    exact ⟨_, rfl⟩

theorem error_of_millisAt {error : QueryError K} (h : millisAt speeds e d none = .error error) :
    e.isOpen d = false ∧
      error = .blockedDirection e.edge e.base e.adj (e.reading d).isBackward := by
  rw [millisAt, travelDuration] at h
  cases ho : e.isOpen d with
  | true =>
    have hside : e.access.get (e.reading d) = true := ho
    obtain ⟨hfinite, hpos⟩ := he.speeds (e.reading d) ho
    rw [hside, hs, checkedSpeed_eq hfinite hpos] at h
    cases h
  | false =>
    have hside : e.access.get (e.reading d) = false := ho
    rw [hside] at h
    cases h
    exact ⟨rfl, rfl⟩

omit hs

theorem IsStatic.weight_isOk (h : w.IsStatic) (d : Direction) (before : Option EdgeId) :
    ∃ x, w.weight e d before = .ok x := by
  induction h with
  | fastest _ hs => exact secondsAt_isOk hs he d
  | shortest _ => exact ⟨_, rfl⟩
  | withTurns _ _ ih =>
    obtain ⟨x, hx⟩ := ih
    rw [weight_withTurns, hx]
    exact ⟨_, rfl⟩

theorem IsStatic.error_of_duration (h : w.IsStatic) {before : Option EdgeId} {error : QueryError K}
    (hd : w.duration e d before = .error error) : e.isOpen d = false ∧
      error = .blockedDirection e.edge e.base e.adj (e.reading d).isBackward := by
  induction h with
  | fastest _ hs => exact error_of_millisAt hs he hd
  | shortest hs => exact error_of_millisAt hs he hd
  | @withTurns w _ _ _ ih =>
    apply ih
    rw [duration_withTurns] at hd
    cases hw : w.duration e d before with
    | error _ =>
      rw [hw] at hd
      exact hd
    | ok _ =>
      rw [hw] at hd
      cases hd

end Weighting

end RoadRouting
