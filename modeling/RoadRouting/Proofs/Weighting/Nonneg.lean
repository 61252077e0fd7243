import RoadRouting.Proofs.Search.Steps
import RoadRouting.Proofs.Weighting.Prices
import RoadRouting.Weighting.Decorators

namespace RoadRouting.Weighting

open Scalar (Exact IsOrdered IsSigned)

section Ordered

variable {K : Type} [Scalar K]

structure IsNonneg (w : Weighting K) (n : Network K) : Prop where
  weight : ∀ {u d e before x}, e ∈ n.edges u d → w.weight e d before = .ok x → 0 ≤ x
  weightAt : ∀ {u d e before t x}, e ∈ n.edges u d → w.weightAt e d before t = .ok x → 0 ≤ x

variable [IsOrdered K] {n : Network K} {turns : TurnCosts K} (hturns : ∀ a v b, 0 ≤ turns a v b)
include hturns

theorem turnWeight_nonneg (e : EdgeView K) (d : Direction) (before : Option EdgeId) :
    0 ≤ turnWeight turns e d before := by
  cases before with
  | none => exact IsOrdered.zero_le_zero
  | some a =>
    cases d with
    | forward => exact hturns _ _ _
    | backward => exact hturns _ _ _

theorem IsNonneg.withTurns {w : Weighting K} (h : w.IsNonneg n) :
    (w.withTurns turns).IsNonneg n where
  weight {u d e before x} he hx := by
    obtain ⟨y, hy, hx⟩ := exists_ok_of_bind hx
    cases hx
    exact IsOrdered.add_nonneg (h.weight he hy) (turnWeight_nonneg hturns e d before)
  weightAt {u d e before t x} he hx := by
    obtain ⟨y, hy, hx⟩ := exists_ok_of_bind hx
    cases hx
    exact IsOrdered.add_nonneg (h.weightAt he hy) (turnWeight_nonneg hturns e d before)

end Ordered

theorem IsNonneg.withAccess {K : Type} [Scalar K] [IsSigned K] {n : Network K} {w : Weighting K}
    (h : w.IsNonneg n) (access : AccessPolicy K) : (w.withAccess access).IsNonneg n where
  weight := h.weight
  weightAt {u d e before t x} he hx := by
    change (if access e t then w.weightAt e d before t else .ok Scalar.infinity) = .ok x at hx
    split at hx
    · exact h.weightAt he hx
    · cases hx
      exact IsSigned.zero_le_infinity

section Assembled

variable {K : Type} [Scalar K] [IsSigned K]

theorem pos_of_checkedSpeed {e : EdgeView K} {speed x : K} (h : checkedSpeed e speed = .ok x) :
    0 < x ∧ Scalar.isInfinite x = false := by
  unfold checkedSpeed at h
  split at h
  · cases h
  · next hvalid =>
    split at h
    · cases h
    · next hzero =>
      cases h
      simp only [Bool.or_eq_true, decide_eq_true_eq, not_or, Bool.not_eq_true] at hvalid
      obtain ⟨⟨hfinite, hnan⟩, hneg⟩ := hvalid
      have hnonneg := IsSigned.nonneg_of_not_neg hnan hneg
      exact ⟨IsSigned.pos_of_beq_zero hnonneg (Bool.not_eq_true _ ▸ hzero), hfinite⟩

/-- The basic weightings at any speeds, with any turn costs and any access around them. -/
inductive IsAssembled : Weighting K → Prop
  | fastest (speeds : SpeedSource K) (maxSpeed : K) : IsAssembled (fastest speeds maxSpeed)
  | shortest (speeds : SpeedSource K) : IsAssembled (shortest speeds)
  | withTurns {w : Weighting K} {turns : TurnCosts K} : IsAssembled w →
      (∀ a v b, 0 ≤ turns a v b) → IsAssembled (w.withTurns turns)
  | withAccess {w : Weighting K} (access : AccessPolicy K) : IsAssembled w →
      IsAssembled (w.withAccess access)

theorem Charges.isAssembled {m : TraversalMode} {price : EdgeView Exact → Exact}
    {w : Weighting Exact} {turns : TurnCosts Exact} (h : Charges m price w turns) :
    w.IsAssembled := by
  have hplain : ∀ {w : Weighting Exact}, w.IsPlain price → w.IsAssembled := by
    intro w hw
    cases hw with
    | fastest _ => exact .fastest _ _
    | shortest _ => exact .shortest _
  cases h with
  | plain hw => exact hplain hw
  | turns hw _ hturns => exact (hplain hw).withTurns hturns

variable {n : Network K} (hd : ∀ {u d e}, e ∈ n.edges u d → 0 ≤ e.distance)
include hd

theorem isNonneg_shortest (speeds : SpeedSource K) : (shortest speeds).IsNonneg n := by
  have hweight : ∀ {u d e x}, e ∈ n.edges u d →
      (.ok (if e.isOpen d then e.distance else Scalar.infinity) : Except (QueryError K) K) =
        .ok x → 0 ≤ x := by
    intro u d e x he hx
    cases hx
    split
    · exact hd he
    · exact IsSigned.zero_le_infinity
  exact ⟨hweight, hweight⟩

theorem isNonneg_fastest (speeds : SpeedSource K) (maxSpeed : K) :
    (fastest speeds maxSpeed).IsNonneg n := by
  have hseconds : ∀ {u d e at? x}, e ∈ n.edges u d → secondsAt speeds e d at? = .ok x → 0 ≤ x := by
    intro u d e at? x he hx
    unfold secondsAt at hx
    split at hx
    · obtain ⟨v, hv, hx⟩ := exists_ok_of_bind hx
      obtain ⟨hpos, hfinite⟩ := pos_of_checkedSpeed hv
      cases hx
      apply IsSigned.div_nonneg _ hpos hfinite
      exact IsSigned.mul_nonneg (hd he) IsSigned.secondsFactor_pos IsSigned.isInfinite_secondsFactor
    · cases hx
      exact IsSigned.zero_le_infinity
  exact ⟨hseconds, hseconds⟩

theorem IsAssembled.isNonneg {w : Weighting K} (hw : w.IsAssembled) : w.IsNonneg n := by
  induction hw with
  | fastest speeds maxSpeed => exact isNonneg_fastest hd speeds maxSpeed
  | shortest speeds => exact isNonneg_shortest hd speeds
  | withTurns _ hturns ih => exact ih.withTurns hturns
  | withAccess access _ ih => exact ih.withAccess access

end Assembled

theorem distance_nonneg {n : Network Exact} {stored : EdgeId → Option (StoredEdge Exact)}
    (hn : n.Shows stored) (hm : n.IsMeasured) {u : NodeId} {d : Direction} {e : EdgeView Exact}
    (he : e ∈ n.edges u d) : 0 ≤ e.distance := by
  obtain ⟨l, hl, hd⟩ := hm.distance (hn.traveled_mem he)
  rw [e.distance_traveled d] at hd
  rw [hd, Exact.zero_eq, Exact.finite_le_finite]
  exact hl

theorem IsAssembled.isNonneg_of_isMeasured {w : Weighting Exact} {n : Network Exact}
    (hw : w.IsAssembled) (hn : n.IsBuilt) (hm : n.IsMeasured) : w.IsNonneg n := by
  obtain ⟨stored, hshows⟩ := hn.exists_shows
  exact hw.isNonneg fun he ↦ distance_nonneg hshows hm he

end RoadRouting.Weighting
