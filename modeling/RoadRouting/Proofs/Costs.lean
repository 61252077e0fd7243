import RoadRouting.Proofs.Exact
import RoadRouting.Weighting.Basic
import Mathlib.Tactic.Positivity

namespace RoadRouting.Scalar

/-- Numbers are compared as usual, and costs add up without getting less. -/
class IsOrdered (K : Type) [Scalar K] : Prop where
  le_trans : ∀ {x y z : K}, x ≤ y → y ≤ z → x ≤ z
  le_total : ∀ {x y : K}, isNaN x = false → isNaN y = false → x ≤ y ∨ y ≤ x
  not_isNaN_of_le : ∀ {x y : K}, x ≤ y → isNaN x = false ∧ isNaN y = false
  not_isNaN_zero : isNaN (0 : K) = false
  le_add : ∀ {x y : K}, 0 ≤ x → 0 ≤ y → x ≤ x + y
  add_zero_le : ∀ {x : K}, 0 ≤ x → x + 0 ≤ x
  isInfinite_add : ∀ {x y : K}, 0 ≤ x → 0 ≤ y → isInfinite y = true → isInfinite (x + y) = true

namespace IsOrdered

variable {K : Type} [Scalar K] [IsOrdered K] {x y z : K}

theorem zero_le_zero : (0 : K) ≤ 0 :=
  (le_total not_isNaN_zero not_isNaN_zero).elim id id

theorem le_self (hx : 0 ≤ x) : x ≤ x :=
  (le_total (not_isNaN_of_le hx).2 (not_isNaN_of_le hx).2).elim id id

theorem add_nonneg (hx : 0 ≤ x) (hy : 0 ≤ y) : 0 ≤ x + y := le_trans hx (le_add hx hy)

theorem le_of_not_le (hx : 0 ≤ x) (hy : 0 ≤ y) (h : ¬x ≤ y) : y ≤ x :=
  (le_total (not_isNaN_of_le hx).2 (not_isNaN_of_le hy).2).resolve_left h

omit [IsOrdered K] in
theorem precedes_eq_true_iff : precedes x y = true ↔ isNaN y = true ∨ x ≤ y := by
  simp [precedes]

theorem le_of_precedes (hy : 0 ≤ y) (h : precedes x y = true) : x ≤ y := by
  refine (precedes_eq_true_iff.1 h).resolve_left ?_
  rw [(not_isNaN_of_le hy).2]
  nofun

theorem precedes_total (x y : K) : precedes x y = true ∨ precedes y x = true := by
  simp only [precedes_eq_true_iff]
  cases hx : isNaN x with
  | true => exact .inr (.inl rfl)
  | false =>
    cases hy : isNaN y with
    | true => exact .inl (.inl rfl)
    | false => exact (le_total hx hy).imp .inr .inr

theorem precedes_trans (hxy : precedes x y = true) (hyz : precedes y z = true) :
    precedes x z = true := by
  rw [precedes_eq_true_iff] at hxy hyz ⊢
  refine hyz.imp_right fun hyz ↦ le_trans (hxy.resolve_left ?_) hyz
  rw [(not_isNaN_of_le hyz).1]
  nofun

theorem isFinite_of_add (hx : 0 ≤ x) (hy : 0 ≤ y) (h : isInfinite (x + y) = false) :
    isFinite y = true := by
  rw [isFinite, (not_isNaN_of_le hy).2, Bool.not_false, Bool.true_and, Bool.not_eq_true',
    ← Bool.not_eq_true]
  intro hinf
  rw [isInfinite_add hx hy hinf] at h
  cases h

end IsOrdered

instance : IsOrdered Exact where
  le_trans {x y z} hxy hyz := by
    cases x <;> cases y <;> cases z <;> simp_all [Exact.le_def, Exact.le]
    exact Rat.le_trans hxy hyz
  le_total {x y} hx hy := by
    cases x <;> cases y <;>
      simp_all [Exact.le_def, Exact.le, Scalar.isNaN, Exact.isNaN, Rat.le_total]
  not_isNaN_of_le {x y} h := by
    cases x <;> cases y <;> simp_all [Exact.le_def, Exact.le, Scalar.isNaN, Exact.isNaN]
  not_isNaN_zero := rfl
  le_add {x y} hx hy := by
    rcases Exact.zero_le_iff.1 hx with rfl | ⟨p, hp, rfl⟩
    · rcases Exact.zero_le_iff.1 hy with rfl | ⟨q, hq, rfl⟩
      · rfl
      · rfl
    · rcases Exact.zero_le_iff.1 hy with rfl | ⟨q, hq, rfl⟩
      · rfl
      · rw [Exact.finite_add_finite, Exact.finite_le_finite]
        linarith
  add_zero_le {x} hx := by
    rcases Exact.zero_le_iff.1 hx with rfl | ⟨p, hp, rfl⟩
    · rfl
    · rw [Exact.finite_add_zero, Exact.finite_le_finite]
  isInfinite_add {x y} hx hy hinf := by
    rcases Exact.zero_le_iff.1 hy with rfl | ⟨q, hq, rfl⟩
    · rcases Exact.zero_le_iff.1 hx with rfl | ⟨p, hp, rfl⟩
      · rfl
      · rfl
    · cases hinf

/-- The strict order and equality belong to the order, and the numbers that are not negative are kept
by what weightings compute. -/
class IsSigned (K : Type) [Scalar K] : Prop extends IsOrdered K where
  lt_iff : ∀ {x y : K}, x < y ↔ x ≤ y ∧ ¬y ≤ x
  beq_iff : ∀ {x y : K}, (x == y) = true ↔ x ≤ y ∧ y ≤ x
  zero_le_infinity : (0 : K) ≤ infinity
  isInfinite_of_beq_zero : ∀ {x : K}, (x == 0) = true → isInfinite x = false
  not_isNaN_of_add : ∀ {x y : K}, isNaN (x + y) = false → isNaN x = false ∧ isNaN y = false
  mul_nonneg : ∀ {x y : K}, 0 ≤ x → 0 < y → isInfinite y = false → 0 ≤ x * y
  div_nonneg : ∀ {x y : K}, 0 ≤ x → 0 < y → isInfinite y = false → 0 ≤ x / y
  secondsFactor_pos : 0 < (Weighting.secondsFactor : K)
  isInfinite_secondsFactor : isInfinite (Weighting.secondsFactor : K) = false

namespace IsSigned

variable {K : Type} [Scalar K] [IsSigned K] {x y : K}

theorem nonneg_of_pos (h : 0 < x) : 0 ≤ x := (lt_iff.1 h).1

theorem not_neg_of_nonneg (h : 0 ≤ x) : ¬x < 0 := fun hx ↦ (lt_iff.1 hx).2 h

theorem beq_zero_of_pos (h : 0 < x) : (x == 0) = false := by
  rw [← Bool.not_eq_true, beq_iff]
  exact fun heq ↦ (lt_iff.1 h).2 heq.1

theorem pos_of_beq_zero (hx : 0 ≤ x) (h : (x == 0) = false) : 0 < x := by
  refine lt_iff.2 ⟨hx, fun hle ↦ ?_⟩
  rw [beq_iff.2 ⟨hle, hx⟩] at h
  cases h

theorem pos_iff_beq_zero (hx : 0 ≤ x) : 0 < x ↔ (x == 0) = false :=
  ⟨beq_zero_of_pos, pos_of_beq_zero hx⟩

theorem nonneg_of_not_neg (hnan : isNaN x = false) (h : ¬x < 0) : 0 ≤ x := by
  by_contra hneg
  have hle := (IsOrdered.le_total IsOrdered.not_isNaN_zero hnan).resolve_left hneg
  exact h (lt_iff.2 ⟨hle, hneg⟩)

end IsSigned

namespace Exact

theorem lt_iff {x y : Exact} : x < y ↔ x ≤ y ∧ ¬y ≤ x := by
  change Exact.lt x y = true ↔ Exact.le x y = true ∧ ¬Exact.le y x = true
  cases x <;> cases y <;> simp [Exact.lt, Exact.le]
  exact le_of_lt

theorem beq_iff {x y : Exact} : (x == y) = true ↔ x ≤ y ∧ y ≤ x := by
  change (!isNaN x && decide (x = y)) = true ↔ Exact.le x y = true ∧ Exact.le y x = true
  cases x <;> cases y <;> simp [isNaN, Exact.le]
  exact le_antisymm_iff

theorem not_isNaN_of_add {x y : Exact} (h : Scalar.isNaN (x + y) = false) :
    Scalar.isNaN x = false ∧ Scalar.isNaN y = false := by
  cases x <;> cases y <;> first | exact ⟨rfl, rfl⟩ | cases h

theorem zero_lt_iff {x : Exact} : 0 < x ↔ x = infinity ∨ ∃ q, 0 < q ∧ x = finite q := by
  rw [zero_eq]
  cases x with
  | finite q => simp
  | nan => exact ⟨nofun, by simp⟩
  | negInfinity => exact ⟨nofun, by simp⟩
  | infinity => simp

theorem nonneg_and_isFinite_iff {x : Exact} :
    0 ≤ x ∧ Scalar.isFinite x = true ↔ ∃ q, 0 ≤ q ∧ x = finite q := by
  rw [zero_le_iff]
  constructor
  · rintro ⟨rfl | hx, hfinite⟩
    · cases hfinite
    · exact hx
  · rintro ⟨q, hq, rfl⟩
    exact ⟨.inr ⟨q, hq, rfl⟩, rfl⟩

theorem pos_and_isFinite_iff {x : Exact} :
    0 < x ∧ Scalar.isFinite x = true ↔ ∃ q, 0 < q ∧ x = finite q := by
  rw [zero_lt_iff]
  constructor
  · rintro ⟨rfl | hx, hfinite⟩
    · cases hfinite
    · exact hx
  · rintro ⟨q, hq, rfl⟩
    exact ⟨.inr ⟨q, hq, rfl⟩, rfl⟩

end Exact

instance : IsSigned Exact where
  lt_iff := Exact.lt_iff
  beq_iff := Exact.beq_iff
  zero_le_infinity := rfl
  isInfinite_of_beq_zero {x} h := by
    cases x with
    | finite q => rfl
    | nan => cases h
    | negInfinity => cases h
    | infinity => cases h
  not_isNaN_of_add := Exact.not_isNaN_of_add
  mul_nonneg {x y} hx hy hfinite := by
    obtain rfl | ⟨q, hq, rfl⟩ := Exact.zero_lt_iff.1 hy
    · cases hfinite
    · obtain rfl | ⟨p, hp, rfl⟩ := Exact.zero_le_iff.1 hx
      · rw [Exact.infinity_mul_finite hq]
        rfl
      · rw [Exact.finite_mul_finite, Exact.zero_eq, Exact.finite_le_finite]
        positivity
  div_nonneg {x y} hx hy hfinite := by
    obtain rfl | ⟨q, hq, rfl⟩ := Exact.zero_lt_iff.1 hy
    · cases hfinite
    · obtain rfl | ⟨p, hp, rfl⟩ := Exact.zero_le_iff.1 hx
      · rw [Exact.infinity_div_finite hq]
        rfl
      · rw [Exact.finite_div_finite hq.ne', Exact.zero_eq, Exact.finite_le_finite]
        positivity
  secondsFactor_pos := by
    have hfactor : (Weighting.secondsFactor : Exact) = .finite 3.6 := rfl
    rw [hfactor, Exact.zero_lt_finite]
    norm_num
  isInfinite_secondsFactor := rfl

end RoadRouting.Scalar
