import RoadRouting.Scalar
import Mathlib.Algebra.Order.Field.Rat
import Mathlib.Tactic.Linarith
import Mathlib.Tactic.NormNum

namespace RoadRouting.Scalar.Exact

def value : Exact → Rat
  | finite q => q
  | _ => 0

@[simp] theorem value_finite (q : Rat) : (finite q).value = q := rfl

theorem zero_eq : (0 : Exact) = finite 0 := rfl

@[simp] theorem finite_add_finite (p q : Rat) : finite p + finite q = finite (p + q) := rfl

@[simp] theorem finite_sub_finite (p q : Rat) : finite p - finite q = finite (p - q) := by
  rw [sub_eq_add_neg]
  rfl

@[simp] theorem finite_mul_finite (p q : Rat) : finite p * finite q = finite (p * q) := rfl

@[simp] theorem finite_add_infinity (p : Rat) : finite p + infinity = infinity := rfl

@[simp] theorem finite_add_zero (p : Rat) : finite p + (0 : Exact) = finite p := by
  rw [zero_eq, finite_add_finite, add_zero]

protected theorem add_zero (x : Exact) : x + 0 = x := by
  cases x with
  | finite q => exact finite_add_zero q
  | nan => rfl
  | negInfinity => rfl
  | infinity => rfl

@[simp] theorem finite_sub_infinity (p : Rat) : finite p - infinity = negInfinity := rfl

theorem finite_div_finite {p q : Rat} (h : q ≠ 0) : finite p / finite q = finite (p / q) := by
  change Exact.div (finite p) (finite q) = _
  simp [Exact.div, h]

theorem half_eq : (0.5 : Exact) = finite (1 / 2) := by
  change finite (OfScientific.ofScientific 5 true 1) = _
  norm_num

@[simp] theorem finite_le_finite {p q : Rat} : finite p ≤ finite q ↔ p ≤ q := by
  change (decide (p ≤ q) = true) ↔ _
  simp

@[simp] theorem finite_lt_finite {p q : Rat} : finite p < finite q ↔ p < q := by
  change (decide (p < q) = true) ↔ _
  simp

theorem zero_lt_finite {q : Rat} : 0 < finite q ↔ 0 < q := by
  rw [zero_eq, finite_lt_finite]

@[simp] theorem finite_le_infinity (p : Rat) : finite p ≤ infinity := rfl

@[simp] theorem finite_lt_infinity (p : Rat) : finite p < infinity := rfl

@[simp] theorem not_infinity_le_finite (p : Rat) : ¬infinity ≤ finite p := nofun

@[simp] theorem not_infinity_le_negInfinity : ¬infinity ≤ negInfinity := nofun

@[simp] theorem not_finite_le_negInfinity (p : Rat) : ¬finite p ≤ negInfinity := nofun

@[simp] theorem isInfinite_finite (q : Rat) : Scalar.isInfinite (finite q) = false := rfl

@[simp] theorem isInfinite_infinity : Scalar.isInfinite infinity = true := rfl

@[simp] theorem isNaN_finite (q : Rat) : Scalar.isNaN (finite q) = false := rfl

@[simp] theorem isFinite_finite (q : Rat) : Scalar.isFinite (finite q) = true := rfl

theorem zero_le_iff {x : Exact} : 0 ≤ x ↔ x = infinity ∨ ∃ q, 0 ≤ q ∧ x = finite q := by
  rw [zero_eq]
  cases x with
  | finite q => simp
  | nan => exact ⟨nofun, by simp⟩
  | negInfinity => simp
  | infinity => simp

theorem precedes_finite {p q : Rat} : Scalar.precedes (finite p) (finite q) = true ↔ p ≤ q := by
  simp [Scalar.precedes]

theorem le_def {x y : Exact} : x ≤ y ↔ Exact.le x y = true := Iff.rfl

theorem finite_le_of_lt_of_le {p : Rat} {x y : Exact} (hx : finite p < x) (hy : x ≤ y) :
    finite p ≤ y := by
  cases x with
  | finite q =>
    cases y with
    | finite r => exact finite_le_finite.2 ((finite_lt_finite.1 hx).le.trans (finite_le_finite.1 hy))
    | nan => cases hy
    | negInfinity => cases hy
    | infinity => rfl
  | nan => cases hx
  | negInfinity => cases hx
  | infinity =>
    cases y with
    | infinity => rfl
    | nan => cases hy
    | negInfinity => cases hy
    | finite r => cases hy

theorem le_finite_trans {x : Exact} {p q : Rat} (hx : x ≤ finite p) (hpq : p ≤ q) :
    x ≤ finite q := by
  cases x with
  | finite r => exact finite_le_finite.2 ((finite_le_finite.1 hx).trans hpq)
  | nan => cases hx
  | negInfinity => rfl
  | infinity => cases hx

theorem le_finite_of_le_sub {x y : Exact} {p q : Rat} (hx : x ≤ finite p - y) (hy : 0 ≤ y)
    (hpq : p ≤ q) : x ≤ finite q := by
  rcases zero_le_iff.1 hy with rfl | ⟨r, hr, rfl⟩
  · rw [finite_sub_infinity] at hx
    cases x with
    | finite s => exact absurd hx (not_finite_le_negInfinity s)
    | nan => cases hx
    | negInfinity => rfl
    | infinity => exact absurd hx not_infinity_le_negInfinity
  · rw [finite_sub_finite] at hx
    exact le_finite_trans hx (by linarith)

theorem infinity_mul_finite {q : Rat} (h : 0 < q) : infinity * finite q = infinity := by
  change infinityLike q = infinity
  rw [infinityLike, if_neg (not_lt_of_gt h), if_pos h]

theorem infinity_div_finite {q : Rat} (h : 0 < q) : infinity / finite q = infinity := by
  change (if q < 0 then negInfinity else infinity) = infinity
  rw [if_neg (not_lt_of_gt h)]

theorem one_eq : (1.0 : Exact) = finite 1 := by
  change finite (OfScientific.ofScientific 10 true 1) = _
  norm_num

theorem finite_le_add_of_le {x y : Exact} {p q : Rat} (hx : 0 ≤ x) (hpq : finite p ≤ x + finite q)
    (hy : finite q ≤ y) : finite p ≤ x + y := by
  cases y with
  | nan => cases hy
  | negInfinity => exact absurd hy (not_finite_le_negInfinity q)
  | infinity =>
    obtain rfl | ⟨r, _, rfl⟩ := zero_le_iff.1 hx
    · rfl
    · rfl
  | finite r =>
    obtain rfl | ⟨s, _, rfl⟩ := zero_le_iff.1 hx
    · rfl
    · rw [finite_add_finite, finite_le_finite] at hpq ⊢
      exact hpq.trans (add_le_add_right (finite_le_finite.1 hy) s)

theorem zero_le_add_sub_iff {x : Exact} {p q : Rat} (hx : 0 ≤ x) :
    0 ≤ x + finite q - finite p ↔ finite p ≤ x + finite q := by
  obtain rfl | ⟨r, _, rfl⟩ := zero_le_iff.1 hx
  · exact iff_of_true rfl rfl
  · rw [finite_add_finite, finite_sub_finite, zero_eq, finite_le_finite, finite_le_finite, sub_nonneg]

instance : Std.Associative (α := Exact) (· + ·) where
  assoc x y z := by
    cases x <;> cases y <;> cases z <;> first | rfl | simp only [finite_add_finite, add_assoc]

instance : Std.Commutative (α := Exact) (· + ·) where
  comm x y := by
    cases x <;> cases y <;> first | rfl | simp only [finite_add_finite, add_comm]

instance : Std.LawfulIdentity (α := Exact) (· + ·) 0 where
  left_id x := by
    cases x with
    | finite q => rw [zero_eq, finite_add_finite, zero_add]
    | nan => rfl
    | negInfinity => rfl
    | infinity => rfl
  right_id := Exact.add_zero

theorem isFinite_add (x y : Exact) :
    Scalar.isFinite (x + y) = (Scalar.isFinite x && Scalar.isFinite y) := by
  cases x <;> cases y <;> rfl

theorem isInfinite_add {x y : Exact} (h : Scalar.isNaN (x + y) = false) :
    Scalar.isInfinite (x + y) = (Scalar.isInfinite x || Scalar.isInfinite y) := by
  cases x <;> cases y <;> first | rfl | cases h

end RoadRouting.Scalar.Exact
