import RoadRouting.Proofs.Weighting.Prices

namespace RoadRouting

open Scalar (Exact IsOrdered)

namespace Weighting

variable {w : Weighting Exact} {n : Network Exact} {price : EdgeView Exact → Exact}

/-- Edges have prices, and what is paid on top of them is for u-turns only. -/
structure ChargesUTurns (w : Weighting Exact) (n : Network Exact)
    (price : EdgeView Exact → Exact) : Prop where
  priced : ∀ {u e}, e ∈ n.edges u .forward → ∃ c, 0 ≤ c ∧ price e = .finite c
  weight : ∀ {u e before}, e ∈ n.edges u .forward → before ≠ some e.edge →
    w.weight e .forward before = .ok (price e)
  uTurn : ∀ {u e}, e ∈ n.edges u .forward →
    ∃ x, w.weight e .forward (some e.edge) = .ok x ∧ price e ≤ x
  duration : ∀ {u e} before, e ∈ n.edges u .forward →
    ∃ t, w.duration e .forward before = .ok t

namespace ChargesUTurns

variable (hw : w.ChargesUTurns n price) {u : NodeId} {e : EdgeView Exact}
include hw

theorem exists_weight (he : e ∈ n.edges u .forward) (before : Option EdgeId) :
    ∃ x, w.weight e .forward before = .ok x ∧ price e ≤ x := by
  by_cases hb : before = some e.edge
  · subst hb
    exact hw.uTurn he
  · obtain ⟨c, _, hc⟩ := hw.priced he
    exact ⟨price e, hw.weight he hb, by rw [hc, Exact.finite_le_finite]⟩

theorem price_le {before : Option EdgeId} {x : Exact} (he : e ∈ n.edges u .forward)
    (hx : w.weight e .forward before = .ok x) : price e ≤ x := by
  obtain ⟨y, hy, hle⟩ := hw.exists_weight he before
  cases hy.symm.trans hx
  exact hle

theorem price_nonneg (he : e ∈ n.edges u .forward) : 0 ≤ price e := by
  obtain ⟨c, hnonneg, hc⟩ := hw.priced he
  rw [hc, Exact.zero_eq, Exact.finite_le_finite]
  exact hnonneg

end ChargesUTurns

inductive TurnsFreely (price : EdgeView Exact → Exact) : Weighting Exact → Prop
  | plain {w : Weighting Exact} : w.IsPlain price → TurnsFreely price w
  | turns {w : Weighting Exact} {turns : TurnCosts Exact} : w.IsPlain price →
      (∀ a v, 0 ≤ turns a v a) → (∀ a v b, a ≠ b → turns a v b = 0) →
      TurnsFreely price (w.withTurns turns)

section Roads

variable {stored : EdgeId → Option (StoredEdge Exact)} (hn : n.Shows stored)
include hn

theorem ChargesUTurns.withTurns {turns : TurnCosts Exact} (hw : w.ChargesUTurns n price)
    (hturns : ∀ a v, 0 ≤ turns a v a) (hfree : ∀ a v b, a ≠ b → turns a v b = 0) :
    (w.withTurns turns).ChargesUTurns n price where
  priced := hw.priced
  weight {u e before} he hb := by
    have hturn : turnWeight turns e .forward before = 0 := by
      cases before with
      | none => rfl
      | some a =>
        apply hfree
        rw [hn.firstPart_eq he]
        exact fun ha ↦ hb (congrArg some ha)
    obtain ⟨c, _, hc⟩ := hw.priced he
    rw [weight_withTurns, hw.weight he hb, hturn, hc]
    exact congrArg Except.ok (Exact.finite_add_zero c)
  uTurn {u e} he := by
    obtain ⟨x, hx, hle⟩ := hw.uTurn he
    refine ⟨x + turnWeight turns e .forward (some e.edge), by rw [weight_withTurns, hx]; rfl, ?_⟩
    rw [turnWeight, hn.firstPart_eq he]
    exact IsOrdered.le_trans hle
      (IsOrdered.le_add (IsOrdered.le_trans (hw.price_nonneg he) hle) (hturns _ _))
  duration {u e} before he := by
    obtain ⟨t, ht⟩ := hw.duration before he
    rw [duration_withTurns, ht]
    exact ⟨_, rfl⟩

variable (hm : n.IsMeasured)
include hm

theorem IsPlain.chargesUTurns (hw : w.IsPlain price) : w.ChargesUTurns n price where
  priced := hw.price_eq hm
  weight {_ _ before} he _ := hw.weight_eq hn hm he before
  uTurn {u e} he := by
    obtain ⟨c, hnonneg, hc⟩ := hw.price_eq hm he
    refine ⟨price e, hw.weight_eq hn hm he _, ?_⟩
    rw [hc, Exact.finite_le_finite]
  duration before he := hw.duration_isOk hn hm he before

theorem TurnsFreely.chargesUTurns (hw : w.TurnsFreely price) : w.ChargesUTurns n price := by
  cases hw with
  | plain hw => exact hw.chargesUTurns hn hm
  | turns hw hturns hfree => exact (hw.chargesUTurns hn hm).withTurns hn hturns hfree

end Roads

end Weighting

end RoadRouting
