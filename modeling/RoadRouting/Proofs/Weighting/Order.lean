import RoadRouting.Proofs.Weighting.Prices
import RoadRouting.Weighting.Decorators
import Mathlib.Tactic.Ring

namespace RoadRouting

open Scalar (Exact)

namespace Weighting

/-- Whatever was traveled before, the edge takes this long when it is entered at the instant, and its
weight are the seconds. -/
structure Takes (w : Weighting Exact) (e : EdgeView Exact) (t : Instant) (δ : Duration) : Prop where
  weight : ∀ before, w.weightAt e .forward before t = .ok (.finite (δ.toNat / 1000))
  duration : ∀ before, w.durationAt e .forward before t = .ok δ

def Closes (w : Weighting Exact) (e : EdgeView Exact) (t : Instant) : Prop :=
  ∀ before, w.weightAt e .forward before t = .ok .infinity

/-- Edges are open or closed at every instant, and who enters an open one later leaves it later; a
closed edge is never left. -/
structure KeepsOrder (w : Weighting Exact) (n : Network Exact) : Prop where
  cases : ∀ {u e} t, e ∈ n.edges u .forward → w.Closes e t ∨ ∃ δ, w.Takes e t δ
  order : ∀ {u e t t' δ'}, e ∈ n.edges u .forward → t ≤ t' → w.Takes e t' δ' →
    ∃ δ, w.Takes e t δ ∧ t.toInt + δ.toNat ≤ t'.toInt + δ'.toNat

variable {w : Weighting Exact} {e : EdgeView Exact} {t : Instant} {δ δ' : Duration}

theorem Takes.unique (h : w.Takes e t δ) (h' : w.Takes e t δ') : δ = δ' :=
  Except.ok.inj ((h.duration none).symm.trans (h'.duration none))

theorem KeepsOrder.takes {n : Network Exact} (h : w.KeepsOrder n) {u : NodeId} {x : Exact}
    {before : Option EdgeId} (he : e ∈ n.edges u .forward)
    (hx : w.weightAt e .forward before t = .ok x) (hinf : Scalar.isInfinite x = false) :
    ∃ δ, w.Takes e t δ ∧ x = .finite (δ.toNat / 1000) := by
  rcases h.cases t he with hclosed | ⟨δ, hδ⟩
  · cases (hclosed before).symm.trans hx
    cases hinf
  · exact ⟨δ, hδ, Except.ok.inj (hx.symm.trans (hδ.weight before))⟩

theorem keepsOrder_of_takes {n : Network Exact}
    (h : ∀ {u e}, e ∈ n.edges u .forward → ∃ δ, ∀ t, w.Takes e t δ) : w.KeepsOrder n where
  cases t he := by
    obtain ⟨δ, hδ⟩ := h he
    exact .inr ⟨δ, hδ t⟩
  order {u e t t' δ'} he ht hδ' := by
    obtain ⟨δ, hδ⟩ := h he
    obtain rfl := (hδ t').unique hδ'
    have hle := Int64.le_iff_toInt_le.1 ht
    exact ⟨δ, hδ t, by omega⟩

theorem weightAt_withAccess (w : Weighting Exact) (access : AccessPolicy Exact)
    (e : EdgeView Exact) (d : Direction) (before : Option EdgeId) (t : Instant) :
    (w.withAccess access).weightAt e d before t =
      if access e t then w.weightAt e d before t else .ok .infinity := rfl

variable {access : AccessPolicy Exact}

theorem takes_withAccess_iff (w : Weighting Exact) (ha : access e t = true) :
    (w.withAccess access).Takes e t δ ↔ w.Takes e t δ := by
  constructor
  · intro ⟨hweight, hduration⟩
    refine ⟨fun before ↦ ?_, hduration⟩
    rw [← hweight before, weightAt_withAccess, if_pos ha]
  · intro ⟨hweight, hduration⟩
    refine ⟨fun before ↦ ?_, hduration⟩
    rw [← hweight before, weightAt_withAccess, if_pos ha]

theorem KeepsOrder.withAccess {n : Network Exact} (h : w.KeepsOrder n)
    (hclose : ∀ {e t t'}, t ≤ t' → access e t' = true → access e t = true) :
    (w.withAccess access).KeepsOrder n where
  cases {u e} t he := by
    by_cases ha : access e t = true
    · rcases h.cases t he with hclosed | ⟨δ, hδ⟩
      · left
        intro before
        rw [weightAt_withAccess, if_pos ha, hclosed]
      · right
        exact ⟨δ, (takes_withAccess_iff w ha).2 hδ⟩
    · left
      intro before
      rw [weightAt_withAccess, if_neg ha]
  order {u e t t' δ'} he ht hδ' := by
    have ha' : access e t' = true := by
      by_contra ha'
      have hweight := hδ'.weight none
      rw [weightAt_withAccess, if_neg ha'] at hweight
      cases hweight
    obtain ⟨δ, hδ, hle⟩ := h.order he ht ((takes_withAccess_iff w ha').1 hδ')
    exact ⟨δ, (takes_withAccess_iff w (hclose ht ha')).2 hδ, hle⟩

theorem takes_fastest {n : Network Exact} {stored : EdgeId → Option (StoredEdge Exact)}
    (hn : n.Shows stored) {u : NodeId} (he : e ∈ n.edges u .forward) {l v : Rat}
    (hl : e.distance = .finite l) (hv : e.speed.along = .finite v) (hpos : 0 < v) {m : Nat}
    (hm : l * 3600 / v = m) (hlt : m < 2 ^ 64) (maxSpeed : Exact) (t : Instant) :
    (fastest .stored maxSpeed).Takes e t (.ofNat m) := by
  have ho := hn.isOpen he
  have hreading := e.reading_forward
  have hside : e.access.along = true := by
    rwa [EdgeView.isOpen, hreading] at ho
  have hspeed : SpeedSource.stored.speed e .forward (some t) = .finite v := hv
  have hmillis : (millisFactor : Exact) = .finite 3600 := by
    change Exact.finite (OfScientific.ofScientific 36000 true 1) = _
    norm_num
  have hseconds : (secondsFactor : Exact) = .finite 3.6 := rfl
  have hchecked : checkedSpeed e (.finite v : Exact) = .ok (.finite v) :=
    checkedSpeed_eq rfl (Exact.zero_lt_finite.2 hpos) e
  constructor
  · intro before
    change secondsAt .stored e .forward (some t) = _
    have hm' : l * 3.6 / v = (UInt64.ofNat m).toNat / 1000 := by
      rw [UInt64.toNat_ofNat_of_lt' hlt, ← hm]
      ring
    rw [secondsAt, if_pos ho, hreading, hspeed, travelSeconds, hchecked, hl, hseconds, ← hm',
      ← Exact.finite_div_finite hpos.ne']
    rfl
  · intro before
    change millisAt .stored e .forward (some t) = _
    have htruncate : Scalar.truncate (Exact.finite l * .finite 3600 / .finite v) = .ofNat m := by
      rw [Exact.finite_mul_finite, Exact.finite_div_finite hpos.ne', hm]
      change UInt64.ofNat (min (m : Rat).floor.toNat Exact.largestWord) = _
      have hfloor : (m : Rat).floor = m := Rat.floor_intCast m
      have hword : m ≤ Exact.largestWord := Nat.le_sub_one_of_lt hlt
      rw [hfloor, Int.toNat_natCast, Nat.min_eq_left hword]
    rw [millisAt, hreading, hspeed, travelDuration, hchecked, hl, hmillis]
    simp only [Sides.get, hside, ← htruncate]
    rfl

end Weighting

end RoadRouting
