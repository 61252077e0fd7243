import RoadRouting.Proofs.Search.Consistency
import RoadRouting.Proofs.Weighting.Reversal

namespace RoadRouting

open Scalar (Exact IsOrdered)

structure IsMetric (distance : Position Exact → Position Exact → Exact) : Prop where
  finite : ∀ p q, ∃ x, 0 ≤ x ∧ distance p q = .finite x
  self : ∀ p, distance p p = 0
  symm : ∀ p q, distance p q = distance q p
  triangle : ∀ p q r, distance p r ≤ distance p q + distance q r

namespace IsMetric

variable {distance : Position Exact → Position Exact → Exact} (h : IsMetric distance)
include h

theorem eq_finite (p q : Position Exact) : distance p q = .finite (distance p q).value := by
  obtain ⟨x, _, hx⟩ := h.finite p q
  rw [hx, Exact.value_finite]

theorem value_nonneg (p q : Position Exact) : 0 ≤ (distance p q).value := by
  obtain ⟨x, hnonneg, hx⟩ := h.finite p q
  rwa [hx, Exact.value_finite]

theorem nonneg (p q : Position Exact) : 0 ≤ distance p q := by
  rw [h.eq_finite, Exact.zero_eq, Exact.finite_le_finite]
  exact h.value_nonneg p q

theorem value_triangle (p q r : Position Exact) :
    (distance p r).value ≤ (distance p q).value + (distance q r).value := by
  have hle := h.triangle p q r
  rwa [h.eq_finite p r, h.eq_finite p q, h.eq_finite q r, Exact.finite_add_finite,
    Exact.finite_le_finite] at hle

end IsMetric

/-- No edge that can be traveled is shorter than the distance between its ends. -/
def Network.Covers (n : Network Exact) (distance : Position Exact → Position Exact → Exact) : Prop :=
  ∀ {u e}, e ∈ n.edges u .forward → distance (n.position u) (n.position e.adj) ≤ e.distance

namespace Weighting

/-- The shortest path, or the fastest one at speeds that are positive and at most the greatest, with
turn costs around it any number of times. -/
inductive IsCapped (n : Network Exact) : Weighting Exact → Prop
  | fastest {speeds : SpeedSource Exact} {maxSpeed : Exact} : 0 < maxSpeed →
      (∀ {u d e}, e ∈ n.edges u d → ∃ v, 0 < v ∧ .finite v ≤ maxSpeed ∧
        speeds.speed e (e.reading d) none = .finite v) → IsCapped n (fastest speeds maxSpeed)
  | shortest (speeds : SpeedSource Exact) : IsCapped n (shortest speeds)
  | withTurns {w : Weighting Exact} {turns : TurnCosts Exact} : IsCapped n w →
      (∀ a v b, 0 ≤ turns a v b) → IsCapped n (w.withTurns turns)

theorem IsCapped.isAssembled {n : Network Exact} {w : Weighting Exact} (h : w.IsCapped n) :
    w.IsAssembled := by
  induction h with
  | fastest _ _ => exact .fastest _ _
  | shortest speeds => exact .shortest speeds
  | withTurns _ hturns ih => exact ih.withTurns hturns

/-- A length costs at least a rate for each meter, whatever is traveled before it. -/
structure ChargesLength (w : Weighting Exact) (n : Network Exact) (rate : Rat) : Prop where
  nonneg : 0 ≤ rate
  minWeight : w.minWeight 1.0 = .finite rate
  weight : ∀ {u d e length} before, e ∈ n.edges u d → 0 ≤ length → .finite length ≤ e.distance →
    ∃ c, w.weight e d before = .ok c ∧ .finite (length * rate) ≤ c

theorem secondsFactor_eq : (secondsFactor : Exact) = .finite 3.6 := rfl

theorem exists_minWeight_fastest (speeds : SpeedSource Exact) {maxSpeed : Exact}
    (hmax : 0 < maxSpeed) : ∃ rate, 0 ≤ rate ∧
      (fastest speeds maxSpeed).minWeight 1.0 = .finite rate ∧
      ∀ v, 0 < v → .finite v ≤ maxSpeed → rate ≤ 3.6 / v := by
  change ∃ rate, 0 ≤ rate ∧ (1.0 : Exact) / maxSpeed * secondsFactor = .finite rate ∧ _
  rw [Exact.one_eq, secondsFactor_eq]
  rcases Exact.zero_lt_iff.1 hmax with rfl | ⟨m, hm, rfl⟩
  · refine ⟨0, le_rfl, ?_, fun v hv _ ↦ by positivity⟩
    have hzero : Exact.finite 1 / Exact.infinity = .finite 0 := rfl
    rw [hzero, Exact.finite_mul_finite, zero_mul]
  · refine ⟨1 / m * 3.6, by positivity, ?_, fun v hv hle ↦ ?_⟩
    · rw [Exact.finite_div_finite hm.ne', Exact.finite_mul_finite]
    · rw [Exact.finite_le_finite] at hle
      have hinv := one_div_le_one_div_of_le hv hle
      calc 1 / m * 3.6 ≤ 1 / v * 3.6 := by gcongr
        _ = 3.6 / v := by ring

section Charges

variable {n : Network Exact} {stored : EdgeId → Option (StoredEdge Exact)} (hn : n.Shows stored)
include hn

theorem exists_chargesLength_fastest {speeds : SpeedSource Exact} {maxSpeed : Exact}
    (hmax : 0 < maxSpeed) (hspeeds : ∀ {u d e}, e ∈ n.edges u d →
      ∃ v, 0 < v ∧ .finite v ≤ maxSpeed ∧ speeds.speed e (e.reading d) none = .finite v) :
    ∃ rate, (fastest speeds maxSpeed).ChargesLength n rate := by
  obtain ⟨rate, hnonneg, hrate, hle⟩ := exists_minWeight_fastest speeds hmax
  refine ⟨rate, hnonneg, hrate, fun {u d e length} before he hlength hdistance ↦ ?_⟩
  obtain ⟨v, hv, hvmax, hspeed⟩ := hspeeds he
  refine ⟨e.distance * secondsFactor / .finite v, ?_, ?_⟩
  · rw [weight_fastest, secondsAt, if_pos (hn.isOpen he), hspeed, travelSeconds,
      checkedSpeed_eq rfl (Exact.zero_lt_finite.2 hv)]
    rfl
  · rw [secondsFactor_eq]
    cases hd : e.distance with
    | nan =>
      rw [hd] at hdistance
      cases hdistance
    | negInfinity =>
      rw [hd] at hdistance
      exact absurd hdistance (Exact.not_finite_le_negInfinity length)
    | infinity =>
      rw [Exact.infinity_mul_finite (by norm_num), Exact.infinity_div_finite hv]
      rfl
    | finite l =>
      rw [hd, Exact.finite_le_finite] at hdistance
      rw [Exact.finite_mul_finite, Exact.finite_div_finite hv.ne', Exact.finite_le_finite]
      calc length * rate ≤ l * (3.6 / v) :=
            mul_le_mul hdistance (hle v hv hvmax) hnonneg (hlength.trans hdistance)
        _ = l * 3.6 / v := by ring

theorem IsCapped.exists_chargesLength {w : Weighting Exact} (h : w.IsCapped n) :
    ∃ rate, w.ChargesLength n rate := by
  induction h with
  | fastest hmax hspeeds => exact exists_chargesLength_fastest hn hmax hspeeds
  | shortest speeds =>
    refine ⟨1, zero_le_one, Exact.one_eq, fun {u d e length} before he _ hdistance ↦ ?_⟩
    refine ⟨e.distance, ?_, ?_⟩
    · rw [weight_shortest, if_pos (hn.isOpen he)]
    · rwa [mul_one]
  | @withTurns w turns _ hturns ih =>
    obtain ⟨rate, hrate⟩ := ih
    refine ⟨rate, hrate.nonneg, hrate.minWeight, fun {u d e length} before he hlength hdistance ↦ ?_⟩
    obtain ⟨c, hc, hle⟩ := hrate.weight before he hlength hdistance
    have hnonneg : 0 ≤ Exact.finite (length * rate) :=
      Exact.finite_le_finite.2 (mul_nonneg hlength hrate.nonneg)
    refine ⟨c + turnWeight turns e d before, by rw [weight_withTurns, hc]; rfl, ?_⟩
    exact IsOrdered.le_trans hle
      (IsOrdered.le_add (IsOrdered.le_trans hnonneg hle) (turnWeight_nonneg hturns e d before))

end Charges

end Weighting

section Beeline

variable {n : Network Exact} {stored : EdgeId → Option (StoredEdge Exact)} (hn : n.Shows stored)
variable {distance : Position Exact → Position Exact → Exact} (hm : IsMetric distance)
variable (hcovers : n.Covers distance) {w : Weighting Exact} {rate ε : Rat}
variable (hw : w.ChargesLength n rate) (h0 : 0 ≤ ε) (h1 : ε ≤ 1)

namespace Estimate

include hm hw in
theorem toward_beeline (t u : NodeId) : (beeline n distance w (.finite ε)).toward (some t) u =
    .finite ((distance (n.position u) (n.position t)).value * rate * ε) := by
  change distance (n.position u) (n.position t) * w.minWeight 1.0 * .finite ε = _
  rw [hm.eq_finite, hw.minWeight, Exact.finite_mul_finite, Exact.finite_mul_finite,
    Exact.value_finite]

include hm hw h0 h1 in
theorem toward_beeline_le {x y t : NodeId} {c : Exact}
    (hc : .finite ((distance (n.position x) (n.position y)).value * rate) ≤ c) :
    (beeline n distance w (.finite ε)).toward (some t) x ≤
      c + (beeline n distance w (.finite ε)).toward (some t) y := by
  rw [toward_beeline hm hw, toward_beeline hm hw]
  have hrate := hw.nonneg
  have hnonneg := mul_nonneg (hm.value_nonneg (n.position x) (n.position y)) hrate
  have htriangle := hm.value_triangle (n.position x) (n.position y) (n.position t)
  cases c with
  | nan => cases hc
  | negInfinity => exact absurd hc (Exact.not_finite_le_negInfinity _)
  | infinity => rfl
  | finite c =>
    rw [Exact.finite_le_finite] at hc
    rw [Exact.finite_add_finite, Exact.finite_le_finite]
    set a := (distance (n.position x) (n.position y)).value
    set b := (distance (n.position y) (n.position t)).value
    calc _ ≤ (a + b) * rate * ε := by gcongr
      _ = a * rate * ε + b * rate * ε := by ring
      _ ≤ c + b * rate * ε := by
          gcongr
          exact (mul_le_of_le_one_right hnonneg h1).trans hc

include hn hm hcovers hw in
theorem exists_weight {u : NodeId} {d : Direction} {e : EdgeView Exact} (he : e ∈ n.edges u d)
    (before : Option EdgeId) : ∃ c, w.weight e d before = .ok c ∧ .finite ((distance
      (n.position (e.traveled d).base) (n.position (e.traveled d).adj)).value * rate) ≤ c := by
  refine hw.weight before he (hm.value_nonneg _ _) ?_
  rw [← hm.eq_finite, ← e.distance_traveled d]
  exact hcovers (hn.traveled_mem he)

include hn hm hcovers hw h0 h1

theorem toward_beeline_le_total {u t : NodeId} {es : List (EdgeView Exact)} (hwalk : n.Walk u es t)
    (before : Option EdgeId) : ∃ x, totalAlong (w.weight · .forward ·) before es = some x ∧
      (beeline n distance w (.finite ε)).toward (some t) u ≤ x := by
  induction hwalk generalizing before with
  | nil u =>
    refine ⟨0, rfl, ?_⟩
    rw [toward_beeline hm hw, hm.self, Exact.zero_eq, Exact.finite_le_finite]
    simp
  | @cons u t e es he _ ih =>
    obtain ⟨c, hc, hle⟩ := exists_weight hn hm hcovers hw he before
    rw [e.traveled_forward, hn.base_eq he] at hle
    obtain ⟨x, hx, hlex⟩ := ih (some e.edge)
    have hnonneg : 0 ≤ c :=
      IsOrdered.le_trans (Exact.finite_le_finite.2 (mul_nonneg (hm.value_nonneg _ _) hw.nonneg)) hle
    refine ⟨c + x, by rw [totalAlong_cons, hc, hx]; rfl, ?_⟩
    have hstep := toward_beeline_le (t := t) hm hw h0 h1 hle
    rw [toward_beeline hm hw, toward_beeline hm hw] at hstep
    rw [toward_beeline hm hw] at hlex ⊢
    exact Exact.finite_le_add_of_le hnonneg hstep hlex

end Estimate

end Beeline

namespace SearchSettings

variable {s : SearchSettings Exact} {stored : EdgeId → Option (StoredEdge Exact)}
variable {distance : Position Exact → Position Exact → Exact} {rate ε : Rat}
variable (hn : s.network.Shows stored) (hm : IsMetric distance) (hcovers : s.network.Covers distance)
variable (hw : s.weighting.ChargesLength s.network rate) (h0 : 0 ≤ ε) (h1 : ε ≤ 1)
include hn hm hcovers hw h0 h1

theorem isConsistentBetween_beeline (source target : NodeId) : s.IsConsistentBetween
    (.beeline s.network distance s.weighting (.finite ε)) source target where
  target_finite _ _ := ⟨_, Estimate.toward_beeline hm hw _ _⟩
  source_finite _ _ := ⟨_, Estimate.toward_beeline hm hw _ _⟩
  target_le {u d e before c} he hc := by
    obtain ⟨c', hc', hle⟩ := Estimate.exists_weight hn hm hcovers hw he before
    cases hc.symm.trans hc'
    exact Estimate.toward_beeline_le hm hw h0 h1 hle
  source_le {u d e before c} he hc := by
    obtain ⟨c', hc', hle⟩ := Estimate.exists_weight hn hm hcovers hw he before
    cases hc.symm.trans hc'
    rw [hm.symm] at hle
    exact Estimate.toward_beeline_le hm hw h0 h1 hle

end SearchSettings

theorem SearchSettings.IsConsistentBetween.zero_le_balanced {s : SearchSettings Exact}
    {stored : EdgeId → Option (StoredEdge Exact)} (hn : s.network.Shows stored)
    {h : Estimate Exact} {source target : NodeId} (hc : s.IsConsistentBetween h source target)
    (hw : s.weighting.IsNonneg s.network) {u : NodeId} {d : Direction} {e : EdgeView Exact}
    {before : Option EdgeId} {c : Exact} (he : e ∈ s.network.edges u d)
    (hweight : s.weighting.weight e d before = .ok c) :
    0 ≤ c + h.balanced source target d e.adj - h.balanced source target d u := by
  obtain ⟨x, hx⟩ := hc.balanced_finite d (hn.lt_of_mem he)
  obtain ⟨y, hy⟩ := hc.balanced_finite d (hn.adj_lt_of_mem he)
  have hle := (hc.isConsistent hn hw d).le he hweight
  rw [hx, hy] at hle ⊢
  exact (Exact.zero_le_add_sub_iff (hw.weight he hweight)).2 hle

theorem Estimate.balanced_add_balanced {h : Estimate Exact} {source target u : NodeId} {x y : Rat}
    (hx : h.toward (some target) u = .finite x) (hy : h.toward (some source) u = .finite y) :
    h.balanced source target .forward u + h.balanced source target .backward u = 0 := by
  simp only [balanced, hx, hy, Exact.half_eq, Exact.finite_sub_finite, Exact.finite_mul_finite,
    Exact.finite_add_finite, Exact.zero_eq]
  congr 1
  ring

/-- The straight-line estimate never overshoots what a walk to the target costs, also where it is
scaled down. Its balanced pair is consistent in both directions of search and cancels out. -/
theorem beeline_is_consistent {s : SearchSettings Exact} (hn : s.network.IsBuilt)
    {distance : Position Exact → Position Exact → Exact} (hm : IsMetric distance)
    (hcovers : s.network.Covers distance) (hw : s.weighting.IsCapped s.network) {ε : Rat}
    (h0 : 0 ≤ ε) (h1 : ε ≤ 1) (source target : NodeId) :
    let h : Estimate Exact := .beeline s.network distance s.weighting (.finite ε)
    (∀ u es before, s.network.Walk u es target →
      ∃ x, totalAlong (s.weighting.weight · .forward ·) before es = some x ∧
        h.toward (some target) u ≤ x) ∧
    (∀ u d e before, e ∈ s.network.edges u d → ∃ c, s.weighting.weight e d before = .ok c ∧
      0 ≤ c + h.balanced source target d e.adj - h.balanced source target d u) ∧
    (∀ u, h.balanced source target .forward u + h.balanced source target .backward u = 0) ∧
    s.IsConsistentBetween h source target := by
  intro h
  obtain ⟨stored, hshows⟩ := hn.exists_shows
  obtain ⟨rate, hrate⟩ := hw.exists_chargesLength hshows
  have hdistance : ∀ {u d e}, e ∈ s.network.edges u d → 0 ≤ e.distance := by
    intro u d e he
    rw [← e.distance_traveled d]
    exact IsOrdered.le_trans (hm.nonneg _ _) (hcovers (hshows.traveled_mem he))
  have hnonneg := hw.isAssembled.isNonneg hdistance
  have hc : s.IsConsistentBetween h source target :=
    SearchSettings.isConsistentBetween_beeline hshows hm hcovers hrate h0 h1 source target
  refine ⟨fun u es before hwalk ↦ ?_, fun u d e before he ↦ ?_, fun u ↦ ?_, hc⟩
  · exact Estimate.toward_beeline_le_total hshows hm hcovers hrate h0 h1 hwalk before
  · obtain ⟨c, hweight, _⟩ := Estimate.exists_weight hshows hm hcovers hrate he before
    exact ⟨c, hweight, hc.zero_le_balanced hshows hnonneg he hweight⟩
  · exact Estimate.balanced_add_balanced (Estimate.toward_beeline hm hrate _ _)
      (Estimate.toward_beeline hm hrate _ _)

def alongGrid (p q : Position Exact) : Exact :=
  .finite (|p.x.value - q.x.value| + |p.y.value - q.y.value|)

theorem isMetric_alongGrid : IsMetric alongGrid where
  finite p q := ⟨_, by positivity, rfl⟩
  self p := by simp [alongGrid, Exact.zero_eq]
  symm p q := by rw [alongGrid, alongGrid, abs_sub_comm, abs_sub_comm p.y.value]
  triangle p q r := by
    have hx := abs_sub_le p.x.value q.x.value r.x.value
    have hy := abs_sub_le p.y.value q.y.value r.y.value
    rw [alongGrid, alongGrid, alongGrid, Exact.finite_add_finite, Exact.finite_le_finite]
    linarith

def bentRoads : SearchSettings Exact where
  network := (RoadGraph.ofPlaces
    [⟨.finite 0, .finite 0⟩, ⟨.finite 3, .finite 4⟩, ⟨.finite 6, .finite 0⟩]
    [.twoWay 0 1 (.finite 10) (.finite 36), .oneWay 1 2 (.finite 8) (.finite 48)]).network
  weighting := (Weighting.fastest .stored (.finite 72)).withTurns fun a _ b ↦
    if a = b then .infinity else .finite 2
  mode := .edgeBased
  visitLimit := noVisitLimit

theorem beeline_is_consistent_bentRoads :
    let h : Estimate Exact :=
      .beeline bentRoads.network alongGrid bentRoads.weighting (.finite (5 / 6))
    bentRoads.network.IsBuilt ∧ bentRoads.network.Covers alongGrid ∧
      bentRoads.weighting.IsCapped bentRoads.network ∧ h.toward (some 2) 0 = .finite (1 / 4) ∧
      (∃ es, bentRoads.network.Walk 0 es 2 ∧
        totalAlong (bentRoads.weighting.weight · .forward ·) none es = some (.finite 3.6) ∧
        .finite (1 / 4) ≤ (.finite 3.6 : Exact)) ∧
      bentRoads.IsConsistentBetween h 0 2 := by
  intro h
  have hn : bentRoads.network.IsBuilt := .road (RoadGraph.isBuilt_ofPlaces _ _)
  obtain ⟨stored, hshows⟩ := hn.exists_shows
  have hall : ∀ u < bentRoads.network.nodeCount, ∀ d ∈ [Direction.forward, .backward],
      ∀ e ∈ bentRoads.network.edges u d,
      alongGrid (bentRoads.network.position u) (bentRoads.network.position e.adj) ≤ e.distance ∧
        (e.speed.get (e.reading d) = .finite 36 ∨ e.speed.get (e.reading d) = .finite 48) := by
    decide +kernel
  have hcovers : bentRoads.network.Covers alongGrid :=
    fun he ↦ (hall _ (hshows.lt_of_mem he) .forward (by simp) _ he).1
  have hcapped : bentRoads.weighting.IsCapped bentRoads.network := by
    refine .withTurns (.fastest (by decide +kernel) fun {u d e} he ↦ ?_) fun a v b ↦ ?_
    · obtain ⟨_, hspeed | hspeed⟩ := hall u (hshows.lt_of_mem he) d (by cases d <;> simp) e he
      · exact ⟨36, by norm_num, by decide +kernel, hspeed⟩
      · exact ⟨48, by norm_num, by decide +kernel, hspeed⟩
    · split
      · rfl
      · exact Exact.finite_le_finite.2 zero_le_two
  have h0 : (0 : Rat) ≤ 5 / 6 := by norm_num
  obtain ⟨hwalks, _, _, hconsistent⟩ :=
    beeline_is_consistent hn isMetric_alongGrid hcovers hcapped h0 (by norm_num) 0 2
  have hestimate : h.toward (some 2) 0 = .finite (1 / 4) := by decide +kernel
  let es := [(StoredEdge.twoWay 0 1 (Exact.finite 10) (.finite 36)).view 0 0,
    (StoredEdge.oneWay 1 2 (Exact.finite 8) (.finite 48)).view 1 1]
  have hwalk : bentRoads.network.Walk 0 es 2 :=
    .cons (by decide +kernel) (.cons (by decide +kernel) (.nil 2))
  have htotal : totalAlong (bentRoads.weighting.weight · .forward ·) none es =
      some (.finite 3.6) := by
    decide +kernel
  obtain ⟨x, hx, hle⟩ := hwalks 0 es none hwalk
  cases htotal.symm.trans hx
  exact ⟨hn, hcovers, hcapped, hestimate, ⟨es, hwalk, htotal, hestimate ▸ hle⟩, hconsistent⟩

end RoadRouting
