import RoadRouting.Proofs.Search.Arrivals
import RoadRouting.Proofs.Search.Finality

namespace RoadRouting

open Scalar (Exact IsOrdered)
open Bidirectional (Method Query State)

namespace SearchSettings

variable (s : SearchSettings Exact)

/-- An estimate that is finite and never falls by more than an edge costs, whatever is traveled before
it. -/
structure IsConsistent (d : Direction) (estimate : NodeId → Exact) : Prop where
  finite : ∀ u < s.network.nodeCount, ∃ x, estimate u = .finite x
  le : ∀ {u e before c}, e ∈ s.network.edges u d → s.weighting.weight e d before = .ok c →
    estimate u ≤ c + estimate e.adj

/-- The same toward both ends of a query, along every edge that is traveled. -/
structure IsConsistentBetween (h : Estimate Exact) (source target : NodeId) : Prop where
  target_finite : ∀ u < s.network.nodeCount, ∃ x, h.toward (some target) u = .finite x
  source_finite : ∀ u < s.network.nodeCount, ∃ x, h.toward (some source) u = .finite x
  target_le : ∀ {u d e before c}, e ∈ s.network.edges u d → s.weighting.weight e d before = .ok c →
    h.toward (some target) (e.traveled d).base ≤ c + h.toward (some target) (e.traveled d).adj
  source_le : ∀ {u d e before c}, e ∈ s.network.edges u d → s.weighting.weight e d before = .ok c →
    h.toward (some source) (e.traveled d).adj ≤ c + h.toward (some source) (e.traveled d).base

variable {s} {d : Direction} {estimate : NodeId → Exact}
variable {stored : EdgeId → Option (StoredEdge Exact)}

theorem isConsistent_zero (hw : s.weighting.IsNonneg s.network) (d : Direction) :
    s.IsConsistent d fun _ ↦ 0 where
  finite _ _ := ⟨0, rfl⟩
  le he hc := IsOrdered.le_trans (hw.weight he hc) (IsOrdered.le_add (hw.weight he hc)
    IsOrdered.zero_le_zero)

section Turns

variable {turns : TurnCosts Exact} (hturns : ∀ a v b, 0 ≤ turns a v b)
variable (hw : s.weighting.IsNonneg s.network)
include hturns hw

theorem le_weight_withTurns {u : NodeId} {e : EdgeView Exact} {before : Option EdgeId} {c : Exact}
    {x y : Rat} (he : e ∈ s.network.edges u d)
    (hle : ∀ c, s.weighting.weight e d before = .ok c → .finite y ≤ c + .finite x)
    (hc : (s.weighting.withTurns turns).weight e d before = .ok c) :
    .finite y ≤ c + .finite x := by
  obtain ⟨c', hc', hsum⟩ := exists_ok_of_bind hc
  cases hsum
  have hle' := hle c' hc'
  rcases Exact.zero_le_iff.1 (Weighting.turnWeight_nonneg hturns e d before) with hinf | ⟨τ, hτ, hfin⟩
  · rcases Exact.zero_le_iff.1 (hw.weight he hc') with rfl | ⟨q, _, rfl⟩
    · rw [hinf]
      rfl
    · rw [hinf]
      rfl
  · rcases Exact.zero_le_iff.1 (hw.weight he hc') with rfl | ⟨q, _, rfl⟩
    · rw [hfin]
      rfl
    · rw [Exact.finite_add_finite, Exact.finite_le_finite] at hle'
      rw [hfin, Exact.finite_add_finite, Exact.finite_add_finite, Exact.finite_le_finite]
      linarith

theorem IsConsistentBetween.withTurns {h : Estimate Exact} {source target : NodeId}
    (hn : s.network.Shows stored) (hc : s.IsConsistentBetween h source target) :
    { s with weighting := s.weighting.withTurns turns }.IsConsistentBetween h source target where
  target_finite := hc.target_finite
  source_finite := hc.source_finite
  target_le {u d e before c} he hweight := by
    have htraveled := hn.traveled_mem he
    obtain ⟨x, hx⟩ := hc.target_finite _ (hn.lt_of_mem htraveled)
    obtain ⟨y, hy⟩ := hc.target_finite _ (hn.adj_lt_of_mem htraveled)
    rw [hx, hy]
    refine le_weight_withTurns hturns hw he (fun c hplain ↦ ?_) hweight
    have hle := hc.target_le he hplain
    rwa [hx, hy] at hle
  source_le {u d e before c} he hweight := by
    have htraveled := hn.traveled_mem he
    obtain ⟨x, hx⟩ := hc.source_finite _ (hn.adj_lt_of_mem htraveled)
    obtain ⟨y, hy⟩ := hc.source_finite _ (hn.lt_of_mem htraveled)
    rw [hx, hy]
    refine le_weight_withTurns hturns hw he (fun c hplain ↦ ?_) hweight
    have hle := hc.source_le he hplain
    rwa [hx, hy] at hle

end Turns

theorem IsConsistentBetween.toward {h : Estimate Exact} {source target : NodeId}
    (hn : s.network.Shows stored) (hc : s.IsConsistentBetween h source target) :
    s.IsConsistent .forward (h.toward (some target)) where
  finite := hc.target_finite
  le {u e before c} he hweight := by
    have hle := hc.target_le he hweight
    rwa [EdgeView.traveled_forward, hn.base_eq he] at hle

section Guided

variable (hn : s.network.Shows stored)
include hn

theorem IsConsistent.isGuided {w : Sweep s} (hc : s.IsConsistent w.direction estimate)
    (ht : w.IsTimeless) (horigin : w.origin < s.network.nodeCount)
    (hroot : w.root.priority = estimate w.origin)
    (hextend : ∀ {x id l e cost}, w.explores x →
      x.extend id l e cost = .ok (.step e (cost + estimate e.adj) cost id)) :
    w.IsGuided fun u ↦ (estimate u).value where
  origin_lt := horigin
  root := by
    obtain ⟨y, hy⟩ := hc.finite w.origin horigin
    rw [hroot, hy, Exact.value_finite]
  priority {x u id l e g made} hx he hmade := by
    obtain ⟨y, hy⟩ := hc.finite e.adj (hn.adj_lt_of_mem he)
    cases (hextend hx).symm.trans hmade
    rw [Label.step, hy, Exact.value_finite, Exact.finite_add_finite]
  falls {x u l e q} hx he hq := by
    obtain ⟨y, hy⟩ := hc.finite u (hn.lt_of_mem he)
    obtain ⟨z, hz⟩ := hc.finite e.adj (hn.adj_lt_of_mem he)
    have hle := hc.le he ((ht hx).symm.trans hq)
    rw [hy, hz, Exact.finite_add_finite, Exact.finite_le_finite] at hle
    rwa [hy, hz, Exact.value_finite, Exact.value_finite]

omit hn in
theorem IsConsistentBetween.balanced_finite {h : Estimate Exact} {source target : NodeId}
    (hc : s.IsConsistentBetween h source target) (d : Direction) {u : NodeId}
    (hu : u < s.network.nodeCount) : ∃ x, h.balanced source target d u = .finite x := by
  obtain ⟨x, hx⟩ := hc.target_finite u hu
  obtain ⟨y, hy⟩ := hc.source_finite u hu
  cases d with
  | forward => exact ⟨_, by rw [Estimate.balanced, hx, hy, Exact.half_eq]; rfl⟩
  | backward => exact ⟨_, by rw [Estimate.balanced, hx, hy, Exact.half_eq]; rfl⟩

theorem IsConsistentBetween.isConsistent {h : Estimate Exact} {source target : NodeId}
    (hc : s.IsConsistentBetween h source target) (hw : s.weighting.IsNonneg s.network)
    (d : Direction) : s.IsConsistent d (h.balanced source target d) where
  finite _ hu := hc.balanced_finite d hu
  le {u e before c} he hweight := by
    have hu := hn.lt_of_mem he
    have hadj := hn.adj_lt_of_mem he
    rcases Exact.zero_le_iff.1 (hw.weight he hweight) with rfl | ⟨q, _, rfl⟩
    · obtain ⟨x, hx⟩ := hc.balanced_finite d hu
      obtain ⟨y, hy⟩ := hc.balanced_finite d hadj
      rw [hx, hy]
      rfl
    · have htarget := hc.target_le he hweight
      have hsource := hc.source_le he hweight
      have hbase := hn.base_eq he
      obtain ⟨x, hx⟩ := hc.target_finite u hu
      obtain ⟨y, hy⟩ := hc.source_finite u hu
      obtain ⟨x', hx'⟩ := hc.target_finite e.adj hadj
      obtain ⟨y', hy'⟩ := hc.source_finite e.adj hadj
      cases d with
      | forward =>
        rw [EdgeView.traveled_forward, hbase, hx, hx', Exact.finite_add_finite,
          Exact.finite_le_finite] at htarget
        rw [EdgeView.traveled_forward, hbase, hy, hy', Exact.finite_add_finite,
          Exact.finite_le_finite] at hsource
        simp only [Estimate.balanced, hx, hy, hx', hy', Exact.half_eq, Exact.finite_sub_finite,
          Exact.finite_mul_finite, Exact.finite_add_finite, Exact.finite_le_finite]
        linarith
      | backward =>
        rw [EdgeView.traveled_backward, EdgeView.base_fromEnd, EdgeView.adj_fromEnd, hbase, hx, hx',
          Exact.finite_add_finite, Exact.finite_le_finite] at htarget
        rw [EdgeView.traveled_backward, EdgeView.base_fromEnd, EdgeView.adj_fromEnd, hbase, hy, hy',
          Exact.finite_add_finite, Exact.finite_le_finite] at hsource
        simp only [Estimate.balanced, hx, hy, hx', hy', Exact.half_eq, Exact.finite_sub_finite,
          Exact.finite_mul_finite, Exact.finite_add_finite, Exact.finite_le_finite]
        linarith

end Guided

theorem isGuided_timedSweep (hw : s.weighting.IsNonneg s.network) {start : NodeId}
    (hstart : start < s.network.nodeCount) (d : Direction) (t : Instant) :
    (s.timedSweep d start t).IsGuided fun _ ↦ 0 where
  origin_lt := hstart
  root := rfl
  priority {x u id l e g made} hx _ hmade := by
    subst hx
    obtain ⟨duration, _, hmade⟩ := exists_ok_of_bind hmade
    cases hmade
    exact (Exact.finite_add_zero g).symm
  falls {x u l e q} hx he hq := by
    subst hx
    have hnonneg := hw.weightAt he hq
    rw [Exact.zero_eq, Exact.finite_le_finite] at hnonneg
    rwa [add_zero]

end SearchSettings

inductive Sweep.IsConsistent : {s : SearchSettings Exact} → Sweep s → Prop
  | oneEnd {s : SearchSettings Exact} {estimate : NodeId → Exact} (source : NodeId) :
      s.IsConsistent .forward estimate → IsConsistent (s.sweep estimate source)
  | timed {s : SearchSettings Exact} (d : Direction) (start : NodeId) (t : Instant) :
      IsConsistent (s.timedSweep d start t)
  | bothEnds {σ : Type} {p : Method Exact σ} {q : Query} (d : Direction) :
      p.settings.IsConsistentBetween p.estimate q.source q.target → IsConsistent (p.sweep q d)

theorem Sweep.IsConsistent.exists_isGuided {s : SearchSettings Exact} {w : Sweep s}
    {stored : EdgeId → Option (StoredEdge Exact)} (h : w.IsConsistent) (hn : s.network.Shows stored)
    (hw : s.weighting.IsNonneg s.network) (horigin : w.origin < s.network.nodeCount) :
    w.IsAsked ∧ ∃ π, w.IsGuided π := by
  cases h with
  | oneEnd source hc =>
    refine ⟨.oneEnd _ _, _, hc.isGuided hn (isTimeless_sweep _ _) horigin rfl ?_⟩
    rintro x id l e cost rfl
    rfl
  | timed d start t => exact ⟨.timed _ _ _, _, SearchSettings.isGuided_timedSweep hw horigin d t⟩
  | bothEnds d hc =>
    refine ⟨.bothEnds _ _ _, _, (hc.isConsistent hn hw d).isGuided hn (isTimeless_side _ _ _) horigin
      rfl ?_⟩
    rintro x id l e cost ⟨pin, rfl⟩
    rfl

section Counts

variable {Q M : Type} [PriorityQueue Q Exact] [LawfulQueue Q] [BestMap M]
variable {s : SearchSettings Exact} (hn : s.network.IsBuilt) (hw : s.weighting.IsNonneg s.network)
include hn hw

theorem Sweep.IsConsistent.isFinal {w : Sweep s} {taken : List (LabelId × Label Exact)}
    {f : Frontier Exact Q M} (h : w.IsConsistent) (horigin : w.origin < s.network.nodeCount)
    (hcourse : w.Course taken f) : w.IsFinal taken f := by
  obtain ⟨stored, hshows⟩ := hn.exists_shows
  obtain ⟨hasked, π, hguided⟩ := h.exists_isGuided hshows hw horigin
  exact hcourse.isFinal (hasked.isSound hw) hguided hshows

theorem Sweep.IsConsistent.count_le {w : Sweep s} {f : Frontier Exact Q M} {count : Nat}
    (h : w.IsConsistent) (horigin : w.origin < s.network.nodeCount)
    (hreach : w.ReachesAfter f count) :
    count ≤ s.stateCount w.direction := by
  obtain ⟨taken, hcourse, rfl⟩ := hreach
  exact (h.isFinal hn hw horigin hcourse).length_le

namespace SearchSettings

variable {source target : NodeId}

theorem bestRoute_visited_le_stateCount {h : Estimate Exact}
    (hc : s.IsConsistent .forward (h.toward (some target))) :
    (s.bestRoute Q M h source target).visited ≤ s.stateCount .forward := by
  rw [bestRoute]
  cases hcheck : s.checkNodes [source, target] with
  | error _ => exact Nat.zero_le _
  | ok _ =>
    have hsource := checkNodes_eq_ok_iff.1 hcheck source List.mem_cons_self
    exact (Sweep.IsConsistent.oneEnd source hc).count_le hn hw hsource
      (Sweep.reachesAfter_exploreToward Q M s source target h)

theorem bestRoutes_visited_le_stateCount {targets : List NodeId} :
    (s.bestRoutes Q M source targets).visited ≤ s.stateCount .forward := by
  rw [bestRoutes]
  cases hcheck : s.checkNodes (source :: targets) with
  | error _ => exact Nat.zero_le _
  | ok _ =>
    have hsource := checkNodes_eq_ok_iff.1 hcheck source List.mem_cons_self
    exact (Sweep.IsConsistent.oneEnd source (isConsistent_zero hw .forward)).count_le hn hw hsource
      (Sweep.reachesAfter_exploreAll Q M s source targets)

theorem bestRouteAt_visited_le_stateCount {d : Direction} {t : Instant} :
    (s.bestRouteAt Q M d source target t).visited ≤ s.stateCount d := by
  unfold bestRouteAt
  cases hcheck : s.checkNodes [source, target] with
  | error _ => exact Nat.zero_le _
  | ok _ =>
    have hnodes := checkNodes_eq_ok_iff.1 hcheck
    cases d with
    | forward =>
      exact (Sweep.IsConsistent.timed .forward source t).count_le hn hw (hnodes source (by simp))
        (Sweep.reachesAfter_exploreFrom Q M s .forward source target t)
    | backward =>
      exact (Sweep.IsConsistent.timed .backward target t).count_le hn hw (hnodes target (by simp))
        (Sweep.reachesAfter_exploreFrom Q M s .backward target source t)

end SearchSettings

/-- Nothing that a search has settled changes, so each state is settled once: with times or without,
from one end or from both, if the estimate is consistent. Without an estimate it always is. -/
theorem SearchSettings.settles_each_state_once :
    (∀ {w : Sweep s} {taken} {f : Frontier Exact Q M}, w.IsConsistent →
      w.origin < s.network.nodeCount → w.Course taken f → w.IsFinal taken f) ∧
    s.IsConsistent .forward (fun _ ↦ 0) ∧
    (∀ {h source target}, s.IsConsistent .forward (h.toward (some target)) →
      (s.bestRoute Q M h source target).visited ≤ s.stateCount .forward) ∧
    (∀ {source targets}, (s.bestRoutes Q M source targets).visited ≤ s.stateCount .forward) ∧
    (∀ {d source target t}, (s.bestRouteAt Q M d source target t).visited ≤ s.stateCount d) ∧
    ∀ {σ} {p : Method Exact σ} {q}, p.settings = s →
      s.IsConsistentBetween p.estimate q.source q.target →
      (∀ d, q.root d < s.network.nodeCount) →
      ∀ d, ((p.search q : State Exact Q M σ × _).1.side d).visited ≤ s.stateCount d := by
  refine ⟨fun h horigin hcourse ↦ h.isFinal hn hw horigin hcourse, isConsistent_zero hw .forward,
    fun hc ↦ bestRoute_visited_le_stateCount hn hw hc, bestRoutes_visited_le_stateCount hn hw,
    bestRouteAt_visited_le_stateCount hn hw, ?_⟩
  rintro σ p q rfl hc hroot d
  exact (Sweep.IsConsistent.bothEnds d hc).count_le hn hw (hroot d) (p.sidesReached_search q d)

end Counts

def rowEstimate : Estimate Exact :=
  ⟨"row", fun target node ↦ .finite (10 * |(node : Rat) - (target.getD 0 : NodeId)|)⟩

theorem isConsistentBetween_barredTurn :
    (Roads.barredTurn.settings (.shortest .stored) 9).IsConsistentBetween rowEstimate 0 2 := by
  have hn : Roads.barredTurn.network.IsBuilt := isBuilt_network_ofEdges _ _
  obtain ⟨stored, hshows⟩ := hn.exists_shows
  have hall : ∀ u < Roads.barredTurn.network.nodeCount, ∀ d ∈ [Direction.forward, .backward],
      ∀ e ∈ Roads.barredTurn.network.edges u d,
      rowEstimate.toward (some 2) (e.traveled d).base ≤
          e.distance + rowEstimate.toward (some 2) (e.traveled d).adj ∧
        rowEstimate.toward (some 0) (e.traveled d).adj ≤
          e.distance + rowEstimate.toward (some 0) (e.traveled d).base := by
    decide +kernel
  have hle : ∀ {u d e before c}, e ∈ Roads.barredTurn.network.edges u d →
      (Weighting.shortest .stored).weight e d before = .ok c →
      rowEstimate.toward (some 2) (e.traveled d).base ≤
          c + rowEstimate.toward (some 2) (e.traveled d).adj ∧
        rowEstimate.toward (some 0) (e.traveled d).adj ≤
          c + rowEstimate.toward (some 0) (e.traveled d).base := by
    intro u d e before c he hc
    have hc : (.ok (if e.isOpen d then e.distance else Scalar.infinity) :
        Except (QueryError Exact) Exact) = .ok c := hc
    rw [if_pos (hshows.isOpen he)] at hc
    cases hc
    exact hall u (hshows.lt_of_mem he) d (by cases d <;> simp) e he
  exact ⟨fun _ _ ↦ ⟨_, rfl⟩, fun _ _ ↦ ⟨_, rfl⟩, fun he hc ↦ (hle he hc).1, fun he hc ↦ (hle he hc).2⟩

theorem settles_each_state_once_barredTurn :
    let s := Roads.barredTurn.settings ((Weighting.shortest .stored).withTurns Roads.barredTurn.turns) 9
    let explored := s.exploreToward (SortedQueue Exact) SparseMap rowEstimate 0 2
    let p : Method Exact Unit := ⟨s, rowEstimate, .never, 0⟩
    (∃ taken, (s.sweep (rowEstimate.toward (some 2)) 0).IsFinal taken explored.frontier ∧
      taken.length = 4) ∧ s.stateCount .forward = 5 ∧
      ∀ d, ((p.search ⟨0, 2, none, none⟩ :
        State Exact (SortedQueue Exact) SparseMap Unit × _).1.side d).visited ≤ s.stateCount d := by
  intro s explored p
  have hn : s.network.IsBuilt := isBuilt_network_ofEdges _ _
  obtain ⟨stored, hshows⟩ := hn.exists_shows
  have hturns : ∀ a v b, 0 ≤ Roads.barredTurn.turns a v b := by
    intro a v b
    unfold Roads.barredTurn
    dsimp only
    split
    · rfl
    · exact Exact.finite_le_finite.2 zero_le_one
  let plain := Roads.barredTurn.settings (.shortest .stored) 9
  have hplain : plain.weighting.IsNonneg plain.network :=
    (Weighting.IsAssembled.shortest .stored).isNonneg_of_isMeasured hn Roads.isMeasured_barredTurn
  have hw : s.weighting.IsNonneg s.network := hplain.withTurns hturns
  have hc : s.IsConsistentBetween rowEstimate 0 2 :=
    SearchSettings.IsConsistentBetween.withTurns (s := plain) hturns hplain hshows
      isConsistentBetween_barredTurn
  obtain ⟨hfinal, _, _, _, _, hboth⟩ :=
    SearchSettings.settles_each_state_once (Q := SortedQueue Exact) (M := SparseMap) hn hw
  obtain ⟨taken, hcourse, hcount⟩ :=
    Sweep.reachesAfter_exploreToward (SortedQueue Exact) SparseMap s 0 2 rowEstimate
  refine ⟨⟨taken, ?_, ?_⟩, ?_, ?_⟩
  · exact hfinal (.oneEnd 0 (hc.toward hshows)) (by decide +kernel) hcourse
  · exact hcount.trans (by decide +kernel)
  · decide +kernel
  · exact hboth rfl hc fun d ↦ by cases d <;> decide +kernel

end RoadRouting
