import RoadRouting.Proofs.Search.Found
import RoadRouting.Proofs.Search.Settled
import RoadRouting.Proofs.Roads.Pricing
import RoadRouting.Proofs.Weighting.Nonneg

namespace RoadRouting

open Scalar (Exact IsOrdered)

variable {K : Type}

/-- A time without bounds, and what is charged for an edge that is explored then. -/
structure Leg (K : Type) where
  time : Int
  weight : K
  duration : Duration

def Leg.total (legs : List (Leg K)) : Nat := (legs.map (·.duration.toNat)).sum

def Direction.later : Direction → Int → Duration → Int
  | .forward, t, δ => t + δ.toNat
  | .backward, t, δ => t - δ.toNat

def Direction.endOf (d : Direction) (t : Int) (legs : List (Leg K)) : Int :=
  legs.foldl (fun t leg ↦ d.later t leg.duration) t

/-- Explores edges one after the other, beginning at a time. -/
def Weighting.replay (w : Weighting K) (d : Direction) :
    Option EdgeId → Int → List (EdgeView K) → Except (QueryError K) (List (Leg K))
  | _, _, [] => .ok []
  | before, t, e :: es => do
    let weight ← w.weightAt e d before (.ofInt t)
    let duration ← w.durationAt e d before (.ofInt t)
    return ⟨t, weight, duration⟩ :: (← w.replay d (some e.edge) (d.later t duration) es)

def EdgeView.lastOf (before : Option EdgeId) (es : List (EdgeView K)) : Option EdgeId :=
  es.foldl (fun _ e ↦ some e.edge) before

/-- The edges of a route as they were explored; a search that begins at the target sees them from
their other ends. -/
def Route.explored (r : Route K) : Direction → List (EdgeView K)
  | .forward => r.edges
  | .backward => (r.edges.map (·.reversed)).reverse

namespace Direction

variable {d : Direction} {t : Int} {legs : List (Leg K)}

theorem endOf_append (legs : List (Leg K)) (leg : Leg K) :
    d.endOf t (legs ++ [leg]) = d.later (d.endOf t legs) leg.duration := by
  simp [endOf]

theorem endOf_eq : d.endOf t legs = t + Leg.total legs ∨ d.endOf t legs = t - Leg.total legs := by
  cases d with
  | forward =>
    left
    induction legs using List.reverseRecOn with
    | nil => simp [endOf, Leg.total]
    | append_singleton legs leg ih =>
      rw [endOf_append, ih]
      simp [later, Leg.total, Int.add_assoc]
  | backward =>
    right
    induction legs using List.reverseRecOn with
    | nil => simp [endOf, Leg.total]
    | append_singleton legs leg ih =>
      rw [endOf_append, ih]
      simp [later, Leg.total, Int.sub_sub]

theorem ofInt_toNat (δ : Duration) : Int64.ofInt δ.toNat = δ.toInt64 := by
  rw [Int64.ofInt_eq_iff_bmod_eq_toInt, ← Int64.toInt_toBitVec, UInt64.toBitVec_toInt64,
    BitVec.toInt_eq_toNat_bmod]
  rfl

theorem ofInt_later (t : Int) (δ : Duration) : Int64.ofInt (d.later t δ) =
    match d with
    | .forward => .ofInt t + δ.toInt64
    | .backward => .ofInt t - δ.toInt64 := by
  cases d with
  | forward => exact (Int64.ofInt_add t δ.toNat).trans (congrArg _ (ofInt_toNat δ))
  | backward => exact (Int64.ofInt_sub t δ.toNat).trans (congrArg _ (ofInt_toNat δ))

theorem timeBetween_endOf {t : Instant} (hlt : Leg.total legs < 2 ^ 63) :
    (SearchSettings.timeBetween (.ofInt (d.endOf t.toInt legs)) t).toNat = Leg.total legs := by
  have hend : d.endOf t.toInt legs = t.toInt + Leg.total legs ∨
      d.endOf t.toInt legs = t.toInt - Leg.total legs := d.endOf_eq
  have hdiff : (Int64.ofInt (d.endOf t.toInt legs) - t).toInt =
      d.endOf t.toInt legs - t.toInt := by
    have hsub : Int64.ofInt (d.endOf t.toInt legs) - t =
        .ofInt (d.endOf t.toInt legs - t.toInt) := by
      rw [Int64.ofInt_sub, Int64.ofInt_toInt]
    rw [hsub]
    apply Int64.toInt_ofInt_of_le
    · omega
    · omega
  have habs : (d.endOf t.toInt legs - t.toInt).natAbs = Leg.total legs := by omega
  rw [SearchSettings.timeBetween, hdiff, habs]
  exact UInt64.toNat_ofNat_of_lt' (Nat.lt_trans hlt (by decide))

end Direction

theorem Weighting.replay_append {w : Weighting K} {d : Direction} {t : Int} {before : Option EdgeId}
    {es : List (EdgeView K)} {e : EdgeView K} {legs : List (Leg K)} {weight : K}
    {duration : Duration} (h : w.replay d before t es = .ok legs)
    (hweight : w.weightAt e d (EdgeView.lastOf before es) (.ofInt (d.endOf t legs)) = .ok weight)
    (hduration : w.durationAt e d (EdgeView.lastOf before es) (.ofInt (d.endOf t legs)) =
      .ok duration) :
    w.replay d before t (es ++ [e]) = .ok (legs ++ [⟨d.endOf t legs, weight, duration⟩]) := by
  induction es generalizing before t legs with
  | nil =>
    cases h
    simp only [EdgeView.lastOf, Direction.endOf, List.foldl_nil] at hweight hduration
    simp only [List.nil_append, replay, hweight, hduration, bind, Except.bind]
    rfl
  | cons a es ih =>
    obtain ⟨x, hx, h⟩ := exists_ok_of_bind h
    obtain ⟨δ, hδ, h⟩ := exists_ok_of_bind h
    obtain ⟨rest, hrest, h⟩ := exists_ok_of_bind h
    cases h
    simp only [List.cons_append, replay, hx, hδ, ih hrest hweight hduration, bind, Except.bind]
    rfl

namespace SearchSettings

variable [Scalar K] {s : SearchSettings K} {d : Direction}

variable (s d) in
def HasCostsAt : Prop :=
  ∀ {u e before t w}, e ∈ s.network.edges u d → s.weighting.weightAt e d before t = .ok w → 0 ≤ w

/-- What is charged on the way to a label is what the label tells. -/
structure Retraces (s : SearchSettings K) (d : Direction) (t : Instant) (es : List (EdgeView K))
    (l : Label K) (legs : List (Leg K)) : Prop where
  replay : s.weighting.replay d none t.toInt es = .ok legs
  finite : ∀ leg ∈ legs, Scalar.isFinite leg.weight = true
  cost : l.cost = Scalar.sum (legs.map (·.weight))
  time : l.time = .ofInt (d.endOf t.toInt legs)
  incomingEdge : l.incomingEdge = EdgeView.lastOf none es

theorem retraces_root (node : NodeId) (t : Instant) :
    s.Retraces d t [] ((Label.root node 0).withTime t) [] where
  replay := rfl
  finite := nofun
  cost := rfl
  time := (Int64.ofInt_toInt t).symm
  incomingEdge := rfl

theorem Retraces.timeBetween_eq {t : Instant} {es : List (EdgeView K)} {l : Label K}
    {legs : List (Leg K)} (h : s.Retraces d t es l legs) (hlt : Leg.total legs < 2 ^ 63) :
    (timeBetween l.time t).toNat = Leg.total legs := by
  rw [h.time]
  exact Direction.timeBetween_endOf hlt

theorem explored_timedRouteTo {Q M : Type} [PriorityQueue Q K] [BestMap M] (source : NodeId)
    (t : Instant) (f : Frontier K Q M) (goal : LabelId) :
    (timedRouteTo source d t f goal).explored d = (f.edgesTo goal).reverse := by
  cases d with
  | forward => rfl
  | backward =>
    simp [Route.explored, timedRouteTo, Route.ofEdgesWithDuration, travelEdges, Frontier.pathFrom,
      Function.comp_def]

variable [IsOrdered K]

theorem exists_retraces_append (hs : s.HasCostsAt d) {t : Instant} {es : List (EdgeView K)}
    {p : LabelId} {lp l : Label K} {e : EdgeView K} {w : K} {legs : List (Leg K)}
    (h : s.Retraces d t es lp legs) (hmade : (s.timedExploration d).Makes p lp e w l) :
    ∃ legs', s.Retraces d t (es ++ [e]) l legs' := by
  have hw : 0 ≤ w := hs hmade.listed hmade.price
  have hweight : s.weighting.weightAt e d lp.incomingEdge lp.time = .ok w := hmade.price
  obtain ⟨duration, hduration, hl⟩ := exists_ok_of_bind hmade.extend
  cases hl
  rw [h.incomingEdge, h.time] at hweight hduration
  refine ⟨_, Weighting.replay_append h.replay hweight hduration, ?_, ?_, ?_, ?_⟩
  · intro leg hleg
    rcases List.mem_append.1 hleg with hleg | hleg
    · exact h.finite leg hleg
    · cases List.mem_singleton.1 hleg
      simp [Scalar.isFinite, (IsOrdered.not_isNaN_of_le hw).2, hmade.finite]
  · rw [List.map_append, Scalar.sum, List.foldl_append, ← Scalar.sum, ← h.cost]
    rfl
  · rw [Direction.endOf_append, Direction.ofInt_later, ← h.time]
    cases d with
    | forward => rfl
    | backward => rfl
  · rw [EdgeView.lastOf, List.foldl_append]
    rfl

theorem goesByCost_timed (hs : s.HasCostsAt d) (root : NodeId) :
    (s.timedExploration d).GoesByCost (s.keyOf d root) where
  steps := s.makesSteps_timedExploration d
  key _ := rfl
  nonneg he hp := hs he hp
  priority_le hmade hcost := by
    obtain ⟨_, _, hmade⟩ := exists_ok_of_bind hmade
    cases hmade
    exact IsOrdered.le_self hcost
  le_priority hmade hcost := by
    obtain ⟨_, _, hmade⟩ := exists_ok_of_bind hmade
    cases hmade
    exact IsOrdered.le_self hcost

variable {Q M : Type} [PriorityQueue Q K] [LawfulQueue Q] [BestMap M]

theorem exists_retraces (hs : s.HasCostsAt d) {root : NodeId} {t : Instant} {f : Frontier K Q M}
    {k : K} (h : f.IsSettling (s.timedExploration d) ((Label.root root 0).withTime t)
      (s.keyOf d root) k) {id : LabelId} {l : Label K} (hl : f.label? id = some l) :
    ∃ legs, s.Retraces d t (f.edgesTo id).reverse l legs := by
  refine h.induct (P := fun id l ↦ ∃ legs, s.Retraces d t (f.edgesTo id).reverse l legs)
    (goesByCost_timed hs root) rfl ?_ ?_ hl
  · intro hedges
    rw [hedges]
    exact ⟨[], retraces_root root t⟩
  · intro p lp e w id l _ ⟨legs, hlegs⟩ _ hmade hedges
    rw [hedges, List.reverse_cons]
    exact exists_retraces_append hs hlegs hmade

theorem exists_retraces_of_found (hs : s.HasCostsAt d) {source target : NodeId} {t : Instant}
    {r : Route K} (hfound : (s.bestRouteAt Q M d source target t).result = .ok (.found r)) :
    ∃ l legs, s.Retraces d t (r.explored d) l legs ∧ r.weight = l.cost ∧
      r.duration = timeBetween l.time t := by
  have hx := goesByCost_timed hs (ends source target d).1
  obtain ⟨f, next, goal, l, ⟨k, hf⟩, hp, hl, _, rfl⟩ := exists_of_bestRouteAt
    (I := fun f ↦ ∃ k, f.IsSettling (s.timedExploration d)
      ((Label.root (ends source target d).1 0).withTime t) (s.keyOf d (ends source target d).1) k)
    ⟨0, Frontier.IsSettling.addRoot _ (s.keyOf d (ends source target d).1) rfl rfl
      IsOrdered.zero_le_zero IsOrdered.zero_le_zero⟩
    (fun ⟨_, hf⟩ hp ↦ by
      obtain ⟨l, hl, _⟩ := hf.label?_of_pop hp
      exact ⟨l, Frontier.label?_of_pop? hp ▸ hl⟩)
    (fun ⟨_, hf⟩ hp hl he ↦ ⟨_, (hf.advance hx hp hl he).1⟩) hfound
  have hlabel := Frontier.label?_of_pop? hp
  have hnext : next.label? goal = some l := (congrFun hlabel goal).trans hl
  obtain ⟨legs, hlegs⟩ := exists_retraces hs (hf.pop hp hnext) hnext
  refine ⟨l, legs, ?_, ?_, ?_⟩
  · rw [explored_timedRouteTo]
    exact hlegs
  · rw [← Frontier.label_eq hnext]
    rfl
  · rw [← Frontier.label_eq hnext]
    rfl

/-- Whatever the weights are over time, a route with times can be explored once more, leg by leg. Its
weight is the sum of those of the legs, and its duration that of theirs unless it overflows. -/
theorem exists_replay_of_found (hs : s.HasCostsAt d) {source target : NodeId} {t : Instant}
    {r : Route K} (hfound : (s.bestRouteAt Q M d source target t).result = .ok (.found r)) :
    ∃ legs, s.weighting.replay d none t.toInt (r.explored d) = .ok legs ∧
      (∀ leg ∈ legs, Scalar.isFinite leg.weight = true) ∧
      r.weight = Scalar.sum (legs.map (·.weight)) ∧
      (Leg.total legs < 2 ^ 63 → r.duration.toNat = Leg.total legs) := by
  obtain ⟨l, legs, hlegs, hweight, hduration⟩ := exists_retraces_of_found hs hfound
  refine ⟨legs, hlegs.replay, hlegs.finite, hweight.trans hlegs.cost, ?_⟩
  intro hlt
  rw [hduration, hlegs.timeBetween_eq hlt]

def slowingDown : SearchSettings Exact where
  network := (RoadGraph.ofEdges 3 [.oneWay 0 1 (.finite 10) (.finite 36),
    .oneWay 1 2 (.finite 20) (.finite 36)]).network
  weighting := .fastest (HourlyFactors.empty.set 0
    (.ofFn fun hour ↦ .finite (if hour = 0 then 1 else 1 / 2))).source (.finite 36)
  mode := .nodeBased
  visitLimit := 9

theorem exists_replay_slowingDown :
    ∃ r, (slowingDown.bestRouteAt (SortedQueue Exact) SparseMap .backward 0 2 3601000).result =
        .ok (.found r) ∧ r.weight = .finite 3 ∧
      ∃ legs, slowingDown.weighting.replay .backward none 3601000 (r.explored .backward) =
          .ok legs ∧
        (∀ leg ∈ legs, Scalar.isFinite leg.weight = true) ∧
        r.weight = Scalar.sum (legs.map (·.weight)) ∧
        (Leg.total legs < 2 ^ 63 → r.duration.toNat = Leg.total legs) := by
  have hroute : ((slowingDown.bestRouteAt (SortedQueue Exact) SparseMap .backward 0 2
      3601000).result.toOption.bind Outcome.route?).map (·.weight) = some (.finite 3) := by
    decide +kernel
  obtain ⟨r, hfound, hthree⟩ := exists_found_of_route? hroute
  obtain ⟨stored, hshows⟩ := Network.IsBuilt.exists_shows
    (isBuilt_network_ofEdges 3 _ : slowingDown.network.IsBuilt)
  have hm : slowingDown.network.IsMeasured := isMeasured_ofEdges (by decide +kernel)
  have hs : slowingDown.HasCostsAt .backward := by
    intro u e before t w he hw
    exact (Weighting.isNonneg_fastest (Weighting.distance_nonneg hshows hm) _ _).weightAt he hw
  exact ⟨r, hfound, hthree, exists_replay_of_found hs hfound⟩

end SearchSettings

end RoadRouting
