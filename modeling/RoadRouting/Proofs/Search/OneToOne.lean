import RoadRouting.Proofs.Network.Built
import RoadRouting.Proofs.Roads.Expansion
import RoadRouting.Proofs.Terrain.Trails
import RoadRouting.Search.Unidirectional
import Mathlib.Tactic.IntervalCases

namespace RoadRouting

open Scalar (Exact)

namespace Terrain

variable {Q M : Type} [PriorityQueue Q Exact] [LawfulQueue Q] [BestMap M]

/-- The estimate is never below zero or above the cost of what remains of a trail to the target. -/
structure IsAdmissible (T : Terrain) (target : NodeId) : Prop where
  nonneg : 0 ≤ T.estimate target
  le : ∀ {es es' : List (EdgeView Exact)} {g g' : Rat}, T.Trail es g →
    T.node es.head? = target → es' <:+ es → T.Trail es' g' →
    g' + T.estimate (T.node es'.head?) ≤ g

theorem IsConsistent.isAdmissible {T : Terrain} (hc : T.IsConsistent) (hT : T.IsLawful)
    {target : NodeId} (hzero : T.estimate target = 0) : T.IsAdmissible target where
  nonneg := hzero.ge
  le {es es' g g'} h hn hs h' := by
    have hle := h.priority_le hc hs hT h'
    rwa [hn, hzero, add_zero] at hle

def AwaitsTarget (target : NodeId) (f : Frontier Exact Q M) : Prop :=
  ∀ {id l}, f.label? id = some l → l.node = target → f.priority? id ≠ none

/-- How a search for a target ends. -/
inductive Arrives (T : Terrain) (target : NodeId) (limit : Nat)
    (r : RoadRouting.Explored Exact Q M (Option LabelId)) : Prop
  | done {goal : LabelId} {l : Label Exact} {pending : LabelId → EdgeView Exact → Prop} :
      r.ending = .ok .done → r.watched = some goal → T.Explored r.frontier pending →
      r.frontier.label? goal = some l → l.node = target →
      (∀ es g, T.Trail es g → T.node es.head? = target → l.total ≤ g) → Arrives T target limit r
  | exhausted : r.ending = .ok .exhausted →
      (∀ es g, T.Trail es g → T.node es.head? ≠ target) → Arrives T target limit r
  | limited : r.ending = .ok .limited → limit < r.visited → Arrives T target limit r

variable {T : Terrain} {target : NodeId} {f next : Frontier Exact Q M} {id : LabelId}
  {l : Label Exact}

namespace Explored

variable (h : T.Explored f fun _ _ ↦ False)
include h

theorem queued_of_trail (hT : T.IsLawful) (hf : AwaitsTarget target f)
    {es : List (EdgeView Exact)} {g : Rat} (ht : T.Trail es g) (hn : T.node es.head? = target) :
    ∃ es' g' id l, es' <:+ es ∧ T.Trail es' g' ∧ T.Reached f es'.head? g' id l ∧
      f.priority? id = some l.priority := by
  obtain ⟨es', g', id, l, hs, ht', hr, hend⟩ := h.reached_of_trail hT ht
  have hq : f.priority? id ≠ none := by
    rcases hend with rfl | hq
    · exact hf hr.label ((h.node_eq hr.label).trans ((h.node_of_reached hT ht'.isPlace hr).symm.trans
        hn))
    · exact hq
  obtain ⟨k, hk⟩ := Option.ne_none_iff_exists'.1 hq
  obtain ⟨l', hl', rfl⟩ := h.queued hk
  cases hl'.symm.trans hr.label
  exact ⟨es', g', id, l, hs, ht', hr, hk⟩

theorem not_trail_of_pop_eq_none (hT : T.IsLawful) (hf : AwaitsTarget target f)
    (hp : f.pop? = none) (es : List (EdgeView Exact)) (g : Rat) (ht : T.Trail es g) :
    T.node es.head? ≠ target := by
  intro hn
  obtain ⟨_, _, id, _, _, _, _, hk⟩ := h.queued_of_trail hT hf ht hn
  rw [Frontier.priority?_of_pop_eq_none h.queue hp] at hk
  cases hk

theorem total_le_of_pop (hT : T.IsLawful) (ha : T.IsAdmissible target)
    (hf : AwaitsTarget target f) (hp : f.pop? = some (id, next)) (hl : f.label? id = some l)
    (hn : l.node = target) (es : List (EdgeView Exact)) (g : Rat) (ht : T.Trail es g)
    (hn' : T.node es.head? = target) : l.total ≤ g := by
  obtain ⟨es', g', id', l', hs, ht', hr, hk'⟩ := h.queued_of_trail hT hf ht hn'
  obtain ⟨k, hk, hleast⟩ := Frontier.least_of_pop h.queue hp
  obtain ⟨_, hl', rfl⟩ := h.queued hk
  cases hl'.symm.trans hl
  have hle := hleast id' _ hk'
  rw [h.priority_eq hl, h.priority_eq hr.label, Exact.precedes_finite, ← h.node_eq hl, hn,
    ← h.node_of_reached hT ht'.isPlace hr] at hle
  -- the label that is queued on the trail comes no earlier, and its priority is admissible
  have hrest := ha.le ht hn' hs ht'
  have hzero := ha.nonneg
  have htotal := hr.total_le
  linarith

end Explored

theorem AwaitsTarget.follow {pending : LabelId → EdgeView Exact → Prop} {e : EdgeView Exact}
    {c : Rat} (hf : AwaitsTarget target f) (h : T.Explored f pending) :
    AwaitsTarget target (T.follow f id l e c).1 := by
  intro j lj hj hn
  rw [h.priority?_follow]
  split
  · nofun
  · next hne =>
    rw [h.label?_follow_of_ne hne] at hj
    exact hf hj hn

theorem AwaitsTarget.pop (hf : AwaitsTarget target f) (h : T.Explored f fun _ _ ↦ False)
    (hp : f.pop? = some (id, next)) (hl : next.label? id = some l) (hn : l.node ≠ target) :
    AwaitsTarget target next := by
  intro j lj hj hnj
  rw [Frontier.priority?_pop h.queue hp]
  split
  · next hji =>
    subst hji
    cases hj.symm.trans hl
    exact absurd hnj hn
  · exact hf (Frontier.label?_of_pop? hp ▸ hj) hnj

end Terrain

namespace Roads

variable {Q M : Type} [PriorityQueue Q Exact] [LawfulQueue Q] [BestMap M]
variable {R : Roads} {w : Weighting Exact} {stored : EdgeId → Option (StoredEdge Exact)}
variable {limit : Nat} {source target : NodeId} {π : NodeId → Rat} {estimate : NodeId → Exact}
variable {d : Direction} {root : NodeId}

variable (limit) in
theorem run_arrives (hR : R.IsPricedBy w stored)
    (hπ : ∀ u < R.network.nodeCount, estimate u = .finite (π u))
    (ha : (R.terrain d root none π).IsAdmissible target) (left visited : Nat)
    {f : Frontier Exact Q M}
    (h : (R.terrain d root none π).Explored f fun _ _ ↦ False)
    (hf : Terrain.AwaitsTarget target f) :
    (R.terrain d root none π).Arrives target (visited + left)
      (((R.settings w limit).exploration d estimate).run (Watch.reach target) left visited f
        none) := by
  have hT : (R.terrain d root none π).IsLawful :=
    terrain_isLawful hR.toIsLawful fun _ ↦ rfl
  induction left generalizing visited f with
  | zero =>
    rw [Exploration.run]
    split
    · next hp => exact .exhausted rfl (h.not_trail_of_pop_eq_none hT hf hp)
    · exact .limited rfl (Nat.lt_succ_self _)
  | succ left ih =>
    rw [Exploration.run]
    split
    · next hp => exact .exhausted rfl (h.not_trail_of_pop_eq_none hT hf hp)
    · next id next hp =>
      obtain ⟨l, hl, _, hnext⟩ := explored_pop h hp
      rw [Frontier.label_eq hl]
      by_cases hn : l.node = target
      · simp only [Watch.reach, hn, if_true, Option.isSome_some]
        refine .done rfl rfl hnext hl hn fun es g ↦ h.total_le_of_pop hT ha hf hp ?_ hn es g
        exact Frontier.label?_of_pop? hp ▸ hl
      · simp only [Watch.reach, hn, if_false, Option.isSome_none]
        obtain ⟨f', hf', hdone, hawaits⟩ := expand_unpinned_isOk limit (hR.isWeighedBy d) hπ
          hnext hl (P := Terrain.AwaitsTarget target) (fun h _ hP ↦ hP.follow h)
          (hf.pop h hp hl hn)
        have hedges : ((R.settings w limit).exploration d estimate).edges l.node =
          R.network.edges l.node d := rfl
        rw [hedges, hf']
        have hrun := ih (visited + 1) hdone hawaits
        rwa [Nat.add_right_comm] at hrun

variable (limit) in
theorem explore_arrives (hR : R.IsPricedBy w stored)
    (hπ : ∀ u < R.network.nodeCount, estimate u = .finite (π u))
    (ha : (R.terrain d root none π).IsAdmissible target) (hroot : root < R.network.nodeCount) :
    (R.terrain d root none π).Arrives target limit
      (((R.settings w limit).exploration d estimate).explore (Watch.reach target) limit
        (.root root (estimate root)) (R.mode.rootKey root) none :
          RoadRouting.Explored Exact Q M (Option LabelId)) := by
  have hstart : (R.terrain d root none π).rootLabel = .root root (estimate root) := by
    rw [hπ root hroot]
    rfl
  have hrun := run_arrives limit hR hπ ha limit 0
    (Terrain.Explored.start (Q := Q) (M := M) _) fun {id l} hl _ ↦ by
      rw [Frontier.label?_addRoot] at hl
      rw [Frontier.priority?_addRoot]
      split at hl
      · next hid => rw [if_pos hid]; nofun
      · cases hl
  rw [hstart, Nat.zero_add] at hrun
  exact hrun

/-- An estimate toward a target that is finite, not negative and never above the cost of a walk to
the target. -/
def Admits (R : Roads) (h : Estimate Exact) (target : NodeId) : Prop :=
  ∀ u < R.network.nodeCount, ∃ q, h.toward (some target) u = .finite q ∧ 0 ≤ q ∧
    ∀ es g, R.Walk u es target g → q ≤ g

theorem terrain_isAdmissible (hR : R.IsLawful stored) (hs : source < R.network.nodeCount)
    (ht : target < R.network.nodeCount)
    (hπ : ∀ u < R.network.nodeCount, 0 ≤ π u ∧ ∀ es g, R.Walk u es target g → π u ≤ g) :
    (R.terrain .forward source none π).IsAdmissible target where
  nonneg := (hπ target ht).1
  le {es es' g g'} h hn hsuf h' := by
    obtain ⟨pre, rfl⟩ := hsuf
    have hw := (trail_forward_iff.1 h).1
    have hw' := (trail_forward_iff.1 h').1
    rw [List.reverse_append, walk_append_iff, hn] at hw
    obtain ⟨v, k, τ, k', hk, hj, hrest, rfl⟩ := hw
    obtain ⟨rfl, rfl⟩ := hk.functional hw'
    have hle := (hπ _ (hk.target_lt hR hs)).2 _ _ hrest
    have hτ := hj.nonneg hR
    change k + π _ ≤ _
    linarith

variable (limit) in
theorem exploreToward_arrives (hR : R.IsPricedBy w stored) (hs : source < R.network.nodeCount)
    (ht : target < R.network.nodeCount) {h : Estimate Exact} (hh : R.Admits h target) :
    (R.terrain .forward source none fun u ↦ (h.toward (some target) u).value).Arrives target limit
      ((R.settings w limit).exploreToward Q M h source target) := by
  have hπ : ∀ u < R.network.nodeCount,
      h.toward (some target) u = .finite (h.toward (some target) u).value := fun u hu ↦ by
    obtain ⟨q, hq, _⟩ := hh u hu
    rw [hq, Exact.value_finite]
  have ha := terrain_isAdmissible (π := fun u ↦ (h.toward (some target) u).value) hR.toIsLawful hs ht
    fun u hu ↦ by
      obtain ⟨q, hq, hbounds⟩ := hh u hu
      rwa [hq, Exact.value_finite]
  exact explore_arrives limit hR hπ ha hs

theorem isBest_of_arrives (hR : R.IsPricedBy w stored) (hs : source < R.network.nodeCount)
    (ht : target < R.network.nodeCount) {h : Estimate Exact} {π : NodeId → Rat}
    (ha : (R.terrain .forward source none π).Arrives target limit
      ((R.settings w limit).exploreToward Q M h source target)) :
    ((R.settings w limit).bestRoute Q M h source target).IsBest
      (fun es g ↦ R.Walk source es target g) limit := by
  cases ha with
  | @done goal l pending hend hseen hexp hl hnode hleast =>
    obtain ⟨g, htrail, hle, hhead⟩ := hexp.trail_edgesTo hl
    have hgoal : Terrain.node _ _ = target := (hexp.node_eq hl).symm.trans hnode
    have hg : l.total = g := le_antisymm (hleast _ g htrail (hhead ▸ hgoal)) hle
    have hwalk := (trail_forward_iff.1 htrail).1
    rw [hhead, hgoal] at hwalk
    obtain ⟨r, hr, hedges, hweight⟩ := ofEdges_isOk hR hwalk source l.cost
    have hroute : (R.settings w limit).routeTo source
        ((R.settings w limit).exploreToward Q M h source target).frontier goal = .ok r := by
      rw [SearchSettings.routeTo, Frontier.label_eq hl]
      exact hr
    have hresult : ((R.settings w limit).bestRoute Q M h source target).result =
        .ok (.found r) := by
      rw [SearchSettings.bestRoute, checkNodes_isOk hs ht]
      simp only [hend, hseen]
      change ((R.settings w limit).routeTo source _ goal >>= fun r ↦ pure (Outcome.found r)) = _
      rw [hroute]
      rfl
    rw [Answer.IsBest, hresult]
    refine ⟨g, hedges ▸ hwalk, by rw [hweight, hexp.cost_eq hl, hg], fun es g' hwalk' ↦ ?_⟩
    obtain ⟨htrail', hgoal'⟩ := walk_iff_trail.1 hwalk'
    exact hg ▸ hleast _ g' htrail' (by rwa [List.head?_reverse])
  | exhausted hend hnone =>
    have hresult : ((R.settings w limit).bestRoute Q M h source target).result =
        .ok .unreachable := by
      rw [SearchSettings.bestRoute, checkNodes_isOk hs ht]
      simp only [hend]
      rfl
    rw [Answer.IsBest, hresult]
    intro es g hwalk
    obtain ⟨htrail, hgoal⟩ := walk_iff_trail.1 hwalk
    exact hnone _ g htrail (by rwa [List.head?_reverse])
  | limited hend hlt =>
    have hresult : ((R.settings w limit).bestRoute Q M h source target).result =
        .ok .visitLimitReached := by
      rw [SearchSettings.bestRoute, checkNodes_isOk hs ht]
      simp only [hend]
      rfl
    rw [Answer.IsBest, hresult]
    rw [SearchSettings.bestRoute, checkNodes_isOk hs ht]
    exact hlt

/-- A search with an admissible estimate finds a cheapest walk, over any roads and by any queue. -/
theorem isBest_bestRoute (hn : R.network.IsBuilt) (hm : R.network.IsMeasured)
    (hw : Weighting.Charges R.mode R.price w R.turns) (hs : source < R.network.nodeCount)
    (ht : target < R.network.nodeCount) {h : Estimate Exact} (hh : R.Admits h target) :
    ((R.settings w limit).bestRoute Q M h source target).IsBest
      (fun es g ↦ R.Walk source es target g) limit := by
  obtain ⟨stored, hshows⟩ := hn.exists_shows
  have hR : R.IsPricedBy w stored := isPricedBy hshows hm hw
  exact isBest_of_arrives hR hs ht (exploreToward_arrives limit hR hs ht hh)

def oneWayRow : Roads where
  network := (RoadGraph.ofEdges 3 [.oneWay 0 1 (.finite 10) (.finite 36),
    .oneWay 1 2 (.finite 10) (.finite 36)]).network
  mode := .edgeBased
  price e := e.distance
  turns _ _ _ := .finite 1

theorem isMeasured_oneWayRow : oneWayRow.network.IsMeasured :=
  isMeasured_ofEdges (by decide +kernel)

theorem charges_oneWayRow : Weighting.Charges oneWayRow.mode oneWayRow.price
    ((Weighting.shortest .stored).withTurns oneWayRow.turns) oneWayRow.turns :=
  .turns (.shortest fun _ _ ↦ rfl) nofun fun _ _ _ ↦ Exact.finite_le_finite.2 zero_le_one

theorem walk_oneWayRow {stored : EdgeId → Option (StoredEdge Exact)}
    (hR : oneWayRow.IsLawful stored) {u : NodeId} (hu : u < 2) {es : List (EdgeView Exact)} {g : Rat}
    (hw : oneWayRow.Walk u es 2 g) : ∃ es' g', oneWayRow.Walk (u + 1) es' 2 g' ∧ 10 + g' ≤ g := by
  cases hw with
  | nil => cases lt_irrefl 2 hu
  | @cons _ _ e es c τ g' he hc hj hw =>
    have hedge : e.adj = u + 1 ∧ e.distance = .finite 10 := by
      interval_cases u
      · obtain rfl := List.mem_singleton.1 he
        exact ⟨rfl, rfl⟩
      · obtain rfl := List.mem_singleton.1 he
        exact ⟨rfl, rfl⟩
    obtain rfl : c = 10 := Exact.finite.inj (hc.symm.trans hedge.2)
    have hτ := hj.nonneg hR
    exact ⟨es, g', hedge.1 ▸ hw, by linarith⟩

def steepEstimate : Estimate Exact := ⟨"steep", fun _ u ↦ .finite (if u = 0 then 20 else 0)⟩

theorem admits_steepEstimate : oneWayRow.Admits steepEstimate 2 := by
  obtain ⟨stored, hshows⟩ := (isBuilt_network_ofEdges 3 _ : oneWayRow.network.IsBuilt).exists_shows
  have hR := isPricedBy hshows isMeasured_oneWayRow charges_oneWayRow
  intro u _
  refine ⟨_, rfl, by split <;> norm_num, fun es g hw ↦ ?_⟩
  split
  · next hu =>
    subst hu
    obtain ⟨_, g₁, hw₁, hle₁⟩ := walk_oneWayRow hR.toIsLawful zero_lt_two hw
    obtain ⟨_, g₂, hw₂, hle₂⟩ := walk_oneWayRow hR.toIsLawful one_lt_two hw₁
    have hzero := hw₂.nonneg hR.toIsLawful
    linarith
  · exact hw.nonneg hR.toIsLawful

theorem isBest_bestRoute_oneWayRow :
    let a := (oneWayRow.settings ((Weighting.shortest .stored).withTurns oneWayRow.turns)
      5).bestRoute (SortedQueue Exact) SparseMap steepEstimate 0 2
    a.IsBest (fun es g ↦ oneWayRow.Walk 0 es 2 g) 5 ∧
      ∃ r, a.result = .ok (.found r) ∧
        (r.nodes, r.edges.map (·.edge), r.weight) = ([0, 1, 2], [0, 1], .finite 21) := by
  have hn : oneWayRow.network.IsBuilt := isBuilt_network_ofEdges _ _
  have hcount : oneWayRow.network.nodeCount = 3 := RoadGraph.nodeCount_ofEdges _ _
  have hs : 0 < oneWayRow.network.nodeCount := by omega
  have ht : 2 < oneWayRow.network.nodeCount := by omega
  refine ⟨?_, exists_found_of_route? (by decide +kernel)⟩
  exact isBest_bestRoute hn isMeasured_oneWayRow charges_oneWayRow hs ht admits_steepEstimate

end Roads

end RoadRouting
