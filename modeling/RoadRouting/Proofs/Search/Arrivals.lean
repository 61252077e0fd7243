import RoadRouting.Proofs.Roads.Seams
import RoadRouting.Proofs.Search.OneToOne
import RoadRouting.Proofs.Search.Relaxed
import RoadRouting.Proofs.Search.Timeless
import RoadRouting.Weighting.Decorators
import Mathlib.Order.Bounds.Basic

namespace RoadRouting

open Scalar (Exact IsOrdered)

/-- What is found is a route at the least of some costs, or nothing if there are none. -/
inductive Outcome.IsCheapest (costs : Set Rat) : Outcome Exact → Prop
  | found {r : Route Exact} {g : Rat} : r.weight = .finite g → IsLeast costs g →
      IsCheapest costs (.found r)
  | unreachable : costs = ∅ → IsCheapest costs .unreachable

theorem Outcome.IsCheapest.weight?_eq {costs : Set Rat} {o o' : Outcome Exact}
    (h : o.IsCheapest costs) (h' : o'.IsCheapest costs) : o.weight? = o'.weight? := by
  cases h with
  | found hr hg =>
    cases h' with
    | found hr' hg' =>
      simp only [Outcome.weight?, Outcome.route?, Option.map_some]
      rw [hr, hr', hg.unique hg']
    | unreachable hnone =>
      subst hnone
      cases hg.1
  | unreachable hnone =>
    cases h' with
    | found _ hg' =>
      subst hnone
      cases hg'.1
    | unreachable _ => rfl

variable (Q M : Type) [PriorityQueue Q Exact] [LawfulQueue Q] [BestMap M] in
theorem SearchSettings.visited_explore_le (s : SearchSettings Exact)
    {stored : EdgeId → Option (StoredEdge Exact)} (hn : s.network.Shows stored) {d : Direction}
    (hs : s.HasCosts d) (hok : (s.exploration d fun _ ↦ 0).NeverFails) (start goal : NodeId) :
    ((s.exploration d fun _ ↦ 0).explore (Watch.reach goal) s.visitLimit (.root start 0)
      (s.mode.rootKey start) none : Explored Exact Q M (Option LabelId)).visited ≤
        max s.network.nodeCount (2 * s.network.edgeCount) + 1 := by
  have hx := goesByCost hs start
  have hstart := Exploration.seeks_addRoot (Q := Q) (M := M) (s.exploration d fun _ ↦ 0)
    (Label.root start 0) (s.keyOf d start) goal rfl rfl IsOrdered.zero_le_zero IsOrdered.zero_le_zero
  obtain ⟨_, k, hsettling, hvisited⟩ := Exploration.run_reaches hx hok s.visitLimit hstart
  refine (hvisited.trans (Frontier.card_settledIds_le _)).trans (hsettling.size_le_of_lt ?_)
  intro id l hl hid
  obtain ⟨_, _, e, _, _, hmade, hedge, _⟩ := hsettling.exists_parent hx hl hid
  rw [hedge]
  exact ⟨_, hn.key_lt_max hmade.listed, rfl⟩

namespace Roads

variable {R : Roads} {w : Weighting Exact} {stored : EdgeId → Option (StoredEdge Exact)}
variable {limit : Nat} {source target u : NodeId} {d : Direction} {g : Rat}
variable {e : EdgeView Exact}

variable (R) in
def costs (source target : NodeId) : Set Rat := {g | ∃ es, R.Walk source es target g}

variable {π : NodeId → Rat}

theorem mem_costs_iff_forward : g ∈ R.costs source target ↔
    ∃ es, (R.terrain .forward source none π).Trail es g ∧
      (R.terrain .forward source none π).node es.head? = target := by
  constructor
  · intro hg
    obtain ⟨es, hwalk⟩ := hg
    obtain ⟨htrail, hnode⟩ := walk_iff_trail.1 hwalk
    rw [← List.head?_reverse] at hnode
    exact ⟨es.reverse, htrail, hnode⟩
  · intro htrails
    obtain ⟨es, htrail, hnode⟩ := htrails
    refine ⟨es.reverse, (walk_iff_trail (π := π)).2 ?_⟩
    rw [List.reverse_reverse, List.getLast?_reverse]
    exact ⟨htrail, hnode⟩

theorem mem_costs_iff_backward (hR : R.IsLawful stored) : g ∈ R.costs source target ↔
    ∃ es, (R.terrain .backward target none π).Trail es g ∧
      (R.terrain .backward target none π).node es.head? = source := by
  constructor
  · intro hg
    obtain ⟨es, hwalk⟩ := hg
    have hnode : (R.terrain .backward target none π).node (es.map EdgeView.fromEnd).head? =
        source := by
      rw [node_terrain, List.head?_map, ← hwalk.source_eq_adj hR]
    have hturned : (es.map EdgeView.fromEnd).map EdgeView.fromEnd = es := by
      simp [Function.comp_def]
    refine ⟨es.map EdgeView.fromEnd, (trail_backward_iff hR).2 ⟨?_, fun _ ↦ fits_none⟩, hnode⟩
    rwa [hnode, hturned]
  · intro htrails
    obtain ⟨es, htrail, hnode⟩ := htrails
    have hwalk := ((trail_backward_iff hR).1 htrail).1
    rw [hnode] at hwalk
    exact ⟨es.map EdgeView.fromEnd, hwalk⟩

open SearchSettings (ends)

theorem mem_costs_iff (hR : R.IsLawful stored) : g ∈ R.costs source target ↔ ∃ es,
    (R.terrain d (ends source target d).1 none π).Trail es g ∧
      (R.terrain d (ends source target d).1 none π).node es.head? = (ends source target d).2 := by
  cases d with
  | forward => exact mem_costs_iff_forward
  | backward => exact mem_costs_iff_backward hR

section Priced

variable (Q M : Type) [PriorityQueue Q Exact] [BestMap M]

variable (R w limit d) in
def dijkstra (start goal : NodeId) : RoadRouting.Explored Exact Q M (Option LabelId) :=
  ((R.settings w limit).exploration d fun _ ↦ 0).explore (Watch.reach goal) limit (.root start 0)
    (R.mode.rootKey start) none

variable (hR : R.IsPricedBy w stored)
include hR

variable [LawfulQueue Q]

variable (limit d) in
theorem visited_dijkstra_le (start goal : NodeId) : (R.dijkstra w limit d Q M start goal).visited ≤
    max R.network.nodeCount (2 * R.network.edgeCount) + 1 :=
  (R.settings w limit).visited_explore_le Q M hR.shows (hasCosts_settings hR limit d)
    (Exploration.neverFails_exploration (fun before he ↦ ⟨_, hR.weight before he⟩) d _) start goal

variable (d) in
theorem dijkstra_finds (hlimit : max R.network.nodeCount (2 * R.network.edgeCount) < limit)
    (hs : source < R.network.nodeCount) (ht : target < R.network.nodeCount) :
    let r := R.dijkstra w limit d Q M (ends source target d).1 (ends source target d).2
    (∃ goal l g, r.ending = .ok .done ∧ r.watched = some goal ∧ r.frontier.label? goal = some l ∧
        l.cost = .finite g ∧ IsLeast (R.costs source target) g) ∨
      r.ending = .ok .exhausted ∧ R.costs source target = ∅ := by
  intro r
  have hT : (R.terrain d (ends source target d).1 none fun _ ↦ 0).IsLawful :=
    terrain_isLawful hR.toIsLawful fun _ ↦ rfl
  have hc : (R.terrain d (ends source target d).1 none fun _ ↦ 0).IsConsistent := by
    intro p e c ha
    have hnonneg := hT.nonneg ha
    change 0 ≤ c + 0
    rwa [add_zero]
  have hroot : (ends source target d).1 < R.network.nodeCount := by
    cases d with
    | forward => exact hs
    | backward => exact ht
  have harrives : (R.terrain d (ends source target d).1 none fun _ ↦ 0).Arrives
      (ends source target d).2 limit r :=
    explore_arrives limit hR (fun _ _ ↦ rfl) (hc.isAdmissible hT rfl) hroot
  cases harrives with
  | @done goal l pending hend hseen hexp hl hnode hleast =>
    obtain ⟨g, htrail, hle, hhead⟩ := hexp.trail_edgesTo hl
    have hgoal := (hexp.node_eq hl).symm.trans hnode
    have hg : l.total = g := le_antisymm (hleast _ g htrail (hhead ▸ hgoal)) hle
    refine .inl ⟨goal, l, g, hend, hseen, hl, hg ▸ hexp.cost_eq hl, ?_, ?_⟩
    · exact (mem_costs_iff hR.toIsLawful).2 ⟨_, htrail, hhead ▸ hgoal⟩
    · intro g' hg'
      obtain ⟨es, htrail', hnode'⟩ := (mem_costs_iff hR.toIsLawful).1 hg'
      exact hg ▸ hleast es g' htrail' hnode'
  | exhausted hend hnone =>
    refine .inr ⟨hend, Set.eq_empty_of_forall_notMem ?_⟩
    intro g hg
    obtain ⟨es, htrail, hnode⟩ := (mem_costs_iff hR.toIsLawful).1 hg
    exact hnone es g htrail hnode
  | limited _ hlt =>
    have hvisited := visited_dijkstra_le limit d Q M hR (ends source target d).1
      (ends source target d).2
    exact absurd (hlt.trans_le hvisited) (Nat.not_lt.2 hlimit)

variable (d) in
theorem isCheapest_of_bestRouteAt (hw : w.IsSteady)
    (hlimit : max R.network.nodeCount (2 * R.network.edgeCount) < limit)
    (hs : source < R.network.nodeCount) (ht : target < R.network.nodeCount) (t : Instant) :
    ∃ o, ((R.settings w limit).bestRouteAt Q M d source target t).result = .ok o ∧
      o.IsCheapest (R.costs source target) := by
  have hx : ((R.settings w limit).exploreFrom Q M d (ends source target d).1
      (ends source target d).2 t).Resembles (fun l ↦ l.withTime 0)
        (R.dijkstra w limit d Q M (ends source target d).1 (ends source target d).2) :=
    SearchSettings.exploreFrom_resembles Q M hw (fun before he ↦ hR.duration before he) _ _ t
  have hc : (R.settings w limit).checkNodes [source, target] = .ok () := checkNodes_isOk hs ht
  rcases dijkstra_finds d Q M hR hlimit hs ht with
    ⟨goal, l, g, hend, hseen, hl, hcost, hleast⟩ | ⟨hend, hnone⟩
  · rw [hx.ending_eq] at hend
    rw [hx.watched_eq] at hseen
    have hlabel := hx.frontier.label_eq Label.isView_withTime goal
    rw [Frontier.label_eq hl] at hlabel
    refine ⟨_, SearchSettings.result_of_done hc hend hseen, .found (g := g) ?_ hleast⟩
    rw [hlabel] at hcost
    exact hcost
  · rw [hx.ending_eq] at hend
    exact ⟨_, SearchSettings.result_of_exhausted hc hend, .unreachable hnone⟩

variable {Q M}

/-- Where the instant makes no difference to what edges and turns cost, a departure gets the answer of
Dijkstra's algorithm, with the same count, if the time on the way can be told. For an arrival there is
a route whenever there is one for Dijkstra's algorithm, at the same weight, if the limit exceeds the
number of states. -/
theorem bestRouteAt_alike_bestRoute (hw : w.IsSteady) (limit : Nat) (source target : NodeId)
    (t : Instant) :
    let s := R.settings w limit
    ((∀ r legs, (s.bestRouteAt Q M .forward source target t).result = .ok (.found r) →
        w.replay .forward none t.toInt r.edges = .ok legs → Leg.total legs < 2 ^ 63) →
      s.bestRouteAt Q M .forward source target t = s.bestRoute Q M .zero source target) ∧
    (max R.network.nodeCount (2 * R.network.edgeCount) < limit →
      EndAlike (fun o o' ↦ o.weight? = o'.weight?)
        (s.bestRouteAt Q M .backward source target t).result
        (s.bestRoute Q M .zero source target).result) := by
  intro s
  have hdurations : s.HasDurations .forward := fun before he ↦ hR.duration before he
  have hcosts : s.HasCostsAt .forward := by
    intro u e before t x he hx
    exact hasCosts_settings hR limit .forward he ((hw.weightAt_eq _ _ _ _).symm.trans hx)
  constructor
  · exact SearchSettings.bestRouteAt_eq_bestRoute hw hdurations hcosts
  · intro hlimit
    cases hc : s.checkNodes [source, target] with
    | error error =>
      have hresult : (s.bestRouteAt Q M .backward source target t).result = .error error := by
        rw [SearchSettings.bestRouteAt, hc]
      have hresult' : (s.bestRoute Q M .zero source target).result = .error error := by
        rw [SearchSettings.bestRoute, hc]
      rw [hresult, hresult']
      exact .error error
    | ok _ =>
      have hnodes := SearchSettings.checkNodes_eq_ok_iff.1 hc
      have hs : source < R.network.nodeCount := hnodes source (by simp)
      have ht : target < R.network.nodeCount := hnodes target (by simp)
      obtain ⟨o, ho, hcheap⟩ :=
        isCheapest_of_bestRouteAt .backward Q M hR hw hlimit hs ht t
      obtain ⟨o', ho', hcheap'⟩ :=
        isCheapest_of_bestRouteAt .forward Q M hR hw hlimit hs ht t
      obtain ⟨_, he, _⟩ | ⟨o₁, o₂, ho₁, ho₂, heq⟩ :=
        (SearchSettings.bestRouteAt_alike Q M source target t hw hdurations hcosts).cases
      · cases he.symm.trans ho'
      · cases ho₁.symm.trans ho'
        rw [ho, ho₂]
        exact .ok ((hcheap.weight?_eq hcheap').trans heq)

end Priced

theorem IsPricedBy.withAccess (hR : R.IsPricedBy w stored) (access : AccessPolicy Exact) :
    R.IsPricedBy (w.withAccess access) stored where
  toIsLawful := hR.toIsLawful
  weight := hR.weight
  duration := hR.duration

def barredTurn : Roads where
  network := (RoadGraph.ofEdges 3 [.oneWay 0 1 (.finite 10) (.finite 36),
    .oneWay 1 1 (.finite 5) (.finite 36), .oneWay 1 2 (.finite 10) (.finite 36),
    .oneWay 0 2 (.finite 50) (.finite 36)]).network
  mode := .edgeBased
  price e := e.distance
  turns a _ b := if a = 0 ∧ b = 2 then .infinity else .finite 1

def barredTurnWeighting : Weighting Exact :=
  ((Weighting.shortest .stored).withTurns barredTurn.turns).withAccess fun _ _ ↦ true

theorem isMeasured_barredTurn : barredTurn.network.IsMeasured :=
  isMeasured_ofEdges (by decide +kernel)

theorem charges_barredTurn : Weighting.Charges barredTurn.mode barredTurn.price
    ((Weighting.shortest .stored).withTurns barredTurn.turns) barredTurn.turns := by
  refine .turns (.shortest fun _ _ ↦ rfl) nofun fun a v b ↦ ?_
  unfold barredTurn
  dsimp only
  split
  · trivial
  · exact Exact.finite_le_finite.2 zero_le_one

theorem bestRouteAt_alike_bestRoute_barredTurn :
    let s := barredTurn.settings barredTurnWeighting 9
    let departure := s.bestRouteAt (SortedQueue Exact) SparseMap .forward 0 2 1000
    let arrival := s.bestRouteAt (SortedQueue Exact) SparseMap .backward 0 2 1000
    let timeless := s.bestRoute (SortedQueue Exact) SparseMap .zero 0 2
    timeless.result.toOption.bind Outcome.weight? = some (.finite 27) ∧ departure = timeless ∧
      EndAlike (fun o o' ↦ o.weight? = o'.weight?) arrival.result timeless.result := by
  intro s departure arrival timeless
  obtain ⟨stored, hshows⟩ := (isBuilt_network_ofEdges 3 _ : barredTurn.network.IsBuilt).exists_shows
  have hR : barredTurn.IsPricedBy barredTurnWeighting stored :=
    (isPricedBy hshows isMeasured_barredTurn charges_barredTurn).withAccess _
  have hw : barredTurnWeighting.IsSteady :=
    ((Weighting.isSteady_shortest fun _ _ _ ↦ rfl).withTurns _).withAccess fun _ _ ↦ rfl
  have hlimit : max barredTurn.network.nodeCount (2 * barredTurn.network.edgeCount) < 9 := by
    decide +kernel
  have hroute : (departure.result.toOption.bind Outcome.route?).map (fun r ↦
      (barredTurnWeighting.replay .forward none (1000 : Instant).toInt r.edges).toOption.map
        Leg.total) = some (some 4500) := by
    decide +kernel
  obtain ⟨r, hfound, htotal⟩ := exists_found_of_route? hroute
  obtain ⟨hdeparture, harrival⟩ := bestRouteAt_alike_bestRoute (Q := SortedQueue Exact)
    (M := SparseMap) hR hw 9 0 2 1000
  refine ⟨by decide +kernel, hdeparture ?_, harrival hlimit⟩
  intro r' legs hfound' hlegs
  cases hfound.symm.trans hfound'
  rw [hlegs] at htotal
  have hsum : Leg.total legs = 4500 := Option.some.inj htotal
  rw [hsum]
  norm_num

end Roads

end RoadRouting
