import RoadRouting.Proofs.Search.Found
import RoadRouting.Proofs.Search.OneToOne
import RoadRouting.Proofs.Terrain.Nested

namespace RoadRouting

open Scalar (Exact)

namespace Roads

variable {Q M : Type} [PriorityQueue Q Exact] [LawfulQueue Q] [BestMap M]
variable {R : Roads} {w : Weighting Exact} {stored : EdgeId → Option (StoredEdge Exact)}
variable {limit : Nat} {source target : NodeId} {π : NodeId → Rat} {estimate : NodeId → Exact}

theorem nested_of_expand (hR : R.IsWeighedBy w stored .forward)
    (hπ : ∀ u < R.network.nodeCount, estimate u = .finite (π u)) {f next f' : Frontier Exact Q M}
    {id : LabelId} {l : Label Exact}
    (h : (R.terrain .forward source none π).Explored f fun _ _ ↦ False)
    (hn : (R.terrain .forward source none π).Nested f) (hp : f.pop? = some (id, next))
    (hl : next.label? id = some l)
    (hx : ((R.settings w limit).exploration .forward estimate).expand id l next
      (R.network.edges l.node .forward) = .ok f') :
    (R.terrain .forward source none π).Explored f' (fun _ _ ↦ False) ∧
      (R.terrain .forward source none π).Nested f' := by
  have hT : (R.terrain .forward source none π).IsLawful :=
    terrain_isLawful hR.toIsLawful fun _ ↦ rfl
  obtain ⟨_, hl', _, hnext⟩ := explored_pop h hp
  cases hl'.symm.trans hl
  have hu := hn.pop h hp hl
  obtain ⟨f'', hf'', hdone, hu', hl''⟩ := expand_unpinned_isOk limit hR hπ hnext hl
    (P := fun f ↦ (R.terrain .forward source none π).Unfolding f id l ∧ f.label? id = some l)
    (fun he hi hP ↦ ⟨hP.1.follow hT he hi,
      (he.label?_follow_of_ne (he.follow_ne hi hT).symm).trans hP.2⟩) ⟨hu, hl⟩
  cases hx.symm.trans hf''
  exact ⟨hdone, hu'.nested hdone hl''⟩

/-- Over any roads, with any finite estimate and by any queue, the weight of the route that is found
is the sum of what its edges and the turns between them cost. -/
theorem weight_eq_of_found {h : Estimate Exact} {r : Route Exact} (hn : R.network.IsBuilt)
    (hprice : ∀ {u e}, e ∈ R.network.edges u .forward → ∃ q, 0 ≤ q ∧ R.price e = .finite q)
    (hturns : ∀ a v b, 0 ≤ R.turns a v b)
    (hnode : R.mode = .nodeBased → ∀ a v b, R.turns a v b = 0)
    (hw : ∀ {u e} before, e ∈ R.network.edges u .forward → w.weight e .forward before =
      .ok (R.price e + Weighting.turnWeight R.turns e .forward before))
    (hh : ∀ u < R.network.nodeCount, ∃ x, h.toward (some target) u = .finite x)
    (hfound : ((R.settings w limit).bestRoute Q M h source target).result = .ok (.found r)) :
    ∃ g, R.Walk source r.edges target g ∧ r.weight = .finite g := by
  obtain ⟨stored, hshows⟩ := hn.exists_shows
  have hR : R.IsWeighedBy w stored .forward := ⟨⟨hshows, hprice, hturns, hnode⟩, hw⟩
  have hπ : ∀ u < R.network.nodeCount,
      h.toward (some target) u = .finite (h.toward (some target) u).value := by
    intro u hu
    obtain ⟨x, hx⟩ := hh u hu
    rw [hx, Exact.value_finite]
  have hs : source < R.network.nodeCount := (SearchSettings.lt_of_bestRoute hfound).1
  have hroot : (R.terrain .forward source none fun u ↦ (h.toward (some target) u).value).rootLabel =
      .root source (h.toward (some target) source) := by
    rw [hπ source hs]
    rfl
  obtain ⟨f, next, goal, l, ⟨hexp, hnested⟩, hp, hl, hgoal, hroute⟩ :=
    SearchSettings.exists_of_bestRoute (s := R.settings w limit) (I := fun f ↦
      (R.terrain .forward source none fun u ↦ (h.toward (some target) u).value).Explored f
        (fun _ _ ↦ False) ∧
      (R.terrain .forward source none fun u ↦ (h.toward (some target) u).value).Nested f)
      (hroot ▸ ⟨.start _, Terrain.nested_start _⟩)
      (fun hI hp ↦ by
        obtain ⟨l, hl, _⟩ := explored_pop hI.1 hp
        exact ⟨l, hl⟩)
      (fun hI hp hl ↦ nested_of_expand hR hπ hI.1 hI.2 hp hl) hfound
  obtain ⟨htrail, hhead⟩ := hnested.trail_of_pop hexp hp hl
  have hlabel := Frontier.label?_of_pop? hp
  obtain ⟨ids, hids⟩ := hexp.lineage hl
  rw [SearchSettings.routeTo, Frontier.pathTo, hids.edgesTo_congr fun j _ ↦ congrFun hlabel j,
    Frontier.label_eq ((congrFun hlabel goal).trans hl)] at hroute
  obtain ⟨t, rfl⟩ := Route.exists_duration hroute
  have hwalk := (trail_forward_iff.1 htrail).1
  rw [hhead, ← hexp.node_eq hl, hgoal] at hwalk
  exact ⟨l.total, hwalk, hexp.cost_eq hl⟩

def hiddenDetour : Roads where
  network := (RoadGraph.ofEdges 4 [.oneWay 0 1 (.finite 10) (.finite 36),
    .oneWay 0 2 (.finite 1) (.finite 36), .oneWay 2 1 (.finite 1) (.finite 36),
    .oneWay 1 3 (.finite 5) (.finite 36)]).network
  mode := .nodeBased
  price e := e.distance
  turns _ _ _ := 0

def hidingEstimate : Estimate Exact :=
  ⟨"hiding", fun _ u ↦ .finite (if u = 2 then 20 else if u = 3 then 30 else 0)⟩

theorem isMeasured_hiddenDetour : hiddenDetour.network.IsMeasured :=
  isMeasured_ofEdges (by decide +kernel)

theorem weight_eq_hiddenDetour :
    ∃ r, ((hiddenDetour.settings (.shortest .stored) 9).bestRoute (SortedQueue Exact) SparseMap
      hidingEstimate 0 3).result = .ok (.found r) ∧ r.weight = .finite 7 ∧
        ∃ g, hiddenDetour.Walk 0 r.edges 3 g ∧ r.weight = .finite g := by
  have hroute : (((hiddenDetour.settings (.shortest .stored) 9).bestRoute (SortedQueue Exact)
      SparseMap hidingEstimate 0 3).result.toOption.bind Outcome.route?).map (·.weight) =
        some (.finite 7) := by
    decide +kernel
  obtain ⟨r, hfound, hseven⟩ := exists_found_of_route? hroute
  have hn : hiddenDetour.network.IsBuilt := isBuilt_network_ofEdges _ _
  have hw : Weighting.Charges hiddenDetour.mode hiddenDetour.price (.shortest .stored)
      hiddenDetour.turns := .plain (.shortest fun _ _ ↦ rfl)
  obtain ⟨stored, hshows⟩ := hn.exists_shows
  have hR : hiddenDetour.IsPricedBy (.shortest .stored) stored :=
    isPricedBy hshows isMeasured_hiddenDetour hw
  refine ⟨r, hfound, hseven, weight_eq_of_found hn hR.price hR.turns hR.nodeBased ?_ ?_ hfound⟩
  · exact fun before he ↦ hR.weight before he
  · exact fun u _ ↦ ⟨_, rfl⟩

end Roads

end RoadRouting
