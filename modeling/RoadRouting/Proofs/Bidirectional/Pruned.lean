import RoadRouting.Proofs.Bidirectional.BestRoute
import RoadRouting.Proofs.Bidirectional.SettledMeeting
import RoadRouting.Weighting.Basic

namespace RoadRouting

open Scalar (Exact)

namespace Roads

open Bidirectional (Query Meeting Method Side State)

variable {Q M σ : Type} [PriorityQueue Q Exact] [LawfulQueue Q] [BestMap M]

/-- A search from both ends with a filter and a policy that may leave out anything. -/
def prunedMethod (R : Roads) (w : Weighting Exact) (limit : Nat) (h : Estimate Exact)
    (offset : Exact) (filter : EdgeFilter Exact) (policy : PruningPolicy Exact σ) :
    Method Exact σ where
  settings := { R.settings w limit with filter }
  estimate := h
  policy
  offset

/-- What holds of a search that settles labels in order, seen from the side of a direction. -/
structure SettlesBothWays (R : Roads) (q : Query) (π : NodeId → Rat) (d : Direction)
    (own other : Frontier Exact Q M) (mt : Meeting Exact) : Prop where
  here : ∃ k, (R.side q π d).Settles own k
  there : ∃ k, (R.side q π d.opposite).Settles other k
  meeting : R.IsSettledMeeting q d own other mt

/-- The same while the edges of a label are explored that has just been settled. -/
structure Unfolds (R : Roads) (q : Query) (π : NodeId → Rat) (d : Direction) (id : LabelId)
    (l : Label Exact) (own other : Frontier Exact Q M) (mt : Meeting Exact) : Prop where
  settles : (R.side q π d).Settles own ((R.side q π d).rank l)
  label : own.label? id = some l
  settled : own.priority? id = none
  opened : own.priority? 0 = none
  meeting : R.IsSettledMeeting q d own other mt

variable {R : Roads} {w : Weighting Exact} {stored : EdgeId → Option (StoredEdge Exact)}
variable {limit : Nat} {h : Estimate Exact} {offset : Exact} {q : Query} {π : NodeId → Rat}
variable {filter : EdgeFilter Exact} {policy : PruningPolicy Exact σ}
variable {d : Direction} {own other own' : Frontier Exact Q M} {mt mt' : Meeting Exact}
variable {pin : Option EdgeId} {id : LabelId} {l : Label Exact}

theorem SettlesBothWays.swap (hR : R.IsLawful stored) (ht : R.SettlesBothWays q π d own other mt) :
    R.SettlesBothWays q π d.opposite other own mt where
  here := ht.there
  there := by
    cases d with
    | forward => exact ht.here
    | backward => exact ht.here
  meeting := by
    obtain ⟨_, hhere⟩ := ht.here
    obtain ⟨_, hthere⟩ := ht.there
    exact ht.meeting.swap hR hhere.explored hthere.explored

section Step

variable {e : EdgeView Exact} {made : Label Exact} {weight : Exact}

theorem exists_improves_of_stores (hR : R.IsWeighedBy w stored d)
    (hπ : ∀ u < R.network.nodeCount, h.balanced q.source q.target d u = .finite (balance π d u))
    {pending : LabelId → EdgeView Exact → Prop} (he : (R.side q π d).Explored own pending)
    (hl : own.label? id = some l) (hmem : e ∈ R.network.edges l.node d)
    (hpin : l.edge = none → pin = q.pin d)
    (hs : ((R.prunedMethod w limit h offset filter policy).exploration q d pin).Stores id l own e
      made weight) :
    ∃ c, (R.side q π d).Improves own id l e c ∧
      made = (R.side q π d).step e (l.total + c) id := by
  have hmem' : e ∈ R.network.edges ((l.edge.map (·.adj)).getD (q.root d)) d := by
    have hnode : (R.side q π d).node l.edge = (l.edge.map (·.adj)).getD (q.root d) :=
      node_terrain _
    rw [← hnode, ← he.node_eq hl]
    exact hmem
  obtain ⟨price, hprice, hcost⟩ := hR.price (hR.shows.traveled_mem hmem)
  obtain ⟨hallowed, hpinned⟩ := Bool.and_eq_true_iff.1 hs.allowed
  -- the filter only allows less, so what is explored is an edge of the terrain
  have hallows : ((R.settings w limit).pinnedExploration d (h.balanced q.source q.target d)
      (pinAt (q.pin d) l.edge)).allows (l.edge.map (·.edge)) e = true := by
    refine Bool.and_eq_true_iff.2 ⟨?_, ?_⟩
    · exact (Bool.and_true _).trans (Bool.and_eq_true_iff.1 hallowed).1
    · cases hedge : l.edge with
      | none => exact hpin hedge ▸ hpinned
      | some _ => rfl
  have hweight : w.weight e d l.incomingEdge = .ok weight := hs.price
  have hfinite := hs.finite
  rw [hR.weight _ hmem, hcost] at hweight
  rcases turnWeight_cases (d := d) (e := e) hR.toIsLawful l.incomingEdge with hinf | ⟨τ, _, hturn⟩
  · rw [hinf, Exact.finite_add_infinity] at hweight
    cases hweight
    cases hfinite
  · rw [hturn, Exact.finite_add_finite] at hweight
    cases hweight
    have htotal : l.cost + .finite (price + τ) = .finite (l.total + (price + τ)) := by
      rw [he.cost_eq hl, Exact.finite_add_finite]
    have hbetter := hs.better
    have hmade := hs.extend
    rw [htotal] at hbetter hmade
    refine ⟨price + τ, ⟨hl, ?_, fun {j lj} hb hlj ↦ ?_⟩, ?_⟩
    · exact (arc_iff_of_allows hR.toIsLawful hmem' hallows hcost).2 ⟨τ, hturn, rfl⟩
    · by_contra hle
      exact he.improves_iff.1 hbetter ⟨j, lj, hb, hlj, le_of_not_gt hle⟩
    · have hestimate : (R.prunedMethod w limit h offset filter policy).estimate.balanced q.source
          q.target d e.adj = .finite (balance π d e.adj) := hπ _ (hR.shows.adj_lt_of_mem hmem)
      cases hmade
      rw [hestimate]
      rfl

end Step

section Advance

variable (hR : ∀ d, R.IsWeighedBy w stored d) (hq : R.mode = .nodeBased → ∀ d, q.pin d = none)
variable (hπ : ∀ d, ∀ u < R.network.nodeCount,
  h.balanced q.source q.target d u = .finite (balance π d u))
variable (hc : R.IsConsistent π)
include hR hq hπ hc

theorem Unfolds.store (hu : R.Unfolds q π d id l own other mt)
    (hother : ∃ k, (R.side q π d.opposite).Settles other k) (hpin : l.edge = none → pin = q.pin d)
    {e : EdgeView Exact} {made : Label Exact} {weight : Exact}
    (hmem : e ∈ R.network.edges l.node d)
    (hs : ((R.prunedMethod w limit h offset filter policy).exploration q d pin).Stores id l own e
      made weight)
    (hjoin : (R.prunedMethod w limit h offset filter policy).join d e
      (own.store (R.mode.key e d) made).1 other (own.store (R.mode.key e d) made).2 mt = .ok mt') :
    R.Unfolds q π d id l (own.store (R.mode.key e d) made).1 other mt' := by
  have hT := side_isLawful (π := π) (d := d) (hR d).toIsLawful hq
  have hC : (R.side q π d).IsConsistent := side_isConsistent (hR d).toIsLawful hc
  obtain ⟨c, hi, rfl⟩ :=
    exists_improves_of_stores (hR d) (hπ d) hu.settles.explored hu.label hmem hpin hs
  obtain ⟨_, hthere⟩ := hother
  exact ⟨hu.settles.follow hT hC hi hu.settled,
    hu.settles.label?_follow hT hC hi hu.label hu.settled,
    hu.settles.priority?_follow hT hC hi hu.label hu.settled,
    hu.settles.priority?_follow hT hC hi hu.settles.explored.root hu.opened,
    hu.meeting.join limit h offset (hR d) hq hc hu.settles hu.settled hthere.explored hi hjoin⟩

theorem SettlesBothWays.advances (ht : R.SettlesBothWays q π d own other mt)
    (hpin : ∀ {id next}, own.pop? = some (id, next) →
      (id = 0 → pin = q.pin d) ∧ next.priority? 0 = none)
    (ha : (R.prunedMethod w limit h offset filter policy).Advances
      ((R.prunedMethod w limit h offset filter policy).exploration q d pin) d own other mt own'
        mt') :
    R.SettlesBothWays q π d own' other mt' ∧ own'.priority? 0 = none := by
  obtain ⟨k, hs⟩ := ht.here
  cases ha with
  | exhausted hp => exact ⟨ht, Frontier.priority?_of_pop_eq_none hs.explored.queue hp 0⟩
  | pruned hp _ =>
    obtain ⟨l, _, _, hnext⟩ := hs.pop hp
    exact ⟨⟨⟨_, hnext⟩, ht.there, ht.meeting.pop hs.explored.queue hp⟩, (hpin hp).2⟩
  | @expanded id next _ _ hp hexpand =>
    obtain ⟨l, hl, hsettled, hnext⟩ := hs.pop hp
    obtain ⟨hroot, hopened⟩ := hpin hp
    have hpin' : l.edge = none → pin = q.pin d := fun hnone ↦ by
      rcases hnext.explored.label_cases hl with ⟨hid, _⟩ | ⟨_, _, _, _, _, _, rfl, _⟩
      · exact hroot hid
      · cases hnone
    rw [Frontier.label_eq hl] at hexpand
    have hu := Method.expand_preserves
      (P := fun f mt ↦ R.Unfolds q π d id l f other mt)
      (fun hmem hu hs hjoin ↦ hu.store hR hq hπ hc ht.there hpin' hmem hs hjoin)
      ⟨hnext, hl, hsettled, hopened, ht.meeting.pop hs.explored.queue hp⟩ hexpand
    exact ⟨⟨⟨_, hu.settles⟩, ht.there, hu.meeting⟩, hu.opened⟩

variable {st st' : State Exact Q M σ}

theorem settlesBothWays_of_advance (hst : st.Satisfies (R.SettlesBothWays q π))
    (hpin : ∀ {id next}, (st.side d).frontier.pop? = some (id, next) →
      (id = 0 → pin = q.pin d) ∧ next.priority? 0 = none)
    (ha : (R.prunedMethod w limit h offset filter policy).advance q d pin st = (st', .ok ())) :
    st'.Satisfies (R.SettlesBothWays q π) ∧ (st'.side d).frontier.priority? 0 = none ∧
      st'.side d.opposite = st.side d.opposite := by
  obtain ⟨hother, hadvances⟩ := Method.advances_of_advance ha
  have hopened := ((hst d).advances hR hq hπ hc hpin hadvances).2
  refine ⟨Method.satisfies_of_advance (fun ht ↦ ht.swap (hR d).toIsLawful) (fun ht ha ↦ ?_) hst ha,
    hopened, hother⟩
  exact (ht.advances hR hq hπ hc hpin ha).1

/-- What holds of the searches once both roots have been explored. -/
structure SettlesPastRoots (R : Roads) (q : Query) (π : NodeId → Rat) (st : State Exact Q M σ) :
    Prop where
  settles : st.Satisfies (R.SettlesBothWays q π)
  opened : ∀ d, (st.side d).frontier.priority? 0 = none

theorem settlesPastRoots_of_advance (hst : R.SettlesPastRoots q π st)
    (ha : (R.prunedMethod w limit h offset filter policy).advance q d none st = (st', .ok ())) :
    R.SettlesPastRoots q π st' := by
  obtain ⟨_, hs⟩ := (hst.settles d).here
  obtain ⟨hsettles, hopened, hother⟩ := settlesBothWays_of_advance hR hq hπ hc hst.settles
    (fun {id next} hp ↦ by
      have hprio := Frontier.priority?_pop hs.explored.queue hp
      refine ⟨?_, by rw [hprio, hst.opened d, ite_self]⟩
      rintro rfl
      exact absurd (hst.opened d) (Frontier.priority?_ne_none_of_pop hs.explored.queue hp)) ha
  refine ⟨hsettles, fun d' ↦ ?_⟩
  have hthere : (st'.side d.opposite).frontier.priority? 0 = none := hother ▸ hst.opened _
  cases d <;> cases d' <;> assumption

end Advance

section Start

variable (hπ : ∀ d, ∀ u < R.network.nodeCount,
  h.balanced q.source q.target d u = .finite (balance π d u))
variable (hroot : ∀ d, q.root d < R.network.nodeCount)
include hπ hroot

omit [LawfulQueue Q] in
variable (w limit offset filter policy) in
theorem frontier_start (d : Direction) :
    (((R.prunedMethod w limit h offset filter policy).start q : State Exact Q M σ).side d).frontier =
      Frontier.empty.addRoot (R.side q π d).rootLabel (R.side q π d).rootKey := by
  rw [← frontier_startSide w limit offset hπ hroot d]
  cases d <;> rfl

variable (w limit offset filter policy) in
theorem settlesBothWays_start (hR : R.IsLawful stored)
    (hne : R.mode = .nodeBased → q.source ≠ q.target) :
    ((R.prunedMethod w limit h offset filter policy).start q : State Exact Q M σ).Satisfies
      (R.SettlesBothWays q π) := by
  have hs : ∀ d, (R.side q π d).Settles
      (((R.prunedMethod w limit h offset filter policy).start q : State Exact Q M σ).side d).frontier
        ((R.side q π d).estimate (R.side q π d).root) := fun d ↦
    frontier_start (Q := Q) (M := M) w limit offset filter policy hπ hroot d ▸ .start _
  have hmeeting : R.IsLeastMeeting q .forward
      ((R.method w limit h offset).start q : State Exact Q M Unit).forward.frontier
      ((R.method w limit h offset).start q : State Exact Q M Unit).backward.frontier
      ⟨Scalar.infinity, none⟩ := isLeastMeeting_start hπ hroot hne
  have hforward : R.SettlesBothWays q π .forward
      ((R.prunedMethod w limit h offset filter policy).start q : State Exact Q M σ).forward.frontier
      ((R.prunedMethod w limit h offset filter policy).start q : State Exact Q M σ).backward.frontier
      ⟨Scalar.infinity, none⟩ :=
    ⟨⟨_, hs .forward⟩, ⟨_, hs .backward⟩, hmeeting, nofun⟩
  intro d
  cases d with
  | forward => exact hforward
  | backward => exact hforward.swap hR

variable (hR : ∀ d, R.IsWeighedBy w stored d) (hq : R.mode = .nodeBased → ∀ d, q.pin d = none)
variable (hc : R.IsConsistent π) {st st' : State Exact Q M σ}
include hR hq hc

omit hroot in
theorem settlesBothWays_of_advance_root (hst : st.Satisfies (R.SettlesBothWays q π))
    (hfrontier : (st.side d).frontier =
      Frontier.empty.addRoot (R.side q π d).rootLabel (R.side q π d).rootKey)
    (ha : (R.prunedMethod w limit h offset filter policy).advance q d (q.pin d) st =
      (st', .ok ())) :
    st'.Satisfies (R.SettlesBothWays q π) ∧ (st'.side d).frontier.priority? 0 = none ∧
      st'.side d.opposite = st.side d.opposite := by
  obtain ⟨_, hs⟩ := (hst d).here
  refine settlesBothWays_of_advance hR hq hπ hc hst (fun {id next} hp ↦ ⟨fun _ ↦ rfl, ?_⟩) ha
  have hid := Frontier.priority?_ne_none_of_pop hs.explored.queue hp
  rw [hfrontier, Frontier.priority?_addRoot] at hid
  obtain rfl : id = 0 := by
    by_contra hne
    exact hid (if_neg hne)
  rw [Frontier.priority?_pop hs.explored.queue hp, if_pos rfl]

theorem settlesPastRoots_start (hne : R.mode = .nodeBased → q.source ≠ q.target)
    (hforward : (R.prunedMethod w limit h offset filter policy).advance q .forward q.firstEdge
      ((R.prunedMethod w limit h offset filter policy).start q) = (st, .ok ()))
    (hbackward : (R.prunedMethod w limit h offset filter policy).advance q .backward q.lastEdge st =
      (st', .ok ())) : R.SettlesPastRoots q π st' := by
  have hfrontier := frontier_start (Q := Q) (M := M) w limit offset filter policy hπ hroot
  obtain ⟨hsettles, hopened, hother⟩ := settlesBothWays_of_advance_root hπ hR hq hc
    (settlesBothWays_start w limit offset filter policy hπ hroot (hR .forward).toIsLawful hne)
    (hfrontier .forward) hforward
  obtain ⟨hsettles', hopened', hother'⟩ := settlesBothWays_of_advance_root hπ hR hq hc hsettles
    ((congrArg Side.frontier hother).trans (hfrontier .backward)) hbackward
  refine ⟨hsettles', fun d ↦ ?_⟩
  cases d with
  | forward => exact (congrArg (·.frontier.priority? 0) hother').trans hopened
  | backward => exact hopened'

end Start

theorem mem_edges_of_trail {es : List (EdgeView Exact)} {g : Rat} (ht : (R.side q π d).Trail es g)
    {e : EdgeView Exact} (he : e ∈ es) : ∃ u, e ∈ R.network.edges u d := by
  obtain ⟨_, _, ha⟩ := ht.exists_arc he
  exact ⟨_, (arc_terrain_iff.1 ha).1⟩

theorem SettlesPastRoots.exists_journey {st : State Exact Q M σ} (hR : R.IsLawful stored)
    (hst : R.SettlesPastRoots q π st) {labels : LabelId × LabelId}
    (hl : st.meeting.labels = some labels) :
    ∃ g, R.Journey q ((st.forward.frontier.pathTo labels.1 ++
        st.backward.frontier.pathFrom labels.2).map EdgeView.listed) g ∧
      st.meeting.cost = .finite g := by
  obtain ⟨⟨_, hforward⟩, ⟨_, hbackward⟩, hmeeting⟩ := hst.settles .forward
  obtain ⟨a, b, g, hlabels, ⟨la, lb, τ, ha, hb, hcross, rfl⟩, hcost⟩ := hmeeting.cost_eq hl
  obtain rfl : labels = (a, b) := hlabels
  obtain ⟨htrail, hhead⟩ := hforward.trail_edgesTo ha
  obtain ⟨htrail', hhead'⟩ := hbackward.trail_edgesTo hb
  have hto : (st.forward.frontier.pathTo a).map EdgeView.listed = st.forward.frontier.pathTo a := by
    refine (List.map_congr_left fun e he ↦ ?_).trans (List.map_id _)
    obtain ⟨_, hmem⟩ := mem_edges_of_trail htrail (List.mem_reverse.1 he)
    exact hR.shows.listed_eq hmem
  have hfrom : (st.backward.frontier.pathFrom b).map EdgeView.listed =
      (st.backward.frontier.edgesTo b).map EdgeView.fromEnd := by
    rw [Frontier.pathFrom, List.map_map]
    refine List.map_congr_left fun e he ↦ ?_
    obtain ⟨_, hmem⟩ := mem_edges_of_trail htrail' he
    exact hR.shows.listed_reversed hmem
  rw [List.map_append, hto, hfrom]
  exact ⟨_, journey_of_crossing hR htrail htrail' (hhead ▸ hhead' ▸ hcross), hcost⟩

variable {r : Route Exact}

/-- With a consistent estimate the weight of a route is what its edges and the turns between them
cost, whatever a filter and a policy make the search leave out. A loop counts as it is stored; the
backward half of a route may show it the other way round. -/
theorem weight_eq_of_pruned (hn : R.network.IsBuilt)
    (hprice : ∀ {u e}, e ∈ R.network.edges u .forward → ∃ c, 0 ≤ c ∧ R.price e = .finite c)
    (hturns : ∀ a v b, 0 ≤ R.turns a v b)
    (hnode : R.mode = .nodeBased → ∀ a v b, R.turns a v b = 0)
    (hw : ∀ {u d e} before, e ∈ R.network.edges u d → w.weight e d before =
      .ok (R.price (e.traveled d) + Weighting.turnWeight R.turns e d before))
    (hh : R.IsConsistentBetween h q.source q.target)
    (hfound : ((R.prunedMethod w limit h offset filter policy).bestRoute Q M q).result =
      .ok (.found r)) :
    ∃ g, R.Journey q (r.edges.map EdgeView.listed) g ∧ r.weight = .finite g := by
  obtain ⟨stored, hshows⟩ := hn.exists_shows
  have hR : ∀ d, R.IsWeighedBy w stored d := fun _ ↦ ⟨⟨hshows, hprice, hturns, hnode⟩, hw⟩
  have hlawful := (hR .forward).toIsLawful
  have hq : R.mode = .nodeBased → ∀ d, q.pin d = none := fun hm d ↦ by
    obtain ⟨hfirst, hlast⟩ := Method.no_pins_of_bestRoute hfound hm
    cases d with
    | forward => exact hfirst
    | backward => exact hlast
  have hroot : ∀ d, q.root d < R.network.nodeCount := fun d ↦ by
    obtain ⟨hs, ht⟩ := Method.lt_of_bestRoute hfound
    cases d with
    | forward => exact hs
    | backward => exact ht
  have hπ : ∀ d, ∀ u < R.network.nodeCount, h.balanced q.source q.target d u =
      .finite (balance (halfDifference h q.source q.target) d u) :=
    fun d _ hu ↦ balanced_eq hh.toTarget_finite hh.toSource_finite d hu
  have hc : R.IsConsistent (halfDifference h q.source q.target) := hh.isConsistent hlawful
  rcases Method.exists_of_bestRoute (I := R.SettlesPastRoots q (halfDifference h q.source q.target))
    (fun hst ha ↦ settlesPastRoots_of_advance hR hq hπ hc hst ha)
    (fun hne hforward hbackward ↦ settlesPastRoots_start hπ hroot hR hq hc
      (fun hm hst ↦ hne ⟨hst, hq hm .forward, hq hm .backward⟩) hforward hbackward) hfound with
    ⟨htrivial, hroute⟩ | ⟨st, labels, hst, hl, hroute⟩
  · obtain ⟨t, rfl⟩ := Route.exists_duration hroute
    exact ⟨0, journey_nil_iff.2 ⟨htrivial, rfl⟩, rfl⟩
  · rw [Method.meetingRoute] at hroute
    obtain ⟨t, rfl⟩ := Route.exists_duration hroute
    exact hst.exists_journey hlawful hl

def hiddenShortcut : Roads where
  network := (RoadGraph.ofEdges 4 [.oneWay 0 1 (.finite 10) (.finite 36),
    .twoWay 1 1 (.finite 10) (.finite 36), .oneWay 1 2 (.finite 10) (.finite 36),
    .oneWay 0 3 (.finite 1) (.finite 36), .oneWay 3 2 (.finite 1) (.finite 36)]).network
  mode := .edgeBased
  price e := e.distance
  turns a _ b := if a = 0 ∧ b = 2 then .infinity else .finite 3

def forgetful : PruningPolicy Exact Nat where
  start := 0
  skip asked _ _ := (decide (2 ≤ asked ∧ asked ≤ 4), asked + 1)

theorem weight_eq_hiddenShortcut :
    ∃ r, ((hiddenShortcut.prunedMethod
        ((Weighting.shortest .stored).withTurns hiddenShortcut.turns) noVisitLimit .zero 0 .all
          forgetful).bestRoute (SortedQueue Exact) SparseMap { source := 0, target := 2 }).result =
        .ok (.found r) ∧
      (r.weight, r.edges.map (·.againstStorage)) = (.finite 36, [false, true, false]) ∧
      ∃ g, hiddenShortcut.Journey { source := 0, target := 2 } (r.edges.map EdgeView.listed) g ∧
        r.weight = .finite g := by
  have hroute : (((hiddenShortcut.prunedMethod
      ((Weighting.shortest .stored).withTurns hiddenShortcut.turns) noVisitLimit .zero 0 .all
        forgetful).bestRoute (SortedQueue Exact) SparseMap
          { source := 0, target := 2 }).result.toOption.bind Outcome.route?).map
        (fun r ↦ (r.weight, r.edges.map (·.againstStorage))) =
      some (.finite 36, [false, true, false]) := by
    decide +kernel
  obtain ⟨r, hfound, hr⟩ := exists_found_of_route? hroute
  have hn : hiddenShortcut.network.IsBuilt := isBuilt_network_ofEdges _ _
  have hm : hiddenShortcut.network.IsMeasured := isMeasured_ofEdges (by decide +kernel)
  have hturns : ∀ a v b, 0 ≤ hiddenShortcut.turns a v b := fun a v b ↦ by
    simp only [hiddenShortcut]
    split
    · rfl
    · exact Exact.finite_le_finite.2 (by norm_num)
  have hw : Weighting.Charges hiddenShortcut.mode hiddenShortcut.price
      ((Weighting.shortest .stored).withTurns hiddenShortcut.turns) hiddenShortcut.turns :=
    .turns (.shortest fun _ _ ↦ rfl) nofun hturns
  obtain ⟨stored, hshows⟩ := hn.exists_shows
  have hR : hiddenShortcut.IsPricedBy _ stored := isPricedBy hshows hm hw
  exact ⟨r, hfound, hr, weight_eq_of_pruned hn hR.price hR.turns hR.nodeBased
    (fun before he ↦ hR.weight before he) (isConsistentBetween_zero hR.price) hfound⟩

end Roads

end RoadRouting
