import RoadRouting.Proofs.Roads.Walks
import RoadRouting.Proofs.Search.Relaxed
import RoadRouting.Proofs.Search.Replay
import RoadRouting.Proofs.Weighting.Order
import Mathlib.Tactic.IntervalCases

namespace RoadRouting

open Scalar (Exact IsOrdered)

namespace Network

/-- A walk through edges that are open when they are reached, with the instant at its end and the sum
of the weights at the instants on the way. -/
inductive Trip (n : Network Exact) (w : Weighting Exact) (source : NodeId) (t₀ : Instant) :
    List (EdgeView Exact) → NodeId → Instant → Rat → Prop
  | start : Trip n w source t₀ [] source t₀ 0
  | go {es : List (EdgeView Exact)} {u : NodeId} {t t' : Instant} {g x : Rat} {e : EdgeView Exact}
      {δ : Duration} : Trip n w source t₀ es u t g → e ∈ n.edges u .forward →
      w.weightAt e .forward (EdgeView.lastOf none es) t = .ok (.finite x) →
      w.durationAt e .forward (EdgeView.lastOf none es) t = .ok δ →
      t'.toInt = t.toInt + δ.toNat → Trip n w source t₀ (es ++ [e]) e.adj t' (g + x)

/-- No trip that comes to each node once goes beyond the last instant. -/
def Fits (n : Network Exact) (w : Weighting Exact) (source : NodeId) (t₀ : Instant) : Prop :=
  ∀ {es u t g e δ}, n.Trip w source t₀ es u t g → e ∈ n.edges u .forward →
    (source :: (es ++ [e]).map (·.adj)).Nodup → w.Takes e t δ → t.toInt + δ.toNat < 2 ^ 63

def departures (n : Network Exact) (w : Weighting Exact) (limit : Nat) : SearchSettings Exact where
  network := n
  weighting := w
  mode := .nodeBased
  visitLimit := limit

variable {n : Network Exact} {w : Weighting Exact} {source : NodeId} {t₀ : Instant}
variable {es : List (EdgeView Exact)} {u : NodeId} {t : Instant} {g : Rat}

theorem Trip.weight_eq (hw : w.KeepsOrder n) (h : n.Trip w source t₀ es u t g) :
    1000 * g = t.toInt - t₀.toInt := by
  induction h with
  | start => simp
  | go h he hx hδ ht' ih =>
    obtain ⟨δ', hδ', hx'⟩ := hw.takes he hx rfl
    cases hδ.symm.trans (hδ'.duration _)
    cases hx'
    rw [ht']
    push_cast
    linarith

theorem toInt_add {t : Instant} {δ : Duration} (hlt : t.toInt + δ.toNat < 2 ^ 63) :
    (t + δ.toInt64).toInt = t.toInt + δ.toNat := by
  have hsum : t + δ.toInt64 = .ofInt (t.toInt + δ.toNat) := by
    rw [Int64.ofInt_add, Int64.ofInt_toInt, Direction.ofInt_toNat]
  have hlow := Int64.le_toInt t
  rw [hsum]
  apply Int64.toInt_ofInt_of_le
  · omega
  · exact hlt

section Bounded

variable {stored : EdgeId → Option (StoredEdge Exact)} {longest : Nat}
variable (hw : w.KeepsOrder n)
variable (hle : ∀ {u e t δ}, e ∈ n.edges u .forward → w.Takes e t δ → δ.toNat ≤ longest)
include hw hle

theorem Trip.toInt_le (h : n.Trip w source t₀ es u t g) :
    t.toInt ≤ t₀.toInt + es.length * longest := by
  induction h with
  | start => simp
  | go h he hx hδ ht' ih =>
    obtain ⟨δ', hδ', _⟩ := hw.takes he hx rfl
    cases hδ.symm.trans (hδ'.duration _)
    have hstep := hle he hδ'
    rw [ht', List.length_append, List.length_singleton]
    push_cast
    linarith

omit hw hle in
theorem Trip.adj_lt (hshows : n.Shows stored) (h : n.Trip w source t₀ es u t g) :
    ∀ e ∈ es, e.adj < n.nodeCount := by
  induction h with
  | start => exact List.forall_mem_nil _
  | go h he _ _ _ ih =>
    intro e' he'
    rcases List.mem_append.1 he' with he' | he'
    · exact ih e' he'
    · cases List.mem_singleton.1 he'
      exact hshows.adj_lt_of_mem he

variable (longest) in
theorem fits_of_le (hshows : n.Shows stored) (hs : source < n.nodeCount)
    (hlast : t₀.toInt + n.nodeCount * longest < 2 ^ 63) : n.Fits w source t₀ := by
  intro es u t g e δ htrip he hnodup hδ
  have hsub : source :: (es ++ [e]).map (·.adj) ⊆ List.range n.nodeCount := by
    intro v hv
    rw [List.mem_range]
    simp only [List.map_append, List.mem_cons, List.mem_append, List.mem_map, List.map_cons,
      List.map_nil, List.not_mem_nil, or_false] at hv
    rcases hv with rfl | ⟨e', he', rfl⟩ | rfl
    · exact hs
    · exact htrip.adj_lt hshows e' he'
    · exact hshows.adj_lt_of_mem he
  have hcount : es.length + 2 ≤ n.nodeCount := by
    have hlength := (hnodup.subperm hsub).length_le
    simp only [List.length_cons, List.length_map, List.length_append, List.length_nil,
      List.length_range] at hlength
    omega
  have hstart := htrip.toInt_le hw hle
  have hstep := hle he hδ
  have hroom : ((es.length : Int) + 1) * longest ≤ n.nodeCount * longest := by
    apply Int.mul_le_mul_of_nonneg_right
    · omega
    · omega
  linarith

end Bounded

variable (hw : w.KeepsOrder n) (limit : Nat)
include hw

theorem goesByCost_departures :
    ((n.departures w limit).timedExploration .forward).GoesByCost
      ((n.departures w limit).keyOf .forward source) := by
  apply SearchSettings.goesByCost_timed
  intro u e before t x he hx
  rcases hw.cases t he with hclosed | ⟨δ, hδ⟩
  · cases (hclosed before).symm.trans hx
    rfl
  · cases (hδ.weight before).symm.trans hx
    exact Exact.finite_le_finite.2 (by positivity)

theorem neverFails_departures :
    ((n.departures w limit).timedExploration .forward).NeverFails := by
  intro l e he
  rcases hw.cases l.time he with hclosed | ⟨δ, hδ⟩
  · exact ⟨_, hclosed l.incomingEdge, nofun⟩
  · refine ⟨_, hδ.weight l.incomingEdge, fun _ id cost ↦ ?_⟩
    simp only [SearchSettings.timedExploration, departures, hδ.duration]
    exact ⟨_, rfl⟩

section Labels

variable {Q M : Type} [PriorityQueue Q Exact] [LawfulQueue Q] [BestMap M]
variable {f : Frontier Exact Q M} {k : Exact} {id : LabelId} {l : Label Exact}
variable {stored : EdgeId → Option (StoredEdge Exact)}
variable (hs : source < n.nodeCount)
variable (hf : f.IsSettling ((n.departures w limit).timedExploration .forward)
  ((Label.root source 0).withTime t₀) ((n.departures w limit).keyOf .forward source) k)
include hf

theorem keyOf_eq_node (hl : f.label? id = some l) :
    (n.departures w limit).keyOf .forward source l.edge = some l.node := by
  by_cases hid : id = 0
  · subst hid
    cases hl.symm.trans hf.root
    rfl
  · obtain ⟨_, _, e, _, _, _, hedge, hnode, _⟩ :=
      hf.exists_parent (goesByCost_departures hw limit) hl hid
    rw [hedge, hnode]
    rfl

theorem size_le_nodeCount (hshows : n.Shows stored) (hs : source < n.nodeCount) :
    f.size ≤ n.nodeCount := by
  rw [← Finset.card_range n.nodeCount]
  refine hf.toIsTree.size_le fun {id l} hl ↦ ?_
  refine ⟨l.node, Finset.mem_range.2 ?_, keyOf_eq_node hw limit hf hl⟩
  by_cases hid : id = 0
  · subst hid
    cases hl.symm.trans hf.root
    exact hs
  · obtain ⟨_, _, e, _, _, hmade, _, hnode, _⟩ :=
      hf.exists_parent (goesByCost_departures hw limit) hl hid
    rw [hnode]
    exact hshows.adj_lt_of_mem hmade.listed

theorem exists_trip (hfits : n.Fits w source t₀) (hl : f.label? id = some l) :
    ∃ g, n.Trip w source t₀ (f.edgesTo id).reverse l.node l.time g ∧ l.cost = .finite g := by
  have hx : ((n.departures w limit).timedExploration .forward).GoesByCost
      ((n.departures w limit).keyOf .forward source) := goesByCost_departures hw limit
  refine hf.induct (P := fun id l ↦ ∃ g,
    n.Trip w source t₀ (f.edgesTo id).reverse l.node l.time g ∧ l.cost = .finite g) hx rfl ?_ ?_ hl
  · intro hedges
    rw [hedges]
    exact ⟨0, .start, rfl⟩
  · intro p lp e x id l hlp ⟨g, htrip, hcost⟩ hl hmade hedges
    obtain ⟨δ, hδ, rfl⟩ := hw.takes hmade.listed hmade.price hmade.finite
    have hnodes := hf.nodup_nodes hx rfl rfl (keyOf_eq_node hw limit hf) hl
    rw [hedges, List.reverse_cons] at hnodes ⊢
    have hlt := hfits htrip hmade.listed hnodes hδ
    obtain ⟨δ', hδ', hmade'⟩ := exists_ok_of_bind hmade.extend
    cases hδ'.symm.trans (hδ.duration _)
    cases hmade'
    refine ⟨g + δ.toNat / 1000, ?_, ?_⟩
    · exact htrip.go hmade.listed (hδ.weight _) (hδ.duration _) (toInt_add hlt)
    · change lp.cost + _ = _
      rw [hcost, Exact.finite_add_finite]

theorem exists_label_of_edge (hshows : n.Shows stored) (hfits : n.Fits w source t₀)
    (hr : f.IsRelaxed ((n.departures w limit).timedExploration .forward) fun _ _ ↦ False)
    (hl : f.label? id = some l) (hq : f.priority? id = none) (hle : l.cost ≤ .finite g)
    (hg : 1000 * g = t.toInt - t₀.toInt) {e : EdgeView Exact} {δ : Duration}
    (he : e ∈ n.edges l.node .forward) (hδ : w.Takes e t δ) :
    ∃ j lj, f.label? j = some lj ∧ lj.cost ≤ .finite (g + δ.toNat / 1000) ∧ lj.node = e.adj := by
  have hx : ((n.departures w limit).timedExploration .forward).GoesByCost
      ((n.departures w limit).keyOf .forward source) := goesByCost_departures hw limit
  obtain ⟨gl, htrip, hcost⟩ := exists_trip hw limit hf hfits hl
  have hgl := htrip.weight_eq hw
  have hgle : gl ≤ g := Exact.finite_le_finite.1 (hcost ▸ hle)
  have htime : l.time ≤ t := by
    have hcast : (l.time.toInt : Rat) ≤ t.toInt := by linarith
    exact Int64.le_iff_toInt_le.2 (by exact_mod_cast hcast)
  by_cases ha : (n.departures w limit).allows l.incomingEdge e = true
  · obtain ⟨δ', hδ', hsooner⟩ := hw.order he htime hδ
    obtain ⟨j, lj, hb, hlj, hlej⟩ := hr.offers hl hq he ha (hδ'.weight _) rfl not_false
    refine ⟨j, lj, hlj, Exact.le_finite_trans (hcost ▸ hlej) ?_, ?_⟩
    · have hcast : (l.time.toInt : Rat) + δ'.toNat ≤ t.toInt + δ.toNat := by exact_mod_cast hsooner
      linarith
    · obtain ⟨_, hlj', hkey⟩ := hf.best hb
      cases hlj'.symm.trans hlj
      exact Option.some.inj ((keyOf_eq_node hw limit hf hlj).symm.trans hkey)
  · -- the edge leads back to the parent, which has been settled before
    have hback : l.incomingEdge = some e.edge := by
      simpa [SearchSettings.allows, departures, TraversalMode.allowsUTurns, EdgeFilter.all] using ha
    have hid : id ≠ 0 := by
      rintro rfl
      cases hl.symm.trans hf.root
      cases hback
    obtain ⟨p, lp, e₀, _, hlp, hmade, hedge, hnode, hparent, _⟩ := hf.exists_parent hx hl hid
    obtain ⟨_, hlp', hlep⟩ := hf.parent_le hl hparent
    cases hlp'.symm.trans hlp
    rw [Label.incomingEdge, hedge] at hback
    rw [hnode] at he
    refine ⟨p, lp, hlp, ?_, (hshows.adj_of_edge_eq hmade.listed he (Option.some.inj hback)).symm⟩
    rw [hcost] at hlep
    refine Exact.le_finite_trans hlep ?_
    have hpos : (0 : Rat) ≤ δ.toNat / 1000 := by positivity
    linarith

/-- As long as the search goes on, each trip has come to a settled node, or a label is queued that
costs no more. -/
theorem exists_label_of_trip (hshows : n.Shows stored) (hfits : n.Fits w source t₀)
    (hr : f.IsRelaxed ((n.departures w limit).timedExploration .forward) fun _ _ ↦ False)
    (htrip : n.Trip w source t₀ es u t g) :
    ∃ id l, f.label? id = some l ∧ l.cost ≤ .finite g ∧
      (f.priority? id ≠ none ∨ l.node = u) := by
  induction htrip with
  | start => exact ⟨0, _, hf.root, Exact.finite_le_finite.2 le_rfl, .inr rfl⟩
  | @go es u t t' g x e δ htrip he hweight hduration ht' ih =>
    obtain ⟨δ', hδ', hx'⟩ := hw.takes he hweight rfl
    cases hduration.symm.trans (hδ'.duration _)
    cases hx'
    obtain ⟨id, l, hl, hle, hend⟩ := ih
    by_cases hq : f.priority? id = none
    · obtain rfl := hend.resolve_left fun hne ↦ hne hq
      obtain ⟨j, lj, hlj, hlej, hnode⟩ := exists_label_of_edge hw limit hf hshows hfits hr hl hq hle
        (htrip.weight_eq hw) he hδ'
      exact ⟨j, lj, hlj, hlej, .inr hnode⟩
    · refine ⟨id, l, hl, Exact.le_finite_trans hle ?_, .inl hq⟩
      have hpos : (0 : Rat) ≤ δ.toNat / 1000 := by positivity
      linarith

end Labels

section Answer

variable {Q M : Type} [PriorityQueue Q Exact] [LawfulQueue Q] [BestMap M]
variable {stored : EdgeId → Option (StoredEdge Exact)} {target : NodeId}
variable {f next : Frontier Exact Q M} {visited : Nat}
variable (hshows : n.Shows stored) (hfits : n.Fits w source t₀)
variable (hf : ((n.departures w limit).timedExploration .forward).Seeks
  ((Label.root source 0).withTime t₀) ((n.departures w limit).keyOf .forward source) target f visited)
variable (htrip : n.Trip w source t₀ es target t g)
include hshows hfits hf htrip

theorem exists_queued_of_trip :
    ∃ id l, f.label? id = some l ∧ l.cost ≤ .finite g ∧ f.priority? id ≠ none := by
  obtain ⟨k, hsettling⟩ := hf.settling
  obtain ⟨id, l, hl, hle, hend⟩ :=
    exists_label_of_trip hw limit hsettling hshows hfits hf.relaxed htrip
  refine ⟨id, l, hl, hle, ?_⟩
  rcases hend with hq | hnode
  · exact hq
  · exact hf.awaits hl hnode

theorem not_trip_of_pop_eq_none (hp : f.pop? = none) : False := by
  obtain ⟨k, hsettling⟩ := hf.settling
  obtain ⟨id, _, _, _, hq⟩ := exists_queued_of_trip hw limit hshows hfits hf htrip
  exact hq (Frontier.priority?_of_pop_eq_none hsettling.queue hp id)

theorem cost_le_of_trip {goal : LabelId} {l : Label Exact} (hp : f.pop? = some (goal, next))
    (hl : next.label? goal = some l) : l.cost ≤ .finite g := by
  obtain ⟨k, hsettling⟩ := hf.settling
  obtain ⟨id, lj, hlj, hle, hq⟩ := exists_queued_of_trip hw limit hshows hfits hf htrip
  rw [← Frontier.label?_of_pop? hp] at hlj
  by_cases hid : id = goal
  · subst hid
    cases hlj.symm.trans hl
    exact hle
  · refine IsOrdered.le_trans ((hsettling.pop hp hl).above hlj ?_) hle
    rwa [Frontier.priority?_pop hsettling.queue hp, if_neg hid]

end Answer

variable (Q M : Type) [PriorityQueue Q Exact] [LawfulQueue Q] [BestMap M] (target : NodeId)

variable (source t₀) in
theorem exploreFrom_reaches :
    let r := (n.departures w limit).exploreFrom Q M .forward source target t₀
    ((n.departures w limit).timedExploration .forward).Reaches ((Label.root source 0).withTime t₀)
        ((n.departures w limit).keyOf .forward source) target limit r ∧
      ∃ k, r.frontier.IsSettling ((n.departures w limit).timedExploration .forward)
        ((Label.root source 0).withTime t₀) ((n.departures w limit).keyOf .forward source) k ∧
        r.visited ≤ r.frontier.settledIds.card := by
  have hstart := Exploration.seeks_addRoot (Q := Q) (M := M)
    ((n.departures w limit).timedExploration .forward) ((Label.root source 0).withTime t₀)
    ((n.departures w limit).keyOf .forward source) target rfl rfl
    IsOrdered.zero_le_zero IsOrdered.zero_le_zero
  have hrun := Exploration.run_reaches (goesByCost_departures hw limit)
    (neverFails_departures hw limit) limit hstart
  rwa [Nat.zero_add] at hrun

variable {target}

/-- Where nobody is overtaken, the answer is a cheapest trip or that there is none; no more labels are
visited than there are nodes. -/
theorem isBest_bestRouteAt (hn : n.IsBuilt) (hs : source < n.nodeCount) (ht : target < n.nodeCount)
    (hfits : n.Fits w source t₀) :
    ((n.departures w limit).bestRouteAt Q M .forward source target t₀).IsBest
        (fun es g ↦ ∃ t, n.Trip w source t₀ es target t g) limit ∧
      ((n.departures w limit).bestRouteAt Q M .forward source target t₀).visited ≤ n.nodeCount := by
  obtain ⟨stored, hshows⟩ := hn.exists_shows
  obtain ⟨hends, k, hsettling, hvisited⟩ :=
    exploreFrom_reaches source t₀ hw limit Q M target
  have hcheck : (n.departures w limit).checkNodes [source, target] = .ok () := by
    rw [SearchSettings.checkNodes_eq_ok_iff]
    simpa [departures] using ⟨hs, ht⟩
  rw [Answer.IsBest, SearchSettings.bestRouteAt, hcheck]
  constructor
  · cases hends with
    | @done f visited goal l hend hgoal hseeks hp hl hnode =>
      obtain ⟨g, htrip, hcost⟩ := exists_trip hw limit hsettling hfits hl
      simp only [hend, hgoal]
      refine ⟨g, ⟨l.time, hnode ▸ htrip⟩, ?_, ?_⟩
      · rw [← hcost, ← Frontier.label_eq hl]
        rfl
      · intro es g' htrip
        obtain ⟨t, htrip'⟩ := htrip
        have hle := cost_le_of_trip hw limit hshows hfits hseeks htrip' hp hl
        exact Exact.finite_le_finite.1 (hcost ▸ hle)
    | exhausted hend hseeks hp =>
      simp only [hend]
      intro es g htrip
      obtain ⟨t, htrip⟩ := htrip
      exact not_trip_of_pop_eq_none hw limit hshows hfits hseeks htrip hp
    | limited hend hlt =>
      simp only [hend]
      exact hlt
  · refine (hvisited.trans (Frontier.card_settledIds_le _)).trans ?_
    exact size_le_nodeCount hw limit hsettling hshows hs

omit hw

def closingRoad : Network Exact :=
  (RoadGraph.ofEdges 3 [.oneWay 0 1 (.finite 10) (.finite 36),
    .oneWay 1 2 (.finite 10) (.finite 36), .oneWay 0 2 (.finite 50) (.finite 36)]).network

def closingWeighting : Weighting Exact :=
  (Weighting.fastest .stored (.finite 36)).withAccess fun e t ↦ decide (e.edge ≠ 1 ∨ t ≤ 1500)

theorem takes_closingRoad {u : NodeId} {e : EdgeView Exact}
    (he : e ∈ closingRoad.edges u .forward) :
    ∃ m ≤ 5000, ∀ t, (Weighting.fastest .stored (.finite 36)).Takes e t (.ofNat m) := by
  obtain ⟨stored, hshows⟩ := (isBuilt_network_ofEdges 3 _ : closingRoad.IsBuilt).exists_shows
  have hu : u < 3 := hshows.lt_of_mem he
  interval_cases u
  · rcases List.mem_cons.1 he with rfl | hrest
    · exact ⟨1000, by norm_num, fun t ↦ Weighting.takes_fastest hshows he (l := 10) (v := 36) rfl rfl
        (by norm_num) (by norm_num) (by norm_num) _ t⟩
    · obtain rfl := List.mem_singleton.1 hrest
      exact ⟨5000, by norm_num, fun t ↦ Weighting.takes_fastest hshows he (l := 50) (v := 36) rfl rfl
        (by norm_num) (by norm_num) (by norm_num) _ t⟩
  · obtain rfl := List.mem_singleton.1 he
    exact ⟨1000, by norm_num, fun t ↦ Weighting.takes_fastest hshows he (l := 10) (v := 36) rfl rfl
      (by norm_num) (by norm_num) (by norm_num) _ t⟩
  · cases he

theorem keepsOrder_closingRoad : closingWeighting.KeepsOrder closingRoad := by
  apply Weighting.KeepsOrder.withAccess
  · apply Weighting.keepsOrder_of_takes
    intro u e he
    obtain ⟨m, _, hm⟩ := takes_closingRoad he
    exact ⟨_, hm⟩
  · intro e t t' ht ha
    rw [decide_eq_true_iff] at ha ⊢
    exact ha.imp_right (Int64.le_trans ht)

theorem isBest_bestRouteAt_closingRoad :
    let answer := (closingRoad.departures closingWeighting 3).bestRouteAt (SortedQueue Exact)
      SparseMap .forward 0 2 1000
    (answer.result.toOption.bind Outcome.route?).map (·.weight) = some (.finite 5) ∧
      answer.IsBest (fun es g ↦ ∃ t, closingRoad.Trip closingWeighting 0 1000 es 2 t g) 3 ∧
      answer.visited ≤ closingRoad.nodeCount := by
  have hn : closingRoad.IsBuilt := isBuilt_network_ofEdges 3 _
  obtain ⟨stored, hshows⟩ := hn.exists_shows
  have hcount : closingRoad.nodeCount = 3 := RoadGraph.nodeCount_ofEdges _ _
  have hs : 0 < closingRoad.nodeCount := by omega
  have ht : 2 < closingRoad.nodeCount := by omega
  have hfits : closingRoad.Fits closingWeighting 0 1000 := by
    refine fits_of_le 5000 keepsOrder_closingRoad (fun {u e t δ} he hδ ↦ ?_) hshows hs ?_
    · obtain ⟨m, hm, hfastest⟩ := takes_closingRoad he
      have heq := (hfastest t).duration none
      cases (hδ.duration none).symm.trans heq
      rw [UInt64.toNat_ofNat_of_lt' (lt_of_le_of_lt hm (by norm_num))]
      exact hm
    · rw [hcount]
      decide
  refine ⟨by decide +kernel, ?_⟩
  exact isBest_bestRouteAt keepsOrder_closingRoad 3 _ _ hn hs ht hfits

end Network

end RoadRouting
