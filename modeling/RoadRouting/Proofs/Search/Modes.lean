import RoadRouting.Proofs.Routes.Faults
import RoadRouting.Proofs.Search.Arrivals
import RoadRouting.Proofs.Weighting.FreeTurns

namespace RoadRouting

open Scalar (Exact IsOrdered)

theorem Outcome.isFound_eq {K : Type} (o : Outcome K) : o.isFound = o.weight?.isSome := by
  cases o with
  | found _ => rfl
  | unreachable => rfl
  | visitLimitReached => rfl

/-- The nodes that can be come to over accepted edges and what the edges cost, whatever the turns
between them are. -/
inductive Network.Affords (n : Network Exact) (accepts : EdgeView Exact → Bool)
    (price : EdgeView Exact → Exact) (source : NodeId) : NodeId → Rat → Prop
  | start : Affords n accepts price source source 0
  | step {u : NodeId} {e : EdgeView Exact} {g c : Rat} : Affords n accepts price source u g →
      e ∈ n.edges u .forward → accepts e = true → price e = .finite c →
      Affords n accepts price source e.adj (g + c)

def EdgeFilter.IgnoresTurns {K : Type} (filter : EdgeFilter K) : Prop :=
  ∀ before e, filter.acceptsAfter before e = filter.acceptsAfter none e

namespace SearchSettings

variable {s : SearchSettings Exact} {price : EdgeView Exact → Exact}
variable {stored : EdgeId → Option (StoredEdge Exact)} {source u : NodeId}
variable {e : EdgeView Exact}

section Costs

variable (hw : s.weighting.ChargesUTurns s.network price)
include hw

theorem hasCosts_of_chargesUTurns : s.HasCosts .forward :=
  fun he hx ↦ IsOrdered.le_trans (hw.price_nonneg he) (hw.price_le he hx)

theorem neverFails_of_chargesUTurns : (s.exploration .forward fun _ ↦ 0).NeverFails := by
  intro l e he
  obtain ⟨x, hx, _⟩ := hw.exists_weight he l.incomingEdge
  exact ⟨x, hx, fun _ id cost ↦ ⟨_, rfl⟩⟩

end Costs

section Labels

variable {Q M : Type} [PriorityQueue Q Exact] [LawfulQueue Q] [BestMap M]
variable {f : Frontier Exact Q M} {k : Exact} {id : LabelId} {l : Label Exact}

variable (s source) in
abbrev IsSettlingFrom (f : Frontier Exact Q M) (k : Exact) : Prop :=
  f.IsSettling (s.exploration .forward fun _ ↦ 0) (.root source 0) (s.keyOf .forward source) k

variable (hn : s.network.Shows stored) (hw : s.weighting.ChargesUTurns s.network price)
variable (h : s.IsSettlingFrom source f k)
include hw h

theorem exists_affords (hfilter : s.filter.IgnoresTurns) (hl : f.label? id = some l) :
    ∃ g q, l.cost = .finite q ∧ g ≤ q ∧
      s.network.Affords (s.filter.acceptsAfter none) price source l.node g := by
  have hx := goesByCost (hasCosts_of_chargesUTurns hw) source
  refine h.induct hx rfl (P := fun _ l ↦ ∃ g q, l.cost = .finite q ∧ g ≤ q ∧
    s.network.Affords (s.filter.acceptsAfter none) price source l.node g) ?_ ?_ hl
  · exact fun _ ↦ ⟨0, 0, rfl, le_rfl, .start⟩
  · intro p lp e w id l hlp hp hl hmade _
    obtain ⟨g, q, hq, hle, haffords⟩ := hp
    obtain ⟨_, hnode, _, hcost⟩ := hx.steps hmade.extend
    obtain ⟨c, hnonneg, hc⟩ := hw.priced hmade.listed
    have hprice := hw.price_le hmade.listed hmade.price
    have haccepted : s.filter.acceptsAfter none e = true :=
      (hfilter lp.incomingEdge e).symm.trans (Bool.and_eq_true_iff.1 hmade.allowed).2
    rcases Exact.zero_le_iff.1 (hasCosts_of_chargesUTurns hw hmade.listed hmade.price) with
      rfl | ⟨x, _, rfl⟩
    · cases hmade.finite
    · rw [hc, Exact.finite_le_finite] at hprice
      refine ⟨g + c, q + x, ?_, by linarith, hnode ▸ haffords.step hmade.listed haccepted hc⟩
      rw [hcost, hq, Exact.finite_add_finite]

include hn

theorem node_eq_adj_of_key (hl : f.label? id = some l) (he : e ∈ s.network.edges u .forward)
    (hk : s.keyOf .forward source l.edge = some (s.mode.key e .forward)) : l.node = e.adj := by
  have hx := goesByCost (hasCosts_of_chargesUTurns hw) source
  by_cases hid : id = 0
  · subst hid
    cases hl.symm.trans h.root
    exact adj_eq_of_keyOf (p := none) hn (fun e₀ he₀ ↦ absurd he₀ (Option.not_mem_none e₀)) he hk
  · obtain ⟨_, lp, _, _, _, hmade, hedge, hnode, _⟩ := h.exists_parent hx hl hid
    rw [hedge] at hk
    rw [hnode]
    refine adj_eq_of_keyOf (p := some _) hn (fun e₀ he₀ ↦ ?_) he hk
    cases he₀
    exact ⟨lp.node, hmade.listed⟩

theorem exists_label?_of_listed (hfilter : s.filter.IgnoresTurns)
    (hr : f.IsRelaxed (s.exploration .forward fun _ ↦ 0) fun _ _ ↦ False)
    (hl : f.label? id = some l) (hq : f.priority? id = none) {c : Rat}
    (he : e ∈ s.network.edges l.node .forward) (ha : s.filter.acceptsAfter none e = true)
    (hc : price e = .finite c) :
    ∃ j lj, f.label? j = some lj ∧ lj.node = e.adj ∧ lj.cost ≤ l.cost + .finite c := by
  have hx := goesByCost (hasCosts_of_chargesUTurns hw) source
  by_cases hturn : l.incomingEdge = some e.edge
  · -- the way back is the way from the parent
    obtain ⟨e₀, he₀, hsame⟩ := Option.map_eq_some_iff.1 hturn
    have hid : id ≠ 0 := by
      rintro rfl
      cases hl.symm.trans h.root
      cases he₀
    obtain ⟨p, lp, e₁, x, hp, hmade, hedge, hnode, hparent, _⟩ := h.exists_parent hx hl hid
    cases hedge.symm.trans he₀
    rw [hnode] at he
    have hback : e.adj = lp.node := hn.adj_of_edge_eq hmade.listed he hsame
    obtain ⟨lp', hlp', hle⟩ := h.parent_le hl hparent
    cases hp.symm.trans hlp'
    exact ⟨p, lp, hp, hback.symm, IsOrdered.le_trans hle
      (IsOrdered.le_add (h.nonneg hl) (hc ▸ hw.price_nonneg he))⟩
  · have hallowed : s.allows l.incomingEdge e = true := by
      refine Bool.and_eq_true_iff.2 ⟨Bool.or_eq_true_iff.2 (.inr (bne_iff_ne.2 hturn)), ?_⟩
      rw [hfilter, ha]
    have hprice : s.weighting.weight e .forward l.incomingEdge = .ok (.finite c) :=
      hc ▸ hw.weight he hturn
    obtain ⟨j, lj, hbest, hlj, hle⟩ := hr.offers hl hq he hallowed hprice rfl not_false
    obtain ⟨lj', hlj', hk⟩ := h.best hbest
    cases hlj.symm.trans hlj'
    exact ⟨j, lj, hlj, node_eq_adj_of_key hn hw h hlj he hk, hle⟩

theorem exists_settled_of_affords (hfilter : s.filter.IgnoresTurns)
    (hr : f.IsRelaxed (s.exploration .forward fun _ ↦ 0) fun _ _ ↦ False) {most g : Rat}
    (hqueued : ∀ {j lj}, f.label? j = some lj → f.priority? j ≠ none → ¬lj.cost ≤ .finite most)
    (ha : s.network.Affords (s.filter.acceptsAfter none) price source u g) (hg : g ≤ most) :
    ∃ id l, f.label? id = some l ∧ f.priority? id = none ∧ l.node = u ∧ l.cost ≤ .finite g := by
  have hsettled : ∀ {j lj x}, f.label? j = some lj → lj.cost ≤ .finite x → x ≤ most →
      f.priority? j = none := by
    intro j lj x hj hle hx
    by_contra hq
    exact hqueued hj hq (IsOrdered.le_trans hle (Exact.finite_le_finite.2 hx))
  induction ha with
  | start =>
    have hzero : (Label.root source 0 : Label Exact).cost ≤ .finite 0 :=
      Exact.finite_le_finite.2 le_rfl
    exact ⟨0, _, h.root, hsettled h.root hzero hg, rfl, hzero⟩
  | @step u e g c _ he hacc hc ih =>
    have hnonneg : 0 ≤ c := Exact.finite_le_finite.1 (hc ▸ hw.price_nonneg he)
    obtain ⟨id, l, hl, hq, rfl, hle⟩ := ih (by linarith)
    obtain ⟨j, lj, hlj, hnode, hle'⟩ := exists_label?_of_listed hn hw h hfilter hr hl hq he hacc hc
    have hcost : lj.cost ≤ .finite (g + c) := by
      obtain ⟨_, q, hlq, _⟩ := exists_affords hw h hfilter hl
      rw [hlq, Exact.finite_le_finite] at hle
      rw [hlq, Exact.finite_add_finite] at hle'
      exact Exact.le_finite_trans hle' (by linarith)
    exact ⟨j, lj, hlj, hsettled hlj hcost hg, hnode, hcost⟩

omit hn in
theorem routeTo_isOk_of_chargesUTurns (hl : f.label? id = some l) :
    ∃ r, s.routeTo source f id = .ok r ∧ r.weight = l.cost := by
  have hx := goesByCost (hasCosts_of_chargesUTurns hw) source
  have hlisted : ∀ e ∈ f.edgesTo id, ∃ u, e ∈ s.network.edges u .forward := by
    refine h.induct hx rfl (P := fun id _ ↦ ∀ e ∈ f.edgesTo id, ∃ u, e ∈ s.network.edges u .forward)
      (fun hroot e he ↦ ?_) (fun {_ lp _ _ _ _} _ hp _ hmade hedges e he ↦ ?_) hl
    · rw [hroot] at he
      cases he
    · rw [hedges] at he
      rcases List.mem_cons.1 he with rfl | he
      · exact ⟨lp.node, hmade.listed⟩
      · exact hp e he
  have hok : ∀ e ∈ f.pathTo id, ∀ before error,
      s.weighting.duration e .forward before ≠ .error error := by
    intro e he before error herror
    obtain ⟨u, hu⟩ := hlisted e (List.mem_reverse.1 he)
    obtain ⟨_, ht⟩ := hw.duration before hu
    cases ht.symm.trans herror
  obtain ⟨r, hr⟩ := Route.ofEdges_isOk hok source (f.label id).cost
  obtain ⟨_, rfl⟩ := Route.exists_duration hr
  exact ⟨_, hr, congrArg Label.cost (Frontier.label_eq hl)⟩

end Labels

section Answers

variable {Q M : Type} [PriorityQueue Q Exact] [LawfulQueue Q] [BestMap M]
variable {f next : Frontier Exact Q M} {visited : Nat} {goal : LabelId} {l : Label Exact}
variable {target : NodeId}
variable (hn : s.network.Shows stored) (hw : s.weighting.ChargesUTurns s.network price)
variable (hfilter : s.filter.IgnoresTurns)
include hn hw hfilter

section Seeks

variable (h : (s.exploration .forward fun _ ↦ 0).Seeks (.root source 0) (s.keyOf .forward source)
  target f visited)
include h

theorem isLeast_of_pop (hp : f.pop? = some (goal, next)) (hl : next.label? goal = some l)
    (hnode : l.node = target) : ∃ q, l.cost = .finite q ∧
      IsLeast {g | s.network.Affords (s.filter.acceptsAfter none) price source target g} q := by
  obtain ⟨k, hf⟩ := h.settling
  have hnext := hf.pop hp hl
  obtain ⟨g, q, hq, hle, ha⟩ := exists_affords hw hnext hfilter hl
  have hleast : ∀ g', s.network.Affords (s.filter.acceptsAfter none) price source target g' →
      q ≤ g' := by
    intro g' ha'
    by_contra hlt
    have hqueued : ∀ {j lj}, f.label? j = some lj → f.priority? j ≠ none →
        ¬lj.cost ≤ .finite g' := by
      intro j lj hj hqj hcost
      rw [← Frontier.label?_of_pop? hp] at hj
      have habove : l.cost ≤ lj.cost := by
        by_cases hjg : j = goal
        · subst hjg
          cases hl.symm.trans hj
          exact IsOrdered.le_self (hnext.nonneg hl)
        · apply hnext.above hj
          rwa [Frontier.priority?_pop hf.queue hp, if_neg hjg]
      have hqg := IsOrdered.le_trans habove hcost
      rw [hq, Exact.finite_le_finite] at hqg
      exact hlt hqg
    obtain ⟨id, l', hl', hsettled, hnode', _⟩ :=
      exists_settled_of_affords hn hw hf hfilter h.relaxed hqueued ha' le_rfl
    exact h.awaits hl' hnode' hsettled
  have heq : g = q := le_antisymm hle (hleast g (hnode ▸ ha))
  exact ⟨q, hq, heq ▸ hnode ▸ ha, hleast⟩

theorem not_affords_of_pop_eq_none (hp : f.pop? = none) (g : Rat) :
    ¬s.network.Affords (s.filter.acceptsAfter none) price source target g := by
  intro ha
  obtain ⟨k, hf⟩ := h.settling
  have hempty : ∀ j, f.priority? j = none := Frontier.priority?_of_pop_eq_none hf.queue hp
  obtain ⟨id, l', hl', hsettled, hnode, _⟩ := exists_settled_of_affords hn hw hf hfilter h.relaxed
    (fun {j _} _ hqj ↦ absurd (hempty j) hqj) ha le_rfl
  exact h.awaits hl' hnode hsettled

end Seeks

variable (Q M) in
theorem isCheapest_of_chargesUTurns
    (hlimit : max s.network.nodeCount (2 * s.network.edgeCount) < s.visitLimit)
    (hsource : source < s.network.nodeCount) (htarget : target < s.network.nodeCount) :
    ∃ o, (s.bestRoute Q M .zero source target).result = .ok o ∧ o.IsCheapest
      {g | s.network.Affords (s.filter.acceptsAfter none) price source target g} := by
  have hcosts : s.HasCosts .forward := hasCosts_of_chargesUTurns hw
  have hok : (s.exploration .forward fun _ ↦ 0).NeverFails := neverFails_of_chargesUTurns hw
  have hc : s.checkNodes [source, target] = .ok () := by
    rw [checkNodes_eq_ok_iff]
    simp [hsource, htarget]
  have hreaches : (s.exploration .forward fun _ ↦ 0).Reaches (.root source 0)
      (s.keyOf .forward source) target (0 + s.visitLimit)
      (s.exploreToward Q M .zero source target) :=
    (Exploration.run_reaches (goesByCost hcosts source) hok s.visitLimit
      (Exploration.seeks_addRoot _ _ _ target rfl rfl IsOrdered.zero_le_zero
        IsOrdered.zero_le_zero)).1
  rw [bestRoute, hc]
  cases hreaches with
  | @done f visited goal l hend hseen hseeks hp hl hnode =>
    obtain ⟨q, hq, hleast⟩ := isLeast_of_pop hn hw hfilter hseeks hp hl hnode
    obtain ⟨k, hf⟩ := hseeks.settling
    obtain ⟨r, hr, hweight⟩ := routeTo_isOk_of_chargesUTurns hw (hf.pop hp hl) hl
    refine ⟨.found r, ?_, .found (hweight.trans hq) hleast⟩
    simp only [hend, hseen]
    change s.routeTo source _ goal >>= (fun r ↦ pure (Outcome.found r)) = _
    rw [hr]
    rfl
  | exhausted hend hseeks hp =>
    refine ⟨.unreachable, ?_, .unreachable (Set.eq_empty_of_forall_notMem
      (not_affords_of_pop_eq_none hn hw hfilter hseeks hp))⟩
    simp only [hend]
    rfl
  | limited _ hlt =>
    have hvisited : (s.exploreToward Q M .zero source target).visited ≤ _ :=
      s.visited_explore_le Q M hn hcosts hok source target
    omega

end Answers

def withMode {K : Type} (s : SearchSettings K) (m : TraversalMode) : SearchSettings K :=
  { s with mode := m }

variable {Q M : Type} [PriorityQueue Q Exact] [LawfulQueue Q] [BestMap M]

/-- Where all turns but u-turns are free, whether something is found and at which weight does not depend
on the mode, and it is the least cost of traveling accepted edges one after the other. -/
theorem withMode_alike (hn : s.network.IsBuilt) (hm : s.network.IsMeasured)
    (hw : s.weighting.TurnsFreely price) (hfilter : s.filter.IgnoresTurns)
    (hlimit : max s.network.nodeCount (2 * s.network.edgeCount) < s.visitLimit)
    (source target : NodeId) :
    (∀ m m', EndAlike (fun o o' ↦ o.isFound = o'.isFound ∧ o.weight? = o'.weight?)
      ((s.withMode m).bestRoute Q M .zero source target).result
      ((s.withMode m').bestRoute Q M .zero source target).result) ∧
    (source < s.network.nodeCount → target < s.network.nodeCount → ∀ m, ∃ o,
      ((s.withMode m).bestRoute Q M .zero source target).result = .ok o ∧ o.IsCheapest
        {g | s.network.Affords (s.filter.acceptsAfter none) price source target g}) := by
  obtain ⟨stored, hshows⟩ := hn.exists_shows
  have hcharges : s.weighting.ChargesUTurns s.network price := hw.chargesUTurns hshows hm
  have hcheapest : source < s.network.nodeCount → target < s.network.nodeCount → ∀ m, ∃ o,
      ((s.withMode m).bestRoute Q M .zero source target).result = .ok o ∧ o.IsCheapest
        {g | s.network.Affords (s.filter.acceptsAfter none) price source target g} :=
    fun hsource htarget m ↦ isCheapest_of_chargesUTurns (s := s.withMode m) Q M hshows hcharges
      hfilter hlimit hsource htarget
  refine ⟨fun m m' ↦ ?_, hcheapest⟩
  cases hc : s.checkNodes [source, target] with
  | error error =>
    have hresult : ∀ m, ((s.withMode m).bestRoute Q M .zero source target).result =
        .error error := by
      intro m
      have hcm : (s.withMode m).checkNodes [source, target] = .error error := hc
      rw [bestRoute, hcm]
    rw [hresult m, hresult m']
    exact .error error
  | ok _ =>
    have hnodes := checkNodes_eq_ok_iff.1 hc
    have hsource := hnodes source List.mem_cons_self
    have htarget := hnodes target (List.mem_cons_of_mem _ List.mem_cons_self)
    obtain ⟨o, ho, ho_cheapest⟩ := hcheapest hsource htarget m
    obtain ⟨o', ho', ho'_cheapest⟩ := hcheapest hsource htarget m'
    have hweight := ho_cheapest.weight?_eq ho'_cheapest
    rw [ho, ho']
    exact .ok ⟨by rw [o.isFound_eq, o'.isFound_eq, hweight], hweight⟩

def freeTurns : SearchSettings Exact where
  network := Roads.barredTurn.network
  weighting := (Weighting.shortest .stored).withTurns TurnTable.empty.cost
  mode := .nodeBased
  filter := { accepts := fun e ↦ e.edge ≠ 3 }
  visitLimit := noVisitLimit

theorem turnsFreely_freeTurns : freeTurns.weighting.TurnsFreely fun e ↦ e.distance := by
  refine .turns (.shortest fun _ _ ↦ rfl) (fun a v ↦ ?_) fun a v b hab ↦ ?_
  · rw [TurnTable.cost, if_pos rfl]
    trivial
  · rw [TurnTable.cost, if_neg hab]
    rfl

theorem withMode_alike_freeTurns :
    let weight? m := ((freeTurns.withMode m).bestRoute (SortedQueue Exact) SparseMap .zero 0
      2).result.toOption.bind Outcome.weight?
    weight? .edgeBased = some (.finite 20) ∧ weight? .edgeBasedWithUTurns = some (.finite 20) ∧
      IsLeast {g | freeTurns.network.Affords (freeTurns.filter.acceptsAfter none)
        (fun e ↦ e.distance) 0 2 g} 20 := by
  intro weight?
  have hn : freeTurns.network.IsBuilt := isBuilt_network_ofEdges 3 _
  have hlimit : max freeTurns.network.nodeCount (2 * freeTurns.network.edgeCount) <
      freeTurns.visitLimit := by decide +kernel
  obtain ⟨halike, hcheapest⟩ := withMode_alike (Q := SortedQueue Exact) (M := SparseMap) hn
    Roads.isMeasured_barredTurn turnsFreely_freeTurns (fun _ _ ↦ rfl) hlimit 0 2
  obtain ⟨o, ho, hleast⟩ := hcheapest (by decide) (by decide) .nodeBased
  have hnodes : weight? .nodeBased = some (.finite 20) := by decide +kernel
  have hweight : o.weight? = some (.finite 20) := by
    rw [← hnodes]
    simp only [weight?, ho]
    rfl
  have hsame : ∀ m, weight? m = some (.finite 20) := by
    intro m
    rcases (halike m .nodeBased).cases with ⟨_, _, herror⟩ | ⟨o₁, o₂, ho₁, ho₂, _, heq⟩
    · cases herror.symm.trans ho
    · cases ho₂.symm.trans ho
      simp only [weight?, ho₁]
      exact heq.trans hweight
  refine ⟨hsame _, hsame _, ?_⟩
  cases hleast with
  | unreachable _ => cases hweight
  | @found r g hr hg =>
    have hg20 : Exact.finite g = .finite 20 := hr.symm.trans (Option.some.inj hweight)
    cases hg20
    exact hg

end SearchSettings

end RoadRouting
