import RoadRouting.Proofs.Routes.Traces
import RoadRouting.Search.Bidirectional

namespace RoadRouting

open Scalar (IsOrdered)

namespace Exploration

variable {K : Type} [Scalar K]

/-- An exploration in a direction with the weights of the settings; a pin only lets edges through
that begin with it. -/
structure KeepsTo (x : Exploration K) (s : SearchSettings K) (d : Direction) (pin : Option EdgeId) :
    Prop where
  steps : x.MakesSteps
  edges : ∀ u, x.edges u = s.network.edges u d
  key : ∀ e, x.key e = s.mode.key e d
  allows : ∀ {before e}, x.allows before e = true →
    s.allows before e = true ∧ ∀ a, pin = some a → e.firstPart = a
  nonneg : ∀ {u l e w}, e ∈ s.network.edges u d → x.price l e = .ok w → 0 ≤ w
  finite : ∀ {u l e w}, e ∈ s.network.edges u d → x.price l e = .ok w →
    Scalar.isInfinite w = false → ∀ {inner : Weighting K} {turns : TurnCosts K},
    s.weighting = inner.withTurns turns → inner.IsNonneg s.network → (∀ a v b, 0 ≤ turns a v b) →
    Scalar.isFinite (Weighting.turnWeight turns e d l.incomingEdge) = true

end Exploration

section Settings

variable {K : Type} [Scalar K] [IsOrdered K] {s : SearchSettings K} {d : Direction}
variable (hw : s.weighting.IsNonneg s.network)

theorem Weighting.isFinite_turnWeight {e : EdgeView K} {before : Option EdgeId}
    {turns : TurnCosts K} (hturns : ∀ a v b, 0 ≤ turns a v b) {x w : K} (hx : 0 ≤ x)
    (hsum : x + turnWeight turns e d before = w) (hfinite : Scalar.isInfinite w = false) :
    Scalar.isFinite (turnWeight turns e d before) = true :=
  IsOrdered.isFinite_of_add hx (turnWeight_nonneg hturns e d before) (hsum ▸ hfinite)

include hw

theorem SearchSettings.keepsTo_exploration (estimate : NodeId → K) :
    (s.exploration d estimate).KeepsTo s d none where
  steps := s.makesSteps_exploration d estimate
  edges _ := rfl
  key _ := rfl
  allows ha := ⟨ha, nofun⟩
  nonneg he hp := hw.weight he hp
  finite {u l e w} he hp hfinite inner turns hs hinner hturns := by
    change s.weighting.weight e d l.incomingEdge = .ok w at hp
    rw [hs] at hp
    obtain ⟨y, hy, hp⟩ := exists_ok_of_bind hp
    exact Weighting.isFinite_turnWeight hturns (hinner.weight he hy) (Except.ok.inj hp) hfinite

theorem SearchSettings.keepsTo_timedExploration : (s.timedExploration d).KeepsTo s d none where
  steps := s.makesSteps_timedExploration d
  edges _ := rfl
  key _ := rfl
  allows ha := ⟨ha, nofun⟩
  nonneg he hp := hw.weightAt he hp
  finite {u l e w} he hp hfinite inner turns hs hinner hturns := by
    change s.weighting.weightAt e d l.incomingEdge l.time = .ok w at hp
    rw [hs] at hp
    obtain ⟨y, hy, hp⟩ := exists_ok_of_bind hp
    exact Weighting.isFinite_turnWeight hturns (hinner.weightAt he hy) (Except.ok.inj hp) hfinite

end Settings

theorem Bidirectional.Method.keepsTo_exploration {K σ : Type} [Scalar K] [IsOrdered K]
    {p : Method K σ} (hw : p.settings.weighting.IsNonneg p.settings.network) (q : Query)
    (d : Direction) (pin : Option EdgeId) : (p.exploration q d pin).KeepsTo p.settings d pin := by
  have hfree := SearchSettings.keepsTo_exploration (d := d) hw
    (p.estimate.balanced q.source q.target d)
  refine ⟨?_, hfree.edges, hfree.key, ?_, hfree.nonneg, hfree.finite⟩
  · intro id l e cost made hx
    exact hfree.steps (l := l) hx
  · intro before e ha
    obtain ⟨hallows, hpin⟩ := Bool.and_eq_true_iff.1 ha
    refine ⟨hallows, ?_⟩
    rintro a rfl
    exact (of_decide_eq_true hpin).symm

namespace SearchSettings

variable {K : Type} [Scalar K] {s : SearchSettings K} {d : Direction}
variable {root : NodeId} {pin : Option EdgeId} {stored : EdgeId → Option (StoredEdge K)}

theorem follows_of_stores {Q M : Type} [PriorityQueue Q K] [BestMap M] {x : Exploration K}
    {pin' : Option EdgeId} (hx : x.KeepsTo s d pin') (hn : s.network.Shows stored) {id : LabelId}
    {l made : Label K} {f : Frontier K Q M} {e : EdgeView K} {w : K}
    (he : e ∈ s.network.edges ((l.edge.map (·.adj)).getD root) d)
    (hpin : l.edge = none → pin' = pin) (hs : x.Stores id l f e made w) :
    s.Follows d root pin l.edge e where
  listed := he
  pinned hl a ha := by
    have hfirst := (hx.allows hs.allowed).2 a ((hpin hl).trans ha)
    rw [hn.firstPart_eq he] at hfirst
    exact congrArg some hfirst
  turn e₀ he₀ := by
    obtain ⟨hallows, _⟩ := hx.allows hs.allowed
    have hbefore : l.incomingEdge = some e₀.edge := by
      rw [Label.incomingEdge, Option.mem_def.1 he₀]
      rfl
    have hne : s.mode = .edgeBased → e₀.edge ≠ e.edge := by
      rintro hm heq
      simp [allows, TraversalMode.allowsUTurns, hm, hbefore, heq] at hallows
    have hfirst := hn.firstPart_eq he
    cases d with
    | forward =>
      refine ⟨hne, fun _ {inner turns} hs' hinner hturns ↦ ?_⟩
      have hfinite := hx.finite he hs.price hs.finite hs' hinner hturns
      rwa [hbefore, Weighting.turnWeight, hfirst] at hfinite
    | backward =>
      refine ⟨fun hm ↦ (hne hm).symm, fun _ {inner turns} hs' hinner hturns ↦ ?_⟩
      have hfinite := hx.finite he hs.price hs.finite hs' hinner hturns
      rwa [hbefore, Weighting.turnWeight, hfirst] at hfinite

omit [Scalar K] in
theorem keyOf_of_nodeBased (hm : s.mode = .nodeBased) (p : Option (EdgeView K)) :
    s.keyOf d root p = some ((p.map (·.adj)).getD root) := by
  cases p with
  | none => rw [keyOf, hm]; rfl
  | some e => rw [keyOf, hm]; rfl

omit [Scalar K] in
theorem rootKey_of_ne_nodeBased (hm : s.mode ≠ .nodeBased) (u : NodeId) :
    s.mode.rootKey u = none := by
  cases h : s.mode with
  | nodeBased => exact absurd h hm
  | edgeBased => rfl
  | edgeBasedWithUTurns => rfl

omit [Scalar K] in
theorem eq_fromEnd_of_keyOf {stored : EdgeId → Option (StoredEdge K)} {u : NodeId}
    {y : Option (EdgeView K)} (hn : s.network.Shows stored) (hm : s.mode ≠ .nodeBased)
    (he : e ∈ s.network.edges u d) (hy : ∀ e' ∈ y, ∃ v, e' ∈ s.network.edges v d.opposite)
    (hk : s.keyOf d.opposite root y = some (s.mode.key e d)) : y = some e.fromEnd := by
  cases y with
  | none => cases (rootKey_of_ne_nodeBased hm _).symm.trans hk
  | some e' =>
    obtain ⟨_, he'⟩ := hy e' rfl
    obtain ⟨_, rfl⟩ := hn.eq_fromEnd_of_key hm he he' (Option.some.inj hk).symm
    rfl

omit [Scalar K] in
theorem node_of_keyOf {stored : EdgeId → Option (StoredEdge K)} {u : NodeId}
    {y : Option (EdgeView K)} (hn : s.network.Shows stored) (he : e ∈ s.network.edges u d)
    (hy : ∀ e' ∈ y, ∃ v, e' ∈ s.network.edges v d.opposite)
    (hk : s.keyOf d.opposite root y = some (s.mode.key e d)) :
    (y.map (·.adj)).getD root = if s.mode.isEdgeBased then u else e.adj := by
  by_cases hm : s.mode = .nodeBased
  · have hmode : s.mode.isEdgeBased = false := by simp [TraversalMode.isEdgeBased, hm]
    have hkey : s.mode.key e d = e.adj := by rw [hm]; rfl
    rw [keyOf_of_nodeBased hm, hkey] at hk
    rw [hmode]
    exact Option.some.inj hk
  · have hmode : s.mode.isEdgeBased = true := by simp [TraversalMode.isEdgeBased, hm]
    obtain rfl := eq_fromEnd_of_keyOf hn hm he hy hk
    rw [hmode, if_pos rfl, Option.map_some, Option.getD_some, EdgeView.adj_fromEnd, hn.base_eq he]

omit [Scalar K] in
theorem adj_eq_of_keyOf {stored : EdgeId → Option (StoredEdge K)} (hn : s.network.Shows stored)
    {p : Option (EdgeView K)} (hp : ∀ e₀ ∈ p, ∃ u, e₀ ∈ s.network.edges u d) {u : NodeId}
    {e : EdgeView K} (he : e ∈ s.network.edges u d)
    (hk : s.keyOf d root p = some (s.mode.key e d)) : (p.map (·.adj)).getD root = e.adj := by
  by_cases hm : s.mode = .nodeBased
  · rw [keyOf_of_nodeBased hm, hm] at hk
    exact Option.some.inj hk
  · cases p with
    | none => cases (rootKey_of_ne_nodeBased hm root).symm.trans hk
    | some e₀ =>
      obtain ⟨_, he₀⟩ := hp e₀ rfl
      rw [hn.eq_of_key hm he₀ he (Option.some.inj hk)]
      rfl

section Congr

variable (hn : s.network.Shows stored) {p p' : Option (EdgeView K)} {k : StateKey}
variable (hp : ∀ e₀ ∈ p, ∃ p₀, s.Follows d root pin p₀ e₀)
variable (hp' : ∀ e₀ ∈ p', ∃ p₀, s.Follows d root pin p₀ e₀)
variable (hk : s.keyOf d root p = some k) (hk' : s.keyOf d root p' = some k)
include hn hp hp' hk hk'

theorem eq_of_keyOf (hm : s.mode ≠ .nodeBased) : p = p' := by
  cases p with
  | none => cases (rootKey_of_ne_nodeBased hm root).symm.trans hk
  | some e =>
    cases p' with
    | none => cases (rootKey_of_ne_nodeBased hm root).symm.trans hk'
    | some e' =>
      obtain ⟨_, he⟩ := hp e rfl
      obtain ⟨_, he'⟩ := hp' e' rfl
      have hkey : s.mode.key e d = s.mode.key e' d := Option.some.inj (hk.trans hk'.symm)
      rw [hn.eq_of_key hm he.listed he'.listed hkey]

theorem Follows.congr (hpin : s.mode = .nodeBased → pin = none) {e : EdgeView K}
    (h : s.Follows d root pin p e) : s.Follows d root pin p' e := by
  by_cases hm : s.mode = .nodeBased
  · rw [keyOf_of_nodeBased hm] at hk hk'
    refine ⟨?_, fun _ ↦ ?_, fun e₀ _ ↦ turns_of_nodeBased hm d _ _ _⟩
    · have hlisted := h.listed
      rwa [Option.some.inj (hk.trans hk'.symm)] at hlisted
    · rw [hpin hm]
      nofun
  · exact eq_of_keyOf hn hp hp' hk hk' hm ▸ h

end Congr

end SearchSettings

namespace Frontier

variable {K Q M : Type} [Scalar K] [PriorityQueue Q K] [LawfulQueue Q] [BestMap M]

/-- A tree of labels each of which was made by following an edge from its parent. -/
structure IsGrown (f : Frontier K Q M) (s : SearchSettings K) (d : Direction) (origin : NodeId)
    (pin : Option EdgeId) (start : Label K) : Prop extends f.IsTree start (s.keyOf d origin) where
  start_edge : start.edge = none
  start_node : start.node = origin
  start_parent : start.parent = none
  form : ∀ {id l}, f.label? id = some l → id ≠ 0 → ∃ e parent lp, l.edge = some e ∧
    l.node = e.adj ∧ l.parent = some parent ∧ f.label? parent = some lp ∧
    s.Follows d origin pin lp.edge e

namespace IsGrown

variable {s : SearchSettings K} {d : Direction} {origin : NodeId} {pin : Option EdgeId}
variable {start : Label K} {f next : Frontier K Q M} {id : LabelId} {l : Label K}
variable (h : f.IsGrown s d origin pin start)
include h

theorem node_eq (hl : f.label? id = some l) : l.node = (l.edge.map (·.adj)).getD origin := by
  by_cases hid : id = 0
  · subst hid
    cases hl.symm.trans h.root
    rw [h.start_edge, h.start_node]
    rfl
  · obtain ⟨e, _, _, hedge, hnode, _⟩ := h.form hl hid
    rw [hedge, hnode]
    rfl

theorem exists_follows (hl : f.label? id = some l) :
    ∀ e ∈ l.edge, ∃ p, s.Follows d origin pin p e := by
  intro e he
  by_cases hid : id = 0
  · subst hid
    cases hl.symm.trans h.root
    rw [h.start_edge] at he
    cases he
  · obtain ⟨e', _, lp, hedge, _, _, _, hf⟩ := h.form hl hid
    cases hedge.symm.trans he
    exact ⟨lp.edge, hf⟩

theorem trace_edgesTo (hl : f.label? id = some l) :
    s.Trace d origin pin (f.edgesTo id) ∧ (f.edgesTo id).head? = l.edge := by
  obtain ⟨ids, hs⟩ := h.lineage hl
  induction hs generalizing l with
  | @root id l' hl' hp =>
    cases hl.symm.trans hl'
    by_cases hid : id = 0
    · subst hid
      cases hl.symm.trans h.root
      rw [edgesTo_root hl hp, h.start_edge]
      exact ⟨.nil, rfl⟩
    · obtain ⟨_, _, _, _, _, hp', _⟩ := h.form hl hid
      cases hp.symm.trans hp'
  | @step id parent l' ids hl' hp hs ih =>
    cases hl.symm.trans hl'
    by_cases hid : id = 0
    · subst hid
      cases hl.symm.trans h.root
      cases h.start_parent.symm.trans hp
    · obtain ⟨e, _, lp, hedge, _, hp', hlp, hf⟩ := h.form hl hid
      cases hp.symm.trans hp'
      obtain ⟨htrace, hhead⟩ := ih hlp
      rw [edgesTo_step hl hp hs, hedge]
      exact ⟨htrace.cons (hhead ▸ hf), rfl⟩

protected theorem pop (hp : f.pop? = some (id, next)) : next.IsGrown s d origin pin start where
  toIsTree := h.toIsTree.pop hp
  start_edge := h.start_edge
  start_node := h.start_node
  start_parent := h.start_parent
  form := by
    rw [label?_of_pop? hp]
    exact h.form

theorem trace_of_pop (hp : f.pop? = some (id, next)) (hl : f.label? id = some l) :
    s.Trace d origin pin (next.edgesTo id) ∧
      ((next.edgesTo id).head?.map (·.adj)).getD origin = l.node := by
  have hl' := (congrFun (label?_of_pop? hp) id).trans hl
  obtain ⟨htrace, hhead⟩ := (h.pop hp).trace_edgesTo hl'
  rw [hhead, ← h.node_eq hl]
  exact ⟨htrace, rfl⟩

section Store

variable [IsOrdered K] {stored : EdgeId → Option (StoredEdge K)} (hn : s.network.Shows stored)
variable (hpin : s.mode = .nodeBased → pin = none)
include hn hpin

protected theorem store {key : StateKey} {made : Label K} {e : EdgeView K}
    (hb : f.IsBranch (s.keyOf d origin) key made id l) (hedge : made.edge = some e)
    (hnode : made.node = e.adj) (hf : s.Follows d origin pin l.edge e) :
    (f.store key made).1.IsGrown s d origin pin start where
  toIsTree := h.toIsTree.store hb
  start_edge := h.start_edge
  start_node := h.start_node
  start_parent := h.start_parent
  form {j lj} hj hj0 := by
    by_cases hji : j = (f.store key made).2
    · subst hji
      cases (h.label?_store_self made).symm.trans hj
      have hl := (h.label?_store_of_ne (h.store_ne_parent hb).symm).trans hb.label
      exact ⟨e, id, l, hedge, hnode, hb.parent_eq, hl, hf⟩
    · rw [h.label?_store_of_ne hji] at hj
      obtain ⟨e', parent, lp, he', hn', hp, hlp, hf'⟩ := h.form hj hj0
      by_cases hpi : parent = (f.store key made).2
      · -- the parent is replaced by a label that stands for the same state
        subst hpi
        obtain ⟨_, hlp', hk⟩ := h.best (best?_of_label?_store hlp)
        cases hlp'.symm.trans hlp
        refine ⟨e', _, made, he', hn', hp, h.label?_store_self made, ?_⟩
        refine hf'.congr hn (h.exists_follows hlp) (fun e₀ he₀ ↦ ?_) hk hb.state hpin
        cases hedge.symm.trans he₀
        exact ⟨l.edge, hf⟩
      · exact ⟨e', parent, lp, he', hn', hp, (h.label?_store_of_ne hpi).trans hlp, hf'⟩

theorem of_stores {x : Exploration K} {pin' : Option EdgeId} (hx : x.KeepsTo s d pin')
    (hl : f.label? id = some l) (hpin' : l.edge = none → pin' = pin) {e : EdgeView K}
    (he : e ∈ x.edges l.node) {made : Label K} {w : K} (hs : x.Stores id l f e made w) :
    f.IsBranch (s.keyOf d origin) (x.key e) made id l ∧ made.edge = some e ∧
      s.Follows d origin pin l.edge e ∧ (f.store (x.key e) made).1.IsGrown s d origin pin start ∧
      (f.store (x.key e) made).1.label? id = some l := by
  rw [hx.edges, h.node_eq hl] at he
  have hkey : s.keyOf d origin (some e) = some (x.key e) := by
    rw [hx.key]
    rfl
  have hb := h.isBranch hx.steps hkey hl (hx.nonneg he hs.price) hs
  obtain ⟨hedge, hnode, _, _⟩ := hx.steps hs.extend
  have hf := SearchSettings.follows_of_stores hx hn he hpin' hs
  exact ⟨hb, hedge, hf, h.store hn hpin hb hedge hnode hf,
    (h.label?_store_of_ne (h.store_ne_parent hb).symm).trans hl⟩

theorem expand {x : Exploration K} {pin' : Option EdgeId} (hx : x.KeepsTo s d pin')
    (hl : f.label? id = some l) (hpin' : l.edge = none → pin' = pin) {f' : Frontier K Q M}
    (hexpand : x.expand id l f (x.edges l.node) = .ok f') : f'.IsGrown s d origin pin start := by
  refine (Exploration.expand_preserves (P := fun f ↦ f.IsGrown s d origin pin start ∧
    f.label? id = some l) (fun {f e made w} he hf hs ↦ ?_) ⟨h, hl⟩ hexpand).1
  obtain ⟨_, _, _, hgrown, hl'⟩ := hf.1.of_stores hn hpin hx hf.2 hpin' he hs
  exact ⟨hgrown, hl'⟩

end Store

omit h in
variable (s d) in
protected theorem addRoot [IsOrdered K] (hedge : start.edge = none) (hnode : start.node = origin)
    (hparent : start.parent = none) (hcost : start.cost = 0) :
    (empty.addRoot start (s.mode.rootKey origin) : Frontier K Q M).IsGrown s d origin pin start where
  toIsTree := by
    have htree := IsTree.addRoot (Q := Q) (M := M) (s.keyOf d origin) hcost hparent
    rw [hedge] at htree
    exact htree
  start_edge := hedge
  start_node := hnode
  start_parent := hparent
  form {id l} hl hid := by
    rw [label?_addRoot, if_neg hid] at hl
    cases hl

end IsGrown

end Frontier

end RoadRouting
