import RoadRouting.Proofs.Search.Levels

namespace RoadRouting

open Scalar (IsOrdered)

structure Exploration.Makes {K : Type} [Scalar K] (x : Exploration K) (id : LabelId) (l : Label K)
    (e : EdgeView K) (w : K) (made : Label K) : Prop where
  listed : e ∈ x.edges l.node
  allowed : x.allows l.incomingEdge e = true
  price : x.price l e = .ok w
  finite : Scalar.isInfinite w = false
  extend : x.extend id l e (l.cost + w) = .ok made

namespace Frontier

variable {K Q M : Type} [Scalar K] [PriorityQueue Q K] [LawfulQueue Q] [BestMap M]

/-- All labels but the root are made from their parents as they are now. -/
structure IsSettling (f : Frontier K Q M) (x : Exploration K) (start : Label K)
    (keyOf : Option (EdgeView K) → Option StateKey) (k : K) : Prop
    extends f.IsLevelled start keyOf k where
  made : ∀ {id l}, f.label? id = some l → id ≠ 0 →
    ∃ p lp e w, f.label? p = some lp ∧ x.Makes p lp e w l

namespace IsSettling

variable [IsOrdered K] {f f' next : Frontier K Q M} {x : Exploration K} {start : Label K}
variable {keyOf : Option (EdgeView K) → Option StateKey} {k : K} {id : LabelId}

protected theorem pop (h : f.IsSettling x start keyOf k) (hp : f.pop? = some (id, next))
    {l : Label K} (hl : next.label? id = some l) : next.IsSettling x start keyOf l.cost where
  toIsLevelled := h.toIsLevelled.pop hp hl
  made := by
    rw [label?_of_pop? hp]
    exact h.made

variable (hx : x.GoesByCost keyOf)
include hx

protected theorem store {l made : Label K} {e : EdgeView K} {w : K}
    (h : f.IsSettling x start keyOf l.cost) (hl : f.label? id = some l)
    (hq : f.priority? id = none) (he : e ∈ x.edges l.node) (hs : x.Stores id l f e made w) :
    (f.store (x.key e) made).1.IsSettling x start keyOf l.cost ∧
      f.Keeps (f.store (x.key e) made).1 := by
  obtain ⟨hb, hlevelled, hkeeps⟩ := hx.store h.toIsLevelled hl hq he hs
  refine ⟨⟨hlevelled, ?_⟩, hkeeps⟩
  intro j lj hj hj0
  by_cases hji : j = (f.store (x.key e) made).2
  · subst hji
    cases (h.label?_store_self made).symm.trans hj
    exact ⟨id, l, e, w, (hkeeps id l hl hq).1, he, hs.allowed, hs.price, hs.finite, hs.extend⟩
  · rw [h.label?_store_of_ne hji] at hj
    obtain ⟨p, lp, e', w', hp, hmade⟩ := h.made hj hj0
    -- the parent has been settled, so it is not the label that is replaced
    obtain ⟨_, _, hparent, _⟩ := hx.steps hmade.extend
    exact ⟨p, lp, e', w', (hkeeps p lp hp (h.settled hj hparent)).1, hmade⟩

protected theorem expand {l : Label K} (h : f.IsSettling x start keyOf l.cost)
    (hl : f.label? id = some l) (hq : f.priority? id = none)
    (he : x.expand id l f (x.edges l.node) = .ok f') :
    f'.IsSettling x start keyOf l.cost ∧ f.Keeps f' := by
  refine Exploration.expand_preserves
    (P := fun f' ↦ f'.IsSettling x start keyOf l.cost ∧ f.Keeps f')
    (fun {f₁ e made w} he hf₁ hs ↦ ?_) ⟨h, Keeps.refl f⟩ he
  obtain ⟨hf₁, hkeeps⟩ := hf₁
  obtain ⟨hl₁, hq₁⟩ := hkeeps id l hl hq
  obtain ⟨hstored, hkeeps'⟩ := hf₁.store hx hl₁ hq₁ he hs
  exact ⟨hstored, hkeeps.trans hkeeps'⟩

protected theorem advance (h : f.IsSettling x start keyOf k) (hp : f.pop? = some (id, next))
    {l : Label K} (hl : next.label? id = some l)
    (he : x.expand id l next (x.edges l.node) = .ok f') :
    f'.IsSettling x start keyOf l.cost ∧ next.Keeps f' := by
  have hq : next.priority? id = none := by
    rw [priority?_pop h.queue hp, if_pos rfl]
  exact (h.pop hp hl).expand hx hl hq he

omit [IsOrdered K] in
theorem exists_parent (h : f.IsSettling x start keyOf k) {l : Label K}
    (hl : f.label? id = some l) (hid : id ≠ 0) : ∃ p lp e w, f.label? p = some lp ∧
      x.Makes p lp e w l ∧ l.edge = some e ∧ l.node = e.adj ∧ l.parent = some p ∧
      l.cost = lp.cost + w := by
  obtain ⟨p, lp, e, w, hp, hmade⟩ := h.made hl hid
  obtain ⟨hedge, hnode, hparent, hcost⟩ := hx.steps hmade.extend
  exact ⟨p, lp, e, w, hp, hmade, hedge, hnode, hparent, hcost⟩

omit hx in
variable (x keyOf) in
protected theorem addRoot (hcost : start.cost = 0) (hparent : start.parent = none)
    (hle : start.priority ≤ start.cost) (hge : start.cost ≤ start.priority) :
    (empty.addRoot start (keyOf start.edge) : Frontier K Q M).IsSettling x start keyOf 0 where
  toIsLevelled := .addRoot keyOf hcost hparent hle hge
  made {id l} hl hid := by
    rw [label?_addRoot, if_neg hid] at hl
    cases hl

omit [IsOrdered K] in
theorem induct (h : f.IsSettling x start keyOf k) (hstart : start.parent = none)
    {P : LabelId → Label K → Prop} (hroot : f.edgesTo 0 = start.edge.toList → P 0 start)
    (hstep : ∀ {p lp e w id l}, f.label? p = some lp → P p lp → f.label? id = some l →
      x.Makes p lp e w l → f.edgesTo id = e :: f.edgesTo p → P id l)
    {l : Label K} (hl : f.label? id = some l) : P id l := by
  obtain ⟨ids, hs⟩ := h.lineage hl
  induction hs generalizing l with
  | @root id l' hl' hp =>
    cases hl.symm.trans hl'
    by_cases hid : id = 0
    · subst hid
      cases hl.symm.trans h.root
      exact hroot (edgesTo_root hl hp)
    · obtain ⟨_, _, _, _, _, _, _, _, hp', _⟩ := h.exists_parent hx hl hid
      cases hp.symm.trans hp'
  | @step id parent l' ids hl' hp hs ih =>
    cases hl.symm.trans hl'
    by_cases hid : id = 0
    · subst hid
      cases hl.symm.trans h.root
      cases hstart.symm.trans hp
    · obtain ⟨p, lp, e, w, hlp, hmade, hedge, _, hp', _⟩ := h.exists_parent hx hl hid
      cases hp.symm.trans hp'
      apply hstep hlp (ih hlp) hl hmade
      rw [edgesTo_step hl hp hs, hedge]
      rfl

section Nodes

variable (h : f.IsSettling x start keyOf k) (hparent : start.parent = none)
  (hedge : start.edge = none)
include h hparent hedge

omit [IsOrdered K] in
theorem map_adj_edgesTo {ids : List LabelId} (hs : f.Lineage id ids) :
    (f.edgesTo id).map (·.adj) ++ [start.node] = ids.map fun j ↦ (f.label j).node := by
  induction hs with
  | @root id l hl hp =>
    have hid : id = 0 := by
      by_contra hid
      obtain ⟨_, _, _, _, _, _, _, _, hp', _⟩ := h.exists_parent hx hl hid
      cases hp.symm.trans hp'
    subst hid
    cases hl.symm.trans h.root
    rw [edgesTo_root hl hp, hedge, List.map_singleton, label_eq hl]
    rfl
  | @step id parent l ids hl hp hs ih =>
    have hid : id ≠ 0 := by
      rintro rfl
      cases hl.symm.trans h.root
      cases hparent.symm.trans hp
    obtain ⟨_, _, e, _, _, _, hedge', hnode, _⟩ := h.exists_parent hx hl hid
    rw [edgesTo_step hl hp hs, hedge', List.map_cons, ← ih, label_eq hl, hnode]
    rfl

omit [IsOrdered K] in
theorem nodup_nodes (hkey : ∀ {id l}, f.label? id = some l → keyOf l.edge = some l.node)
    {l : Label K} (hl : f.label? id = some l) :
    (start.node :: (f.edgesTo id).reverse.map (·.adj)).Nodup := by
  obtain ⟨ids, hs⟩ := h.lineage hl
  have hnodes := h.map_adj_edgesTo hx hparent hedge hs
  have hreverse : start.node :: (f.edgesTo id).reverse.map (·.adj) =
      (ids.map fun j ↦ (f.label j).node).reverse := by
    rw [← hnodes, List.reverse_append, List.map_reverse]
    rfl
  rw [hreverse, List.nodup_reverse]
  apply hs.nodup.map_on
  intro i hi j hj hij
  obtain ⟨li, hli⟩ := hs.exists_label? hi
  obtain ⟨lj, hlj⟩ := hs.exists_label? hj
  rw [label_eq hli, label_eq hlj] at hij
  have hbest := h.own hli (hkey hli)
  rw [hij, h.own hlj (hkey hlj)] at hbest
  exact (Option.some.inj hbest).symm

end Nodes

end IsSettling

end Frontier

end RoadRouting
