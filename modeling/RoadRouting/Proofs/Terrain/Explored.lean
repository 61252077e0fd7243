import RoadRouting.Proofs.Frontier.Tree
import RoadRouting.Proofs.Terrain.Basic

namespace RoadRouting

open Scalar (Exact)

namespace Terrain

variable {Q M : Type} [PriorityQueue Q Exact] [LawfulQueue Q] [BestMap M]
variable (T : Terrain) (f : Frontier Exact Q M)

def Offers (key : StateKey) (g : Rat) : Prop :=
  ∃ id l, f.best? key = some id ∧ f.label? id = some l ∧ l.total ≤ g

/-- The label was made by following an edge from its parent, which may have become better. -/
def Extends (l : Label Exact) : Prop :=
  ∃ e g parent lp c, l = T.step e g parent ∧ f.label? parent = some lp ∧ T.arc lp.edge e c ∧
    lp.total + c ≤ g

/-- The invariant of exploring. Edges that are still to be explored from a label are `pending`. -/
structure Explored (pending : LabelId → EdgeView Exact → Prop) : Prop
    extends f.IsTree T.rootLabel T.keyOf where
  form : ∀ {id l}, f.label? id = some l → id ≠ 0 → T.Extends f l
  closed : ∀ {id l e c}, f.label? id = some l → f.priority? id = none → T.arc l.edge e c →
    ¬pending id e → Offers f (T.key e) (l.total + c)

structure Improves (id : LabelId) (l : Label Exact) (e : EdgeView Exact) (c : Rat) : Prop where
  label : f.label? id = some l
  arc : T.arc l.edge e c
  better : ∀ {j lj}, f.best? (T.key e) = some j → f.label? j = some lj → l.total + c < lj.total

omit [LawfulQueue Q] in
def follow (id : LabelId) (l : Label Exact) (e : EdgeView Exact) (c : Rat) :
    Frontier Exact Q M × LabelId :=
  f.store (T.key e) (T.step e (l.total + c) id)

variable {T f} {pending : LabelId → EdgeView Exact → Prop}

namespace Explored

variable (h : T.Explored f pending)
include h

theorem label_cases {id : LabelId} {l : Label Exact} (hl : f.label? id = some l) :
    id = 0 ∧ l = T.rootLabel ∨ id ≠ 0 ∧ T.Extends f l := by
  by_cases hid : id = 0
  · subst hid
    exact .inl ⟨rfl, Option.some.inj (hl.symm.trans h.root)⟩
  · exact .inr ⟨hid, h.form hl hid⟩

theorem isPlace {id : LabelId} {l : Label Exact} (hl : f.label? id = some l) :
    T.IsPlace l.edge := by
  rcases h.label_cases hl with ⟨_, rfl⟩ | ⟨_, e, g, parent, lp, c, rfl, _, ha, _⟩
  · exact isPlace_none
  · exact isPlace_of_arc ha

theorem node_eq {id : LabelId} {l : Label Exact} (hl : f.label? id = some l) :
    l.node = T.node l.edge := by
  rcases h.label_cases hl with ⟨_, rfl⟩ | ⟨_, e, g, parent, lp, c, rfl, _⟩
  · rfl
  · rfl

theorem cost_eq {id : LabelId} {l : Label Exact} (hl : f.label? id = some l) :
    l.cost = .finite l.total := by
  rcases h.label_cases hl with ⟨_, rfl⟩ | ⟨_, e, g, parent, lp, c, rfl, _⟩
  · rfl
  · rfl

theorem priority_eq {id : LabelId} {l : Label Exact} (hl : f.label? id = some l) :
    l.priority = .finite (l.total + T.estimate (T.node l.edge)) := by
  rcases h.label_cases hl with ⟨_, rfl⟩ | ⟨_, e, g, parent, lp, c, rfl, _⟩
  · rw [total_rootLabel, zero_add]
    rfl
  · rfl

theorem find_congr (hT : T.IsLawful) {p : Option (EdgeView Exact)} {k : StateKey} {id : LabelId}
    (hp : T.IsPlace p) (hk : T.keyOf p = some k) (hb : f.best? k = some id) :
    ∃ l, f.label? id = some l ∧ T.node p = T.node l.edge ∧
      ∀ e c, T.arc p e c → T.arc l.edge e c := by
  obtain ⟨l, hl, hkl⟩ := h.best hb
  have hpl := h.isPlace hl
  exact ⟨l, hl, hT.node_congr hp hpl hk hkl, fun e c ↦ hT.arc_congr hp hpl hk hkl⟩

theorem total_le_of_mem {id j : LabelId} {ids : List LabelId} {l lj : Label Exact}
    (hs : f.Lineage id ids) (hl : f.label? id = some l) (hj : j ∈ ids)
    (hlj : f.label? j = some lj) : lj.total ≤ l.total := by
  have hle := h.cost_le_of_mem hs hl hj hlj
  rwa [h.cost_eq hl, h.cost_eq hlj, Exact.finite_le_finite] at hle

theorem improves_iff {k : StateKey} {g : Rat} :
    f.improves k (.finite g) = true ↔ ¬Offers f k g := by
  unfold Frontier.improves Frontier.bestLabel?
  cases hb : f.best? k with
  | none => simp [Offers, hb]
  | some id =>
    obtain ⟨l, hl, _⟩ := h.best hb
    simp [Offers, hb, hl, h.cost_eq hl]

section Follow

variable {id : LabelId} {l : Label Exact} {e : EdgeView Exact} {c : Rat}

theorem label?_follow_self :
    (T.follow f id l e c).1.label? (T.follow f id l e c).2 =
      some (T.step e (l.total + c) id) :=
  h.label?_store_self _

theorem label?_follow_of_ne {j : LabelId} (hj : j ≠ (T.follow f id l e c).2) :
    (T.follow f id l e c).1.label? j = f.label? j :=
  h.label?_store_of_ne hj

omit [LawfulQueue Q] h in
theorem best?_follow (k : StateKey) :
    (T.follow f id l e c).1.best? k =
      if k = T.key e then some (T.follow f id l e c).2 else f.best? k :=
  Frontier.best?_store f _ _ k

omit [LawfulQueue Q] h in
theorem best?_follow_of_best? {k : StateKey} {j : LabelId} (hb : f.best? k = some j) :
    (T.follow f id l e c).1.best? k = some j := by
  rw [best?_follow]
  split
  · next hk =>
    subst hk
    rcases Frontier.store_cases f (T.key e) (T.step e (l.total + c) id) with hs | ⟨hs, _⟩
    · exact hs.symm.trans hb
    · cases hs.symm.trans hb
  · exact hb

theorem priority?_follow (j : LabelId) :
    (T.follow f id l e c).1.priority? j =
      if j = (T.follow f id l e c).2 then
        some (.finite (l.total + c + T.estimate e.adj)) else f.priority? j :=
  Frontier.priority?_store h.queue _ _ j

omit [LawfulQueue Q] h in
theorem best?_of_label?_follow {lj : Label Exact}
    (hj : f.label? (T.follow f id l e c).2 = some lj) :
    f.best? (T.key e) = some (T.follow f id l e c).2 :=
  Frontier.best?_of_label?_store hj

variable (hi : T.Improves f id l e c)
include hi

omit [LawfulQueue Q] h in
theorem lt_of_label?_follow {lj : Label Exact}
    (hj : f.label? (T.follow f id l e c).2 = some lj) : l.total + c < lj.total :=
  hi.better (best?_of_label?_follow hj) hj

theorem isBranch_step (hT : T.IsLawful) :
    f.IsBranch T.keyOf (T.key e) (T.step e (l.total + c) id) id l where
  state := rfl
  parent_eq := rfl
  label := hi.label
  cost_le := by
    have hc := hT.nonneg hi.arc
    rw [h.cost_eq hi.label]
    exact Exact.finite_le_finite.2 (by linarith)
  better hb hlj := by
    rw [h.cost_eq hlj]
    exact fun hle ↦ not_lt.2 (Exact.finite_le_finite.1 hle) (hi.better hb hlj)

theorem follow_ne (hT : T.IsLawful) : (T.follow f id l e c).2 ≠ id :=
  h.store_ne_parent (h.isBranch_step hi hT)

theorem follow_ne_zero (hT : T.IsLawful) : (T.follow f id l e c).2 ≠ 0 :=
  h.store_ne_zero (h.isBranch_step hi hT)

theorem offers_follow {k : StateKey} {g : Rat} (ho : Offers f k g) :
    Offers (T.follow f id l e c).1 k g := by
  obtain ⟨j, lj, hb, hlj, hle⟩ := ho
  by_cases hk : k = T.key e
  · subst hk
    have hlt := hi.better hb hlj
    refine ⟨_, _, (best?_follow _).trans (if_pos rfl), h.label?_follow_self, ?_⟩
    rw [total_step]
    linarith
  · refine ⟨j, lj, (best?_follow k).trans ((if_neg hk).trans hb), ?_, hle⟩
    rw [h.label?_follow_of_ne, hlj]
    rintro rfl
    exact hk (h.isKeyed.best_unique hb (best?_of_label?_follow hlj))

theorem extends_follow (hT : T.IsLawful) {j : LabelId} {lj : Label Exact}
    (hj : (T.follow f id l e c).1.label? j = some lj) (hj0 : j ≠ 0) :
    T.Extends (T.follow f id l e c).1 lj := by
  by_cases hji : j = (T.follow f id l e c).2
  · subst hji
    rw [h.label?_follow_self] at hj
    cases hj
    have hid := (h.label?_follow_of_ne (h.follow_ne hi hT).symm).trans hi.label
    exact ⟨e, _, id, l, c, rfl, hid, hi.arc, le_rfl⟩
  · rw [h.label?_follow_of_ne hji] at hj
    obtain ⟨e', g, parent, lp, c', rfl, hlp, ha, hle⟩ := h.form hj hj0
    by_cases hp : parent = (T.follow f id l e c).2
    · -- the parent is replaced: the new label stands for the same state and costs less
      subst hp
      have hb := best?_of_label?_follow hlp
      obtain ⟨lp', hlp', hk⟩ := h.best hb
      cases hlp.symm.trans hlp'
      refine ⟨e', g, _, _, c', rfl, h.label?_follow_self, ?_, ?_⟩
      · exact hT.arc_congr (h.isPlace hlp) (isPlace_of_arc hi.arc) hk rfl ha
      · have hlt := hi.better hb hlp
        rw [total_step]
        linarith
    · exact ⟨e', g, parent, lp, c', rfl, (h.label?_follow_of_ne hp).trans hlp, ha, hle⟩

protected theorem follow (hT : T.IsLawful) : T.Explored (T.follow f id l e c).1 pending where
  toIsTree := h.store (h.isBranch_step hi hT)
  form := h.extends_follow hi hT
  closed {j lj e' c'} hj hq ha hp := by
    rw [h.priority?_follow] at hq
    split at hq
    · cases hq
    · next hji =>
      rw [h.label?_follow_of_ne hji] at hj
      exact h.offers_follow hi (h.closed hj hq ha hp)

end Follow

theorem resolve {pending' : LabelId → EdgeView Exact → Prop}
    (hr : ∀ {j e lj c}, pending j e → f.label? j = some lj → T.arc lj.edge e c →
      pending' j e ∨ Offers f (T.key e) (lj.total + c)) : T.Explored f pending' where
  toIsTree := h.toIsTree
  form := h.form
  closed {j lj e c} hj hq ha hp := by
    by_cases hpe : pending j e
    · exact (hr hpe hj ha).resolve_left hp
    · exact h.closed hj hq ha hpe

section Pending

variable {id : LabelId} {l : Label Exact} {e : EdgeView Exact} {es : List (EdgeView Exact)}

omit h in
theorem skip (h : T.Explored f fun j e' ↦ j = id ∧ e' ∈ e :: es) (hl : f.label? id = some l)
    (ho : ∀ c, T.arc l.edge e c → Offers f (T.key e) (l.total + c)) :
    T.Explored f fun j e' ↦ j = id ∧ e' ∈ es := by
  refine h.resolve fun {j e' lj c} hp hj ha ↦ ?_
  obtain ⟨rfl, he'⟩ := hp
  rcases List.mem_cons.1 he' with rfl | he'
  · cases hj.symm.trans hl
    exact .inr (ho c ha)
  · exact .inl ⟨rfl, he'⟩

omit h in
theorem follow_next (hT : T.IsLawful) {c : Rat}
    (h : T.Explored f fun j e' ↦ j = id ∧ e' ∈ e :: es) (hi : T.Improves f id l e c) :
    T.Explored (T.follow f id l e c).1 fun j e' ↦ j = id ∧ e' ∈ es := by
  have hl := (h.label?_follow_of_ne (h.follow_ne hi hT).symm).trans hi.label
  refine (h.follow hi hT).skip hl fun c' ha ↦ ?_
  rw [hT.functional ha hi.arc]
  exact ⟨_, _, (best?_follow _).trans (if_pos rfl), h.label?_follow_self, le_rfl⟩

end Pending

theorem pop {next : Frontier Exact Q M} {id : LabelId} (hp : f.pop? = some (id, next)) :
    T.Explored next fun j e ↦ pending j e ∨ j = id := by
  have hl := Frontier.label?_of_pop? hp
  have hb := Frontier.best?_of_pop? hp
  have hprio := Frontier.priority?_pop h.queue hp
  refine ⟨h.toIsTree.pop hp, ?_, ?_⟩
  · intro j lj hj hj0
    obtain ⟨e, g, parent, lp, c, rfl, hlp, ha, hle⟩ := h.form (hl ▸ hj) hj0
    exact ⟨e, g, parent, lp, c, rfl, hl ▸ hlp, ha, hle⟩
  · intro j lj e c hj hq ha hpe
    rw [hprio, if_neg fun he ↦ hpe (.inr he)] at hq
    obtain ⟨i, li, hbi, hli, hle⟩ := h.closed (hl ▸ hj) hq ha fun hpend ↦ hpe (.inl hpend)
    exact ⟨i, li, hb ▸ hbi, hl ▸ hli, hle⟩

omit h in
theorem start (T : Terrain) :
    T.Explored (Frontier.empty.addRoot T.rootLabel T.rootKey : Frontier Exact Q M)
      fun _ _ ↦ False where
  toIsTree := Frontier.IsTree.addRoot T.keyOf rfl rfl
  form {id l} hl hid := by
    rw [Frontier.label?_addRoot, if_neg hid] at hl
    cases hl
  closed {id l e c} hl hq _ _ := by
    rw [Frontier.label?_addRoot] at hl
    rw [Frontier.priority?_addRoot] at hq
    split at hl
    · next hid => rw [if_pos hid] at hq; cases hq
    · cases hl

end Explored

end Terrain

end RoadRouting
