import RoadRouting.Proofs.Frontier.Lineage
import RoadRouting.Proofs.Frontier.Views
import Mathlib.Data.Finset.Card

namespace RoadRouting.Frontier

open Scalar (IsOrdered)

section Settled

variable {K Q M : Type} [Scalar K] [PriorityQueue Q K] [LawfulQueue Q]

def settledIds (f : Frontier K Q M) : Finset LabelId :=
  (Finset.range f.size).filter fun id ↦ (f.priority? id).isNone

theorem mem_settledIds {f : Frontier K Q M} {id : LabelId} :
    id ∈ f.settledIds ↔ id < f.size ∧ f.priority? id = none := by
  rw [settledIds, Finset.mem_filter, Finset.mem_range, Option.isNone_iff_eq_none]

theorem card_settledIds_le (f : Frontier K Q M) : f.settledIds.card ≤ f.size :=
  (Finset.card_filter_le _ _).trans (Finset.card_range f.size).le

theorem card_settledIds_pop {f next : Frontier K Q M} {id : LabelId}
    (hq : LawfulQueue.IsValid f.queue) (hp : f.pop? = some (id, next)) (hid : id < f.size) :
    next.settledIds.card = f.settledIds.card + 1 := by
  have hsize : next.size = f.size := by
    obtain ⟨_, _, rfl⟩ := pop?_eq_some_iff.1 hp
    rfl
  have hnot : id ∉ f.settledIds := fun h ↦ priority?_ne_none_of_pop hq hp (mem_settledIds.1 h).2
  have hinsert : next.settledIds = Insert.insert id f.settledIds := by
    ext j
    rw [Finset.mem_insert, mem_settledIds, mem_settledIds, hsize, priority?_pop hq hp]
    by_cases hj : j = id
    · simp [hj, hid]
    · simp [hj]
  rw [hinsert, Finset.card_insert_of_notMem hnot]

end Settled

variable {K Q M : Type} [Scalar K] [PriorityQueue Q K] [LawfulQueue Q] [BestMap M]
variable {f next : Frontier K Q M} {start : Label K}
variable {keyOf : Option (EdgeView K) → Option StateKey}

structure IsTree (f : Frontier K Q M) (start : Label K)
    (keyOf : Option (EdgeView K) → Option StateKey) : Prop where
  queue : LawfulQueue.IsValid f.queue
  queued : ∀ {id k}, f.priority? id = some k → ∃ l, f.label? id = some l ∧ l.priority = k
  root : f.label? 0 = some start
  start_cost : start.cost = 0
  lineage : ∀ {id l}, f.label? id = some l → ∃ ids, f.Lineage id ids
  own : ∀ {id l k}, f.label? id = some l → keyOf l.edge = some k → f.best? k = some id
  best : ∀ {k id}, f.best? k = some id → ∃ l, f.label? id = some l ∧ keyOf l.edge = some k
  nonneg : ∀ {id l}, f.label? id = some l → 0 ≤ l.cost
  parent_le : ∀ {id l p}, f.label? id = some l → l.parent = some p →
    ∃ lp, f.label? p = some lp ∧ lp.cost ≤ l.cost

/-- A label made from another one that is better than what is known of its state. -/
structure IsBranch (f : Frontier K Q M) (keyOf : Option (EdgeView K) → Option StateKey)
    (key : StateKey) (l : Label K) (id : LabelId) (parent : Label K) : Prop where
  state : keyOf l.edge = some key
  parent_eq : l.parent = some id
  label : f.label? id = some parent
  cost_le : parent.cost ≤ l.cost
  better : ∀ {j lj}, f.best? key = some j → f.label? j = some lj → ¬lj.cost ≤ l.cost

namespace IsTree

section Keys

variable (h : f.IsTree start keyOf)
include h

theorem isKeyed : f.IsKeyed keyOf := fun _ _ ↦ h.best

theorem label?_of_pop {id : LabelId} (hp : f.pop? = some (id, next)) :
    ∃ l, f.label? id = some l ∧ f.priority? id = some l.priority := by
  obtain ⟨k, hk, _⟩ := least_of_pop h.queue hp
  obtain ⟨l, hl, rfl⟩ := h.queued hk
  exact ⟨l, hl, hk⟩

theorem label?_store {key : StateKey} (l : Label K) (j : LabelId) :
    (f.store key l).1.label? j = if j = (f.store key l).2 then some l else f.label? j :=
  h.isKeyed.label?_store l j

theorem label?_store_self {key : StateKey} (l : Label K) :
    (f.store key l).1.label? (f.store key l).2 = some l :=
  h.isKeyed.label?_store_self l

theorem label?_store_of_ne {key : StateKey} {l : Label K} {j : LabelId}
    (hj : j ≠ (f.store key l).2) : (f.store key l).1.label? j = f.label? j :=
  h.isKeyed.label?_store_of_ne hj

theorem own_store {key : StateKey} {l lj : Label K} {j : LabelId} {k : StateKey}
    (hkey : keyOf l.edge = some key) (hj : (f.store key l).1.label? j = some lj)
    (hk : keyOf lj.edge = some k) : (f.store key l).1.best? k = some j := by
  rw [best?_store]
  by_cases hji : j = (f.store key l).2
  · subst hji
    rw [h.label?_store_self] at hj
    cases hj
    rw [if_pos (Option.some.inj (hk.symm.trans hkey))]
  · rw [h.label?_store_of_ne hji] at hj
    have hb := h.own hj hk
    split
    · next hke =>
      subst hke
      rcases f.store_cases k l with hb' | ⟨hb', _⟩
      · exact absurd (Option.some.inj (hb.symm.trans hb')) hji
      · cases hb.symm.trans hb'
    · exact hb

end Keys

variable [IsOrdered K]

section Branch

variable (h : f.IsTree start keyOf)
include h

theorem cost_le_of_mem {id j : LabelId} {ids : List LabelId} {l lj : Label K}
    (hs : f.Lineage id ids) (hl : f.label? id = some l) (hj : j ∈ ids)
    (hlj : f.label? j = some lj) : lj.cost ≤ l.cost := by
  induction hs generalizing l with
  | root hl' hp =>
    cases List.mem_singleton.1 hj
    cases hl.symm.trans hlj
    exact IsOrdered.le_self (h.nonneg hl)
  | @step id parent l' ids hl' hp hs ih =>
    cases hl.symm.trans hl'
    rcases List.mem_cons.1 hj with rfl | hj
    · cases hl.symm.trans hlj
      exact IsOrdered.le_self (h.nonneg hl)
    · obtain ⟨lp, hlp, hle⟩ := h.parent_le hl hp
      exact IsOrdered.le_trans (ih hlp hj) hle

variable {key : StateKey} {l lp : Label K} {id : LabelId} (hb : f.IsBranch keyOf key l id lp)
include hb

omit [LawfulQueue Q] h in
theorem store_ne {j : LabelId} {lj : Label K} (hlj : f.label? j = some lj)
    (hle : lj.cost ≤ lp.cost) : (f.store key l).2 ≠ j := by
  rintro rfl
  exact hb.better (best?_of_label?_store hlj) hlj (IsOrdered.le_trans hle hb.cost_le)

theorem store_ne_parent : (f.store key l).2 ≠ id :=
  store_ne hb hb.label (IsOrdered.le_self (h.nonneg hb.label))

theorem store_ne_zero : (f.store key l).2 ≠ 0 := by
  refine store_ne hb h.root ?_
  rw [h.start_cost]
  exact h.nonneg hb.label

theorem store_not_mem {ids : List LabelId} (hs : f.Lineage id ids) :
    (f.store key l).2 ∉ ids := by
  intro hmem
  obtain ⟨lj, hlj⟩ := hs.exists_label? hmem
  exact store_ne hb hlj (h.cost_le_of_mem hs hb.label hmem hlj) rfl

theorem lineage_store_parent {ids : List LabelId} (hs : f.Lineage id ids) :
    (f.store key l).1.Lineage id ids := by
  apply hs.congr
  intro j hj
  apply h.label?_store_of_ne
  rintro rfl
  exact h.store_not_mem hb hs hj

theorem isAncestor_store_parent {a : LabelId} (ha : (f.store key l).1.IsAncestor a id) :
    f.IsAncestor a id := by
  obtain ⟨idsp, hsp⟩ := h.lineage hb.label
  obtain ⟨ids, hs, hmem⟩ := ha
  exact ⟨idsp, hsp, hs.unique (h.lineage_store_parent hb hsp) ▸ hmem⟩

theorem isAncestor_store {a d : LabelId} (ha : (f.store key l).1.IsAncestor a d) (hne : a ≠ d) :
    f.IsAncestor a d ∧ d ≠ (f.store key l).2 ∨ f.IsAncestor a id := by
  obtain ⟨ids, hs, hmem⟩ := ha
  induction hs with
  | root => exact absurd (List.mem_singleton.1 hmem) hne
  | @step d p ld ids hld hp hs ih =>
    have hap : a ∈ ids := (List.mem_cons.1 hmem).resolve_left hne
    by_cases hd : d = (f.store key l).2
    · subst hd
      cases (h.label?_store_self l).symm.trans hld
      cases hb.parent_eq.symm.trans hp
      exact .inr (h.isAncestor_store_parent hb ⟨ids, hs, hap⟩)
    · rw [h.label?_store_of_ne hd] at hld
      have hdown : f.IsAncestor a p → f.IsAncestor a d := fun h ↦ h.of_parent hld hp
      by_cases hapne : a = p
      · subst hapne
        obtain ⟨lp, hlp, _⟩ := h.parent_le hld hp
        obtain ⟨idsp, hsp⟩ := h.lineage hlp
        refine .inl ⟨hdown ⟨idsp, hsp, ?_⟩, hd⟩
        cases hsp <;> exact List.mem_cons_self
      · rcases ih hapne hap with ⟨hanc, _⟩ | hanc
        · exact .inl ⟨hdown hanc, hd⟩
        · exact .inr hanc

theorem exists_lineage_store {j : LabelId} {ids : List LabelId} (hs : f.Lineage j ids) :
    ∃ ids', (f.store key l).1.Lineage j ids' := by
  obtain ⟨idsp, hsp⟩ := h.lineage hb.label
  have hself : (f.store key l).1.Lineage (f.store key l).2 ((f.store key l).2 :: idsp) :=
    .step (h.label?_store_self l) hb.parent_eq (h.lineage_store_parent hb hsp)
  induction hs with
  | @root j lj hlj hp =>
    by_cases hj : j = (f.store key l).2
    · exact ⟨_, hj ▸ hself⟩
    · exact ⟨_, .root ((h.label?_store_of_ne hj).trans hlj) hp⟩
  | @step j parent lj ids hlj hp _ ih =>
    by_cases hj : j = (f.store key l).2
    · exact ⟨_, hj ▸ hself⟩
    · obtain ⟨ids', hs'⟩ := ih
      exact ⟨_, .step ((h.label?_store_of_ne hj).trans hlj) hp hs'⟩

theorem exists_label?_store {j : LabelId} {lj : Label K} (hj : f.label? j = some lj) :
    ∃ lj', (f.store key l).1.label? j = some lj' ∧ lj'.cost ≤ lj.cost := by
  by_cases hji : j = (f.store key l).2
  · subst hji
    refine ⟨l, h.label?_store_self l, IsOrdered.le_of_not_le (h.nonneg hj) ?_ ?_⟩
    · exact IsOrdered.le_trans (h.nonneg hb.label) hb.cost_le
    · exact hb.better (best?_of_label?_store hj) hj
  · exact ⟨lj, (h.label?_store_of_ne hji).trans hj, IsOrdered.le_self (h.nonneg hj)⟩

theorem store : (f.store key l).1.IsTree start keyOf where
  queue := queue_isValid_store h.queue key l
  queued {j k} hj := by
    rw [priority?_store h.queue] at hj
    split at hj
    · next hji =>
      cases hj
      exact ⟨l, hji ▸ h.label?_store_self l, rfl⟩
    · next hji =>
      obtain ⟨lj, hlj, hk⟩ := h.queued hj
      exact ⟨lj, (h.label?_store_of_ne hji).trans hlj, hk⟩
  root := (h.label?_store_of_ne (h.store_ne_zero hb).symm).trans h.root
  start_cost := h.start_cost
  lineage {j lj} hj := by
    by_cases hji : j = (f.store key l).2
    · obtain ⟨ids, hs⟩ := h.lineage hb.label
      obtain ⟨ids', hs'⟩ := h.exists_lineage_store hb hs
      exact ⟨_, .step (hji ▸ h.label?_store_self l) hb.parent_eq hs'⟩
    · rw [h.label?_store_of_ne hji] at hj
      obtain ⟨ids, hs⟩ := h.lineage hj
      exact h.exists_lineage_store hb hs
  own := h.own_store hb.state
  best := h.isKeyed.store hb.state _ _
  nonneg {j lj} hj := by
    by_cases hji : j = (f.store key l).2
    · subst hji
      cases (h.label?_store_self l).symm.trans hj
      exact IsOrdered.le_trans (h.nonneg hb.label) hb.cost_le
    · rw [h.label?_store_of_ne hji] at hj
      exact h.nonneg hj
  parent_le {j lj p} hj hp := by
    by_cases hji : j = (f.store key l).2
    · subst hji
      cases (h.label?_store_self l).symm.trans hj
      cases hb.parent_eq.symm.trans hp
      exact ⟨lp, (h.label?_store_of_ne (h.store_ne_parent hb).symm).trans hb.label, hb.cost_le⟩
    · rw [h.label?_store_of_ne hji] at hj
      obtain ⟨lq, hlq, hle⟩ := h.parent_le hj hp
      obtain ⟨lq', hlq', hle'⟩ := h.exists_label?_store hb hlq
      exact ⟨lq', hlq', IsOrdered.le_trans hle' hle⟩

end Branch

omit [IsOrdered K] in
theorem pop (h : f.IsTree start keyOf) {id : LabelId} (hp : f.pop? = some (id, next)) :
    next.IsTree start keyOf := by
  have hl := label?_of_pop? hp
  have hb := best?_of_pop? hp
  refine ⟨queue_isValid_pop h.queue hp, fun {j k} hj ↦ ?_, hl ▸ h.root, h.start_cost,
    fun {j lj} hj ↦ ?_, ?_, h.isKeyed.pop hp _ _, hl ▸ h.nonneg, hl ▸ h.parent_le⟩
  · rw [priority?_pop h.queue hp] at hj
    split at hj
    · cases hj
    · exact hl ▸ h.queued hj
  · obtain ⟨ids, hs⟩ := h.lineage (hl ▸ hj)
    exact ⟨ids, hs.congr fun i _ ↦ congrFun hl i⟩
  · rw [hl, hb]
    exact h.own

variable (keyOf) in
theorem addRoot (hcost : start.cost = 0) (hparent : start.parent = none) :
    (empty.addRoot start (keyOf start.edge) : Frontier K Q M).IsTree start keyOf where
  queue := queue_isValid_addRoot _ _
  queued {id k} hq := by
    rw [priority?_addRoot] at hq
    split at hq
    · next hid =>
      cases hq
      exact ⟨start, by rw [label?_addRoot, if_pos hid], rfl⟩
    · cases hq
  root := by rw [label?_addRoot, if_pos rfl]
  start_cost := hcost
  lineage {id l} hl := by
    rw [label?_addRoot] at hl
    split at hl
    · next hid =>
      cases hl
      exact ⟨[id], .root (by rw [label?_addRoot, if_pos hid]) hparent⟩
    · cases hl
  own {id l k} hl hk := by
    rw [label?_addRoot] at hl
    split at hl
    · next hid =>
      cases hl
      exact hid ▸ (best?_addRoot _ _ k).trans (if_pos hk)
    · cases hl
  best := IsKeyed.addRoot keyOf start _ _
  nonneg {id l} hl := by
    rw [label?_addRoot] at hl
    split at hl
    · cases hl
      rw [hcost]
      exact IsOrdered.zero_le_zero
    · cases hl
  parent_le {id l p} hl hp := by
    rw [label?_addRoot] at hl
    split at hl
    · cases hl
      cases hparent.symm.trans hp
    · cases hl

end IsTree

section Size

variable (h : f.IsTree start keyOf)
include h

theorem IsTree.card_le {ids : Finset LabelId} {keys : Finset StateKey}
    (hkey : ∀ id ∈ ids, ∃ l, f.label? id = some l ∧ ∃ k ∈ keys, keyOf l.edge = some k) :
    ids.card ≤ keys.card := by
  have hsub : ids ⊆ keys.image fun k ↦ (f.best? k).getD 0 := by
    intro id hid
    obtain ⟨l, hl, k, hk, hkl⟩ := hkey id hid
    exact Finset.mem_image.2 ⟨k, hk, by rw [h.own hl hkl, Option.getD_some]⟩
  exact (Finset.card_le_card hsub).trans Finset.card_image_le

theorem IsTree.size_le {keys : Finset StateKey}
    (hkey : ∀ {id l}, f.label? id = some l → ∃ k ∈ keys, keyOf l.edge = some k) :
    f.size ≤ keys.card := by
  rw [← Finset.card_range f.size]
  refine h.card_le fun id hid ↦ ?_
  obtain ⟨l, hl⟩ := exists_label?_of_lt (Finset.mem_range.1 hid)
  exact ⟨l, hl, hkey hl⟩

theorem IsTree.size_le_succ {keys : Finset StateKey}
    (hkey : ∀ {id l}, f.label? id = some l → id ≠ 0 → ∃ k ∈ keys, keyOf l.edge = some k) :
    f.size ≤ keys.card + 1 := by
  have hrest : ((Finset.range f.size).erase 0).card ≤ keys.card := by
    refine h.card_le fun id hid ↦ ?_
    obtain ⟨hroot, hid⟩ := Finset.mem_erase.1 hid
    obtain ⟨l, hl⟩ := exists_label?_of_lt (Finset.mem_range.1 hid)
    exact ⟨l, hl, hkey hl hroot⟩
  calc f.size = (Finset.range f.size).card := (Finset.card_range _).symm
    _ ≤ ((Finset.range f.size).erase 0).card + 1 :=
      Nat.sub_le_iff_le_add.1 Finset.pred_card_le_card_erase
    _ ≤ keys.card + 1 := Nat.succ_le_succ hrest

theorem IsTree.size_le_of_lt {n : Nat}
    (hkey : ∀ {id l}, f.label? id = some l → id ≠ 0 → ∃ k < n, keyOf l.edge = some k) :
    f.size ≤ n + 1 := by
  rw [← Finset.card_range n]
  refine h.size_le_succ fun {id l} hl hid ↦ ?_
  obtain ⟨k, hk, hkl⟩ := hkey hl hid
  exact ⟨k, Finset.mem_range.2 hk, hkl⟩

end Size

end RoadRouting.Frontier
