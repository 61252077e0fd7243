import RoadRouting.Proofs.Queue
import RoadRouting.Search.Frontier

namespace RoadRouting.Frontier

variable {K Q M : Type}

theorem lt_size_of_label? {f : Frontier K Q M} {id : LabelId} {l : Label K}
    (h : f.label? id = some l) : id < f.size :=
  (Array.getElem?_eq_some_iff.1 h).1

theorem exists_label?_of_lt {f : Frontier K Q M} {id : LabelId} (h : id < f.size) :
    ∃ l, f.label? id = some l :=
  ⟨f.labels[id], Array.getElem?_eq_getElem h⟩

theorem label_eq [Scalar K] {f : Frontier K Q M} {id : LabelId} {l : Label K}
    (h : f.label? id = some l) : f.label id = l := by
  simp [label, h]

section Store

variable [PriorityQueue Q K] [BestMap M]

theorem store_cases (f : Frontier K Q M) (key : StateKey) (l : Label K) :
    f.best? key = some (f.store key l).2 ∨ f.best? key = none ∧ (f.store key l).2 = f.size := by
  unfold store
  split
  · next h => exact .inl h
  · next h => exact .inr ⟨h, rfl⟩

variable {f : Frontier K Q M} {key : StateKey}

omit [PriorityQueue Q K] in
theorem improves_iff [Scalar K] {cost : K} : f.improves key cost = true ↔
    ∀ j lj, f.best? key = some j → f.label? j = some lj → ¬lj.cost ≤ cost := by
  unfold improves bestLabel?
  cases hb : f.best? key with
  | none => simp
  | some j =>
    cases hl : f.label? j with
    | none => grind
    | some lj => grind

theorem label?_store_cases {l lj : Label K} {id : LabelId}
    (h : (f.store key l).1.label? id = some lj) : lj = l ∨ f.label? id = some lj := by
  unfold store at h
  split at h
  · rw [label?_replace] at h
    grind
  · rw [label?_insert] at h
    grind

theorem label?_store (hlt : ∀ {id}, f.best? key = some id → id < f.size) (l : Label K)
    (id : LabelId) :
    (f.store key l).1.label? id = if id = (f.store key l).2 then some l else f.label? id := by
  unfold store
  split
  · next known h =>
    rw [label?_replace]
    simp [hlt h, eq_comm]
  · exact label?_insert f key l id

theorem best?_of_label?_store {l lj : Label K}
    (hj : f.label? (f.store key l).2 = some lj) : f.best? key = some (f.store key l).2 := by
  rcases f.store_cases key l with hb | ⟨_, hsize⟩
  · exact hb
  · exact absurd (lt_size_of_label? hj) (by rw [hsize]; exact lt_irrefl _)

theorem size_le_size_store (f : Frontier K Q M) (key : StateKey) (l : Label K) :
    f.size ≤ (f.store key l).1.size := by
  unfold store
  split
  · exact (size_replace f _ l).ge
  · exact (size_insert f key l).ge.trans' (Nat.le_succ _)

theorem label?_addRoot (l : Label K) (key : Option StateKey) (id : LabelId) :
    ((empty : Frontier K Q M).addRoot l key).label? id = if id = 0 then some l else none := by
  cases key with
  | none => exact label?_add _ l id
  | some key => exact label?_insert _ key l id

theorem best?_addRoot (l : Label K) (key : Option StateKey) (other : StateKey) :
    ((empty : Frontier K Q M).addRoot l key).best? other =
      if key = some other then some 0 else none := by
  cases key with
  | none => simp [addRoot]
  | some key =>
    rw [addRoot, best?_insert, best?_empty]
    simp only [Option.some.injEq, eq_comm]
    rfl

end Store

section Keys

variable [PriorityQueue Q K] [BestMap M] {keyOf : Option (EdgeView K) → Option StateKey}

/-- The best label of a state stands for it. -/
def IsKeyed (f : Frontier K Q M) (keyOf : Option (EdgeView K) → Option StateKey) : Prop :=
  ∀ k id, f.best? k = some id → ∃ l, f.label? id = some l ∧ keyOf l.edge = some k

namespace IsKeyed

variable {f next : Frontier K Q M} {key k k' : StateKey} {id j : LabelId} {l : Label K}

variable (keyOf l) in
protected theorem addRoot :
    (empty.addRoot l (keyOf l.edge) : Frontier K Q M).IsKeyed keyOf := by
  intro k id hb
  rw [best?_addRoot] at hb
  split at hb
  · next hk =>
    cases hb
    exact ⟨l, by rw [label?_addRoot, if_pos rfl], hk⟩
  · cases hb

variable (h : f.IsKeyed keyOf)
include h

protected theorem pop (hp : f.pop? = some (id, next)) : next.IsKeyed keyOf := by
  intro k j hb
  rw [label?_of_pop? hp]
  rw [best?_of_pop? hp] at hb
  exact h k j hb

omit [PriorityQueue Q K] in
theorem best_lt (hk : f.best? k = some id) : id < f.size := by
  obtain ⟨l, hl, _⟩ := h k id hk
  exact lt_size_of_label? hl

omit [PriorityQueue Q K] in
theorem best_unique (hk : f.best? k = some id) (hk' : f.best? k' = some id) : k = k' := by
  obtain ⟨l, hl, hkl⟩ := h k id hk
  obtain ⟨l', hl', hkl'⟩ := h k' id hk'
  cases hl.symm.trans hl'
  exact Option.some.inj (hkl.symm.trans hkl')

theorem label?_store (l : Label K) (j : LabelId) :
    (f.store key l).1.label? j = if j = (f.store key l).2 then some l else f.label? j :=
  Frontier.label?_store h.best_lt l j

theorem label?_store_self (l : Label K) : (f.store key l).1.label? (f.store key l).2 = some l := by
  rw [h.label?_store, if_pos rfl]

theorem label?_store_of_ne (hj : j ≠ (f.store key l).2) :
    (f.store key l).1.label? j = f.label? j := by
  rw [h.label?_store, if_neg hj]

protected theorem store (hkey : keyOf l.edge = some key) : (f.store key l).1.IsKeyed keyOf := by
  intro k j hb
  rw [best?_store] at hb
  split at hb
  · next hk =>
    cases hb
    exact ⟨l, h.label?_store_self l, hk ▸ hkey⟩
  · next hk =>
    obtain ⟨lj, hlj, hkj⟩ := h k j hb
    refine ⟨lj, (h.label?_store_of_ne ?_).trans hlj, hkj⟩
    rintro rfl
    exact hk (h.best_unique hb (best?_of_label?_store hlj))

end IsKeyed

end Keys

variable [Scalar K] [PriorityQueue Q K] [LawfulQueue Q]

def priority? (f : Frontier K Q M) (id : LabelId) : Option K := LawfulQueue.priority? f.queue id

theorem priority?_pop {f next : Frontier K Q M} {id : LabelId}
    (hq : LawfulQueue.IsValid f.queue) (h : f.pop? = some (id, next)) (other : LabelId) :
    next.priority? other = if other = id then none else f.priority? other := by
  obtain ⟨queue, hp, rfl⟩ := pop?_eq_some_iff.1 h
  exact LawfulQueue.priority?_pop other hq hp

theorem queue_isValid_pop {f next : Frontier K Q M} {id : LabelId}
    (hq : LawfulQueue.IsValid f.queue) (h : f.pop? = some (id, next)) :
    LawfulQueue.IsValid next.queue := by
  obtain ⟨queue, hp, rfl⟩ := pop?_eq_some_iff.1 h
  exact LawfulQueue.isValid_pop hq hp

theorem least_of_pop {f next : Frontier K Q M} {id : LabelId}
    (hq : LawfulQueue.IsValid f.queue) (h : f.pop? = some (id, next)) :
    ∃ k, f.priority? id = some k ∧
      ∀ other k', f.priority? other = some k' → Scalar.precedes k k' = true := by
  obtain ⟨queue, hp, rfl⟩ := pop?_eq_some_iff.1 h
  exact LawfulQueue.least_of_pop hq hp

theorem priority?_ne_none_of_pop {f next : Frontier K Q M} {id : LabelId}
    (hq : LawfulQueue.IsValid f.queue) (h : f.pop? = some (id, next)) : f.priority? id ≠ none := by
  obtain ⟨k, hk, _⟩ := least_of_pop hq h
  exact Option.ne_none_iff_exists'.2 ⟨k, hk⟩

theorem priority?_of_pop_eq_none {f : Frontier K Q M} (hq : LawfulQueue.IsValid f.queue)
    (h : f.pop? = none) (id : LabelId) : f.priority? id = none :=
  LawfulQueue.priority?_of_pop_eq_none id hq (Option.map_eq_none_iff.1 h)

/-- Taking out a label fails on an empty queue only. -/
theorem pop?_eq_none_iff {f : Frontier K Q M} (hq : LawfulQueue.IsValid f.queue) :
    f.pop? = none ↔ ∀ id, f.priority? id = none := by
  refine ⟨priority?_of_pop_eq_none hq, fun hall ↦ ?_⟩
  cases hp : f.pop? with
  | none => rfl
  | some popped => exact absurd (hall popped.1) (priority?_ne_none_of_pop hq hp)

variable [BestMap M] {f : Frontier K Q M}

theorem queue_isValid_store (hq : LawfulQueue.IsValid f.queue) (key : StateKey) (l : Label K) :
    LawfulQueue.IsValid (f.store key l).1.queue := by
  unfold store
  split
  · exact LawfulQueue.isValid_push _ _ (LawfulQueue.isValid_remove _ hq)
  · exact LawfulQueue.isValid_push _ _ hq

theorem priority?_store (hq : LawfulQueue.IsValid f.queue) (key : StateKey) (l : Label K)
    (id : LabelId) :
    (f.store key l).1.priority? id =
      if id = (f.store key l).2 then some l.priority else f.priority? id := by
  unfold store
  split
  · next known h =>
    have hr := LawfulQueue.isValid_remove known hq
    refine (LawfulQueue.priority?_push known l.priority id hr).trans ?_
    rw [LawfulQueue.priority?_remove known id hq]
    split
    · rfl
    · rfl
  · exact LawfulQueue.priority?_push f.labels.size l.priority id hq

theorem queue_isValid_addRoot (l : Label K) (key : Option StateKey) :
    LawfulQueue.IsValid ((empty : Frontier K Q M).addRoot l key).queue := by
  cases key with
  | none => exact LawfulQueue.isValid_push _ _ LawfulQueue.isValid_empty
  | some key => exact LawfulQueue.isValid_push _ _ LawfulQueue.isValid_empty

theorem priority?_addRoot (l : Label K) (key : Option StateKey) (id : LabelId) :
    ((empty : Frontier K Q M).addRoot l key).priority? id =
      if id = 0 then some l.priority else none := by
  have h : LawfulQueue.priority? (PriorityQueue.push (PriorityQueue.empty : Q) 0 l.priority) id =
      if id = 0 then some l.priority else none := by
    rw [LawfulQueue.priority?_push _ _ _ LawfulQueue.isValid_empty, LawfulQueue.priority?_empty]
  cases key with
  | none => exact h
  | some key => exact h

end RoadRouting.Frontier
