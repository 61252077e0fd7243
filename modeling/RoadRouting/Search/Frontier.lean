import RoadRouting.Search.Settings

namespace RoadRouting

abbrev LabelId := Nat

/-- A node that has been reached. The edge is the view with which it was explored, so its `adj` is
the node; in a backward search that is opposite to the direction of travel. -/
structure Label (K : Type) where
  edge : Option (EdgeView K)
  node : NodeId
  priority : K
  cost : K
  time : Instant
  parent : Option LabelId
  deriving DecidableEq, Repr

namespace Label

variable {K : Type}

def root [Scalar K] (node : NodeId) (priority : K) : Label K := ⟨none, node, priority, 0, 0, none⟩

def step (e : EdgeView K) (priority cost : K) (parent : LabelId) : Label K :=
  ⟨some e, e.adj, priority, cost, 0, some parent⟩

def withTime (l : Label K) (t : Instant) : Label K := { l with time := t }

def incomingEdge (l : Label K) : Option EdgeId := l.edge.map (·.edge)

def isRoot (l : Label K) : Bool := l.parent.isNone

end Label

/-- Queues that hold every label at most once and give out one of the least priority. -/
class PriorityQueue (Q : Type) (K : outParam Type) where
  empty : Q
  push : Q → LabelId → K → Q
  remove : Q → LabelId → Q
  pop? : Q → Option (LabelId × Q)
  peek? : Q → Option (LabelId × K)

/-- A list of labels sorted by priority; of equal ones the first to come is the first to go. -/
structure SortedQueue (K : Type) where
  entries : List (LabelId × K)
  deriving DecidableEq, Repr

namespace SortedQueue

variable {K : Type} [Scalar K]

def insertEntry (entry : LabelId × K) : List (LabelId × K) → List (LabelId × K)
  | [] => [entry]
  | first :: rest =>
    if Scalar.precedes first.2 entry.2 then first :: insertEntry entry rest
    else entry :: first :: rest

def removeEntry (id : LabelId) (entries : List (LabelId × K)) : List (LabelId × K) :=
  entries.filter fun entry ↦ entry.1 ≠ id

instance : PriorityQueue (SortedQueue K) K where
  empty := ⟨[]⟩
  push q id priority := ⟨insertEntry (id, priority) (removeEntry id q.entries)⟩
  remove q id := ⟨removeEntry id q.entries⟩
  pop? q :=
    match q.entries with
    | [] => none
    | first :: rest => some (first.1, ⟨rest⟩)
  peek? q := q.entries.head?

end SortedQueue

/-- Maps from states to their best labels. The size is the number of states with a label. -/
class BestMap (M : Type) where
  empty : M
  get? : M → StateKey → Option LabelId
  insert : M → StateKey → LabelId → M
  size : M → Nat
  get?_empty (key : StateKey) : get? empty key = none
  get?_insert (m : M) (key : StateKey) (id : LabelId) (other : StateKey) :
    get? (insert m key id) other = if other = key then some id else get? m other
  size_empty : size empty = 0
  size_insert (m : M) (key : StateKey) (id : LabelId) :
    size (insert m key id) = if (get? m key).isNone then size m + 1 else size m

/-- A map that takes space for the states with a label only. -/
structure SparseMap where
  labels : Std.TreeMap StateKey LabelId

namespace SparseMap

def get? (m : SparseMap) (key : StateKey) : Option LabelId := m.labels[key]?

def insert (m : SparseMap) (key : StateKey) (id : LabelId) : SparseMap := ⟨m.labels.insert key id⟩

theorem get?_insert (m : SparseMap) (key : StateKey) (id : LabelId) (other : StateKey) :
    (m.insert key id).get? other = if other = key then some id else m.get? other := by
  rw [get?, insert, Std.TreeMap.getElem?_insert]
  simp only [Nat.compare_eq_eq, eq_comm (a := key), get?]

theorem size_insert (m : SparseMap) (key : StateKey) (id : LabelId) :
    (m.insert key id).labels.size =
      if (m.get? key).isNone then m.labels.size + 1 else m.labels.size := by
  have hmem : key ∈ m.labels ↔ (m.labels[key]?).isSome = true :=
    Std.TreeMap.mem_iff_isSome_getElem?
  rw [insert, get?, Std.TreeMap.size_insert]
  cases hk : m.labels[key]? with
  | none =>
    rw [hk] at hmem
    exact if_neg fun h ↦ Bool.noConfusion (hmem.1 h)
  | some old =>
    rw [hk] at hmem
    exact if_pos (hmem.2 rfl)

instance : BestMap SparseMap where
  empty := ⟨∅⟩
  get? := get?
  insert := insert
  size m := m.labels.size
  get?_empty _ := Std.TreeMap.getElem?_emptyc
  get?_insert := get?_insert
  size_empty := Std.TreeMap.size_emptyc
  size_insert := size_insert

end SparseMap

/-- An array indexed by the state, which grows on demand: fast for searches that visit a large share
of the graph. -/
structure DenseMap where
  slots : Array (Option LabelId)
  count : Nat
  deriving Repr

namespace DenseMap

def grow (slots : Array (Option LabelId)) (key : StateKey) : Array (Option LabelId) :=
  slots ++ Array.replicate (key + 1 - slots.size) none

def get? (m : DenseMap) (key : StateKey) : Option LabelId := (m.slots[key]?).join

def insert (m : DenseMap) (key : StateKey) (id : LabelId) : DenseMap where
  slots := (grow m.slots key).setIfInBounds key (some id)
  count := if (m.get? key).isNone then m.count + 1 else m.count

theorem lt_size_grow (slots : Array (Option LabelId)) (key : StateKey) :
    key < (grow slots key).size := by
  grind [grow]

theorem join_getElem?_grow (slots : Array (Option LabelId)) (key other : StateKey) :
    ((grow slots key)[other]?).join = (slots[other]?).join := by
  rcases Nat.lt_or_ge other slots.size with h | h
  · rw [grow, Array.getElem?_append_left h]
  · rw [grow, Array.getElem?_append_right h, Array.getElem?_eq_none h, Array.getElem?_replicate]
    split <;> rfl

theorem get?_insert (m : DenseMap) (key : StateKey) (id : LabelId) (other : StateKey) :
    (m.insert key id).get? other = if other = key then some id else m.get? other := by
  simp only [get?, insert, Array.getElem?_setIfInBounds]
  by_cases h : key = other
  · subst h
    simp [lt_size_grow]
  · simp [h, Ne.symm h, join_getElem?_grow]

instance : BestMap DenseMap where
  empty := ⟨#[], 0⟩
  get? := get?
  insert := insert
  size := count
  get?_empty _ := rfl
  get?_insert := get?_insert
  size_empty := rfl
  size_insert _ _ _ := rfl

end DenseMap

structure Frontier (K Q M : Type) where
  labels : Array (Label K)
  queue : Q
  best : M

namespace Frontier

variable {K Q M : Type} [PriorityQueue Q K] [BestMap M]

def empty : Frontier K Q M := ⟨#[], PriorityQueue.empty, BestMap.empty⟩

def size (f : Frontier K Q M) : Nat := f.labels.size

def label? (f : Frontier K Q M) (id : LabelId) : Option (Label K) := f.labels[id]?

def best? (f : Frontier K Q M) (key : StateKey) : Option LabelId := BestMap.get? f.best key

def bestLabel? (f : Frontier K Q M) (key : StateKey) : Option (Label K) :=
  (f.best? key).bind f.label?

def isEmpty (f : Frontier K Q M) : Bool := (PriorityQueue.peek? f.queue).isNone

def leastPriority? (f : Frontier K Q M) : Option K := (PriorityQueue.peek? f.queue).map (·.2)

def pop? (f : Frontier K Q M) : Option (LabelId × Frontier K Q M) :=
  (PriorityQueue.pop? f.queue).map fun (id, queue) ↦ (id, { f with queue })

def add (f : Frontier K Q M) (l : Label K) : Frontier K Q M :=
  { f with
    labels := f.labels.push l
    queue := PriorityQueue.push f.queue f.labels.size l.priority }

def insert (f : Frontier K Q M) (key : StateKey) (l : Label K) : Frontier K Q M :=
  { f.add l with best := BestMap.insert f.best key f.labels.size }

def addRoot (f : Frontier K Q M) (l : Label K) : Option StateKey → Frontier K Q M
  | some key => f.insert key l
  | none => f.add l

def replace (f : Frontier K Q M) (id : LabelId) (l : Label K) : Frontier K Q M :=
  { f with
    labels := f.labels.setIfInBounds id l
    queue := PriorityQueue.push (PriorityQueue.remove f.queue id) id l.priority }

/-- Makes a label the best one of its state: the label of a known state is replaced in place. -/
def store (f : Frontier K Q M) (key : StateKey) (l : Label K) : Frontier K Q M × LabelId :=
  match f.best? key with
  | some id => (f.replace id l, id)
  | none => (f.insert key l, f.labels.size)

@[simp] theorem label?_empty (id : LabelId) : (empty : Frontier K Q M).label? id = none := rfl

@[simp] theorem best?_empty (key : StateKey) : (empty : Frontier K Q M).best? key = none :=
  BestMap.get?_empty key

omit [BestMap M] in
@[simp] theorem size_add (f : Frontier K Q M) (l : Label K) : (f.add l).size = f.size + 1 :=
  Array.size_push l

omit [BestMap M] in
theorem label?_add (f : Frontier K Q M) (l : Label K) (id : LabelId) :
    (f.add l).label? id = if id = f.size then some l else f.label? id :=
  Array.getElem?_push

@[simp] theorem best?_add (f : Frontier K Q M) (l : Label K) (key : StateKey) :
    (f.add l).best? key = f.best? key := rfl

@[simp] theorem size_insert (f : Frontier K Q M) (key : StateKey) (l : Label K) :
    (f.insert key l).size = f.size + 1 := size_add f l

theorem label?_insert (f : Frontier K Q M) (key : StateKey) (l : Label K) (id : LabelId) :
    (f.insert key l).label? id = if id = f.size then some l else f.label? id := label?_add f l id

theorem best?_insert (f : Frontier K Q M) (key : StateKey) (l : Label K) (other : StateKey) :
    (f.insert key l).best? other = if other = key then some f.size else f.best? other :=
  BestMap.get?_insert f.best key f.size other

omit [BestMap M] in
@[simp] theorem size_replace (f : Frontier K Q M) (id : LabelId) (l : Label K) :
    (f.replace id l).size = f.size := Array.size_setIfInBounds

omit [BestMap M] in
theorem label?_replace (f : Frontier K Q M) (id : LabelId) (l : Label K) (other : LabelId) :
    (f.replace id l).label? other =
      if id = other then if id < f.size then some l else none else f.label? other :=
  Array.getElem?_setIfInBounds

@[simp] theorem best?_replace (f : Frontier K Q M) (id : LabelId) (l : Label K) (key : StateKey) :
    (f.replace id l).best? key = f.best? key := rfl

theorem best?_store (f : Frontier K Q M) (key : StateKey) (l : Label K) (other : StateKey) :
    (f.store key l).1.best? other =
      if other = key then some (f.store key l).2 else f.best? other := by
  unfold store
  split
  · next id known =>
    rw [best?_replace]
    split
    · next same => rw [same, known]
    · rfl
  · exact best?_insert f key l other

omit [BestMap M] in
theorem pop?_eq_some_iff {f next : Frontier K Q M} {id : LabelId} :
    f.pop? = some (id, next) ↔
      ∃ queue, PriorityQueue.pop? f.queue = some (id, queue) ∧ next = { f with queue } := by
  simp only [pop?, Option.map_eq_some_iff, Prod.exists, Prod.mk.injEq]
  constructor
  · rintro ⟨_, queue, h, rfl, rfl⟩
    exact ⟨queue, h, rfl⟩
  · rintro ⟨queue, h, rfl⟩
    exact ⟨id, queue, h, rfl, rfl⟩

omit [BestMap M] in
theorem label?_of_pop? {f next : Frontier K Q M} {id : LabelId} (h : f.pop? = some (id, next)) :
    next.label? = f.label? := by
  obtain ⟨_, _, rfl⟩ := pop?_eq_some_iff.1 h
  rfl

theorem best?_of_pop? {f next : Frontier K Q M} {id : LabelId} (h : f.pop? = some (id, next)) :
    next.best? = f.best? := by
  obtain ⟨_, _, rfl⟩ := pop?_eq_some_iff.1 h
  rfl

variable [Scalar K]

def label (f : Frontier K Q M) (id : LabelId) : Label K := (f.label? id).getD (.root 0 0)

def improves (f : Frontier K Q M) (key : StateKey) (cost : K) : Bool :=
  match f.bestLabel? key with
  | some l => !decide (l.cost ≤ cost)
  | none => true

def relax? (f : Frontier K Q M) (key : StateKey) (l : Label K) :
    Option (Frontier K Q M × LabelId) :=
  if f.improves key l.cost then some (f.store key l) else none

/-- The numbers of a label and its ancestors up to a root, at most `steps` of them; none if one of
them is missing. -/
def lineage? (f : Frontier K Q M) : Nat → LabelId → Option (List LabelId)
  | 0, _ => none
  | steps + 1, id =>
    match f.label? id with
    | none => none
    | some l =>
      match l.parent with
      | none => some [id]
      | some parent => (lineage? f steps parent).map (id :: ·)

def unwind? (f : Frontier K Q M) (id : LabelId) : Option (List LabelId) := f.lineage? f.size id

def edgesTo (f : Frontier K Q M) (id : LabelId) : List (EdgeView K) :=
  ((f.unwind? id).getD []).filterMap fun i ↦ (f.label i).edge

def pathTo (f : Frontier K Q M) (id : LabelId) : List (EdgeView K) := (f.edgesTo id).reverse

def pathFrom (f : Frontier K Q M) (id : LabelId) : List (EdgeView K) :=
  (f.edgesTo id).map (·.reversed)

end Frontier

end RoadRouting
