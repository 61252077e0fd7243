import RoadRouting.Proofs.Costs
import RoadRouting.Search.Frontier

namespace RoadRouting

open Scalar (precedes)
open Scalar.IsOrdered (precedes_total precedes_trans)

/-- Queues that keep what they are told. The laws hold of the queues that the operations make. -/
class LawfulQueue (Q : Type) {K : outParam Type} [Scalar K] [PriorityQueue Q K] where
  IsValid : Q → Prop
  priority? : Q → LabelId → Option K
  isValid_empty : IsValid (PriorityQueue.empty : Q)
  isValid_push {q : Q} (id : LabelId) (priority : K) :
    IsValid q → IsValid (PriorityQueue.push q id priority)
  isValid_remove {q : Q} (id : LabelId) : IsValid q → IsValid (PriorityQueue.remove q id)
  isValid_pop {q rest : Q} {id : LabelId} :
    IsValid q → PriorityQueue.pop? q = some (id, rest) → IsValid rest
  priority?_empty (id : LabelId) : priority? (PriorityQueue.empty : Q) id = none
  priority?_push {q : Q} (id : LabelId) (priority : K) (other : LabelId) : IsValid q →
    priority? (PriorityQueue.push q id priority) other =
      if other = id then some priority else priority? q other
  priority?_remove {q : Q} (id other : LabelId) : IsValid q →
    priority? (PriorityQueue.remove q id) other = if other = id then none else priority? q other
  priority?_pop {q rest : Q} {id : LabelId} (other : LabelId) : IsValid q →
    PriorityQueue.pop? q = some (id, rest) →
      priority? rest other = if other = id then none else priority? q other
  least_of_pop {q rest : Q} {id : LabelId} : IsValid q → PriorityQueue.pop? q = some (id, rest) →
    ∃ k, priority? q id = some k ∧ ∀ other k', priority? q other = some k' → precedes k k' = true
  priority?_of_pop_eq_none {q : Q} (id : LabelId) :
    IsValid q → PriorityQueue.pop? q = none → priority? q id = none

namespace SortedQueue

variable {K : Type}

def priorityIn (entries : List (LabelId × K)) (id : LabelId) : Option K :=
  (entries.find? fun entry ↦ entry.1 = id).map (·.2)

theorem priorityIn_cons (entry : LabelId × K) (entries : List (LabelId × K)) (id : LabelId) :
    priorityIn (entry :: entries) id =
      if entry.1 = id then some entry.2 else priorityIn entries id := by
  by_cases h : entry.1 = id <;> simp [priorityIn, h]

theorem mem_of_priorityIn {entries : List (LabelId × K)} {id : LabelId} {k : K}
    (h : priorityIn entries id = some k) : (id, k) ∈ entries := by
  obtain ⟨⟨i, k'⟩, hf, rfl⟩ := Option.map_eq_some_iff.1 h
  have hid : i = id := by simpa using List.find?_some hf
  exact hid ▸ List.mem_of_find?_eq_some hf

theorem priorityIn_eq_none {entries : List (LabelId × K)} {id : LabelId}
    (h : id ∉ entries.map (·.1)) : priorityIn entries id = none := by
  simp only [priorityIn, Option.map_eq_none_iff, List.find?_eq_none]
  intro entry he hid
  exact h (List.mem_map.2 ⟨entry, he, by simpa using hid⟩)

theorem priorityIn_removeEntry (id other : LabelId) (entries : List (LabelId × K)) :
    priorityIn (removeEntry id entries) other =
      if other = id then none else priorityIn entries other := by
  induction entries with
  | nil => simp [removeEntry, priorityIn]
  | cons entry entries ih =>
    simp only [removeEntry] at ih
    by_cases he : entry.1 = id
    · simp only [removeEntry, he, ne_eq, not_true_eq_false, decide_false, Bool.false_eq_true,
        not_false_eq_true, List.filter_cons_of_neg, ih, priorityIn_cons]
      grind
    · simp only [removeEntry, ne_eq, he, not_false_eq_true, decide_true, List.filter_cons_of_pos,
        priorityIn_cons, ih]
      grind

theorem not_mem_removeEntry (id : LabelId) (entries : List (LabelId × K)) :
    id ∉ (removeEntry id entries).map (·.1) := by
  simp [removeEntry]

variable [Scalar K]

theorem priorityIn_insertEntry {entry : LabelId × K} {entries : List (LabelId × K)}
    (h : entry.1 ∉ entries.map (·.1)) (other : LabelId) :
    priorityIn (insertEntry entry entries) other =
      if other = entry.1 then some entry.2 else priorityIn entries other := by
  induction entries with
  | nil => simp only [insertEntry, priorityIn_cons, eq_comm]
  | cons first rest ih =>
    simp only [List.map_cons, List.mem_cons, not_or] at h
    simp only [insertEntry]
    split
    · rw [priorityIn_cons, ih h.2, priorityIn_cons]
      grind
    · simp only [priorityIn_cons, eq_comm]

theorem perm_insertEntry (entry : LabelId × K) (entries : List (LabelId × K)) :
    (insertEntry entry entries).Perm (entry :: entries) := by
  induction entries with
  | nil => exact .refl _
  | cons first rest ih =>
    simp only [insertEntry]
    split
    · exact (ih.cons first).trans (.swap entry first rest)
    · exact .refl _

def IsOrdered (entries : List (LabelId × K)) : Prop :=
  entries.Pairwise (fun a b ↦ precedes a.2 b.2 = true) ∧ (entries.map (·.1)).Nodup

theorem IsOrdered.tail {first : LabelId × K} {rest : List (LabelId × K)}
    (h : IsOrdered (first :: rest)) : IsOrdered rest :=
  ⟨(List.pairwise_cons.1 h.1).2, (List.nodup_cons.1 h.2).2⟩

theorem IsOrdered.remove {entries : List (LabelId × K)} (h : IsOrdered entries) (id : LabelId) :
    IsOrdered (removeEntry id entries) :=
  ⟨h.1.sublist List.filter_sublist, h.2.sublist (List.filter_sublist.map _)⟩

theorem pairwise_insertEntry [Scalar.IsOrdered K] (entry : LabelId × K)
    {entries : List (LabelId × K)}
    (h : entries.Pairwise fun a b ↦ precedes a.2 b.2 = true) :
    (insertEntry entry entries).Pairwise fun a b ↦ precedes a.2 b.2 = true := by
  induction entries with
  | nil => exact List.pairwise_singleton _ _
  | cons first rest ih =>
    obtain ⟨hfirst, hrest⟩ := List.pairwise_cons.1 h
    simp only [insertEntry]
    split
    · next hle =>
      refine List.pairwise_cons.2 ⟨fun other ho ↦ ?_, ih hrest⟩
      rcases List.mem_cons.1 ((perm_insertEntry entry rest).mem_iff.1 ho) with rfl | ho
      · exact hle
      · exact hfirst other ho
    · next hle =>
      have hentry := (precedes_total first.2 entry.2).resolve_left hle
      refine List.pairwise_cons.2 ⟨fun other ho ↦ ?_, h⟩
      rcases List.mem_cons.1 ho with rfl | ho
      · exact hentry
      · exact precedes_trans hentry (hfirst other ho)

instance [Scalar.IsOrdered K] : LawfulQueue (SortedQueue K) where
  IsValid q := IsOrdered q.entries
  priority? q := priorityIn q.entries
  isValid_empty := ⟨.nil, .nil⟩
  isValid_push {q} id priority h := by
    have hr := h.remove id
    refine ⟨pairwise_insertEntry _ hr.1, ?_⟩
    refine ((perm_insertEntry _ _).map _).nodup_iff.2 (List.nodup_cons.2 ⟨?_, hr.2⟩)
    exact not_mem_removeEntry id q.entries
  isValid_remove id h := h.remove id
  isValid_pop {q rest id} h hp := by
    rcases q with ⟨_ | ⟨first, entries⟩⟩
    · cases hp
    · cases hp
      exact h.tail
  priority?_empty _ := rfl
  priority?_push {q} id priority other _ := by
    have h : (id, priority).1 ∉ (removeEntry id q.entries).map (·.1) :=
      not_mem_removeEntry id q.entries
    exact (priorityIn_insertEntry h other).trans (by rw [priorityIn_removeEntry]; grind)
  priority?_remove {q} id other _ := priorityIn_removeEntry id other q.entries
  priority?_pop {q rest id} other h hp := by
    rcases q with ⟨_ | ⟨first, entries⟩⟩
    · cases hp
    · cases hp
      have hfirst := priorityIn_eq_none (List.nodup_cons.1 h.2).1
      rw [priorityIn_cons]
      grind
  least_of_pop {q rest id} h hp := by
    rcases q with ⟨_ | ⟨first, entries⟩⟩
    · cases hp
    · cases hp
      refine ⟨first.2, by simp [priorityIn_cons], fun other k hk ↦ ?_⟩
      rcases List.mem_cons.1 (mem_of_priorityIn hk) with he | he
      · rw [← he]
        exact (precedes_total k k).elim id id
      · exact (List.pairwise_cons.1 h.1).1 _ he
  priority?_of_pop_eq_none {q} id _ hp := by
    rcases q with ⟨_ | ⟨first, entries⟩⟩
    · rfl
    · cases hp

end SortedQueue

end RoadRouting
