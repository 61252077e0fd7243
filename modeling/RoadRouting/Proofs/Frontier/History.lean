import RoadRouting.Proofs.Frontier.Views
import Mathlib.Data.List.Induction

namespace RoadRouting.Frontier

open Scalar (IsOrdered precedes)

inductive Call (K : Type) where
  | relax (key : StateKey) (l : Label K)
  | pop

/-- What becomes of a label. -/
inductive Event where
  | stored (id : LabelId)
  | taken (id : LabelId)
  deriving DecidableEq, Repr

/-- A label is queued from when it is stored until it is taken out. -/
def Awaits (events : List Event) (id : LabelId) : Prop :=
  ∃ before after, events = before ++ .stored id :: after ∧ .taken id ∉ after

@[simp] theorem not_awaits_nil (id : LabelId) : ¬Awaits [] id := by
  simp [Awaits]

theorem awaits_append_singleton {events : List Event} {e : Event} {id : LabelId} :
    Awaits (events ++ [e]) id ↔ e = .stored id ∨ e ≠ .taken id ∧ Awaits events id := by
  constructor
  · rintro ⟨before, after, heq, hafter⟩
    rcases List.eq_nil_or_concat after with rfl | ⟨after, e', rfl⟩
    · exact .inl (List.append_singleton_inj.1 heq).2
    · right
      rw [List.concat_eq_append, ← List.cons_append, ← List.append_assoc] at heq
      obtain ⟨rfl, rfl⟩ := List.append_singleton_inj.1 heq
      simp only [List.concat_eq_append, List.mem_append, List.mem_singleton, not_or] at hafter
      exact ⟨fun he ↦ hafter.2 he.symm, before, after, rfl, hafter.1⟩
  · rintro (rfl | ⟨hne, before, after, rfl, hafter⟩)
    · exact ⟨events, [], rfl, List.not_mem_nil⟩
    · refine ⟨before, after ++ [e], by simp, ?_⟩
      simpa [hafter] using fun he ↦ hne he.symm

@[simp] theorem awaits_append_stored {events : List Event} {id other : LabelId} :
    Awaits (events ++ [.stored id]) other ↔ other = id ∨ Awaits events other := by
  simp [awaits_append_singleton, eq_comm]

@[simp] theorem awaits_append_taken {events : List Event} {id other : LabelId} :
    Awaits (events ++ [.taken id]) other ↔ other ≠ id ∧ Awaits events other := by
  simp [awaits_append_singleton, eq_comm]

variable {K Q M : Type} [Scalar K]

structure IsFirstLeast (ls : List (Label K)) (l : Label K) : Prop where
  first : ∃ before after, ls = before ++ l :: after ∧ ∀ x ∈ before, ¬x.cost ≤ l.cost
  least : ∀ x ∈ ls, l.cost ≤ x.cost

namespace IsFirstLeast

variable {ls : List (Label K)} {l x : Label K}

theorem mem (h : IsFirstLeast ls l) : l ∈ ls := by
  obtain ⟨before, after, rfl, _⟩ := h.first
  simp

theorem append_of_le (h : IsFirstLeast ls l) (hle : l.cost ≤ x.cost) :
    IsFirstLeast (ls ++ [x]) l where
  first := by
    obtain ⟨before, after, rfl, hbefore⟩ := h.first
    exact ⟨before, after ++ [x], by simp, hbefore⟩
  least y hy := by
    rcases List.mem_append.1 hy with hy | hy
    · exact h.least y hy
    · rwa [List.mem_singleton.1 hy]

variable [IsOrdered K]

theorem singleton (hl : Scalar.isNaN l.cost = false) : IsFirstLeast [l] l where
  first := ⟨[], [], rfl, nofun⟩
  least y hy := by
    rw [List.mem_singleton.1 hy]
    exact (IsOrdered.le_total hl hl).elim id id

theorem append_of_not_le (h : IsFirstLeast ls l) (hx : Scalar.isNaN x.cost = false)
    (hnot : ¬l.cost ≤ x.cost) : IsFirstLeast (ls ++ [x]) x := by
  have hl := (IsOrdered.not_isNaN_of_le (h.least l h.mem)).1
  have hxl := (IsOrdered.le_total hl hx).resolve_left hnot
  refine ⟨⟨ls, [], rfl, fun y hy hle ↦ ?_⟩, fun y hy ↦ ?_⟩
  · exact hnot (IsOrdered.le_trans (h.least y hy) hle)
  · rcases List.mem_append.1 hy with hy | hy
    · exact IsOrdered.le_trans hxl (h.least y hy)
    · rw [List.mem_singleton.1 hy]
      exact (IsOrdered.le_total hx hx).elim id id

end IsFirstLeast

variable {root : Label K} {rootKey : Option StateKey} {calls : List (Call K)} {key : StateKey}

def Call.offer? (key : StateKey) : Call K → Option (Label K)
  | .relax other l => if other = key then some l else none
  | .pop => none

/-- The labels that have been offered for a state, the earliest first. The root counts if it has the
state. -/
def offers (root : Label K) (rootKey : Option StateKey) (calls : List (Call K)) (key : StateKey) :
    List (Label K) :=
  (if rootKey = some key then [root] else []) ++ calls.filterMap (Call.offer? key)

omit [Scalar K] in
theorem offers_append_relax (other : StateKey) (l : Label K) :
    offers root rootKey (calls ++ [.relax other l]) key =
      if other = key then offers root rootKey calls key ++ [l] else offers root rootKey calls key := by
  by_cases h : other = key <;> simp [offers, Call.offer?, h]

omit [Scalar K] in
@[simp] theorem offers_append_pop :
    offers root rootKey (calls ++ [.pop]) key = offers root rootKey calls key := by
  simp [offers, Call.offer?]

/-- A frontier with what has become of its labels, the earliest first. -/
structure Logged (K Q M : Type) where
  frontier : Frontier K Q M
  events : List Event

namespace Logged

variable [PriorityQueue Q K] [BestMap M]

def start (root : Label K) (rootKey : Option StateKey) : Logged K Q M :=
  ⟨empty.addRoot root rootKey, [.stored 0]⟩

def call (s : Logged K Q M) : Call K → Logged K Q M
  | .relax key l =>
    match s.frontier.relax? key l with
    | some (next, id) => ⟨next, s.events ++ [.stored id]⟩
    | none => s
  | .pop =>
    match s.frontier.pop? with
    | some (id, next) => ⟨next, s.events ++ [.taken id]⟩
    | none => s

def run (root : Label K) (rootKey : Option StateKey) (calls : List (Call K)) : Logged K Q M :=
  calls.foldl call (start root rootKey)

theorem run_append (more : List (Call K)) :
    (run root rootKey (calls ++ more) : Logged K Q M) = more.foldl call (run root rootKey calls) :=
  List.foldl_append

theorem call_relax (s : Logged K Q M) (key : StateKey) (l : Label K) :
    s.call (.relax key l) = if s.frontier.improves key l.cost then
      ⟨(s.frontier.store key l).1, s.events ++ [.stored (s.frontier.store key l).2]⟩ else s := by
  by_cases h : s.frontier.improves key l.cost = true <;> simp [call, relax?, h]

theorem call_pop_of_some {s : Logged K Q M} {id : LabelId} {next : Frontier K Q M}
    (h : s.frontier.pop? = some (id, next)) : s.call .pop = ⟨next, s.events ++ [.taken id]⟩ := by
  simp [call, h]

theorem call_pop_of_none {s : Logged K Q M} (h : s.frontier.pop? = none) : s.call .pop = s := by
  simp [call, h]

theorem best?_call (s : Logged K Q M) (c : Call K) {id : LabelId}
    (h : s.frontier.best? key = some id) : (s.call c).frontier.best? key = some id := by
  cases c with
  | relax other l =>
    rw [call_relax]
    split
    · rw [best?_store]
      split
      · next hkey =>
        subst hkey
        rcases s.frontier.store_cases key l with hb | ⟨hb, _⟩
        · exact hb.symm.trans h
        · cases hb.symm.trans h
      · exact h
    · exact h
  | pop =>
    cases hp : s.frontier.pop? with
    | none => rwa [call_pop_of_none hp]
    | some p =>
      rw [call_pop_of_some hp]
      exact (congrFun (best?_of_pop? hp) key).trans h

theorem best?_foldl_call (s : Logged K Q M) (more : List (Call K)) {id : LabelId}
    (h : s.frontier.best? key = some id) : (more.foldl call s).frontier.best? key = some id := by
  induction more generalizing s with
  | nil => exact h
  | cons c more ih => exact ih (s.call c) (s.best?_call c h)

variable [LawfulQueue Q]

/-- Labels, map and queue agree with each other, with what has been offered and with what has been
taken out. -/
structure IsInStep (s : Logged K Q M) (root : Label K) (rootKey : Option StateKey)
    (calls : List (Call K)) : Prop where
  queue : LawfulQueue.IsValid s.frontier.queue
  known : ∀ key, s.frontier.best? key = none ↔ offers root rootKey calls key = []
  best : ∀ {key id}, s.frontier.best? key = some id → ∃ l, s.frontier.label? id = some l ∧
    IsFirstLeast (offers root rootKey calls key) l
  unique : ∀ {key key' id}, s.frontier.best? key = some id → s.frontier.best? key' = some id →
    key = key'
  owner : ∀ {id}, id < s.frontier.size →
    (∃ key, s.frontier.best? key = some id) ∨ rootKey = none ∧ id = 0
  root : rootKey = none → s.frontier.label? 0 = some root ∧ ∀ key, s.frontier.best? key ≠ some 0
  awaited : ∀ {id}, Awaits s.events id → ∃ l, s.frontier.label? id = some l ∧
    s.frontier.priority? id = some l.priority
  settled : ∀ {id}, ¬Awaits s.events id → s.frontier.priority? id = none

namespace IsInStep

theorem start [IsOrdered K] (hroot : ∀ key, rootKey = some key → Scalar.isNaN root.cost = false) :
    (Logged.start root rootKey : Logged K Q M).IsInStep root rootKey [] where
  queue := queue_isValid_addRoot root rootKey
  known key := by
    simp only [Logged.start, best?_addRoot, offers]
    split
    · simp
    · simp
  best {key id} hb := by
    rw [Logged.start, best?_addRoot] at hb
    split at hb
    · next hkey =>
      cases hb
      refine ⟨root, by rw [Logged.start, label?_addRoot, if_pos rfl], ?_⟩
      simpa [offers, hkey] using IsFirstLeast.singleton (hroot key hkey)
    · cases hb
  unique {key key' id} hb hb' := by
    rw [Logged.start, best?_addRoot] at hb hb'
    grind
  owner {id} hid := by
    obtain ⟨l, hl⟩ := exists_label?_of_lt hid
    rw [Logged.start, label?_addRoot] at hl
    split at hl
    · next hzero =>
      cases hkey : rootKey with
      | none => exact .inr ⟨rfl, hzero⟩
      | some key => exact .inl ⟨key, by rw [Logged.start, best?_addRoot, if_pos rfl, hzero]⟩
    · cases hl
  root hkey := by
    refine ⟨by rw [Logged.start, label?_addRoot, if_pos rfl], fun key ↦ ?_⟩
    rw [Logged.start, best?_addRoot, hkey]
    simp
  awaited {id} ha := by
    have hid : id = 0 := by
      simpa using awaits_append_stored.1 (show Awaits ([] ++ [.stored 0]) id from ha)
    refine ⟨root, ?_, ?_⟩
    · rw [Logged.start, label?_addRoot, if_pos hid]
    · rw [Logged.start, priority?_addRoot, if_pos hid]
  settled {id} ha := by
    have hid : id ≠ 0 := fun hid ↦
      ha (show Awaits ([] ++ [.stored 0]) id from awaits_append_stored.2 (.inl hid))
    rw [Logged.start, priority?_addRoot, if_neg hid]

variable {s : Logged K Q M} (h : s.IsInStep root rootKey calls) {l : Label K}
include h

theorem lt_size {id : LabelId} (hb : s.frontier.best? key = some id) : id < s.frontier.size := by
  obtain ⟨l, hl, _⟩ := h.best hb
  exact lt_size_of_label? hl

theorem ne_store {other : StateKey} {id : LabelId} (hne : other ≠ key)
    (hb : s.frontier.best? other = some id) : id ≠ (s.frontier.store key l).2 := by
  rintro rfl
  rcases s.frontier.store_cases key l with hstored | ⟨_, hsize⟩
  · exact hne (h.unique hb hstored)
  · exact absurd (h.lt_size hb) (by rw [hsize]; exact lt_irrefl _)

theorem root_ne_store (hroot : rootKey = none) : 0 ≠ (s.frontier.store key l).2 := by
  obtain ⟨hlabel, hfree⟩ := h.root hroot
  rcases s.frontier.store_cases key l with hstored | ⟨_, hsize⟩
  · exact fun hid ↦ hfree key (hid ▸ hstored)
  · rw [hsize]
    exact (lt_size_of_label? hlabel).ne

theorem label?_store (l : Label K) (id : LabelId) : (s.frontier.store key l).1.label? id =
    if id = (s.frontier.store key l).2 then some l else s.frontier.label? id :=
  Frontier.label?_store h.lt_size l id

theorem isFirstLeast_store [IsOrdered K] (hl : Scalar.isNaN l.cost = false)
    (himproves : s.frontier.improves key l.cost = true) :
    IsFirstLeast (offers root rootKey calls key ++ [l]) l := by
  cases hb : s.frontier.best? key with
  | none =>
    rw [(h.known key).1 hb]
    exact IsFirstLeast.singleton hl
  | some id =>
    obtain ⟨x, hx, hleast⟩ := h.best hb
    exact hleast.append_of_not_le hl (improves_iff.1 himproves id x hb hx)

theorem store [IsOrdered K] (hl : Scalar.isNaN l.cost = false)
    (himproves : s.frontier.improves key l.cost = true) :
    IsInStep ⟨(s.frontier.store key l).1, s.events ++ [.stored (s.frontier.store key l).2]⟩ root
      rootKey (calls ++ [.relax key l]) where
  queue := queue_isValid_store h.queue key l
  known other := by
    rw [best?_store, offers_append_relax]
    by_cases hkey : other = key
    · simp [hkey]
    · rw [if_neg hkey, if_neg (Ne.symm hkey)]
      exact h.known other
  best {other id} hb := by
    rw [best?_store] at hb
    rw [offers_append_relax]
    by_cases hkey : other = key
    · rw [if_pos hkey] at hb
      cases hb
      rw [if_pos hkey.symm, hkey]
      exact ⟨l, by rw [h.label?_store, if_pos rfl], h.isFirstLeast_store hl himproves⟩
    · rw [if_neg hkey] at hb
      rw [if_neg (Ne.symm hkey)]
      obtain ⟨x, hx, hleast⟩ := h.best hb
      exact ⟨x, by rw [h.label?_store, if_neg (h.ne_store hkey hb), hx], hleast⟩
  unique {other other' id} hb hb' := by
    rw [best?_store] at hb hb'
    by_cases hkey : other = key <;> by_cases hkey' : other' = key
    · rw [hkey, hkey']
    · rw [if_pos hkey] at hb
      rw [if_neg hkey'] at hb'
      exact absurd (Option.some.inj hb).symm (h.ne_store hkey' hb')
    · rw [if_neg hkey] at hb
      rw [if_pos hkey'] at hb'
      exact absurd (Option.some.inj hb').symm (h.ne_store hkey hb)
    · rw [if_neg hkey] at hb
      rw [if_neg hkey'] at hb'
      exact h.unique hb hb'
  owner {id} hid := by
    by_cases hnew : id = (s.frontier.store key l).2
    · exact .inl ⟨key, by rw [best?_store, if_pos rfl, hnew]⟩
    · obtain ⟨x, hx⟩ := exists_label?_of_lt hid
      rw [h.label?_store, if_neg hnew] at hx
      rcases h.owner (lt_size_of_label? hx) with ⟨other, hb⟩ | hroot
      · refine .inl ⟨other, ?_⟩
        rw [best?_store]
        split
        · next hkey =>
          subst hkey
          rcases s.frontier.store_cases other l with hstored | ⟨hnone, _⟩
          · exact hstored.symm.trans hb
          · cases hnone.symm.trans hb
        · exact hb
      · exact .inr hroot
  root hroot := by
    refine ⟨?_, fun other ↦ ?_⟩
    · rw [h.label?_store, if_neg (h.root_ne_store hroot)]
      exact (h.root hroot).1
    · rw [best?_store]
      split
      · exact fun hid ↦ h.root_ne_store hroot (Option.some.inj hid).symm
      · exact (h.root hroot).2 other
  awaited {id} ha := by
    rw [h.label?_store, priority?_store h.queue]
    by_cases hnew : id = (s.frontier.store key l).2
    · exact ⟨l, by rw [if_pos hnew], by rw [if_pos hnew]⟩
    · rw [if_neg hnew, if_neg hnew]
      exact h.awaited ((awaits_append_stored.1 ha).resolve_left hnew)
  settled {id} ha := by
    rw [awaits_append_stored, not_or] at ha
    rw [priority?_store h.queue, if_neg ha.1]
    exact h.settled ha.2

theorem skip (himproves : s.frontier.improves key l.cost ≠ true) :
    s.IsInStep root rootKey (calls ++ [.relax key l]) := by
  rw [ne_eq, improves_iff] at himproves
  push Not at himproves
  obtain ⟨id, x, hb, hx, hle⟩ := himproves
  obtain ⟨x', hx', hleast⟩ := h.best hb
  cases hx.symm.trans hx'
  refine ⟨h.queue, fun other ↦ ?_, fun {other id'} hb' ↦ ?_, h.unique, h.owner, h.root, h.awaited,
    h.settled⟩
  · rw [offers_append_relax]
    split
    · next hkey =>
      subst hkey
      simp [hb]
    · exact h.known other
  · rw [offers_append_relax]
    split
    · next hkey =>
      subst hkey
      cases hb.symm.trans hb'
      exact ⟨x, hx, hleast.append_of_le hle⟩
    · exact h.best hb'

theorem pop {id : LabelId} {next : Frontier K Q M} (hp : s.frontier.pop? = some (id, next)) :
    IsInStep ⟨next, s.events ++ [.taken id]⟩ root rootKey (calls ++ [.pop]) := by
  have hlabel := label?_of_pop? hp
  have hbest := best?_of_pop? hp
  have hsize : next.size = s.frontier.size := by
    obtain ⟨_, _, rfl⟩ := pop?_eq_some_iff.1 hp
    rfl
  refine ⟨queue_isValid_pop h.queue hp, ?_, ?_, ?_, ?_, ?_, fun {j} ha ↦ ?_, fun {j} ha ↦ ?_⟩
  · simpa [hbest] using h.known
  · simpa [hbest, hlabel] using @h.best
  · simpa [hbest] using @h.unique
  · simpa [hbest, hsize] using @h.owner
  · simpa [hbest, hlabel] using h.root
  · rw [awaits_append_taken] at ha
    rw [priority?_pop h.queue hp, if_neg ha.1]
    simpa [hlabel] using h.awaited ha.2
  · rw [awaits_append_taken, not_and] at ha
    rw [priority?_pop h.queue hp]
    split
    · rfl
    · next hj => exact h.settled (ha hj)

theorem exhausted : s.IsInStep root rootKey (calls ++ [.pop]) :=
  ⟨h.queue, by simpa using h.known, by simpa using @h.best, h.unique, h.owner, h.root, h.awaited,
    h.settled⟩

theorem call [IsOrdered K] {c : Call K}
    (hc : ∀ key l, c = .relax key l → Scalar.isNaN l.cost = false) :
    (s.call c).IsInStep root rootKey (calls ++ [c]) := by
  cases c with
  | relax key l =>
    rw [call_relax]
    split
    · next himproves => exact h.store (hc key l rfl) himproves
    · next himproves => exact h.skip himproves
  | pop =>
    cases hp : s.frontier.pop? with
    | none =>
      rw [call_pop_of_none hp]
      exact h.exhausted
    | some p =>
      rw [call_pop_of_some hp]
      exact h.pop hp

theorem least_of_pop {id : LabelId} {next : Frontier K Q M}
    (hp : s.frontier.pop? = some (id, next)) : Awaits s.events id ∧
      ∃ l, s.frontier.label? id = some l ∧ ∀ {j lj}, Awaits s.events j →
        s.frontier.label? j = some lj → precedes l.priority lj.priority = true := by
  have hid : Awaits s.events id := by
    by_contra hnot
    exact priority?_ne_none_of_pop h.queue hp (h.settled hnot)
  obtain ⟨l, hl, hk⟩ := h.awaited hid
  obtain ⟨k, hk', hleast⟩ := Frontier.least_of_pop h.queue hp
  cases hk.symm.trans hk'
  refine ⟨hid, l, hl, fun {j lj} hj hlj ↦ ?_⟩
  obtain ⟨x, hx, hkj⟩ := h.awaited hj
  cases hlj.symm.trans hx
  exact hleast j _ hkj

theorem not_awaits_of_pop_eq_none (hp : s.frontier.pop? = none) (id : LabelId) :
    ¬Awaits s.events id := by
  intro ha
  obtain ⟨l, _, hk⟩ := h.awaited ha
  cases hk.symm.trans (priority?_of_pop_eq_none h.queue hp id)

omit h in
theorem exists_pops [IsOrdered K] (n : Nat) (h : s.IsInStep root rootKey calls) :
    ∃ ids : List LabelId, ids.Nodup ∧ (∀ id ∈ ids, Awaits s.events id) ∧
      ((List.replicate n .pop).foldl Logged.call s).events = s.events ++ ids.map .taken := by
  induction n generalizing s calls with
  | zero => exact ⟨[], .nil, nofun, by simp⟩
  | succ n ih =>
    rw [List.replicate_succ, List.foldl_cons]
    cases hp : s.frontier.pop? with
    | none =>
      rw [call_pop_of_none hp]
      exact ih h
    | some p =>
      obtain ⟨id, next⟩ := p
      rw [call_pop_of_some hp]
      obtain ⟨ids, hnodup, hawait, hevents⟩ := ih (h.pop hp)
      simp only [awaits_append_taken] at hawait
      refine ⟨id :: ids, ?_, ?_, by simp [hevents]⟩
      · exact List.nodup_cons.2 ⟨fun hid ↦ (hawait id hid).1 rfl, hnodup⟩
      · intro j hj
        rcases List.mem_cons.1 hj with rfl | hj
        · exact (h.least_of_pop hp).1
        · exact (hawait j hj).2

end IsInStep

theorem isInStep_run [IsOrdered K]
    (hoffers : ∀ key, ∀ l ∈ offers root rootKey calls key, Scalar.isNaN l.cost = false) :
    (run root rootKey calls : Logged K Q M).IsInStep root rootKey calls := by
  induction calls using List.reverseRecOn with
  | nil => exact .start fun key hkey ↦ hoffers key root (by simp [offers, hkey])
  | append_singleton calls c ih =>
    rw [run_append]
    refine (ih fun key l hl ↦ hoffers key l ?_).call fun key l hc ↦ hoffers key l ?_
    · cases c with
      | relax other x =>
        rw [offers_append_relax]
        split
        · exact List.mem_append_left _ hl
        · exact hl
      | pop => rwa [offers_append_pop]
    · rw [hc, offers_append_relax, if_pos rfl]
      simp

/-- Whatever is offered and taken out in which order: labels, map and queue stay in step, states keep
their numbers, and what is taken out is queued once and is of the least priority. -/
theorem stays_in_step [IsOrdered K]
    (hoffers : ∀ key, ∀ l ∈ offers root rootKey calls key, Scalar.isNaN l.cost = false) :
    let s : Logged K Q M := run root rootKey calls
    s.IsInStep root rootKey calls ∧
    (∀ more key id, s.frontier.best? key = some id →
      (run root rootKey (calls ++ more) : Logged K Q M).frontier.best? key = some id) ∧
    (∀ id next, s.frontier.pop? = some (id, next) → Awaits s.events id ∧
      ∃ l, s.frontier.label? id = some l ∧ ∀ {j lj}, Awaits s.events j →
        s.frontier.label? j = some lj → precedes l.priority lj.priority = true) ∧
    (s.frontier.pop? = none → ∀ id, ¬Awaits s.events id) ∧
    ∀ n, ∃ ids : List LabelId, ids.Nodup ∧
      (run root rootKey (calls ++ List.replicate n .pop) : Logged K Q M).events =
        s.events ++ ids.map .taken := by
  intro s
  have h : s.IsInStep root rootKey calls := isInStep_run hoffers
  refine ⟨h, fun more key id hb ↦ ?_, fun id next hp ↦ h.least_of_pop hp,
    fun hp ↦ h.not_awaits_of_pop_eq_none hp, fun n ↦ ?_⟩
  · rw [run_append]
    exact s.best?_foldl_call more hb
  · obtain ⟨ids, hnodup, _, hevents⟩ := h.exists_pops n
    exact ⟨ids, hnodup, by rw [run_append, hevents]⟩

def offering (key : StateKey) (priority cost : Rat) : Call Scalar.Exact :=
  .relax key ⟨none, key, .finite priority, .finite cost, 0, some 0⟩

def reopening : List (Call Scalar.Exact) :=
  [offering 2 7 5, .pop, offering 2 6 5, .pop, offering 2 4 3, offering 5 4 4]

theorem stays_in_step_reopening :
    let root : Label Scalar.Exact := .root 0 0
    let s : Logged Scalar.Exact (SortedQueue Scalar.Exact) DenseMap := run root (some 0) reopening
    (∀ key, ∀ l ∈ offers root (some 0) reopening key, Scalar.isNaN l.cost = false) ∧
      s.IsInStep root (some 0) reopening ∧ s.frontier.best? 2 = some 1 ∧
      s.events = [.stored 0, .stored 1, .taken 0, .taken 1, .stored 1, .stored 2] := by
  intro root s
  have hoffers : ∀ key, ∀ l ∈ offers root (some 0) reopening key, Scalar.isNaN l.cost = false := by
    intro key l hl
    simp only [offers, reopening, offering, List.mem_append, List.mem_filterMap] at hl
    rcases hl with hl | ⟨c, hc, hl⟩
    · split at hl
      · cases List.mem_singleton.1 hl
        rfl
      · cases hl
    · simp only [List.mem_cons, List.not_mem_nil, or_false] at hc
      rcases hc with rfl | rfl | rfl | rfl | rfl | rfl <;> simp [Call.offer?] at hl <;>
        exact hl.2 ▸ rfl
  exact ⟨hoffers, (stays_in_step hoffers).1, by decide +kernel, by decide +kernel⟩

end Logged

end RoadRouting.Frontier
