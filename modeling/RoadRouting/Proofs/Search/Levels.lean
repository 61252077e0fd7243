import RoadRouting.Proofs.Search.Steps

namespace RoadRouting

open Scalar (IsOrdered)

namespace Frontier

variable {K Q M : Type} [Scalar K] [PriorityQueue Q K] [LawfulQueue Q]
variable {f f' f'' next : Frontier K Q M} {id : LabelId} {l : Label K}

def Keeps (f f' : Frontier K Q M) : Prop :=
  ∀ id l, f.label? id = some l → f.priority? id = none →
    f'.label? id = some l ∧ f'.priority? id = none

theorem Keeps.refl (f : Frontier K Q M) : f.Keeps f := fun _ _ hl hq ↦ ⟨hl, hq⟩

theorem Keeps.trans (h : f.Keeps f') (h' : f'.Keeps f'') : f.Keeps f'' := by
  intro id l hl hq
  obtain ⟨hl', hq'⟩ := h id l hl hq
  exact h' id l hl' hq'

theorem keeps_pop (hq : LawfulQueue.IsValid f.queue) (hp : f.pop? = some (id, next)) :
    f.Keeps next := by
  intro j lj hj hqj
  rw [label?_of_pop? hp, priority?_pop hq hp, hqj, ite_self]
  exact ⟨hj, rfl⟩

variable [BestMap M]

/-- Labels cost at least `k` while they are queued and at most `k` from then on. -/
structure IsLevelled (f : Frontier K Q M) (start : Label K)
    (keyOf : Option (EdgeView K) → Option StateKey) (k : K) : Prop
    extends f.IsTree start keyOf where
  priority_le : ∀ {id l}, f.label? id = some l → l.priority ≤ l.cost
  le_priority : ∀ {id l}, f.label? id = some l → l.cost ≤ l.priority
  above : ∀ {id l}, f.label? id = some l → f.priority? id ≠ none → k ≤ l.cost
  below : ∀ {id l}, f.label? id = some l → f.priority? id = none → l.cost ≤ k
  settled : ∀ {id l p}, f.label? id = some l → l.parent = some p → f.priority? p = none

namespace IsLevelled

variable [IsOrdered K] {start : Label K} {keyOf : Option (EdgeView K) → Option StateKey} {k : K}
variable (h : f.IsLevelled start keyOf k)
include h

omit [IsOrdered K] in
theorem lineage_settled {ids : List LabelId} (hs : f.Lineage id ids)
    (hq : f.priority? id = none) : ∀ j ∈ ids, f.priority? j = none := by
  induction hs with
  | root hl hp =>
    intro j hj
    cases List.mem_singleton.1 hj
    exact hq
  | step hl hp hs ih =>
    intro j hj
    rcases List.mem_cons.1 hj with rfl | hj
    · exact hq
    · exact ih (h.settled hl hp) j hj

omit [IsOrdered K] in
theorem edgesTo_eq (hl : f.label? id = some l) (hq : f.priority? id = none) (hk : f.Keeps f') :
    f'.edgesTo id = f.edgesTo id := by
  obtain ⟨ids, hs⟩ := h.lineage hl
  apply hs.edgesTo_congr
  intro j hj
  obtain ⟨lj, hlj⟩ := hs.exists_label? hj
  rw [hlj]
  exact (hk j lj hlj (h.lineage_settled hs hq j hj)).1

protected theorem pop (hp : f.pop? = some (id, next)) (hl : next.label? id = some l) :
    next.IsLevelled start keyOf l.cost := by
  have hlabel := label?_of_pop? hp
  obtain ⟨p, hprio, hleast⟩ := least_of_pop h.queue hp
  obtain ⟨_, hl', rfl⟩ := h.queued hprio
  cases hl'.symm.trans ((congrFun hlabel id).symm.trans hl)
  refine ⟨h.toIsTree.pop hp, hlabel ▸ h.priority_le, hlabel ▸ h.le_priority, ?_, ?_, ?_⟩
  · intro j lj hj hq
    rw [hlabel] at hj
    rw [priority?_pop h.queue hp] at hq
    split at hq
    · exact absurd rfl hq
    · obtain ⟨_, hpj⟩ := Option.ne_none_iff_exists'.1 hq
      obtain ⟨_, hlj, rfl⟩ := h.queued hpj
      cases hlj.symm.trans hj
      have hnonneg := IsOrdered.le_trans (h.nonneg hj) (h.le_priority hj)
      have hle := IsOrdered.le_of_precedes hnonneg (hleast j _ hpj)
      exact IsOrdered.le_trans (h.le_priority hl') (IsOrdered.le_trans hle (h.priority_le hj))
  · intro j lj hj hq
    rw [hlabel] at hj
    rw [priority?_pop h.queue hp] at hq
    split at hq
    · next hji =>
      subst hji
      cases hj.symm.trans hl'
      exact IsOrdered.le_self (h.nonneg hj)
    · exact IsOrdered.le_trans (h.below hj hq) (h.above hl' (by rw [hprio]; nofun))
  · intro j lj p hj hpj
    rw [hlabel] at hj
    rw [priority?_pop h.queue hp, h.settled hj hpj, ite_self]

section Store

variable {key : StateKey} {made lp : Label K} (hb : f.IsBranch keyOf key made id lp)
variable (hq : f.priority? id = none)
include hb

omit h in
theorem keeps_store (h : f.IsLevelled start keyOf lp.cost) : f.Keeps (f.store key made).1 := by
  intro j lj hj hqj
  have hne := (IsTree.store_ne hb hj (h.below hj hqj)).symm
  rw [h.label?_store_of_ne hne, priority?_store h.queue, if_neg hne]
  exact ⟨hj, hqj⟩

include hq

omit h in
protected theorem store (h : f.IsLevelled start keyOf lp.cost) (hle : made.priority ≤ made.cost)
    (hge : made.cost ≤ made.priority) : (f.store key made).1.IsLevelled start keyOf lp.cost := by
  have hkeeps := keeps_store hb h
  refine ⟨h.toIsTree.store hb, ?_, ?_, ?_, ?_, ?_⟩
  · intro j lj hj
    rw [h.label?_store] at hj
    split at hj
    · cases hj
      exact hle
    · exact h.priority_le hj
  · intro j lj hj
    rw [h.label?_store] at hj
    split at hj
    · cases hj
      exact hge
    · exact h.le_priority hj
  · intro j lj hj hqj
    rw [h.label?_store] at hj
    rw [priority?_store h.queue] at hqj
    split at hj
    · cases hj
      exact hb.cost_le
    · next hji =>
      rw [if_neg hji] at hqj
      exact h.above hj hqj
  · intro j lj hj hqj
    rw [h.label?_store] at hj
    rw [priority?_store h.queue] at hqj
    split at hj
    · next hji =>
      rw [if_pos hji] at hqj
      cases hqj
    · next hji =>
      rw [if_neg hji] at hqj
      exact h.below hj hqj
  · intro j lj p hj hpj
    rw [h.label?_store] at hj
    split at hj
    · cases hj
      cases hb.parent_eq.symm.trans hpj
      exact (hkeeps id lp hb.label hq).2
    · obtain ⟨lq, hlq, _⟩ := h.parent_le hj hpj
      exact (hkeeps p lq hlq (h.settled hj hpj)).2

end Store

omit h in
variable (keyOf) in
protected theorem addRoot (hcost : start.cost = 0) (hparent : start.parent = none)
    (hle : start.priority ≤ start.cost) (hge : start.cost ≤ start.priority) :
    (empty.addRoot start (keyOf start.edge) : Frontier K Q M).IsLevelled start keyOf 0 := by
  have hlabel : ∀ {id l}, (empty.addRoot start (keyOf start.edge) : Frontier K Q M).label? id =
      some l → id = 0 ∧ l = start := by
    intro id l hl
    rw [label?_addRoot] at hl
    split at hl
    · next hid => exact ⟨hid, (Option.some.inj hl).symm⟩
    · cases hl
  refine ⟨IsTree.addRoot keyOf hcost hparent, ?_, ?_, ?_, ?_, ?_⟩
  · intro id l hl
    rw [(hlabel hl).2]
    exact hle
  · intro id l hl
    rw [(hlabel hl).2]
    exact hge
  · intro id l hl _
    rw [(hlabel hl).2, hcost]
    exact IsOrdered.zero_le_zero
  · intro id l hl hq
    rw [priority?_addRoot, if_pos (hlabel hl).1] at hq
    cases hq
  · intro id l p hl hp
    rw [(hlabel hl).2, hparent] at hp
    cases hp

end IsLevelled

end Frontier

namespace Exploration

variable {K Q M σ : Type} [Scalar K] [PriorityQueue Q K] [LawfulQueue Q] [BestMap M]
variable {x : Exploration K} {f f' next : Frontier K Q M} {start : Label K} {k : K}
variable {keyOf : Option (EdgeView K) → Option StateKey}

/-- Labels are as urgent as they are dear, and no edge leads to a cheaper one. -/
structure GoesByCost (x : Exploration K) (keyOf : Option (EdgeView K) → Option StateKey) : Prop where
  steps : x.MakesSteps
  key : ∀ e, keyOf (some e) = some (x.key e)
  nonneg : ∀ {u l e w}, e ∈ x.edges u → x.price l e = .ok w → 0 ≤ w
  priority_le : ∀ {id l e cost made}, x.extend id l e cost = .ok made → 0 ≤ cost →
    made.priority ≤ cost
  le_priority : ∀ {id l e cost made}, x.extend id l e cost = .ok made → 0 ≤ cost →
    cost ≤ made.priority

namespace GoesByCost

variable [IsOrdered K] (hx : x.GoesByCost keyOf)
include hx

theorem store {id : LabelId} {l made : Label K} {e : EdgeView K} {w : K}
    (h : f.IsLevelled start keyOf l.cost) (hl : f.label? id = some l)
    (hq : f.priority? id = none) (he : e ∈ x.edges l.node) (hs : x.Stores id l f e made w) :
    f.IsBranch keyOf (x.key e) made id l ∧
      (f.store (x.key e) made).1.IsLevelled start keyOf l.cost ∧
      f.Keeps (f.store (x.key e) made).1 := by
  have hw : 0 ≤ w := hx.nonneg he hs.price
  have hb := h.isBranch hx.steps (hx.key e) hl hw hs
  have hcost : 0 ≤ l.cost + w := IsOrdered.add_nonneg (h.nonneg hl) hw
  obtain ⟨_, _, _, hmade⟩ := hx.steps hs.extend
  refine ⟨hb, h.store hb hq ?_ ?_, Frontier.IsLevelled.keeps_store hb h⟩
  · rw [hmade]
    exact hx.priority_le hs.extend hcost
  · rw [hmade]
    exact hx.le_priority hs.extend hcost

theorem expand_isLevelled {id : LabelId} {l : Label K} (h : f.IsLevelled start keyOf l.cost)
    (hl : f.label? id = some l) (hq : f.priority? id = none)
    (he : x.expand id l f (x.edges l.node) = .ok f') :
    f'.IsLevelled start keyOf l.cost ∧ f.Keeps f' := by
  refine expand_preserves (P := fun f' ↦ f'.IsLevelled start keyOf l.cost ∧ f.Keeps f')
    (fun {f₁ e made w} he hf₁ hs ↦ ?_) ⟨h, Frontier.Keeps.refl f⟩ he
  obtain ⟨hf₁, hkeeps⟩ := hf₁
  obtain ⟨hl₁, hq₁⟩ := hkeeps id l hl hq
  obtain ⟨_, hstored, hkeeps'⟩ := hx.store hf₁ hl₁ hq₁ he hs
  exact ⟨hstored, hkeeps.trans hkeeps'⟩

theorem advance_isLevelled {id : LabelId} (h : f.IsLevelled start keyOf k)
    (hp : f.pop? = some (id, next)) :
    ∃ l, next.label? id = some l ∧ next.priority? id = none ∧
      next.IsLevelled start keyOf l.cost ∧ f.Keeps next ∧
      ∀ {f'}, x.expand id l next (x.edges l.node) = .ok f' →
        f'.IsLevelled start keyOf l.cost ∧ next.Keeps f' := by
  obtain ⟨l, hl, _⟩ := h.label?_of_pop hp
  rw [← Frontier.label?_of_pop? hp] at hl
  have hq : next.priority? id = none := by
    rw [Frontier.priority?_pop h.queue hp, if_pos rfl]
  have hnext := h.pop hp hl
  exact ⟨l, hl, hq, hnext, Frontier.keeps_pop h.queue hp,
    fun he ↦ hx.expand_isLevelled hnext hl hq he⟩

theorem keeps_run (w : Watch K σ) (left visited : Nat) (watched : σ)
    (h : f.IsLevelled start keyOf k) :
    f.Keeps (x.run w left visited f watched).frontier := by
  induction left generalizing visited f k watched with
  | zero =>
    cases hp : f.pop? with
    | none =>
      rw [run_of_pop_eq_none hp]
      exact Frontier.Keeps.refl f
    | some popped =>
      rw [run_of_limit hp]
      exact Frontier.keeps_pop h.queue hp
  | succ left ih =>
    cases hp : f.pop? with
    | none =>
      rw [run_of_pop_eq_none hp]
      exact Frontier.Keeps.refl f
    | some popped =>
      obtain ⟨id, next⟩ := popped
      obtain ⟨l, hl, _, _, hkeeps, hstep⟩ := hx.advance_isLevelled h hp
      cases hd : w.isDone (w.note watched id l) with
      | true =>
        rw [run_of_done hp hl hd]
        exact hkeeps
      | false =>
        cases he : x.expand id l next (x.edges l.node) with
        | error error =>
          rw [run_of_error hp hl hd he]
          exact hkeeps
        | ok f' =>
          rw [run_of_expand hp hl hd he]
          obtain ⟨hf', hkeeps'⟩ := hstep he
          exact hkeeps.trans (hkeeps'.trans (ih _ _ hf'))

end GoesByCost

end Exploration

theorem SearchSettings.goesByCost {K : Type} [Scalar K] [IsOrdered K] {s : SearchSettings K}
    {d : Direction} (hs : s.HasCosts d) (root : NodeId) :
    (s.exploration d fun _ ↦ 0).GoesByCost (s.keyOf d root) where
  steps := s.makesSteps_exploration d _
  key _ := rfl
  nonneg he hp := hs he hp
  priority_le hmade hcost := by
    cases hmade
    exact IsOrdered.add_zero_le hcost
  le_priority hmade hcost := by
    cases hmade
    exact IsOrdered.le_add hcost IsOrdered.zero_le_zero

end RoadRouting
