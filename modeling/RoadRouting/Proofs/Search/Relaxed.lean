import RoadRouting.Proofs.Search.Settled
import RoadRouting.Proofs.Search.Success

namespace RoadRouting

open Scalar (IsOrdered)

namespace Frontier

variable {K Q M : Type} [Scalar K]

def Offers [BestMap M] (f : Frontier K Q M) (key : StateKey) (cost : K) : Prop :=
  ∃ j lj, f.best? key = some j ∧ f.label? j = some lj ∧ lj.cost ≤ cost

theorem offers_of_not_improves [BestMap M] {f : Frontier K Q M} {key : StateKey} {cost : K}
    (h : ¬f.improves key cost = true) : f.Offers key cost := by
  by_contra hnone
  exact h (improves_iff.2 fun j lj hb hlj hle ↦ hnone ⟨j, lj, hb, hlj, hle⟩)

variable [PriorityQueue Q K] [LawfulQueue Q] [BestMap M]
variable {f f' next : Frontier K Q M} {x : Exploration K} {id : LabelId} {l : Label K}

theorem Offers.store [IsOrdered K] {start made : Label K} {keyOf : Option (EdgeView K) → Option StateKey}
    {key other : StateKey} {cost : K} (h : f.IsTree start keyOf)
    (hb : f.IsBranch keyOf key made id l) (ho : f.Offers other cost) :
    (f.store key made).1.Offers other cost := by
  obtain ⟨j, lj, hj, hlj, hle⟩ := ho
  obtain ⟨lj', hlj', hle'⟩ := h.exists_label?_store hb hlj
  refine ⟨j, lj', ?_, hlj', IsOrdered.le_trans hle' hle⟩
  rw [best?_store]
  split
  · next hkey =>
    subst hkey
    rcases f.store_cases other made with hknown | ⟨hnone, _⟩
    · exact hknown.symm.trans hj
    · cases hnone.symm.trans hj
  · exact hj

/-- The edges of settled labels lead to what is known, but for those that are left. -/
structure IsRelaxed (f : Frontier K Q M) (x : Exploration K)
    (left : LabelId → EdgeView K → Prop) : Prop where
  offers : ∀ {id l e w}, f.label? id = some l → f.priority? id = none → e ∈ x.edges l.node →
    x.allows l.incomingEdge e = true → x.price l e = .ok w → Scalar.isInfinite w = false →
    ¬left id e → f.Offers (x.key e) (l.cost + w)

theorem IsRelaxed.pop (h : f.IsRelaxed x fun _ _ ↦ False) (hq : LawfulQueue.IsValid f.queue)
    (hp : f.pop? = some (id, next)) (hl : next.label? id = some l) :
    next.IsRelaxed x fun j e ↦ j = id ∧ e ∈ x.edges l.node := by
  constructor
  intro j lj e w hj hqj he ha hw hinf hleft
  rw [priority?_pop hq hp] at hqj
  split at hqj
  · next hji =>
    subst hji
    cases hj.symm.trans hl
    exact absurd ⟨rfl, he⟩ hleft
  · rw [label?_of_pop? hp] at hj
    obtain ⟨i, li, hb, hli, hle⟩ := h.offers hj hqj he ha hw hinf not_false
    exact ⟨i, li, best?_of_pop? hp ▸ hb, label?_of_pop? hp ▸ hli, hle⟩

omit [BestMap M] in
theorem Keeps.card_settledIds_le (h : f.Keeps f') : f.settledIds.card ≤ f'.settledIds.card := by
  apply Finset.card_le_card
  intro id hid
  obtain ⟨hlt, hq⟩ := mem_settledIds.1 hid
  obtain ⟨l, hl⟩ := exists_label?_of_lt hlt
  obtain ⟨hl', hq'⟩ := h id l hl hq
  exact mem_settledIds.2 ⟨lt_size_of_label? hl', hq'⟩

theorem IsTree.store_keeps {start : Label K} {keyOf : Option (EdgeView K) → Option StateKey}
    (h : f.IsTree start keyOf) (key : StateKey) (made : Label K) :
    (f.store key made).1.Keeps f := by
  intro j lj hj hq
  rw [priority?_store h.queue] at hq
  split at hq
  · cases hq
  · next hne =>
    rw [h.label?_store_of_ne hne] at hj
    exact ⟨hj, hq⟩

theorem isRelaxed_addRoot (root : Label K) (key : Option StateKey) :
    (empty.addRoot root key : Frontier K Q M).IsRelaxed x fun _ _ ↦ False := by
  constructor
  intro id l e w hl hq
  rw [label?_addRoot] at hl
  rw [priority?_addRoot] at hq
  split at hl
  · next hid =>
    rw [if_pos hid] at hq
    cases hq
  · cases hl

section Edge

variable {e : EdgeView K} {es : List (EdgeView K)}
variable (h : f.IsRelaxed x fun j e' ↦ j = id ∧ e' ∈ e :: es) (hl : f.label? id = some l)
include h hl

theorem IsRelaxed.skip (ho : ∀ {w}, x.allows l.incomingEdge e = true → x.price l e = .ok w →
      Scalar.isInfinite w = false → f.Offers (x.key e) (l.cost + w)) :
    f.IsRelaxed x fun j e' ↦ j = id ∧ e' ∈ es := by
  constructor
  intro j lj e' w hj hqj he' ha hw hinf hleft
  by_cases hself : j = id ∧ e' = e
  · obtain ⟨rfl, rfl⟩ := hself
    cases hj.symm.trans hl
    exact ho ha hw hinf
  · apply h.offers hj hqj he' ha hw hinf
    intro ⟨hji, hmem⟩
    rcases List.mem_cons.1 hmem with rfl | hmem
    · exact hself ⟨hji, rfl⟩
    · exact hleft ⟨hji, hmem⟩

variable [IsOrdered K] {start made : Label K} {keyOf : Option (EdgeView K) → Option StateKey} {w : K}

theorem IsRelaxed.store (ht : f.IsTree start keyOf) (hb : f.IsBranch keyOf (x.key e) made id l)
    (hw : x.price l e = .ok w) (hcost : made.cost = l.cost + w) :
    (f.store (x.key e) made).1.IsRelaxed x fun j e' ↦ j = id ∧ e' ∈ es := by
  have hstored : (f.store (x.key e) made).1.Offers (x.key e) (l.cost + w) := by
    refine ⟨(f.store (x.key e) made).2, made, ?_, ht.label?_store_self made, ?_⟩
    · rw [best?_store, if_pos rfl]
    · rw [← hcost]
      exact IsOrdered.le_self (IsOrdered.le_trans (ht.nonneg hl) hb.cost_le)
  have hl' := (ht.label?_store_of_ne (ht.store_ne_parent hb).symm).trans hl
  have hleft : (f.store (x.key e) made).1.IsRelaxed x fun j e' ↦ j = id ∧ e' ∈ e :: es := by
    constructor
    intro j lj e' w' hj hqj he' ha hw' hinf hleft
    rw [priority?_store ht.queue] at hqj
    split at hqj
    · cases hqj
    · next hne =>
      rw [ht.label?_store_of_ne hne] at hj
      exact (h.offers hj hqj he' ha hw' hinf hleft).store ht hb
  apply hleft.skip hl'
  intro w' _ hw' _
  cases hw.symm.trans hw'
  exact hstored

end Edge

end Frontier

namespace Exploration

variable {K Q M : Type} [Scalar K] [PriorityQueue Q K] [LawfulQueue Q] [BestMap M]
variable {x : Exploration K} {f next : Frontier K Q M} {start : Label K} {k : K}
variable {keyOf : Option (EdgeView K) → Option StateKey} {id : LabelId} {l : Label K}

variable [IsOrdered K] (hx : x.GoesByCost keyOf) (hok : x.NeverFails)
include hx hok

theorem tryEdge_relaxes {e : EdgeView K} {es : List (EdgeView K)}
    (h : f.IsSettling x start keyOf l.cost) (hl : f.label? id = some l)
    (hq : f.priority? id = none) (he : e ∈ x.edges l.node)
    (hr : f.IsRelaxed x fun j e' ↦ j = id ∧ e' ∈ e :: es) :
    ∃ f', (x.tryEdge id l f e).map (·.1) = .ok f' ∧ f'.IsSettling x start keyOf l.cost ∧
      f.Keeps f' ∧ f'.Keeps f ∧ f'.IsRelaxed x fun j e' ↦ j = id ∧ e' ∈ es := by
  by_cases ha : x.allows l.incomingEdge e = true
  · obtain ⟨w, hw, hextend⟩ := hok he
    rw [tryEdge_eq id f ha hw]
    cases hinf : Scalar.isInfinite w with
    | true =>
      refine ⟨f, by simp [Except.map], h, .refl f, .refl f, hr.skip hl fun _ hw' hinf' ↦ ?_⟩
      cases hw.symm.trans hw'
      cases hinf.symm.trans hinf'
    | false =>
      by_cases hi : f.improves (x.key e) (l.cost + w) = true
      · obtain ⟨made, hmade⟩ := hextend hinf id (l.cost + w)
        have hs : x.Stores id l f e made w := ⟨ha, hw, hinf, hi, hmade⟩
        obtain ⟨hb, _, _⟩ := hx.store h.toIsLevelled hl hq he hs
        obtain ⟨hsettling, hkeeps⟩ := h.store hx hl hq he hs
        obtain ⟨_, _, _, hcost⟩ := hx.steps hmade
        refine ⟨_, by simp [hi, hmade, Except.map], hsettling, hkeeps, h.store_keeps _ _, ?_⟩
        exact hr.store hl h.toIsTree hb hw hcost
      · refine ⟨f, by simp [hi, Except.map], h, .refl f, .refl f, hr.skip hl fun _ hw' _ ↦ ?_⟩
        cases hw.symm.trans hw'
        exact Frontier.offers_of_not_improves hi
  · refine ⟨f, by simp [tryEdge, ha, Except.map], h, .refl f, .refl f, ?_⟩
    exact hr.skip hl fun ha' ↦ absurd ha' ha

theorem expand_relaxes {es : List (EdgeView K)} (h : f.IsSettling x start keyOf l.cost)
    (hl : f.label? id = some l) (hq : f.priority? id = none) (hes : ∀ e ∈ es, e ∈ x.edges l.node)
    (hr : f.IsRelaxed x fun j e ↦ j = id ∧ e ∈ es) :
    ∃ f', x.expand id l f es = .ok f' ∧ f'.IsSettling x start keyOf l.cost ∧ f.Keeps f' ∧
      f'.Keeps f ∧ f'.IsRelaxed x fun _ _ ↦ False := by
  induction es generalizing f with
  | nil =>
    refine ⟨f, rfl, h, .refl f, .refl f, ⟨fun hl hq he ha hw hinf _ ↦ ?_⟩⟩
    exact hr.offers hl hq he ha hw hinf fun hleft ↦ List.not_mem_nil hleft.2
  | cons e es ih =>
    obtain ⟨f₁, hf₁, hsettling, hkeeps, hback, hr₁⟩ :=
      tryEdge_relaxes hx hok h hl hq (hes e List.mem_cons_self) hr
    obtain ⟨hl₁, hq₁⟩ := hkeeps id l hl hq
    obtain ⟨f', hf', hsettling', hkeeps', hback', hr'⟩ :=
      ih hsettling hl₁ hq₁ (fun e he ↦ hes e (List.mem_cons_of_mem _ he)) hr₁
    refine ⟨f', ?_, hsettling', hkeeps.trans hkeeps', hback'.trans hback, hr'⟩
    rw [expand, List.foldlM_cons, hf₁]
    exact hf'

omit hok

variable {target : NodeId} {visited : Nat}

omit hx [IsOrdered K] in
variable (x start keyOf target) in
/-- What holds of a search for a node whenever it goes on: the labels that it has counted are settled,
and none of them is at the node. -/
structure Seeks (f : Frontier K Q M) (visited : Nat) : Prop where
  settling : ∃ k, f.IsSettling x start keyOf k
  relaxed : f.IsRelaxed x fun _ _ ↦ False
  awaits : ∀ {id l}, f.label? id = some l → l.node = target → f.priority? id ≠ none
  visited_le : visited ≤ f.settledIds.card

omit hx in
theorem Seeks.pop (h : x.Seeks start keyOf target f visited) (hp : f.pop? = some (id, next)) :
    ∃ l, next.label? id = some l ∧ next.priority? id = none ∧
      next.IsSettling x start keyOf l.cost ∧ visited + 1 ≤ next.settledIds.card ∧
      next.IsRelaxed x fun j e ↦ j = id ∧ e ∈ x.edges l.node := by
  obtain ⟨k, hf⟩ := h.settling
  obtain ⟨l, hl, _⟩ := hf.label?_of_pop hp
  have hnext : next.label? id = some l := Frontier.label?_of_pop? hp ▸ hl
  refine ⟨l, hnext, ?_, hf.pop hp hnext, ?_, h.relaxed.pop hf.queue hp hnext⟩
  · rw [Frontier.priority?_pop hf.queue hp, if_pos rfl]
  · rw [Frontier.card_settledIds_pop hf.queue hp (Frontier.lt_size_of_label? hl)]
    exact Nat.succ_le_succ h.visited_le

omit [IsOrdered K] hx in
variable (x start keyOf target) in
/-- How a search for a node ends. -/
inductive Reaches (limit : Nat) (r : Explored K Q M (Option LabelId)) : Prop
  | done {f : Frontier K Q M} {visited : Nat} {goal : LabelId} {l : Label K} :
      r.ending = .ok .done → r.watched = some goal → x.Seeks start keyOf target f visited →
      f.pop? = some (goal, r.frontier) → r.frontier.label? goal = some l → l.node = target →
      Reaches limit r
  | exhausted : r.ending = .ok .exhausted → x.Seeks start keyOf target r.frontier r.visited →
      r.frontier.pop? = none → Reaches limit r
  | limited : r.ending = .ok .limited → limit < r.visited → Reaches limit r

include hok

theorem Seeks.advance (h : x.Seeks start keyOf target f visited)
    (hp : f.pop? = some (id, next)) (hl : next.label? id = some l) (hn : l.node ≠ target) :
    ∃ f', x.expand id l next (x.edges l.node) = .ok f' ∧
      x.Seeks start keyOf target f' (visited + 1) := by
  obtain ⟨_, hl', hq, hsettling, hle, hr⟩ := h.pop hp
  cases hl'.symm.trans hl
  obtain ⟨f', hf', hsettling', hkeeps, hback, hr'⟩ :=
    expand_relaxes hx hok hsettling hl hq (fun _ he ↦ he) hr
  refine ⟨f', hf', ⟨_, hsettling'⟩, hr', ?_, hle.trans hkeeps.card_settledIds_le⟩
  intro j lj hj hnj hqj
  obtain ⟨hj, hqj⟩ := hback j lj hj hqj
  obtain ⟨k, hf⟩ := h.settling
  rw [Frontier.priority?_pop hf.queue hp] at hqj
  split at hqj
  · next hji =>
    subst hji
    cases hj.symm.trans hl
    exact hn hnj
  · rw [Frontier.label?_of_pop? hp] at hj
    exact h.awaits hj hnj hqj

theorem run_reaches (left : Nat) (h : x.Seeks start keyOf target f visited) :
    let r := x.run (Watch.reach target) left visited f none
    x.Reaches start keyOf target (visited + left) r ∧
      ∃ k, r.frontier.IsSettling x start keyOf k ∧ r.visited ≤ r.frontier.settledIds.card := by
  induction left generalizing visited f with
  | zero =>
    cases hp : f.pop? with
    | none =>
      obtain ⟨k, hf⟩ := h.settling
      rw [run_of_pop_eq_none hp]
      exact ⟨.exhausted rfl h hp, k, hf, h.visited_le⟩
    | some popped =>
      obtain ⟨l, _, _, hsettling, hle, _⟩ := h.pop hp
      rw [run_of_limit hp]
      exact ⟨.limited rfl (Nat.lt_succ_self _), l.cost, hsettling, hle⟩
  | succ left ih =>
    cases hp : f.pop? with
    | none =>
      obtain ⟨k, hf⟩ := h.settling
      rw [run_of_pop_eq_none hp]
      exact ⟨.exhausted rfl h hp, k, hf, h.visited_le⟩
    | some popped =>
      obtain ⟨id, next⟩ := popped
      obtain ⟨l, hl, _, hsettling, hle, _⟩ := h.pop hp
      by_cases hn : l.node = target
      · have hnote : (Watch.reach target).note none id l = some id := if_pos hn
        rw [run_of_done hp hl (by rw [hnote]; rfl), hnote]
        exact ⟨.done rfl rfl h hp hl hn, l.cost, hsettling, hle⟩
      · have hnote : (Watch.reach target).note none id l = none := if_neg hn
        obtain ⟨f', hf', h'⟩ := h.advance hx hok hp hl hn
        rw [run_of_expand hp hl (by rw [hnote]; rfl) hf', hnote]
        have hrun := ih h'
        rwa [Nat.add_right_comm] at hrun

omit hx hok

variable (x start keyOf target) in
theorem seeks_addRoot (hcost : start.cost = 0) (hparent : start.parent = none)
    (hle : start.priority ≤ start.cost) (hge : start.cost ≤ start.priority) :
    x.Seeks start keyOf target
      (Frontier.empty.addRoot start (keyOf start.edge) : Frontier K Q M) 0 where
  settling := ⟨0, .addRoot x keyOf hcost hparent hle hge⟩
  relaxed := Frontier.isRelaxed_addRoot _ _
  awaits {id l} hl _ := by
    rw [Frontier.label?_addRoot] at hl
    rw [Frontier.priority?_addRoot]
    split at hl
    · next hid =>
      rw [if_pos hid]
      nofun
    · cases hl
  visited_le := Nat.zero_le _

end Exploration

end RoadRouting
