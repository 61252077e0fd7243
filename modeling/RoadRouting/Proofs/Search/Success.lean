import RoadRouting.Proofs.Search.Steps
import RoadRouting.Search.Bidirectional

namespace RoadRouting

theorem foldlM_succeeds {ε α β : Type} {step : β → α → Except ε β} {xs : List α}
    (hstep : ∀ b, ∀ a ∈ xs, ∃ b', step b a = .ok b') (b : β) : ∃ b', xs.foldlM step b = .ok b' := by
  induction xs generalizing b with
  | nil => exact ⟨b, rfl⟩
  | cons a xs ih =>
    obtain ⟨b₁, hb₁⟩ := hstep b a List.mem_cons_self
    obtain ⟨b', hb'⟩ := ih (fun b a ha ↦ hstep b a (List.mem_cons_of_mem _ ha)) b₁
    refine ⟨b', ?_⟩
    rw [List.foldlM_cons, hb₁]
    exact hb'

theorem mapM_succeeds {ε α β : Type} {f : α → Except ε β} {xs : List α}
    (h : ∀ x ∈ xs, ∃ y, f x = .ok y) : ∃ ys, xs.mapM f = .ok ys := by
  induction xs with
  | nil => exact ⟨[], rfl⟩
  | cons x xs ih =>
    obtain ⟨y, hy⟩ := h x List.mem_cons_self
    obtain ⟨ys, hys⟩ := ih fun x' hx' ↦ h x' (List.mem_cons_of_mem x hx')
    refine ⟨y :: ys, ?_⟩
    rw [List.mapM_cons, hy, hys]
    rfl

def SearchSettings.IsPriced {K : Type} (s : SearchSettings K) : Prop :=
  ∀ {u d e} before, e ∈ s.network.edges u d → ∃ w, s.weighting.weight e d before = .ok w

namespace Exploration

variable {K Q M σ : Type} [Scalar K] [PriorityQueue Q K] [BestMap M]
variable {x : Exploration K} {id : LabelId} {l : Label K} {f next : Frontier K Q M}

/-- Every edge has a price, and a label at its end unless the price is infinite. -/
def NeverFails (x : Exploration K) : Prop :=
  ∀ {l e}, e ∈ x.edges l.node → ∃ w, x.price l e = .ok w ∧
    (Scalar.isInfinite w = false → ∀ id cost, ∃ made, x.extend id l e cost = .ok made)

theorem neverFails_exploration {s : SearchSettings K} (hs : s.IsPriced) (d : Direction)
    (estimate : NodeId → K) : (s.exploration d estimate).NeverFails := by
  intro l e he
  obtain ⟨w, hw⟩ := hs l.incomingEdge he
  exact ⟨w, hw, fun _ id cost ↦ ⟨_, rfl⟩⟩

theorem NeverFails.tryEdge_isOk (hx : x.NeverFails) {e : EdgeView K} (he : e ∈ x.edges l.node)
    (id : LabelId) (f : Frontier K Q M) : ∃ r, x.tryEdge id l f e = .ok r := by
  by_cases ha : x.allows l.incomingEdge e = true
  · obtain ⟨w, hw, hextend⟩ := hx he
    rw [tryEdge_eq id f ha hw]
    split
    · exact ⟨_, rfl⟩
    · next hfinite =>
      split
      · obtain ⟨made, hmade⟩ := hextend (Bool.not_eq_true _ ▸ hfinite) id (l.cost + w)
        rw [hmade]
        exact ⟨_, rfl⟩
      · exact ⟨_, rfl⟩
  · rw [tryEdge, if_neg ha]
    exact ⟨_, rfl⟩

theorem NeverFails.expand_isOk (hx : x.NeverFails) (id : LabelId) (l : Label K)
    (f : Frontier K Q M) : ∃ f', x.expand id l f (x.edges l.node) = .ok f' := by
  apply foldlM_succeeds
  intro f e he
  obtain ⟨r, hr⟩ := hx.tryEdge_isOk he id f
  rw [hr]
  exact ⟨r.1, rfl⟩

theorem NeverFails.run_isOk (hx : x.NeverFails) (w : Watch K σ) (left visited : Nat)
    (f : Frontier K Q M) (watched : σ) :
    ∃ ending, (x.run w left visited f watched).ending = .ok ending := by
  induction left generalizing visited f watched with
  | zero =>
    rw [run]
    split
    · exact ⟨.exhausted, rfl⟩
    · exact ⟨.limited, rfl⟩
  | succ left ih =>
    rw [run]
    split
    · exact ⟨.exhausted, rfl⟩
    · next id next _ =>
      dsimp only
      split
      · exact ⟨.done, rfl⟩
      · obtain ⟨f', hf'⟩ := hx.expand_isOk id (next.label id) next
        rw [hf']
        exact ih (visited + 1) f' _

section Keeps

variable {J : Frontier K Q M → σ → Prop} {w : Watch K σ} {watched : σ}
variable (hstep : ∀ {id f next seen}, J f seen → f.pop? = some (id, next) → J next seen ∧
  J next (w.note seen id (next.label id)) ∧
    ∀ {f'}, x.expand id (next.label id) next (x.edges (next.label id).node) = .ok f' →
      J f' (w.note seen id (next.label id)))
include hstep

theorem run_keeps (left visited : Nat) (hf : J f watched) :
    J (x.run w left visited f watched).frontier (x.run w left visited f watched).watched := by
  induction left generalizing visited f watched with
  | zero =>
    rw [run]
    split
    · exact hf
    · next hp => exact (hstep hf hp).1
  | succ left ih =>
    rw [run]
    split
    · exact hf
    · next id next hp =>
      obtain ⟨_, hnoted, hexpand⟩ := hstep hf hp
      dsimp only
      split
      · exact hnoted
      · split
        · next f' hf' => exact ih (visited + 1) (hexpand hf')
        · exact hnoted

theorem explore_keeps (limit : Nat) {root : Label K} {key : Option StateKey}
    (hroot : J (Frontier.empty.addRoot root key) watched) :
    J (x.explore w limit root key watched : Explored K Q M σ).frontier
      (x.explore w limit root key watched : Explored K Q M σ).watched := by
  rw [explore]
  split
  · exact hroot
  · exact run_keeps hstep limit 0 hroot

end Keeps

theorem NeverFails.explore_isOk (hx : x.NeverFails) (w : Watch K σ) (limit : Nat) (root : Label K)
    (key : Option StateKey) (watched : σ) : ∃ ending,
      (x.explore w limit root key watched : Explored K Q M σ).ending = .ok ending := by
  rw [explore]
  split
  · exact ⟨.done, rfl⟩
  · exact hx.run_isOk w limit 0 _ watched

theorem explore_preserves {I : Frontier K Q M → Prop}
    (hstep : ∀ {id f next}, I f → f.pop? = some (id, next) → I next ∧
      ∀ {f'}, x.expand id (next.label id) next (x.edges (next.label id).node) = .ok f' → I f')
    (w : Watch K σ) (limit : Nat) {root : Label K} {key : Option StateKey}
    (hroot : I (Frontier.empty.addRoot root key)) (watched : σ) :
    I (x.explore w limit root key watched).frontier :=
  explore_keeps (J := fun f _ ↦ I f)
    (fun h hp ↦ ⟨(hstep h hp).1, (hstep h hp).1, fun hf' ↦ (hstep h hp).2 hf'⟩) limit hroot

end Exploration

namespace Bidirectional.Method

variable {K Q M σ : Type} [Scalar K] [PriorityQueue Q K] [BestMap M]
variable {p : Method K σ} (hp : p.settings.IsPriced) (q : Query) (d : Direction)
include hp

theorem neverFails_exploration (pin : Option EdgeId) : (p.exploration q d pin).NeverFails := by
  intro l e he
  exact Exploration.neverFails_exploration hp d (p.estimate.balanced q.source q.target d) he

omit [PriorityQueue Q K] in
theorem join_isOk {u : NodeId} {e : EdgeView K} (he : e ∈ p.settings.network.edges u d)
    (own other : Frontier K Q M) (id : LabelId) (mt : Meeting K) :
    ∃ mt', p.join d e own other id mt = .ok mt' := by
  obtain ⟨w, hw⟩ := hp none he
  rw [join]
  split
  · exact ⟨mt, rfl⟩
  · dsimp only
    split
    · rw [hw]
      exact ⟨_, rfl⟩
    · exact ⟨_, rfl⟩

theorem expand_isOk (pin : Option EdgeId) (id : LabelId) (l : Label K) (own other : Frontier K Q M)
    (mt : Meeting K) : ∃ r, p.expand (p.exploration q d pin) d id l other own mt = .ok r := by
  apply foldlM_succeeds
  intro b e he
  have hx : (p.exploration q d pin).NeverFails := neverFails_exploration hp q d pin
  obtain ⟨⟨f, stored⟩, hf⟩ := hx.tryEdge_isOk he id b.1
  rw [tryEdge, hf]
  cases stored with
  | none => exact ⟨_, rfl⟩
  | some nextId =>
    obtain ⟨mt', hmt⟩ := join_isOk hp d he f other nextId b.2
    refine ⟨(f, mt'), ?_⟩
    simp only [bind, Except.bind, hmt]
    rfl

theorem advance_isOk (pin : Option EdgeId) (st : State K Q M σ) :
    (p.advance q d pin st).2 = .ok () := by
  rw [advance]
  split
  · rfl
  · next id f _ =>
    dsimp only
    split
    · rfl
    · split
      · rfl
      · split
        · rfl
        · next error herror =>
          obtain ⟨r, hr⟩ := expand_isOk hp q d pin id (f.label id) f _ _
          cases hr.symm.trans herror

omit hp [Scalar K] [PriorityQueue Q K] [BestMap M] in
theorem andThen_isOk {first : State K Q M σ × Except (QueryError K) Unit}
    {second : State K Q M σ → State K Q M σ × Except (QueryError K) Unit} (hfirst : first.2 = .ok ())
    (hsecond : ∀ st, (second st).2 = .ok ()) : (andThen first second).2 = .ok () := by
  obtain ⟨st, result⟩ := first
  cases hfirst
  exact hsecond st

theorem advanceUnfinished_isOk (st : State K Q M σ) :
    (p.advanceUnfinished q d st).2 = .ok () := by
  rw [advanceUnfinished]
  split
  · rfl
  · exact advance_isOk hp q d none st

theorem rounds_isOk (left : Nat) (st : State K Q M σ) : (p.rounds q left st).2 = .ok () := by
  induction left generalizing st with
  | zero => rfl
  | succ left ih =>
    rw [rounds]
    split
    · rfl
    · apply andThen_isOk _ ih
      exact andThen_isOk (advanceUnfinished_isOk hp q .forward st)
        (advanceUnfinished_isOk hp q .backward)

theorem search_isOk : (p.search q : State K Q M σ × _).2 = .ok () := by
  rw [search]
  split
  · rfl
  · apply andThen_isOk _ (rounds_isOk hp q _)
    exact andThen_isOk (advance_isOk hp q .forward q.firstEdge _)
      (advance_isOk hp q .backward q.lastEdge)

end Bidirectional.Method

end RoadRouting
