import RoadRouting.Proofs.Frontier.Tree
import RoadRouting.Search.Exploration

namespace RoadRouting

open Scalar (IsOrdered)

theorem exists_ok_of_bind {ε α β : Type} {x : Except ε α} {f : α → Except ε β} {b : β}
    (h : x >>= f = .ok b) : ∃ a, x = .ok a ∧ f a = .ok b := by
  cases x with
  | error _ => cases h
  | ok a => exact ⟨a, rfl, h⟩

theorem exists_ok_of_map {ε α β : Type} {x : Except ε α} {f : α → β} {b : β}
    (h : x.toOption.map f = some b) : ∃ a, x = .ok a ∧ f a = b := by
  cases x with
  | error _ => cases h
  | ok a => exact ⟨a, rfl, Option.some.inj h⟩

theorem exists_ok_of_map_eq_ok {ε α β : Type} {x : Except ε α} {f : α → β} {b : β}
    (h : x.map f = .ok b) : ∃ a, x = .ok a ∧ f a = b := by
  cases x with
  | error _ => cases h
  | ok a => exact ⟨a, rfl, Except.ok.inj h⟩

theorem eq_error_of_map {ε α β : Type} {x : Except ε α} {f : α → β} {error : ε}
    (h : x.map f = .error error) : x = .error error := by
  cases x with
  | error _ => exact congrArg _ (Except.error.inj h)
  | ok _ => cases h

theorem foldlM_preserves {ε α β : Type} {P : β → Prop} {step : β → α → Except ε β} {xs : List α}
    (hstep : ∀ {b b' a}, a ∈ xs → P b → step b a = .ok b' → P b') {b b' : β} (hb : P b)
    (h : xs.foldlM step b = .ok b') : P b' := by
  induction xs generalizing b with
  | nil =>
    cases h
    exact hb
  | cons a xs ih =>
    rw [List.foldlM_cons] at h
    obtain ⟨b₁, hb₁, h⟩ := exists_ok_of_bind h
    refine ih (fun ha ↦ hstep (List.mem_cons_of_mem _ ha)) ?_ h
    exact hstep List.mem_cons_self hb hb₁

namespace Exploration

variable {K Q M σ : Type} [Scalar K] [PriorityQueue Q K] [BestMap M]
variable {x : Exploration K} {id : LabelId} {l : Label K} {f f' next : Frontier K Q M}
variable {e : EdgeView K} {r : Option LabelId}

theorem tryEdge_eq (id : LabelId) (f : Frontier K Q M) {w : K}
    (ha : x.allows l.incomingEdge e = true) (hw : x.price l e = .ok w) :
    x.tryEdge id l f e =
      if Scalar.isInfinite w then .ok (f, none)
      else if f.improves (x.key e) (l.cost + w) then
        (x.extend id l e (l.cost + w)).map fun next ↦
          ((f.store (x.key e) next).1, some (f.store (x.key e) next).2)
      else .ok (f, none) := by
  rw [Exploration.tryEdge, if_pos ha, hw]
  simp only [bind, Except.bind]
  split
  · rfl
  · split
    · cases x.extend id l e (l.cost + w) <;> rfl
    · rfl

/-- What an exploration has stored when it has explored an edge from a label. -/
structure Stores (x : Exploration K) (id : LabelId) (l : Label K) (f : Frontier K Q M)
    (e : EdgeView K) (made : Label K) (w : K) : Prop where
  allowed : x.allows l.incomingEdge e = true
  price : x.price l e = .ok w
  finite : Scalar.isInfinite w = false
  better : f.improves (x.key e) (l.cost + w) = true
  extend : x.extend id l e (l.cost + w) = .ok made

theorem tryEdge_cases (h : x.tryEdge id l f e = .ok (f', r)) :
    f' = f ∧ r = none ∨ ∃ made w, x.Stores id l f e made w ∧
      f' = (f.store (x.key e) made).1 ∧ r = some (f.store (x.key e) made).2 := by
  by_cases ha : x.allows l.incomingEdge e = true
  · cases hw : x.price l e with
    | error _ =>
      rw [tryEdge, if_pos ha, hw] at h
      cases h
    | ok w =>
      rw [tryEdge_eq id f ha hw] at h
      split at h
      · cases h
        exact .inl ⟨rfl, rfl⟩
      · next hinf =>
        split at h
        · next hi =>
          cases hx : x.extend id l e (l.cost + w) with
          | error _ => rw [hx] at h; cases h
          | ok made =>
            rw [hx] at h
            cases h
            exact .inr ⟨made, w, ⟨ha, hw, Bool.not_eq_true _ ▸ hinf, hi, hx⟩, rfl, rfl⟩
        · cases h
          exact .inl ⟨rfl, rfl⟩
  · rw [tryEdge, if_neg ha] at h
    cases h
    exact .inl ⟨rfl, rfl⟩

theorem expand_preserves {P : Frontier K Q M → Prop} {es : List (EdgeView K)}
    (hstep : ∀ {f e made w}, e ∈ es → P f → x.Stores id l f e made w →
      P (f.store (x.key e) made).1) (hP : P f) (h : x.expand id l f es = .ok f') : P f' := by
  refine foldlM_preserves (fun {f f' e} he hf ht ↦ ?_) hP h
  cases hr : x.tryEdge id l f e with
  | error _ => rw [hr] at ht; cases ht
  | ok res =>
    rw [hr] at ht
    obtain ⟨f₁, r⟩ := res
    cases ht
    rcases tryEdge_cases hr with ⟨rfl, _⟩ | ⟨made, w, hs, rfl, _⟩
    · exact hf
    · exact hstep he hf hs

section Run

variable {w : Watch K σ} {left visited : Nat} {watched : σ}

theorem run_of_pop_eq_none (hp : f.pop? = none) :
    x.run w left visited f watched = ⟨f, visited, watched, .ok .exhausted⟩ := by
  cases left with
  | zero => rw [run, hp]
  | succ left => rw [run, hp]

theorem run_of_limit (hp : f.pop? = some (id, next)) :
    x.run w 0 visited f watched = ⟨next, visited + 1, watched, .ok .limited⟩ := by
  rw [run, hp]

theorem run_of_done (hp : f.pop? = some (id, next)) (hl : next.label? id = some l)
    (hd : w.isDone (w.note watched id l) = true) :
    x.run w (left + 1) visited f watched =
      ⟨next, visited + 1, w.note watched id l, .ok .done⟩ := by
  rw [run, hp]
  simp only [Frontier.label_eq hl, hd, if_true]

theorem run_of_error (hp : f.pop? = some (id, next)) (hl : next.label? id = some l)
    (hd : w.isDone (w.note watched id l) = false) {error : QueryError K}
    (hx : x.expand id l next (x.edges l.node) = .error error) :
    x.run w (left + 1) visited f watched =
      ⟨next, visited + 1, w.note watched id l, .error error⟩ := by
  rw [run, hp]
  simp only [Frontier.label_eq hl, hd, Bool.false_eq_true, if_false, hx]

theorem run_of_expand (hp : f.pop? = some (id, next)) (hl : next.label? id = some l)
    (hd : w.isDone (w.note watched id l) = false)
    (hx : x.expand id l next (x.edges l.node) = .ok f') :
    x.run w (left + 1) visited f watched =
      x.run w left (visited + 1) f' (w.note watched id l) := by
  rw [run, hp]
  simp only [Frontier.label_eq hl, hd, Bool.false_eq_true, if_false, hx]

end Run

theorem exists_of_run_reach {I : Frontier K Q M → Prop} {target : NodeId}
    (hlabel : ∀ {id f next}, I f → f.pop? = some (id, next) → ∃ l, next.label? id = some l)
    (hstep : ∀ {id f next f' l}, I f → f.pop? = some (id, next) → next.label? id = some l →
      x.expand id l next (x.edges l.node) = .ok f' → I f')
    {left visited : Nat} {goal : LabelId} (hf : I f)
    (hend : (x.run (Watch.reach target) left visited f none).ending = .ok .done)
    (hseen : (x.run (Watch.reach target) left visited f none).watched = some goal) :
    ∃ f' l, I f' ∧
      f'.pop? = some (goal, (x.run (Watch.reach target) left visited f none).frontier) ∧
      f'.label? goal = some l ∧ l.node = target := by
  induction left generalizing visited f with
  | zero =>
    cases hp : f.pop? with
    | none => rw [run_of_pop_eq_none hp] at hend; cases hend
    | some popped => rw [run_of_limit hp] at hend; cases hend
  | succ left ih =>
    cases hp : f.pop? with
    | none => rw [run_of_pop_eq_none hp] at hend; cases hend
    | some popped =>
      obtain ⟨id, next⟩ := popped
      obtain ⟨l, hl⟩ := hlabel hf hp
      by_cases hn : l.node = target
      · have hnote : (Watch.reach target).note none id l = some id := if_pos hn
        rw [run_of_done hp hl (by rw [hnote]; rfl), hnote] at hseen ⊢
        cases hseen
        exact ⟨f, l, hf, hp, Frontier.label?_of_pop? hp ▸ hl, hn⟩
      · have hnote : (Watch.reach target).note none id l = none := if_neg hn
        have hd : (Watch.reach (K := K) target).isDone ((Watch.reach target).note none id l) =
            false := by
          rw [hnote]
          rfl
        cases hx : x.expand id l next (x.edges l.node) with
        | error error => rw [run_of_error hp hl hd hx] at hend; cases hend
        | ok f' =>
          rw [run_of_expand hp hl hd hx, hnote] at hend hseen ⊢
          exact ih (hstep hf hp hl hx) hend hseen

def MakesSteps (x : Exploration K) : Prop :=
  ∀ {id l e cost made}, x.extend id l e cost = .ok made →
    made.edge = some e ∧ made.node = e.adj ∧ made.parent = some id ∧ made.cost = cost

end Exploration

namespace SearchSettings

variable {K : Type} [Scalar K] (s : SearchSettings K) (d : Direction)

omit [Scalar K] in
theorem checkNodes_eq_ok_iff {s : SearchSettings K} {nodes : List NodeId} :
    s.checkNodes nodes = .ok () ↔ ∀ u ∈ nodes, u < s.network.nodeCount := by
  rw [checkNodes]
  cases h : nodes.find? fun node ↦ s.network.nodeCount ≤ node with
  | none => simpa using h
  | some node =>
    have hle := List.find?_some h
    have hmem := List.mem_of_find?_eq_some h
    simp only [decide_eq_true_eq] at hle
    refine iff_of_false nofun fun hall ↦ ?_
    exact absurd (hall node hmem) (Nat.not_lt.2 hle)

def keyOf (root : NodeId) : Option (EdgeView K) → Option StateKey
  | none => s.mode.rootKey root
  | some e => some (s.mode.key e d)

/-- No timeless weight is below zero where a search in the direction can explore. -/
def HasCosts : Prop :=
  ∀ {u e before w}, e ∈ s.network.edges u d → s.weighting.weight e d before = .ok w → 0 ≤ w

theorem makesSteps_exploration (estimate : NodeId → K) :
    (s.exploration d estimate).MakesSteps := by
  intro id l e cost made h
  cases h
  exact ⟨rfl, rfl, rfl, rfl⟩

omit [Scalar K] in
theorem makesSteps_timedExploration : (s.timedExploration d).MakesSteps := by
  intro id l e cost made h
  obtain ⟨duration, _, h⟩ := exists_ok_of_bind h
  cases h
  exact ⟨rfl, rfl, rfl, rfl⟩

end SearchSettings

namespace Frontier.IsTree

variable {K Q M : Type} [Scalar K] [IsOrdered K] [PriorityQueue Q K] [LawfulQueue Q] [BestMap M]
variable {f : Frontier K Q M} {start : Label K} {keyOf : Option (EdgeView K) → Option StateKey}
variable {x : Exploration K} {id : LabelId} {l made : Label K} {e : EdgeView K} {w : K}

theorem isBranch (h : f.IsTree start keyOf) (hx : x.MakesSteps)
    (hkey : keyOf (some e) = some (x.key e)) (hl : f.label? id = some l) (hw : 0 ≤ w)
    (hs : x.Stores id l f e made w) : f.IsBranch keyOf (x.key e) made id l := by
  obtain ⟨hedge, _, hparent, hcost⟩ := hx hs.extend
  refine ⟨hedge ▸ hkey, hparent, hl, ?_, fun {j lj} hb hlj ↦ ?_⟩
  · rw [hcost]
    exact IsOrdered.le_add (h.nonneg hl) hw
  · rw [hcost]
    exact improves_iff.1 hs.better j lj hb hlj

end Frontier.IsTree

end RoadRouting
