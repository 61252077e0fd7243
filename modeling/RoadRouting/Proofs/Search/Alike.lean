import RoadRouting.Proofs.Search.Steps

namespace RoadRouting

/-- Both have failed with the same error, or have given results that are related. -/
inductive EndAlike {ε α β : Type} (R : α → β → Prop) : Except ε α → Except ε β → Prop
  | ok {a : α} {b : β} : R a b → EndAlike R (.ok a) (.ok b)
  | error (e : ε) : EndAlike R (.error e) (.error e)

namespace EndAlike

variable {ε α β α' β' : Type} {R : α → β → Prop} {S : α' → β' → Prop}

theorem refl {R : α → α → Prop} (hR : ∀ a, R a a) (x : Except ε α) : EndAlike R x x := by
  cases x with
  | error e => exact .error e
  | ok a => exact .ok (hR a)

theorem cases {x : Except ε α} {y : Except ε β} (h : EndAlike R x y) :
    (∃ e, x = .error e ∧ y = .error e) ∨ ∃ a b, x = .ok a ∧ y = .ok b ∧ R a b := by
  cases h with
  | error e => exact .inl ⟨e, rfl, rfl⟩
  | ok h => exact .inr ⟨_, _, rfl, rfl, h⟩

theorem bind {x : Except ε α} {y : Except ε β} {f : α → Except ε α'} {g : β → Except ε β'}
    (h : EndAlike R x y) (hf : ∀ {a b}, R a b → EndAlike S (f a) (g b)) :
    EndAlike S (x >>= f) (y >>= g) := by
  cases h with
  | error e => exact .error e
  | ok h => exact hf h

theorem map {x : Except ε α} {y : Except ε β} {f : α → α'} {g : β → β'}
    (h : EndAlike R x y) (hf : ∀ {a b}, R a b → S (f a) (g b)) :
    EndAlike S (x.map f) (y.map g) := by
  cases h with
  | error e => exact .error e
  | ok h => exact .ok (hf h)

theorem foldlM {γ : Type} {f : α → γ → Except ε α} {g : β → γ → Except ε β} {xs : List γ}
    (hstep : ∀ {a b c}, c ∈ xs → R a b → EndAlike R (f a c) (g b c)) {a : α} {b : β}
    (h : R a b) : EndAlike R (xs.foldlM f a) (xs.foldlM g b) := by
  induction xs generalizing a b with
  | nil => exact .ok h
  | cons c xs ih =>
    rw [List.foldlM_cons, List.foldlM_cons]
    apply (hstep List.mem_cons_self h).bind
    intro a' b' h'
    exact ih (fun hc ↦ hstep (List.mem_cons_of_mem c hc)) h'

end EndAlike

variable {K Q M M' σ : Type}

/-- A view of labels that shows all that a search without time looks at. -/
structure Label.IsView [Scalar K] (ρ : Label K → Label K) : Prop where
  edge_eq : ∀ l, (ρ l).edge = l.edge
  node_eq : ∀ l, (ρ l).node = l.node
  priority_eq : ∀ l, (ρ l).priority = l.priority
  cost_eq : ∀ l, (ρ l).cost = l.cost
  parent_eq : ∀ l, (ρ l).parent = l.parent
  root_eq : ρ (.root 0 0) = .root 0 0

theorem Label.isView_id [Scalar K] : Label.IsView (id : Label K → Label K) :=
  ⟨fun _ ↦ rfl, fun _ ↦ rfl, fun _ ↦ rfl, fun _ ↦ rfl, fun _ ↦ rfl, rfl⟩

theorem Label.isView_withTime [Scalar K] : Label.IsView fun l : Label K ↦ l.withTime 0 :=
  ⟨fun _ ↦ rfl, fun _ ↦ rfl, fun _ ↦ rfl, fun _ ↦ rfl, fun _ ↦ rfl, rfl⟩

theorem Label.IsView.incomingEdge_eq [Scalar K] {ρ : Label K → Label K} (hρ : Label.IsView ρ)
    (l : Label K) :
    (ρ l).incomingEdge = l.incomingEdge := by
  rw [incomingEdge, hρ.edge_eq, incomingEdge]

namespace Frontier

variable [PriorityQueue Q K] [BestMap M] [BestMap M']

/-- The second frontier holds what the view shows of the first one. -/
structure Resembles (ρ : Label K → Label K) (f : Frontier K Q M) (f' : Frontier K Q M') : Prop where
  labels_eq : f'.labels = f.labels.map ρ
  queue_eq : f'.queue = f.queue
  best_eq : ∀ key, f'.best? key = f.best? key

namespace Resembles

variable {ρ : Label K → Label K} {f : Frontier K Q M} {f' : Frontier K Q M'}

theorem empty : (Frontier.empty : Frontier K Q M).Resembles ρ (Frontier.empty : Frontier K Q M') where
  labels_eq := Array.map_empty.symm
  queue_eq := rfl
  best_eq key := by rw [best?_empty, best?_empty]

section Labels

omit [PriorityQueue Q K]

variable (h : f.Resembles ρ f')
include h

theorem label?_eq (id : LabelId) : f'.label? id = (f.label? id).map ρ := by
  rw [label?, h.labels_eq, Array.getElem?_map, label?]

theorem size_labels_eq : f'.labels.size = f.labels.size := by
  rw [h.labels_eq, Array.size_map]

variable [Scalar K] (hρ : Label.IsView ρ)
include hρ

theorem label_eq (id : LabelId) : f'.label id = ρ (f.label id) := by
  rw [label, h.label?_eq, label]
  cases f.label? id with
  | none => exact hρ.root_eq.symm
  | some l => rfl

theorem improves_eq (key : StateKey) (cost : K) :
    f'.improves key cost = f.improves key cost := by
  rw [improves, bestLabel?, h.best_eq, improves, bestLabel?]
  cases f.best? key with
  | none => rfl
  | some id =>
    rw [Option.bind_some, Option.bind_some, h.label?_eq]
    cases f.label? id with
    | none => rfl
    | some l =>
      simp only [Option.map_some]
      rw [hρ.cost_eq]

theorem lineage?_eq (steps : Nat) (id : LabelId) :
    f'.lineage? steps id = f.lineage? steps id := by
  induction steps generalizing id with
  | zero => rfl
  | succ steps ih =>
    rw [lineage?, h.label?_eq, lineage?]
    cases f.label? id with
    | none => rfl
    | some l =>
      simp only [Option.map_some]
      rw [hρ.parent_eq]
      cases l.parent with
      | none => rfl
      | some parent => simp only [ih]

theorem edgesTo_eq (id : LabelId) : f'.edgesTo id = f.edgesTo id := by
  have hedge : ∀ i, (f'.label i).edge = (f.label i).edge := by
    intro i
    rw [h.label_eq hρ, hρ.edge_eq]
  have hlineage : f'.unwind? id = f.unwind? id := by
    rw [unwind?, unwind?, size, size, h.size_labels_eq, h.lineage?_eq hρ]
  rw [edgesTo, edgesTo, hlineage]
  simp only [hedge]

theorem pathTo_eq (id : LabelId) : f'.pathTo id = f.pathTo id := by
  rw [pathTo, h.edgesTo_eq hρ, pathTo]

theorem pathFrom_eq (id : LabelId) : f'.pathFrom id = f.pathFrom id := by
  rw [pathFrom, h.edgesTo_eq hρ, pathFrom]

end Labels

variable (h : f.Resembles ρ f')
include h

theorem pop?_alike : f.pop? = none ∧ f'.pop? = none ∨ ∃ id g g',
    f.pop? = some (id, g) ∧ f'.pop? = some (id, g') ∧ g.Resembles ρ g' := by
  have hqueue : PriorityQueue.pop? f'.queue = PriorityQueue.pop? f.queue := by rw [h.queue_eq]
  cases hp : PriorityQueue.pop? f.queue with
  | none =>
    rw [hp] at hqueue
    refine .inl ⟨?_, ?_⟩
    · rw [pop?, hp, Option.map_none]
    · rw [pop?, hqueue, Option.map_none]
  | some popped =>
    rw [hp] at hqueue
    refine .inr ⟨popped.1, { f with queue := popped.2 }, { f' with queue := popped.2 }, ?_, ?_, ?_⟩
    · rw [pop?, hp, Option.map_some]
    · rw [pop?, hqueue, Option.map_some]
    · exact ⟨h.labels_eq, rfl, h.best_eq⟩

variable [Scalar K] (hρ : Label.IsView ρ)
include hρ

theorem add (l : Label K) : (f.add l).Resembles ρ (f'.add (ρ l)) where
  labels_eq := by rw [Frontier.add, Frontier.add, h.labels_eq, Array.map_push]
  queue_eq := by
    rw [Frontier.add, Frontier.add, h.queue_eq, h.size_labels_eq, hρ.priority_eq]
  best_eq := h.best_eq

theorem insert (key : StateKey) (l : Label K) :
    (f.insert key l).Resembles ρ (f'.insert key (ρ l)) where
  labels_eq := (h.add hρ l).labels_eq
  queue_eq := (h.add hρ l).queue_eq
  best_eq other := by
    rw [best?_insert, best?_insert, size, size, h.size_labels_eq, h.best_eq]

theorem replace (id : LabelId) (l : Label K) :
    (f.replace id l).Resembles ρ (f'.replace id (ρ l)) where
  labels_eq := by
    rw [Frontier.replace, Frontier.replace, h.labels_eq, Array.map_setIfInBounds]
  queue_eq := by rw [Frontier.replace, Frontier.replace, h.queue_eq, hρ.priority_eq]
  best_eq := h.best_eq

theorem store (key : StateKey) (l : Label K) :
    (f.store key l).1.Resembles ρ (f'.store key (ρ l)).1 ∧
      (f'.store key (ρ l)).2 = (f.store key l).2 := by
  rw [Frontier.store, Frontier.store, h.best_eq]
  cases f.best? key with
  | none => exact ⟨h.insert hρ key l, h.size_labels_eq⟩
  | some id => exact ⟨h.replace hρ id l, rfl⟩

theorem addRoot (l : Label K) (key : Option StateKey) :
    (f.addRoot l key).Resembles ρ (f'.addRoot (ρ l) key) := by
  cases key with
  | none => exact h.add hρ l
  | some key => exact h.insert hρ key l

end Resembles

end Frontier

variable [Scalar K]

structure Explored.Resembles [BestMap M] [BestMap M'] (ρ : Label K → Label K)
    (r : Explored K Q M σ) (r' : Explored K Q M' σ) : Prop where
  frontier : r.frontier.Resembles ρ r'.frontier
  visited_eq : r'.visited = r.visited
  watched_eq : r'.watched = r.watched
  ending_eq : r'.ending = r.ending

namespace Exploration

/-- The second exploration makes of what the view shows of a label what the first one makes of the
label, as far as edges are listed at its node. -/
structure Resembles (ρ : Label K → Label K) (x x' : Exploration K) : Prop where
  edges_eq : x'.edges = x.edges
  allows_eq : x'.allows = x.allows
  key_eq : x'.key = x.key
  price_eq : ∀ {l e}, e ∈ x.edges l.node → x'.price (ρ l) e = x.price l e
  extend_alike : ∀ {l e}, e ∈ x.edges l.node → ∀ id cost,
    EndAlike (fun next next' ↦ next' = ρ next) (x.extend id l e cost) (x'.extend id (ρ l) e cost)

omit [Scalar K] in
theorem Resembles.refl (x : Exploration K) : x.Resembles id x where
  edges_eq := rfl
  allows_eq := rfl
  key_eq := rfl
  price_eq _ := rfl
  extend_alike {l e} _ i cost := by
    change EndAlike _ (x.extend i l e cost) (x.extend i l e cost)
    cases x.extend i l e cost with
    | error error => exact .error error
    | ok next => exact .ok rfl

namespace Resembles

variable [PriorityQueue Q K] [BestMap M] [BestMap M']
variable {ρ : Label K → Label K} {x x' : Exploration K} {f : Frontier K Q M} {f' : Frontier K Q M'}

theorem tryEdge_alike (h : x.Resembles ρ x') (hρ : Label.IsView ρ) (hf : f.Resembles ρ f')
    {l : Label K} {e : EdgeView K} (he : e ∈ x.edges l.node) (id : LabelId) :
    EndAlike (fun r r' ↦ r.1.Resembles ρ r'.1 ∧ r'.2 = r.2)
      (x.tryEdge id l f e) (x'.tryEdge id (ρ l) f' e) := by
  have hsame : (x'.allows (ρ l).incomingEdge e) = x.allows l.incomingEdge e := by
    rw [h.allows_eq, hρ.incomingEdge_eq]
  by_cases ha : x.allows l.incomingEdge e = true
  · cases hw : x.price l e with
    | error error =>
      have hw' := (h.price_eq he).trans hw
      rw [tryEdge, if_pos ha, hw, tryEdge, if_pos (hsame.trans ha), hw']
      exact .error error
    | ok w =>
      have hw' := (h.price_eq he).trans hw
      rw [tryEdge_eq id f ha hw, tryEdge_eq id f' (hsame.trans ha) hw', hρ.cost_eq, h.key_eq,
        hf.improves_eq hρ]
      split
      · exact .ok ⟨hf, rfl⟩
      · split
        · apply (h.extend_alike he id (l.cost + w)).map
          intro next next' hnext
          obtain ⟨hstore, hid⟩ := hf.store hρ (x.key e) next
          rw [hnext]
          exact ⟨hstore, congrArg some hid⟩
        · exact .ok ⟨hf, rfl⟩
  · rw [tryEdge, if_neg ha, tryEdge, if_neg (hsame.trans_ne ha)]
    exact .ok ⟨hf, rfl⟩

theorem expand_alike (h : x.Resembles ρ x') (hρ : Label.IsView ρ) (hf : f.Resembles ρ f')
    (id : LabelId) (l : Label K) :
    EndAlike (Frontier.Resembles ρ) (x.expand id l f (x.edges l.node))
      (x'.expand id (ρ l) f' (x.edges l.node)) := by
  apply EndAlike.foldlM ?_ hf
  intro g g' e he hg
  apply (h.tryEdge_alike hρ hg he id).map
  intro r r' hr
  exact hr.1

theorem run_alike (h : x.Resembles ρ x') (hρ : Label.IsView ρ) {w : Watch K σ}
    (hw : ∀ seen id l, w.note seen id (ρ l) = w.note seen id l) (left visited : Nat)
    (hf : f.Resembles ρ f') (watched : σ) :
    (x.run w left visited f watched).Resembles ρ (x'.run w left visited f' watched) := by
  induction left generalizing visited f f' watched with
  | zero =>
    rw [run, run]
    obtain ⟨hp, hp'⟩ | ⟨id, g, g', hp, hp', hg⟩ := hf.pop?_alike
    · rw [hp, hp']
      exact ⟨hf, rfl, rfl, rfl⟩
    · rw [hp, hp']
      exact ⟨hg, rfl, rfl, rfl⟩
  | succ left ih =>
    rw [run, run]
    obtain ⟨hp, hp'⟩ | ⟨id, g, g', hp, hp', hg⟩ := hf.pop?_alike
    · rw [hp, hp']
      exact ⟨hf, rfl, rfl, rfl⟩
    · rw [hp, hp']
      dsimp only
      rw [hg.label_eq hρ, hw, hρ.node_eq, h.edges_eq]
      split
      · exact ⟨hg, rfl, rfl, rfl⟩
      · obtain ⟨_, hr, hr'⟩ | ⟨_, _, hr, hr', hnext⟩ :=
          (h.expand_alike hρ hg id (g.label id)).cases
        · rw [hr, hr']
          exact ⟨hg, rfl, rfl, rfl⟩
        · rw [hr, hr']
          exact ih (visited + 1) hnext _

theorem explore_alike (h : x.Resembles ρ x') (hρ : Label.IsView ρ) {w : Watch K σ}
    (hw : ∀ seen id l, w.note seen id (ρ l) = w.note seen id l) (limit : Nat) (root : Label K)
    (key : Option StateKey) (watched : σ) :
    (x.explore w limit root key watched : Explored K Q M σ).Resembles ρ
      (x'.explore w limit (ρ root) key watched : Explored K Q M' σ) := by
  have hroot := (Frontier.Resembles.empty : (Frontier.empty : Frontier K Q M).Resembles ρ
    (Frontier.empty : Frontier K Q M')).addRoot hρ root key
  rw [explore, explore]
  split
  · exact ⟨hroot, rfl, rfl, rfl⟩
  · exact h.run_alike hρ hw limit 0 hroot watched

end Resembles

end Exploration

theorem Watch.note_reach {ρ : Label K → Label K} (hρ : Label.IsView ρ) (target : NodeId)
    (seen : Option LabelId) (id : LabelId) (l : Label K) :
    (Watch.reach target).note seen id (ρ l) = (Watch.reach target).note seen id l := by
  simp only [Watch.reach, hρ.node_eq]

end RoadRouting
