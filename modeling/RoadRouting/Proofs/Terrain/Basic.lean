import RoadRouting.Proofs.Exact
import RoadRouting.Search.Frontier

namespace RoadRouting

open Scalar (Exact)

namespace Label

def total (l : Label Exact) : Rat := l.cost.value

end Label

/-- Edges are explored from the root (`none`) or after another edge. -/
structure Terrain where
  root : NodeId
  rootKey : Option StateKey
  key : EdgeView Exact → StateKey
  arc : Option (EdgeView Exact) → EdgeView Exact → Rat → Prop
  estimate : NodeId → Rat

namespace Terrain

variable (T : Terrain)

def node : Option (EdgeView Exact) → NodeId
  | none => T.root
  | some e => e.adj

def keyOf : Option (EdgeView Exact) → Option StateKey
  | none => T.rootKey
  | some e => some (T.key e)

/-- The root, or where an explored edge has led to. -/
def IsPlace (p : Option (EdgeView Exact)) : Prop := ∀ e, p = some e → ∃ p' c, T.arc p' e c

/-- Costs are not negative, and states with the same key lead on alike. -/
structure IsLawful : Prop where
  nonneg : ∀ {p e c}, T.arc p e c → 0 ≤ c
  functional : ∀ {p e c c'}, T.arc p e c → T.arc p e c' → c = c'
  node_congr : ∀ {p p' k}, T.IsPlace p → T.IsPlace p' → T.keyOf p = some k → T.keyOf p' = some k →
    T.node p = T.node p'
  arc_congr : ∀ {p p' k e c}, T.IsPlace p → T.IsPlace p' → T.keyOf p = some k →
    T.keyOf p' = some k → T.arc p e c → T.arc p' e c

def IsConsistent : Prop := ∀ {p e c}, T.arc p e c → T.estimate (T.node p) ≤ c + T.estimate e.adj

/-- The edges of a way from the root, the last one first, and its cost. -/
inductive Trail : List (EdgeView Exact) → Rat → Prop
  | nil : Trail [] 0
  | cons {es : List (EdgeView Exact)} {g c : Rat} {e : EdgeView Exact} :
      Trail es g → T.arc es.head? e c → Trail (e :: es) (g + c)

variable {T}

@[simp] theorem node_none : T.node none = T.root := rfl

@[simp] theorem node_some (e : EdgeView Exact) : T.node (some e) = e.adj := rfl

@[simp] theorem keyOf_none : T.keyOf none = T.rootKey := rfl

@[simp] theorem keyOf_some (e : EdgeView Exact) : T.keyOf (some e) = some (T.key e) := rfl

theorem isPlace_none : T.IsPlace none := fun e he ↦ absurd he (Option.not_mem_none e)

theorem isPlace_of_arc {p : Option (EdgeView Exact)} {e : EdgeView Exact} {c : Rat}
    (h : T.arc p e c) : T.IsPlace (some e) := by
  rintro _ ⟨⟩
  exact ⟨p, c, h⟩

theorem trail_nil_iff {g : Rat} : T.Trail [] g ↔ g = 0 := by
  constructor
  · rintro ⟨⟩
    rfl
  · rintro rfl
    exact .nil

theorem trail_cons_iff {e : EdgeView Exact} {es : List (EdgeView Exact)} {g : Rat} :
    T.Trail (e :: es) g ↔ ∃ g' c, T.Trail es g' ∧ T.arc es.head? e c ∧ g = g' + c := by
  constructor
  · rintro ⟨⟩
    exact ⟨_, _, ‹_›, ‹_›, rfl⟩
  · rintro ⟨g', c, h, ha, rfl⟩
    exact h.cons ha

theorem Trail.isPlace {es : List (EdgeView Exact)} {g : Rat} (h : T.Trail es g) :
    T.IsPlace es.head? := by
  cases h with
  | nil => exact isPlace_none
  | cons _ ha => exact isPlace_of_arc ha

theorem Trail.exists_arc {e : EdgeView Exact} {es : List (EdgeView Exact)} {g : Rat}
    (h : T.Trail es g) (he : e ∈ es) : ∃ p c, T.arc p e c := by
  induction h with
  | nil => cases he
  | cons _ ha ih =>
    rcases List.mem_cons.1 he with rfl | he
    · exact ⟨_, _, ha⟩
    · exact ih he

theorem Trail.suffix {es es' : List (EdgeView Exact)} {g : Rat} (h : T.Trail es g)
    (hs : es' <:+ es) : ∃ g', T.Trail es' g' := by
  induction h with
  | nil => exact ⟨0, List.suffix_nil.1 hs ▸ .nil⟩
  | cons h ha ih =>
    rcases List.suffix_cons_iff.1 hs with rfl | hs
    · exact ⟨_, h.cons ha⟩
    · exact ih hs

theorem Trail.nonneg (hT : T.IsLawful) {es : List (EdgeView Exact)} {g : Rat}
    (h : T.Trail es g) : 0 ≤ g := by
  induction h with
  | nil => exact le_rfl
  | cons _ ha ih => exact add_nonneg ih (hT.nonneg ha)

theorem Trail.functional (hT : T.IsLawful) {es : List (EdgeView Exact)} {g g' : Rat}
    (h : T.Trail es g) (h' : T.Trail es g') : g = g' := by
  induction h generalizing g' with
  | nil =>
    cases h'
    rfl
  | cons _ ha ih =>
    cases h' with
    | cons h' ha' => rw [ih h', hT.functional ha ha']

theorem Trail.priority_le (hc : T.IsConsistent) {es es' : List (EdgeView Exact)} {g g' : Rat}
    (h : T.Trail es g) (hs : es' <:+ es) (hT : T.IsLawful) (h' : T.Trail es' g') :
    g' + T.estimate (T.node es'.head?) ≤ g + T.estimate (T.node es.head?) := by
  induction h with
  | nil =>
    cases List.suffix_nil.1 hs
    rw [h'.functional hT .nil]
  | @cons es g c e h ha ih =>
    rcases List.suffix_cons_iff.1 hs with rfl | hs
    · rw [h'.functional hT (h.cons ha)]
    · have hle := ih hs
      have hstep := hc ha
      rw [List.head?_cons, node_some]
      linarith

def rootLabel (T : Terrain) : Label Exact := .root T.root (.finite (T.estimate T.root))

def step (T : Terrain) (e : EdgeView Exact) (total : Rat) (parent : LabelId) : Label Exact :=
  .step e (.finite (total + T.estimate e.adj)) (.finite total) parent

@[simp] theorem total_rootLabel : T.rootLabel.total = 0 := rfl

@[simp] theorem total_step (e : EdgeView Exact) (g : Rat) (parent : LabelId) :
    (T.step e g parent).total = g := rfl

@[simp] theorem edge_step (e : EdgeView Exact) (g : Rat) (parent : LabelId) :
    (T.step e g parent).edge = some e := rfl

@[simp] theorem parent_step (e : EdgeView Exact) (g : Rat) (parent : LabelId) :
    (T.step e g parent).parent = some parent := rfl

end Terrain

end RoadRouting
