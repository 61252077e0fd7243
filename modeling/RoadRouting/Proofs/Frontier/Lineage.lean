import RoadRouting.Search.Frontier
import Mathlib.Data.List.Perm.Subperm
import Mathlib.Data.List.Nodup

namespace RoadRouting.Frontier

variable {K Q M : Type} {f g : Frontier K Q M}

/-- The numbers of a label and its ancestors up to a root. -/
inductive Lineage (f : Frontier K Q M) : LabelId → List LabelId → Prop
  | root {id : LabelId} {l : Label K} : f.label? id = some l → l.parent = none → Lineage f id [id]
  | step {id parent : LabelId} {l : Label K} {ids : List LabelId} :
      f.label? id = some l → l.parent = some parent → Lineage f parent ids →
      Lineage f id (id :: ids)

theorem Lineage.unique {id : LabelId} {ids ids' : List LabelId} (h : f.Lineage id ids)
    (h' : f.Lineage id ids') : ids = ids' := by
  induction h generalizing ids' with
  | root hl hp =>
    cases h' with
    | root => rfl
    | step hl' hp' => simp_all
  | step hl hp _ ih =>
    cases h' with
    | root hl' hp' => simp_all
    | step hl' hp' h' =>
      rw [hl] at hl'
      cases hl'
      rw [hp] at hp'
      cases hp'
      rw [ih h']

theorem Lineage.suffix_of_mem {id j : LabelId} {ids : List LabelId} (h : f.Lineage id ids)
    (hj : j ∈ ids) : ∃ ids', f.Lineage j ids' ∧ ids' <:+ ids := by
  induction h with
  | root hl hp =>
    cases List.mem_singleton.1 hj
    exact ⟨_, .root hl hp, List.suffix_refl _⟩
  | step hl hp h ih =>
    rcases List.mem_cons.1 hj with rfl | hj
    · exact ⟨_, .step hl hp h, List.suffix_refl _⟩
    · obtain ⟨ids', h', hs⟩ := ih hj
      exact ⟨ids', h', hs.trans (List.suffix_cons _ _)⟩

theorem Lineage.not_mem {id parent : LabelId} {l : Label K} {ids : List LabelId}
    (hl : f.label? id = some l) (hp : l.parent = some parent) (h : f.Lineage parent ids) :
    id ∉ ids := by
  intro hid
  obtain ⟨ids', h', hs⟩ := h.suffix_of_mem hid
  have he := h'.unique (.step hl hp h)
  have hlen := hs.length_le
  rw [he, List.length_cons] at hlen
  exact Nat.not_succ_le_self _ hlen

theorem Lineage.nodup {id : LabelId} {ids : List LabelId} (h : f.Lineage id ids) : ids.Nodup := by
  induction h with
  | root => exact List.nodup_singleton _
  | step hl hp h ih => exact List.nodup_cons.2 ⟨Lineage.not_mem hl hp h, ih⟩

theorem Lineage.exists_label? {id j : LabelId} {ids : List LabelId} (h : f.Lineage id ids)
    (hj : j ∈ ids) : ∃ l, f.label? j = some l := by
  obtain ⟨_, h', _⟩ := h.suffix_of_mem hj
  cases h' with
  | root hl _ => exact ⟨_, hl⟩
  | step hl _ _ => exact ⟨_, hl⟩

theorem Lineage.length_le {id : LabelId} {ids : List LabelId} (h : f.Lineage id ids) :
    ids.length ≤ f.size := by
  have hs : ids ⊆ List.range f.size := fun j hj ↦ by
    obtain ⟨l, hl⟩ := h.exists_label? hj
    exact List.mem_range.2 (Array.getElem?_eq_some_iff.1 hl).1
  simpa using (h.nodup.subperm hs).length_le

theorem Lineage.lineage?_eq {id : LabelId} {ids : List LabelId} (h : f.Lineage id ids) {n : Nat}
    (hn : ids.length ≤ n) : f.lineage? n id = some ids := by
  induction h generalizing n with
  | root hl hp =>
    cases n with
    | zero => exact absurd hn (Nat.not_succ_le_zero _)
    | succ n => simp [lineage?, hl, hp]
  | step hl hp _ ih =>
    cases n with
    | zero => exact absurd hn (Nat.not_succ_le_zero _)
    | succ n => simp [lineage?, hl, hp, ih (Nat.le_of_succ_le_succ hn)]

theorem Lineage.unwind?_eq {id : LabelId} {ids : List LabelId} (h : f.Lineage id ids) :
    f.unwind? id = some ids :=
  h.lineage?_eq h.length_le

theorem lineage_of_lineage? {n : Nat} {id : LabelId} {ids : List LabelId}
    (h : f.lineage? n id = some ids) : f.Lineage id ids := by
  induction n generalizing id ids with
  | zero => cases h
  | succ n ih =>
    rw [lineage?] at h
    split at h
    · cases h
    · next l hl =>
      split at h
      · next hp =>
        cases h
        exact .root hl hp
      · next parent hp =>
        obtain ⟨ids', hids, rfl⟩ := Option.map_eq_some_iff.1 h
        exact .step hl hp (ih hids)

theorem isSome_unwind?_iff {id : LabelId} :
    (f.unwind? id).isSome = true ↔ ∃ ids, f.Lineage id ids := by
  rw [Option.isSome_iff_exists]
  exact ⟨fun ⟨ids, h⟩ ↦ ⟨ids, lineage_of_lineage? h⟩, fun ⟨ids, h⟩ ↦ ⟨ids, h.unwind?_eq⟩⟩

theorem Lineage.congr {id : LabelId} {ids : List LabelId} (h : f.Lineage id ids)
    (hg : ∀ j ∈ ids, g.label? j = f.label? j) : g.Lineage id ids := by
  induction h with
  | root hl hp => exact .root ((hg _ List.mem_cons_self).trans hl) hp
  | step hl hp _ ih =>
    exact .step ((hg _ List.mem_cons_self).trans hl) hp
      (ih fun j hj ↦ hg j (List.mem_cons_of_mem _ hj))

/-- A label itself, its parent, the parent of that one, and so on. -/
def IsAncestor (f : Frontier K Q M) (a d : LabelId) : Prop := ∃ ids, f.Lineage d ids ∧ a ∈ ids

theorem IsAncestor.of_parent {a id parent : LabelId} {l : Label K} (hl : f.label? id = some l)
    (hp : l.parent = some parent) (h : f.IsAncestor a parent) : f.IsAncestor a id := by
  obtain ⟨ids, hs, ha⟩ := h
  exact ⟨id :: ids, .step hl hp hs, List.mem_cons_of_mem id ha⟩

theorem IsAncestor.eq_or {a id : LabelId} (h : f.IsAncestor a id) :
    a = id ∨ ∃ l p, f.label? id = some l ∧ l.parent = some p ∧ f.IsAncestor a p := by
  obtain ⟨ids, hs, ha⟩ := h
  cases hs with
  | root => exact .inl (List.mem_singleton.1 ha)
  | step hl hp hs =>
    rcases List.mem_cons.1 ha with rfl | ha
    · exact .inl rfl
    · exact .inr ⟨_, _, hl, hp, _, hs, ha⟩

theorem IsAncestor.congr {a id : LabelId} (h : f.IsAncestor a id) (hg : g.label? = f.label?) :
    g.IsAncestor a id := by
  obtain ⟨ids, hs, ha⟩ := h
  exact ⟨ids, hs.congr fun j _ ↦ congrFun hg j, ha⟩

variable [Scalar K]

theorem exists_of_mem_edgesTo {id : LabelId} {e : EdgeView K} (h : e ∈ f.edgesTo id) :
    ∃ j l, f.label? j = some l ∧ l.edge = some e := by
  rw [edgesTo, List.mem_filterMap] at h
  obtain ⟨j, _, hj⟩ := h
  rw [label] at hj
  cases hl : f.label? j with
  | none =>
    rw [hl] at hj
    cases hj
  | some l =>
    rw [hl] at hj
    exact ⟨j, l, hl, hj⟩

theorem edgesTo_eq_nil_or (f : Frontier K Q M) (id : LabelId) :
    f.edgesTo id = [] ∨ ∃ ids, f.Lineage id ids := by
  rw [← isSome_unwind?_iff, edgesTo]
  cases f.unwind? id with
  | none => exact .inl rfl
  | some ids => exact .inr rfl

theorem edgesTo_root {id : LabelId} {l : Label K} (hl : f.label? id = some l)
    (hp : l.parent = none) : f.edgesTo id = l.edge.toList := by
  rw [edgesTo, (Lineage.root hl hp).unwind?_eq]
  cases he : l.edge <;> simp [label, hl, he]

theorem edgesTo_step {id parent : LabelId} {l : Label K} {ids : List LabelId}
    (hl : f.label? id = some l) (hp : l.parent = some parent) (h : f.Lineage parent ids) :
    f.edgesTo id = l.edge.toList ++ f.edgesTo parent := by
  rw [edgesTo, edgesTo, (Lineage.step hl hp h).unwind?_eq, h.unwind?_eq]
  cases he : l.edge <;> simp [label, hl, he]

theorem Lineage.edgesTo_congr {id : LabelId} {ids : List LabelId} (h : f.Lineage id ids)
    (hg : ∀ j ∈ ids, g.label? j = f.label? j) : g.edgesTo id = f.edgesTo id := by
  rw [edgesTo, edgesTo, (h.congr hg).unwind?_eq, h.unwind?_eq]
  apply List.filterMap_congr
  intro j hj
  rw [label, label, hg j hj]

end RoadRouting.Frontier
