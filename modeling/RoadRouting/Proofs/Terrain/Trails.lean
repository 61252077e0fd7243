import RoadRouting.Proofs.Terrain.Explored

namespace RoadRouting

open Scalar (Exact)

namespace Terrain

variable {Q M : Type} [PriorityQueue Q Exact] [LawfulQueue Q] [BestMap M]
variable {T : Terrain} {f : Frontier Exact Q M} {pending : LabelId → EdgeView Exact → Prop}

/-- The label of the state at a place, which costs no more than `g`. -/
structure Reached (T : Terrain) (f : Frontier Exact Q M) (p : Option (EdgeView Exact)) (g : Rat)
    (id : LabelId) (l : Label Exact) : Prop where
  label : f.label? id = some l
  state : p = none ∧ id = 0 ∨ ∃ e, p = some e ∧ f.best? (T.key e) = some id
  total_le : l.total ≤ g

namespace Explored

theorem best?_of_reached (h : T.Explored f pending) {p : Option (EdgeView Exact)} {g : Rat}
    {id : LabelId} {l : Label Exact} {k : StateKey} (hr : T.Reached f p g id l)
    (hk : T.keyOf p = some k) : f.best? k = some id := by
  rcases hr.state with ⟨rfl, rfl⟩ | ⟨e, rfl, hb⟩
  · exact h.own h.root hk
  · cases hk
    exact hb

theorem node_of_reached (hT : T.IsLawful) (h : T.Explored f pending)
    {p : Option (EdgeView Exact)} {g : Rat} {id : LabelId} {l : Label Exact} (hp : T.IsPlace p)
    (hr : T.Reached f p g id l) : T.node p = T.node l.edge := by
  rcases hr.state with ⟨rfl, rfl⟩ | ⟨e, rfl, hb⟩
  · cases hr.label.symm.trans h.root
    rfl
  · obtain ⟨l', hl', hn, _⟩ := h.find_congr hT hp rfl hb
    cases hr.label.symm.trans hl'
    exact hn

theorem arc_of_reached (hT : T.IsLawful) (h : T.Explored f pending)
    {p : Option (EdgeView Exact)} {g c : Rat} {id : LabelId} {l : Label Exact}
    {e : EdgeView Exact} (hp : T.IsPlace p) (hr : T.Reached f p g id l) (ha : T.arc p e c) :
    T.arc l.edge e c := by
  rcases hr.state with ⟨rfl, rfl⟩ | ⟨e', rfl, hb⟩
  · cases hr.label.symm.trans h.root
    exact ha
  · obtain ⟨l', hl', _, harc⟩ := h.find_congr hT hp rfl hb
    cases hr.label.symm.trans hl'
    exact harc e c ha

theorem reached_of_arc (hT : T.IsLawful) (h : T.Explored f fun _ _ ↦ False)
    {p : Option (EdgeView Exact)} {g c : Rat} {id : LabelId} {l : Label Exact}
    {e : EdgeView Exact} (hp : T.IsPlace p) (hr : T.Reached f p g id l)
    (hq : f.priority? id = none) (ha : T.arc p e c) :
    ∃ id' l', T.Reached f (some e) (g + c) id' l' := by
  obtain ⟨id', l', hb, hl', hle⟩ := h.closed hr.label hq (h.arc_of_reached hT hp hr ha) nofun
  exact ⟨id', l', hl', .inr ⟨e, rfl, hb⟩, hle.trans (add_le_add_left hr.total_le c)⟩

/-- Along a trail labels are found at its cost up to one that is queued, or up to its end. -/
theorem reached_of_trail (hT : T.IsLawful) (h : T.Explored f fun _ _ ↦ False)
    {es : List (EdgeView Exact)} {g : Rat} (ht : T.Trail es g) :
    ∃ es' g' id l, es' <:+ es ∧ T.Trail es' g' ∧ T.Reached f es'.head? g' id l ∧
      (es' = es ∨ f.priority? id ≠ none) := by
  induction ht with
  | nil =>
    have hr : T.Reached f none 0 0 T.rootLabel := ⟨h.root, .inl ⟨rfl, rfl⟩, le_rfl⟩
    exact ⟨[], 0, 0, T.rootLabel, List.suffix_refl _, .nil, hr, .inl rfl⟩
  | @cons es g c e ht ha ih =>
    obtain ⟨es', g', id, l, hs, ht', hr, hend⟩ := ih
    by_cases hq : f.priority? id = none
    · obtain rfl := hend.resolve_right fun hne ↦ hne hq
      obtain ⟨id', l', hr'⟩ := h.reached_of_arc hT ht'.isPlace hr hq ha
      rw [ht'.functional hT ht] at hr'
      exact ⟨e :: es', g + c, id', l', List.suffix_refl _, ht.cons ha, hr', .inl rfl⟩
    · exact ⟨es', g', id, l, hs.trans (List.suffix_cons _ _), ht', hr, .inr hq⟩

theorem trail_edgesTo (h : T.Explored f pending) {id : LabelId} {l : Label Exact}
    (hl : f.label? id = some l) :
    ∃ g, T.Trail (f.edgesTo id) g ∧ g ≤ l.total ∧ (f.edgesTo id).head? = l.edge := by
  obtain ⟨ids, hs⟩ := h.lineage hl
  induction hs generalizing l with
  | root hl' hp =>
    rcases h.label_cases hl' with ⟨rfl, rfl⟩ | ⟨_, e, g, parent, lp, c, rfl, _⟩
    · cases hl.symm.trans hl'
      rw [Frontier.edgesTo_root hl hp]
      exact ⟨0, .nil, le_rfl, rfl⟩
    · cases hp
  | step hl' hp hs ih =>
    cases hl.symm.trans hl'
    rcases h.label_cases hl with ⟨rfl, rfl⟩ | ⟨_, e, g, parent, lp, c, rfl, hlp, ha, hle⟩
    · cases hp
    · cases hp
      obtain ⟨g', ht, hle', hhead⟩ := ih hlp
      rw [Frontier.edgesTo_step hl rfl hs]
      refine ⟨g' + c, ht.cons (hhead ▸ ha), ?_, rfl⟩
      rw [total_step]
      linarith

theorem keyOf_ne_of_suffix_edgesTo (h : T.Explored f pending) {id : LabelId} {l : Label Exact}
    (hl : f.label? id = some l) {e : EdgeView Exact} {es : List (EdgeView Exact)}
    (hsuf : e :: es <:+ f.edgesTo id) : T.keyOf es.head? ≠ some (T.key e) := by
  obtain ⟨ids, hs⟩ := h.lineage hl
  induction hs generalizing l with
  | root hl' hp =>
    rcases h.label_cases hl' with ⟨rfl, rfl⟩ | ⟨_, e, g, parent, lp, c, rfl, _⟩
    · rw [Frontier.edgesTo_root hl' hp] at hsuf
      cases List.suffix_nil.1 hsuf
    · cases hp
  | @step id parent l' ids hl' hp hs ih =>
    cases hl.symm.trans hl'
    rcases h.label_cases hl with ⟨rfl, rfl⟩ | ⟨_, e', g, p, lp, c, rfl, hlp, ha, hle⟩
    · cases hp
    · cases hp
      rw [Frontier.edgesTo_step hl rfl hs, edge_step, Option.toList_some, List.singleton_append,
        List.suffix_cons_iff] at hsuf
      rcases hsuf with heq | hsuf
      · cases heq
        obtain ⟨g', _, _, hhead⟩ := h.trail_edgesTo hlp
        intro hk
        rw [hhead] at hk
        have hb := (h.own hlp hk).symm.trans (h.own hl rfl)
        cases hb
        exact Frontier.Lineage.not_mem hl rfl hs (by cases hs <;> exact List.mem_cons_self)
      · exact ih hlp hsuf

end Explored

end Terrain

end RoadRouting
