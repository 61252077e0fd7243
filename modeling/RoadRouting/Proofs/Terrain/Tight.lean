import RoadRouting.Proofs.Terrain.Ordered

namespace RoadRouting

open Scalar (Exact)

namespace Terrain

variable {Q M : Type} [PriorityQueue Q Exact] [LawfulQueue Q] [BestMap M]

/-- Every label but the root costs what the way through its parent does, and the parent is settled. -/
def IsTight (T : Terrain) (f : Frontier Exact Q M) : Prop :=
  ∀ {id l}, f.label? id = some l → id ≠ 0 → ∃ e parent lp c, l = T.step e (lp.total + c) parent ∧
    f.label? parent = some lp ∧ f.priority? parent = none ∧ T.arc lp.edge e c

/-- What holds of a frontier while edges are explored in order, whichever of them are left out. -/
structure Settles (T : Terrain) (f : Frontier Exact Q M) (k : Rat) : Prop where
  explored : T.Explored f fun _ _ ↦ True
  ordered : T.Ordered f k
  tight : T.IsTight f

variable {T : Terrain} {f next : Frontier Exact Q M} {id : LabelId} {l : Label Exact} {k : Rat}

protected theorem Settles.start (T : Terrain) :
    T.Settles (Frontier.empty.addRoot T.rootLabel T.rootKey : Frontier Exact Q M)
      (T.estimate T.root) where
  explored := (Explored.start T).resolve fun h _ _ ↦ h.elim
  ordered := .start T
  tight {id l} hl hid := by
    rw [Frontier.label?_addRoot, if_neg hid] at hl
    cases hl

namespace Settles

theorem trail_edgesTo (h : T.Settles f k) (hl : f.label? id = some l) :
    T.Trail (f.edgesTo id) l.total ∧ (f.edgesTo id).head? = l.edge := by
  obtain ⟨ids, hs⟩ := h.explored.lineage hl
  induction hs generalizing l with
  | @root id l' hl' hp =>
    cases hl.symm.trans hl'
    by_cases hid : id = 0
    · subst hid
      cases hl.symm.trans h.explored.root
      rw [Frontier.edgesTo_root hl hp]
      exact ⟨.nil, rfl⟩
    · obtain ⟨_, _, _, _, rfl, _⟩ := h.tight hl hid
      cases hp
  | @step id parent l' ids hl' hp hs ih =>
    cases hl.symm.trans hl'
    have hid : id ≠ 0 := by
      rintro rfl
      cases hl.symm.trans h.explored.root
      cases hp
    obtain ⟨e, _, lp, c, rfl, hlp, _, ha⟩ := h.tight hl hid
    cases hp
    obtain ⟨ht, hhead⟩ := ih hlp
    rw [Frontier.edgesTo_step hl rfl hs]
    exact ⟨ht.cons (hhead ▸ ha), rfl⟩

theorem pop (h : T.Settles f k) (hp : f.pop? = some (id, next)) :
    ∃ l, next.label? id = some l ∧ next.priority? id = none ∧ T.Settles next (T.rank l) := by
  obtain ⟨_, hk, _⟩ := Frontier.least_of_pop h.explored.queue hp
  obtain ⟨l, hl, rfl⟩ := h.explored.queued hk
  have hlabel := Frontier.label?_of_pop? hp
  have hprio := Frontier.priority?_pop h.explored.queue hp
  have hnext := (congrFun hlabel id).trans hl
  refine ⟨l, hnext, (hprio id).trans (if_pos rfl), (h.explored.pop hp).resolve fun _ _ _ ↦ .inl trivial,
    h.ordered.pop h.explored hp hnext, fun {j lj} hj hj0 ↦ ?_⟩
  rw [hlabel] at hj
  obtain ⟨e, parent, lp, c, rfl, hlp, hq, ha⟩ := h.tight hj hj0
  refine ⟨e, parent, lp, c, rfl, hlabel ▸ hlp, ?_, ha⟩
  rw [hprio, hq, ite_self]

section Follow

variable {e : EdgeView Exact} {c : Rat}
variable (hT : T.IsLawful) (hc : T.IsConsistent) (h : T.Settles f (T.rank l))
variable (hi : T.Improves f id l e c)
include hT hc h hi

theorem ne_follow {j : LabelId} {lj : Label Exact} (hj : f.label? j = some lj)
    (hq : f.priority? j = none) : j ≠ (T.follow f id l e c).2 := by
  rintro rfl
  exact priority?_ne_none_of_follow h.ordered hT hc h.explored hi hj hq

theorem label?_follow {j : LabelId} {lj : Label Exact} (hj : f.label? j = some lj)
    (hq : f.priority? j = none) : (T.follow f id l e c).1.label? j = some lj :=
  (h.explored.label?_follow_of_ne (h.ne_follow hT hc hi hj hq)).trans hj

theorem priority?_follow {j : LabelId} {lj : Label Exact} (hj : f.label? j = some lj)
    (hq : f.priority? j = none) : (T.follow f id l e c).1.priority? j = none := by
  rw [h.explored.priority?_follow, if_neg (h.ne_follow hT hc hi hj hq), hq]

protected theorem follow (hq : f.priority? id = none) :
    T.Settles (T.follow f id l e c).1 (T.rank l) where
  explored := h.explored.follow hi hT
  ordered := .follow hc h.explored hi h.ordered
  tight {j lj} hj hj0 := by
    by_cases hji : j = (T.follow f id l e c).2
    · subst hji
      cases hj.symm.trans h.explored.label?_follow_self
      exact ⟨e, id, l, c, rfl, h.label?_follow hT hc hi hi.label hq,
        h.priority?_follow hT hc hi hi.label hq, hi.arc⟩
    · rw [h.explored.label?_follow_of_ne hji] at hj
      obtain ⟨e', parent, lp, c', rfl, hlp, hp, ha⟩ := h.tight hj hj0
      exact ⟨e', parent, lp, c', rfl, h.label?_follow hT hc hi hlp hp,
        h.priority?_follow hT hc hi hlp hp, ha⟩

end Follow

end Settles

end Terrain

end RoadRouting
