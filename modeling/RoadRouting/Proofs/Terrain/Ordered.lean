import RoadRouting.Proofs.Terrain.Explored

namespace RoadRouting

open Scalar (Exact)

namespace Terrain

variable {Q M : Type} [PriorityQueue Q Exact] [LawfulQueue Q] [BestMap M]

def rank (T : Terrain) (l : Label Exact) : Rat := l.total + T.estimate (T.node l.edge)

/-- What is queued ranks above `k`, and what has been settled below. -/
structure Ordered (T : Terrain) (f : Frontier Exact Q M) (k : Rat) : Prop where
  queued : ∀ {id l}, f.label? id = some l → f.priority? id ≠ none → k ≤ T.rank l
  settled : ∀ {id l}, f.label? id = some l → f.priority? id = none → T.rank l ≤ k

variable {T : Terrain} {f next : Frontier Exact Q M} {id : LabelId} {l : Label Exact} {k : Rat}
variable {pending : LabelId → EdgeView Exact → Prop}

theorem Explored.size_le {n : Nat} (h : T.Explored f pending)
    (hkey : ∀ {p e c}, T.arc p e c → T.key e < n) : f.size ≤ n + 1 := by
  apply h.toIsTree.size_le_of_lt
  intro id l hl hid
  obtain ⟨e, g, parent, lp, c, rfl, _, ha, _⟩ := h.form hl hid
  exact ⟨T.key e, hkey ha, rfl⟩

theorem Explored.rank_le_of_pop (h : T.Explored f pending) (hp : f.pop? = some (id, next))
    (hl : f.label? id = some l) {x : LabelId} {lx : Label Exact} (hx : f.label? x = some lx)
    (hq : f.priority? x ≠ none) : T.rank l ≤ T.rank lx := by
  obtain ⟨k, hk, hleast⟩ := Frontier.least_of_pop h.queue hp
  obtain ⟨kx, hkx⟩ := Option.ne_none_iff_exists'.1 hq
  obtain ⟨_, hlx, rfl⟩ := h.queued hkx
  cases hlx.symm.trans hx
  obtain ⟨_, hl', rfl⟩ := h.queued hk
  cases hl'.symm.trans hl
  have hle := hleast x _ hkx
  rwa [h.priority_eq hl, h.priority_eq hx, Exact.precedes_finite] at hle

protected theorem Ordered.start (T : Terrain) :
    T.Ordered (Frontier.empty.addRoot T.rootLabel T.rootKey : Frontier Exact Q M)
      (T.estimate T.root) := by
  refine ⟨fun {id l} hl _ ↦ ?_, fun {id l} hl hq ↦ ?_⟩
  · rw [Frontier.label?_addRoot] at hl
    split at hl
    · cases hl
      exact (zero_add _).ge
    · cases hl
  · rw [Frontier.label?_addRoot] at hl
    rw [Frontier.priority?_addRoot] at hq
    split at hl
    · next hid => rw [if_pos hid] at hq; cases hq
    · cases hl

theorem Ordered.pop (ho : T.Ordered f k) (h : T.Explored f pending)
    (hp : f.pop? = some (id, next)) (hl : next.label? id = some l) :
    T.Ordered next (T.rank l) := by
  have hlabel := Frontier.label?_of_pop? hp
  have hfl := (congrFun hlabel id).symm.trans hl
  have hk := ho.queued hfl (Frontier.priority?_ne_none_of_pop h.queue hp)
  refine ⟨fun {j lj} hj hq ↦ ?_, fun {j lj} hj hq ↦ ?_⟩
  · rw [hlabel] at hj
    rw [Frontier.priority?_pop h.queue hp] at hq
    split at hq
    · exact absurd rfl hq
    · exact h.rank_le_of_pop hp hfl hj hq
  · rw [hlabel] at hj
    rw [Frontier.priority?_pop h.queue hp] at hq
    split at hq
    · next hji =>
      subst hji
      cases hj.symm.trans hfl
      exact le_rfl
    · exact (ho.settled hj hq).trans hk

omit [PriorityQueue Q Exact] [LawfulQueue Q] [BestMap M] in
theorem rank_le_of_arc (hc : T.IsConsistent) {e : EdgeView Exact} {c : Rat}
    (ha : T.arc l.edge e c) : T.rank l ≤ l.total + c + T.estimate e.adj := by
  have hstep := hc ha
  unfold rank
  linarith

section Follow

variable {e : EdgeView Exact} {c : Rat}
variable (ho : T.Ordered f (T.rank l)) (hT : T.IsLawful) (hc : T.IsConsistent)
variable (h : T.Explored f pending) (hi : T.Improves f id l e c)
include hc hi

include h in
protected theorem Ordered.follow (ho : T.Ordered f (T.rank l)) :
    T.Ordered (T.follow f id l e c).1 (T.rank l) := by
  refine ⟨fun {j lj} hj hq ↦ ?_, fun {j lj} hj hq ↦ ?_⟩
  · by_cases hji : j = (T.follow f id l e c).2
    · subst hji
      rw [h.label?_follow_self] at hj
      cases hj
      exact rank_le_of_arc hc hi.arc
    · rw [h.label?_follow_of_ne hji] at hj
      rw [h.priority?_follow, if_neg hji] at hq
      exact ho.queued hj hq
  · rw [h.priority?_follow] at hq
    split at hq
    · cases hq
    · next hji =>
      rw [h.label?_follow_of_ne hji] at hj
      exact ho.settled hj hq

include hT ho h in
theorem priority?_ne_none_of_follow {lj : Label Exact}
    (hj : f.label? (T.follow f id l e c).2 = some lj) :
    f.priority? (T.follow f id l e c).2 ≠ none := by
  intro hq
  have hb := Explored.best?_of_label?_follow hj
  obtain ⟨lj', hlj', hk⟩ := h.best hb
  cases hlj'.symm.trans hj
  have hnode : T.node lj.edge = e.adj :=
    hT.node_congr (h.isPlace hj) (isPlace_of_arc hi.arc) hk rfl
  -- what is settled ranks no higher than `l`, so no way through `l` can improve it
  have hsettled := ho.settled hj hq
  have hlt := Explored.lt_of_label?_follow hi hj
  have hle := rank_le_of_arc hc hi.arc
  rw [rank, hnode] at hsettled
  linarith

include hT ho h in
theorem card_settledIds_follow :
    f.settledIds.card ≤ (T.follow f id l e c).1.settledIds.card := by
  refine Finset.card_le_card fun j hj ↦ ?_
  obtain ⟨hlt, hq⟩ := Frontier.mem_settledIds.1 hj
  refine Frontier.mem_settledIds.2 ⟨hlt.trans_le (Frontier.size_le_size_store _ _ _), ?_⟩
  rw [h.priority?_follow, if_neg, hq]
  rintro rfl
  obtain ⟨lj, hlj⟩ := Frontier.exists_label?_of_lt hlt
  exact priority?_ne_none_of_follow ho hT hc h hi hlj hq

end Follow

end Terrain

end RoadRouting
