import RoadRouting.Proofs.Terrain.Ordered
import RoadRouting.Proofs.Terrain.Trails

namespace RoadRouting

open Scalar (Exact)

namespace Terrain

variable {Q M : Type} [PriorityQueue Q Exact] [LawfulQueue Q] [BestMap M]
variable {T : Terrain} {f next : Frontier Exact Q M} {id : LabelId} {l : Label Exact}
variable {pending : LabelId → EdgeView Exact → Prop}

/-- What is queued with a rank below that of a settled label costs no less than it. -/
def Guards (T : Terrain) (f : Frontier Exact Q M) (la : Label Exact) : Prop :=
  ∀ {x lx}, f.label? x = some lx → f.priority? x ≠ none → T.rank lx < T.rank la →
    la.total ≤ lx.total

/-- What is queued and was made from a settled label ranks no lower than it. -/
def Precedes (T : Terrain) (f : Frontier Exact Q M) (a : LabelId) (la : Label Exact) : Prop :=
  ∀ {d ld}, f.label? d = some ld → f.priority? d ≠ none → f.IsAncestor a d →
    T.rank la ≤ T.rank ld

def IsNested (T : Terrain) (f : Frontier Exact Q M) : Prop :=
  ∀ {a d la ld}, f.label? a = some la → f.label? d = some ld → f.priority? a ≠ none →
    f.priority? d ≠ none → f.IsAncestor a d → a ≠ d → T.rank la < T.rank ld

/-- The order of the queue between two labels that are taken out. -/
structure Nested (T : Terrain) (f : Frontier Exact Q M) : Prop where
  queued : T.IsNested f
  settled : ∀ {a la}, f.label? a = some la → f.priority? a = none →
    T.Guards f la ∨ T.Precedes f a la

/-- The order of the queue while the edges of a label are explored. -/
structure Unfolding (T : Terrain) (f : Frontier Exact Q M) (id : LabelId) (l : Label Exact) :
    Prop where
  queued : T.IsNested f
  free : ∀ {a}, f.IsAncestor a id → f.priority? a = none
  below : ∀ {x lx}, f.label? x = some lx → f.priority? x ≠ none → T.rank lx < T.rank l →
    lx.parent = some id
  settled : ∀ {a la}, f.label? a = some la → f.priority? a = none → T.rank l < T.rank la →
    la.total ≤ l.total ∧ T.Guards f la ∨ ¬f.IsAncestor a id ∧ T.Precedes f a la

theorem Nested.pop (hn : T.Nested f) (h : T.Explored f pending) (hp : f.pop? = some (id, next))
    (hl : next.label? id = some l) : T.Unfolding next id l := by
  have hlabel := Frontier.label?_of_pop? hp
  have hprio := Frontier.priority?_pop h.queue hp
  have hfl := (congrFun hlabel id).symm.trans hl
  have hid := Frontier.priority?_ne_none_of_pop h.queue hp
  have hqueued : ∀ {x}, next.priority? x ≠ none → f.priority? x ≠ none := by
    intro x hq
    rw [hprio] at hq
    split at hq
    · exact absurd rfl hq
    · exact hq
  have hanc : ∀ {a d}, next.IsAncestor a d → f.IsAncestor a d := fun h ↦ h.congr hlabel.symm
  have hsettled : ∀ {a la}, next.label? a = some la → next.priority? a = none →
      T.rank l < T.rank la → f.priority? a = none := by
    intro a la ha hq hlt
    rw [hprio] at hq
    split at hq
    · next hai =>
      subst hai
      cases ha.symm.trans hl
      exact absurd hlt (lt_irrefl _)
    · exact hq
  refine ⟨?_, ?_, ?_, ?_⟩
  · intro a d la ld ha hd hqa hqd had hne
    rw [hlabel] at ha hd
    exact hn.queued ha hd (hqueued hqa) (hqueued hqd) (hanc had) hne
  · intro a had
    by_contra hqa
    have hne : a ≠ id := by
      rintro rfl
      rw [hprio, if_pos rfl] at hqa
      exact hqa rfl
    obtain ⟨ids, hs, hmem⟩ := hanc had
    obtain ⟨la, hla⟩ := hs.exists_label? hmem
    have hlt := hn.queued hla hfl (hqueued hqa) hid ⟨ids, hs, hmem⟩ hne
    exact absurd (h.rank_le_of_pop hp hfl hla (hqueued hqa)) (not_le.2 hlt)
  · intro x lx hx hq hlt
    rw [hlabel] at hx
    exact absurd (h.rank_le_of_pop hp hfl hx (hqueued hq)) (not_le.2 hlt)
  · intro a la ha hq hlt
    have hqa := hsettled ha hq hlt
    rw [hlabel] at ha
    rcases hn.settled ha hqa with hguards | hprecedes
    · refine .inl ⟨hguards hfl hid hlt, ?_⟩
      intro x lx hx hqx hxa
      rw [hlabel] at hx
      exact hguards hx (hqueued hqx) hxa
    · refine .inr ⟨fun had ↦ ?_, ?_⟩
      · exact absurd (hprecedes hfl hid (hanc had)) (not_le.2 hlt)
      · intro d ld hd hqd had
        rw [hlabel] at hd
        exact hprecedes hd (hqueued hqd) (hanc had)

section Follow

variable {e : EdgeView Exact} {c : Rat}
variable (hT : T.IsLawful) (h : T.Explored f pending) (hi : T.Improves f id l e c)
include hT h hi

theorem rank_follow_lt {lz : Label Exact} (hz : f.label? (T.follow f id l e c).2 = some lz) :
    T.rank (T.step e (l.total + c) id) < T.rank lz := by
  have hb := Explored.best?_of_label?_follow hz
  obtain ⟨_, hlz, hk⟩ := h.best hb
  cases hlz.symm.trans hz
  have hnode := hT.node_congr (h.isPlace hz) (isPlace_of_arc hi.arc) hk rfl
  have hlt := Explored.lt_of_label?_follow hi hz
  rw [rank, rank, hnode, total_step, edge_step]
  linarith

theorem rank_follow_lt_of_isAncestor (hu : T.Unfolding f id l) {d : LabelId} {ld lz : Label Exact}
    (hz : f.label? (T.follow f id l e c).2 = some lz) (hd : f.label? d = some ld)
    (hq : f.priority? d ≠ none) (had : f.IsAncestor (T.follow f id l e c).2 d)
    (hne : (T.follow f id l e c).2 ≠ d) : T.rank (T.step e (l.total + c) id) < T.rank ld := by
  have hlt := rank_follow_lt hT h hi hz
  have htotal := Explored.lt_of_label?_follow hi hz
  have hc := hT.nonneg hi.arc
  by_cases hqz : f.priority? (T.follow f id l e c).2 = none
  · by_contra hle
    have hdz : T.rank ld < T.rank lz := (not_lt.1 hle).trans_lt hlt
    by_cases hdl : T.rank ld < T.rank l
    · -- then it was made from the label that is explored, which costs too little
      obtain ⟨_, p, hld, hp, hanc⟩ := had.eq_or.resolve_left hne
      cases hld.symm.trans hd
      cases (hu.below hd hq hdl).symm.trans hp
      obtain ⟨ids, hs, hmem⟩ := hanc
      have hle := h.total_le_of_mem hs hi.label hmem hz
      linarith
    · rcases hu.settled hz hqz ((not_lt.1 hdl).trans_lt hdz) with ⟨hle, _⟩ | ⟨_, hprecedes⟩
      · linarith
      · exact absurd (hprecedes hd hq had) (not_le.2 hdz)
  · exact hlt.trans (hu.queued hz hd hqz hq had hne)

omit hT hi in
theorem queued_follow_cases {j : LabelId} {lj : Label Exact}
    (hj : (T.follow f id l e c).1.label? j = some lj)
    (hq : (T.follow f id l e c).1.priority? j ≠ none) :
    j = (T.follow f id l e c).2 ∧ lj = T.step e (l.total + c) id ∨
      j ≠ (T.follow f id l e c).2 ∧ f.label? j = some lj ∧ f.priority? j ≠ none := by
  by_cases hjz : j = (T.follow f id l e c).2
  · subst hjz
    exact .inl ⟨rfl, Option.some.inj (hj.symm.trans h.label?_follow_self)⟩
  · rw [h.label?_follow_of_ne hjz] at hj
    rw [h.priority?_follow, if_neg hjz] at hq
    exact .inr ⟨hjz, hj, hq⟩

omit hT hi in
theorem settled_of_follow {j : LabelId} {lj : Label Exact}
    (hj : (T.follow f id l e c).1.label? j = some lj)
    (hq : (T.follow f id l e c).1.priority? j = none) :
    f.label? j = some lj ∧ f.priority? j = none := by
  rw [h.priority?_follow] at hq
  split at hq
  · cases hq
  · next hne => exact ⟨(h.label?_follow_of_ne hne).symm.trans hj, hq⟩

theorem not_isAncestor_follow : ¬f.IsAncestor (T.follow f id l e c).2 id := by
  rintro ⟨ids, hs, hmem⟩
  exact h.store_not_mem (h.isBranch_step hi hT) hs hmem

theorem Unfolding.isNested_follow (hu : T.Unfolding f id l) :
    T.IsNested (T.follow f id l e c).1 := by
  intro a d la ld ha hd hqa hqd had hne
  rcases h.isAncestor_store (h.isBranch_step hi hT) had hne with ⟨had, hdz⟩ | had
  · obtain ⟨_, hd, hqd⟩ := (queued_follow_cases h hd hqd).resolve_left fun hnew ↦ hdz hnew.1
    rcases queued_follow_cases h ha hqa with ⟨rfl, rfl⟩ | ⟨_, ha, hqa⟩
    · obtain ⟨ids, hs, hmem⟩ := had
      obtain ⟨lz, hlz⟩ := hs.exists_label? hmem
      exact rank_follow_lt_of_isAncestor hT h hi hu hlz hd hqd ⟨ids, hs, hmem⟩ hne
    · exact hu.queued ha hd hqa hqd had hne
  · rcases queued_follow_cases h ha hqa with ⟨rfl, _⟩ | ⟨_, _, hqa⟩
    · exact absurd had (not_isAncestor_follow hT h hi)
    · exact absurd (hu.free had) hqa

theorem Unfolding.follow (hu : T.Unfolding f id l) :
    T.Unfolding (T.follow f id l e c).1 id l := by
  have hb := h.isBranch_step hi hT
  refine ⟨hu.isNested_follow hT h hi, ?_, ?_, ?_⟩
  · intro a had
    have had := h.isAncestor_store_parent hb had
    have haz : a ≠ (T.follow f id l e c).2 := by
      rintro rfl
      exact not_isAncestor_follow hT h hi had
    rw [h.priority?_follow, if_neg haz]
    exact hu.free had
  · intro x lx hx hq hlt
    rcases queued_follow_cases h hx hq with ⟨_, rfl⟩ | ⟨_, hx, hq⟩
    · rfl
    · exact hu.below hx hq hlt
  · intro a la ha hq hlt
    obtain ⟨ha, hqa⟩ := settled_of_follow h ha hq
    rcases hu.settled ha hqa hlt with ⟨hle, hguards⟩ | ⟨hnot, hprecedes⟩
    · refine .inl ⟨hle, ?_⟩
      intro x lx hx hqx hxa
      rcases queued_follow_cases h hx hqx with ⟨_, rfl⟩ | ⟨_, hx, hqx⟩
      · have hc := hT.nonneg hi.arc
        rw [total_step]
        linarith
      · exact hguards hx hqx hxa
    · refine .inr ⟨fun had ↦ hnot (h.isAncestor_store_parent hb had), ?_⟩
      intro d ld hd hqd had
      have hne : a ≠ d := by
        rintro rfl
        exact hqd hq
      rcases h.isAncestor_store hb had hne with ⟨had, hdz⟩ | had
      · obtain ⟨_, hd, hqd⟩ := (queued_follow_cases h hd hqd).resolve_left fun hnew ↦ hdz hnew.1
        exact hprecedes hd hqd had
      · exact absurd had hnot

end Follow

theorem Unfolding.nested (hu : T.Unfolding f id l) (h : T.Explored f pending)
    (hl : f.label? id = some l) : T.Nested f := by
  have hbelow : ∀ {x lx}, f.label? x = some lx → f.priority? x ≠ none → T.rank lx < T.rank l →
      l.total ≤ lx.total := by
    intro x lx hx hq hlt
    have hp := hu.below hx hq hlt
    obtain ⟨_, hl', hle⟩ := h.parent_le hx hp
    cases hl'.symm.trans hl
    rwa [h.cost_eq hl, h.cost_eq hx, Exact.finite_le_finite] at hle
  refine ⟨hu.queued, fun {a la} ha hqa ↦ ?_⟩
  by_cases hlt : T.rank l < T.rank la
  · rcases hu.settled ha hqa hlt with ⟨_, hguards⟩ | ⟨_, hprecedes⟩
    · exact .inl hguards
    · exact .inr hprecedes
  · have hle := not_lt.1 hlt
    by_cases hanc : f.IsAncestor a id
    · left
      intro x lx hx hq hxa
      obtain ⟨ids, hs, hmem⟩ := hanc
      exact (h.total_le_of_mem hs hl hmem ha).trans (hbelow hx hq (hxa.trans_le hle))
    · right
      intro d ld hd hq had
      by_contra hda
      have hp := hu.below hd hq ((not_le.1 hda).trans_le hle)
      have hne : a ≠ d := by
        rintro rfl
        exact hq hqa
      obtain ⟨_, _, hld, hp', had⟩ := had.eq_or.resolve_left hne
      cases hld.symm.trans hd
      cases hp.symm.trans hp'
      exact hanc had

theorem nested_start (T : Terrain) :
    T.Nested (Frontier.empty.addRoot T.rootLabel T.rootKey : Frontier Exact Q M) := by
  have hzero : ∀ {id l}, (Frontier.empty.addRoot T.rootLabel T.rootKey :
      Frontier Exact Q M).label? id = some l → id = 0 := by
    intro id l hl
    rw [Frontier.label?_addRoot] at hl
    split at hl
    · assumption
    · cases hl
  refine ⟨?_, ?_⟩
  · intro a d la ld ha hd _ _ _ hne
    exact absurd ((hzero ha).trans (hzero hd).symm) hne
  · intro a la ha hq
    rw [Frontier.priority?_addRoot, if_pos (hzero ha)] at hq
    cases hq

theorem Explored.trail_of_settled (h : T.Explored f fun _ _ ↦ False) (hl : f.label? id = some l)
    (hq : ∀ {a}, f.IsAncestor a id → a ≠ id → f.priority? a = none) :
    T.Trail (f.edgesTo id) l.total ∧ (f.edgesTo id).head? = l.edge := by
  obtain ⟨ids, hs⟩ := h.lineage hl
  induction hs generalizing l with
  | root hl' hp =>
    rcases h.label_cases hl' with ⟨rfl, rfl⟩ | ⟨_, e, g, parent, lp, c, rfl, _⟩
    · cases hl.symm.trans hl'
      rw [Frontier.edgesTo_root hl hp]
      exact ⟨.nil, rfl⟩
    · cases hp
  | @step id parent l' ids hl' hp hs ih =>
    cases hl.symm.trans hl'
    rcases h.label_cases hl with ⟨rfl, rfl⟩ | ⟨_, e, g, p, lp, c, rfl, hlp, ha, hle⟩
    · cases hp
    · cases hp
      have hmem : f.IsAncestor parent parent := ⟨ids, hs, by cases hs <;> exact List.mem_cons_self⟩
      have hnot := Frontier.Lineage.not_mem hl rfl hs
      have hne : ∀ {a}, f.IsAncestor a parent → a ≠ id := by
        rintro a ⟨ids', hs', ha'⟩ rfl
        exact hnot (hs'.unique hs ▸ ha')
      obtain ⟨ht, hhead⟩ := ih hlp fun had _ ↦ hq (had.of_parent hl rfl) (hne had)
      -- the parent has offered what the edge costs, so the label is as cheap as that
      have hqp := hq (hmem.of_parent hl rfl) (hne hmem)
      obtain ⟨j, lj, hb, hlj, hle'⟩ := h.closed hlp hqp ha (by nofun)
      cases hb.symm.trans (h.own hl rfl)
      cases hlj.symm.trans hl
      rw [total_step] at hle' ⊢
      rw [Frontier.edgesTo_step hl rfl hs, le_antisymm hle' hle]
      exact ⟨ht.cons (hhead ▸ ha), rfl⟩

theorem Nested.trail_of_pop (hn : T.Nested f) (h : T.Explored f fun _ _ ↦ False)
    (hp : f.pop? = some (id, next)) (hl : f.label? id = some l) :
    T.Trail (f.edgesTo id) l.total ∧ (f.edgesTo id).head? = l.edge := by
  have hlabel := Frontier.label?_of_pop? hp
  have hu := hn.pop h hp ((congrFun hlabel id).trans hl)
  refine h.trail_of_settled hl fun {a} had hne ↦ ?_
  have hq := hu.free (had.congr hlabel)
  rwa [Frontier.priority?_pop h.queue hp, if_neg hne] at hq

end Terrain

end RoadRouting
