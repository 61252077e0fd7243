import RoadRouting.Proofs.Search.Courses
import RoadRouting.Proofs.Search.ReportedWeight

namespace RoadRouting

open Scalar (Exact IsOrdered)
open Bidirectional (Method Query)

namespace Frontier

variable {K Q M : Type}

def IsChildOf (f : Frontier K Q M) (id parent : LabelId) : Prop :=
  ∃ l, f.label? id = some l ∧ l.parent = some parent

variable {f : Frontier K Q M} {id : LabelId} {ids : List LabelId}

theorem Lineage.head?_eq (h : f.Lineage id ids) : ids.head? = some id := by
  cases h with
  | root => rfl
  | step => rfl

theorem Lineage.isChain (h : f.Lineage id ids) : ids.IsChain f.IsChildOf := by
  induction h with
  | root => exact .singleton _
  | step hl hp h ih =>
    refine ih.cons fun parent hparent ↦ ?_
    cases h.head?_eq.symm.trans hparent
    exact ⟨_, hl, hp⟩

theorem Lineage.exists_getLast? (h : f.Lineage id ids) :
    ∃ j l, ids.getLast? = some j ∧ f.label? j = some l ∧ l.parent = none := by
  induction h with
  | root hl hp => exact ⟨_, _, rfl, hl, hp⟩
  | step _ _ _ ih =>
    obtain ⟨j, l, hlast, hl, hp⟩ := ih
    exact ⟨j, l, by rw [List.getLast?_cons, hlast, Option.getD_some], hl, hp⟩

/-- A frontier whose labels form a tree. The first label is its only root; each of the others was
reached by an edge from where its parent is, and costs no less; the label of a state stands for it. -/
structure IsRooted [Scalar K] [BestMap M] (f : Frontier K Q M) (origin : NodeId)
    (keyOf : Option (EdgeView K) → Option StateKey) : Prop where
  root : ∃ l, f.label? 0 = some l ∧ l.parent = none ∧ l.node = origin
  branch : ∀ {id l}, f.label? id = some l → id ≠ 0 → ∃ parent lp e, l.parent = some parent ∧
    f.label? parent = some lp ∧ lp.cost ≤ l.cost ∧ l.edge = some e ∧ e.base = lp.node ∧
    e.adj = l.node
  state : ∀ {key id}, f.best? key = some id → ∃ l, f.label? id = some l ∧ keyOf l.edge = some key
  unwinds : ∀ {id l}, f.label? id = some l → ∃ ids, f.unwind? id = some ids ∧ ids.Nodup ∧
    ids.head? = some id ∧ ids.getLast? = some 0 ∧ ids.IsChain f.IsChildOf

theorem IsGrown.isRooted [Scalar K] [PriorityQueue Q K] [LawfulQueue Q] [BestMap M]
    {s : SearchSettings K} {d : Direction} {origin : NodeId} {pin : Option EdgeId} {start : Label K}
    {stored : EdgeId → Option (StoredEdge K)} (hn : s.network.Shows stored)
    (h : f.IsGrown s d origin pin start) : f.IsRooted origin (s.keyOf d origin) where
  root := ⟨start, h.root, h.start_parent, h.start_node⟩
  branch {id l} hl hid := by
    obtain ⟨e, parent, lp, hedge, hnode, hparent, hlp, hfollows⟩ := h.form hl hid
    obtain ⟨lp', hlp', hle⟩ := h.parent_le hl hparent
    cases hlp.symm.trans hlp'
    have hbase := hn.base_eq hfollows.listed
    rw [← h.node_eq hlp] at hbase
    exact ⟨parent, lp, e, hparent, hlp, hle, hedge, hbase, hnode.symm⟩
  state := h.best
  unwinds {id l} hl := by
    obtain ⟨ids, hs⟩ := h.lineage hl
    obtain ⟨j, lj, hlast, hlj, hp⟩ := hs.exists_getLast?
    have hroot : j = 0 := by
      by_contra hj
      obtain ⟨_, _, _, _, _, hp', _⟩ := h.form hlj hj
      cases hp.symm.trans hp'
    exact ⟨ids, hs.unwind?_eq, hs.nodup, hs.head?_eq, hroot ▸ hlast, hs.isChain⟩

end Frontier

namespace Sweep

variable {K Q M : Type} [Scalar K] [IsOrdered K] [PriorityQueue Q K] [LawfulQueue Q] [BestMap M]
variable {s : SearchSettings K} {w : Sweep s} {f : Frontier K Q M} {count : Nat}

theorem isRooted_of_reachesAfter (hn : s.network.IsBuilt) (hw : w.IsSound)
    (h : w.ReachesAfter f count) :
    f.IsRooted w.origin (s.keyOf w.direction w.origin) := by
  obtain ⟨stored, hshows⟩ := hn.exists_shows
  obtain ⟨taken, hcourse, _⟩ := h
  exact (hcourse.isGrown hw hshows).isRooted hshows

end Sweep

namespace SearchSettings

variable {K Q M : Type} [Scalar K] [IsOrdered K] [PriorityQueue Q K] [LawfulQueue Q] [BestMap M]
variable {s : SearchSettings K}

/-- In every state of a search, and when it ends, the labels form a tree in which the way from each
of them to the root can be followed. -/
theorem always_isRooted (hn : s.network.IsBuilt) (hw : s.weighting.IsNonneg s.network) :
    (∀ {w : Sweep s} {taken : List (LabelId × Label K)} {f : Frontier K Q M}, w.IsAsked →
      w.Course taken f → f.IsRooted w.origin (s.keyOf w.direction w.origin)) ∧
    (∀ {h source target}, (s.exploreToward Q M h source target).frontier.IsRooted source
      (s.keyOf .forward source)) ∧
    (∀ {source targets}, (s.exploreAll Q M source targets).frontier.IsRooted source
      (s.keyOf .forward source)) ∧
    (∀ {d start goal t}, (s.exploreFrom Q M d start goal t).frontier.IsRooted start
      (s.keyOf d start)) ∧
    ∀ {σ} {p : Method K σ} {q d}, p.settings = s →
      ((p.search q : Bidirectional.State K Q M σ × _).1.side d).frontier.IsRooted (q.root d)
        (s.keyOf d (q.root d)) := by
  refine ⟨fun {w taken f} hasked h ↦ ?_, fun {h source target} ↦ ?_, fun {source targets} ↦ ?_,
    fun {d start goal t} ↦ ?_, ?_⟩
  · exact Sweep.isRooted_of_reachesAfter hn (hasked.isSound hw) ⟨taken, h, rfl⟩
  · exact Sweep.isRooted_of_reachesAfter hn ((Sweep.IsAsked.oneEnd _ _).isSound hw)
      (Sweep.reachesAfter_exploreToward Q M s source target h)
  · exact Sweep.isRooted_of_reachesAfter hn ((Sweep.IsAsked.oneEnd _ _).isSound hw)
      (Sweep.reachesAfter_exploreAll Q M s source targets)
  · exact Sweep.isRooted_of_reachesAfter hn ((Sweep.IsAsked.timed d start t).isSound hw)
      (Sweep.reachesAfter_exploreFrom Q M s d start goal t)
  · rintro σ p q d rfl
    exact Sweep.isRooted_of_reachesAfter hn ((Sweep.IsAsked.bothEnds p q d).isSound hw)
      (p.sidesReached_search q d)

theorem always_isRooted_hiddenDetour :
    let s := Roads.hiddenDetour.settings (.shortest .stored) 9
    let explored := s.exploreToward (SortedQueue Exact) SparseMap Roads.hidingEstimate 0 3
    explored.visited = 5 ∧ s.network.nodeCount = 4 ∧
      explored.frontier.IsRooted 0 (s.keyOf .forward 0) := by
  intro s explored
  have hn : s.network.IsBuilt := isBuilt_network_ofEdges _ _
  have hw : s.weighting.IsNonneg s.network :=
    (Weighting.IsAssembled.shortest .stored).isNonneg_of_isMeasured hn Roads.isMeasured_hiddenDetour
  exact ⟨by decide +kernel, by decide +kernel, (always_isRooted hn hw).2.1⟩

end SearchSettings

end RoadRouting
