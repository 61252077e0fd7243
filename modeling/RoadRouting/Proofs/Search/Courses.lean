import RoadRouting.Proofs.Bidirectional.Limits
import RoadRouting.Proofs.Routes.Labels
import RoadRouting.Search.Unidirectional

namespace RoadRouting

open Scalar (IsOrdered)
open Bidirectional (Method Query)

/-- Exploring from one node: a search from one end, or one side of a search from both ends. -/
structure Sweep {K : Type} (s : SearchSettings K) where
  direction : Direction
  origin : NodeId
  root : Label K
  explores : Exploration K → Prop

namespace SearchSettings

variable {K : Type} [Scalar K] (s : SearchSettings K)

def sweep (estimate : NodeId → K) (source : NodeId) : Sweep s where
  direction := .forward
  origin := source
  root := .root source (estimate source)
  explores x := x = s.exploration .forward estimate

def timedSweep (d : Direction) (start : NodeId) (t : Instant) : Sweep s where
  direction := d
  origin := start
  root := (Label.root start 0).withTime t
  explores x := x = s.timedExploration d

end SearchSettings

/-- One side of a search from both ends. A prescribed edge restricts its first step only. -/
def Bidirectional.Method.sweep {K σ : Type} [Scalar K] (p : Method K σ) (q : Query)
    (d : Direction) : Sweep p.settings where
  direction := d
  origin := q.root d
  root := .root (q.root d) (p.estimate.balanced q.source q.target d (q.root d))
  explores x := ∃ pin, x = p.exploration q d pin

namespace Sweep

variable {K : Type} [Scalar K] {s : SearchSettings K}

/-- The sweeps that answer queries. -/
inductive IsAsked : {s : SearchSettings K} → Sweep s → Prop
  | oneEnd {s : SearchSettings K} (estimate : NodeId → K) (source : NodeId) :
      IsAsked (s.sweep estimate source)
  | timed {s : SearchSettings K} (d : Direction) (start : NodeId) (t : Instant) :
      IsAsked (s.timedSweep d start t)
  | bothEnds {σ : Type} (p : Method K σ) (q : Query) (d : Direction) : IsAsked (p.sweep q d)

structure IsSound (w : Sweep s) : Prop where
  root_edge : w.root.edge = none
  root_node : w.root.node = w.origin
  root_parent : w.root.parent = none
  root_cost : w.root.cost = 0
  keepsTo : ∀ {x}, w.explores x → x.KeepsTo s w.direction none

theorem IsAsked.isSound [IsOrdered K] {w : Sweep s} (h : w.IsAsked)
    (hw : s.weighting.IsNonneg s.network) : w.IsSound := by
  cases h with
  | oneEnd estimate source =>
    refine ⟨rfl, rfl, rfl, rfl, ?_⟩
    rintro _ rfl
    exact SearchSettings.keepsTo_exploration hw estimate
  | timed d start t =>
    refine ⟨rfl, rfl, rfl, rfl, ?_⟩
    rintro _ rfl
    exact SearchSettings.keepsTo_timedExploration hw
  | bothEnds p q d =>
    refine ⟨rfl, rfl, rfl, rfl, ?_⟩
    rintro _ ⟨pin, rfl⟩
    have hx := p.keepsTo_exploration hw q d pin
    exact { hx with allows := fun ha ↦ ⟨(hx.allows ha).1, nofun⟩ }

def IsTimeless (w : Sweep s) : Prop :=
  ∀ {x l e}, w.explores x → x.price l e = s.weighting.weight e w.direction l.incomingEdge

theorem isTimeless_sweep (estimate : NodeId → K) (source : NodeId) :
    (s.sweep estimate source).IsTimeless := by
  rintro x l e rfl
  rfl

theorem isTimeless_side {σ : Type} (p : Method K σ) (q : Query) (d : Direction) :
    (p.sweep q d).IsTimeless := by
  rintro x l e ⟨pin, rfl⟩
  rfl

variable {Q M : Type} [PriorityQueue Q K] [BestMap M]

/-- How far a sweep has come: the labels that it has taken out, the last one first, and what its
frontier is like. -/
inductive Course (w : Sweep s) : List (LabelId × Label K) → Frontier K Q M → Prop
  | start : Course w [] (Frontier.empty.addRoot w.root (s.mode.rootKey w.origin))
  | settle {taken : List (LabelId × Label K)} {f next : Frontier K Q M} {id : LabelId} :
      Course w taken f → f.pop? = some (id, next) → Course w ((id, next.label id) :: taken) next
  | explore {taken : List (LabelId × Label K)} {f f' : Frontier K Q M} {id : LabelId}
      {l : Label K} {x : Exploration K} {e : EdgeView K} {r : Option LabelId} :
      Course w ((id, l) :: taken) f → w.explores x → e ∈ x.edges l.node →
      x.tryEdge id l f e = .ok (f', r) → Course w ((id, l) :: taken) f'

/-- A sweep comes to a frontier when it has taken out so many labels. -/
def ReachesAfter (w : Sweep s) (f : Frontier K Q M) (count : Nat) : Prop :=
  ∃ taken, w.Course taken f ∧ taken.length = count

namespace Course

variable {w : Sweep s} {x : Exploration K} {taken : List (LabelId × Label K)}
variable {f f' : Frontier K Q M} {id : LabelId} {l : Label K}

theorem expand (h : w.Course ((id, l) :: taken) f) (hx : w.explores x)
    (he : x.expand id l f (x.edges l.node) = .ok f') : w.Course ((id, l) :: taken) f' := by
  refine foldlM_preserves (fun {f f' e} he hf ht ↦ ?_) h he
  cases hr : x.tryEdge id l f e with
  | error _ => rw [hr] at ht; cases ht
  | ok r =>
    rw [hr] at ht
    cases ht
    exact hf.explore hx he hr

theorem reachesAfter_run {σ : Type} (h : w.Course taken f) (hx : w.explores x) (watch : Watch K σ)
    (left : Nat) (watched : σ) :
    w.ReachesAfter (x.run watch left taken.length f watched).frontier
      (x.run watch left taken.length f watched).visited := by
  induction left generalizing taken f watched with
  | zero =>
    rw [Exploration.run]
    split
    · exact ⟨taken, h, rfl⟩
    · next hp => exact ⟨_, h.settle hp, rfl⟩
  | succ left ih =>
    rw [Exploration.run]
    split
    · exact ⟨taken, h, rfl⟩
    · next id next hp =>
      have hnext := h.settle hp
      dsimp only
      split
      · exact ⟨_, hnext, rfl⟩
      · split
        · next f' hf' => exact ih (hnext.expand hx hf') _
        · exact ⟨_, hnext, rfl⟩

section Grown

variable [IsOrdered K] [LawfulQueue Q] {stored : EdgeId → Option (StoredEdge K)}

theorem isGrown_and_label? (hw : w.IsSound) (hn : s.network.Shows stored)
    (h : w.Course taken f) : f.IsGrown s w.direction w.origin none w.root ∧
      ∀ a ∈ taken.head?, f.label? a.1 = some a.2 := by
  induction h with
  | start => exact ⟨.addRoot s w.direction hw.root_edge hw.root_node hw.root_parent hw.root_cost, nofun⟩
  | @settle taken f next id _ hp ih =>
    refine ⟨ih.1.pop hp, ?_⟩
    rintro _ ⟨⟩
    obtain ⟨l, hl, _⟩ := ih.1.label?_of_pop hp
    rw [← Frontier.label?_of_pop? hp] at hl
    rw [Frontier.label_eq hl, hl]
  | @explore taken f f' id l x e r _ hx he ht ih =>
    obtain ⟨hgrown, hlabel⟩ := ih
    have hl : f.label? id = some l := hlabel _ rfl
    rcases Exploration.tryEdge_cases ht with ⟨rfl, _⟩ | ⟨made, c, hs, rfl, _⟩
    · exact ⟨hgrown, hlabel⟩
    · obtain ⟨_, _, _, hgrown', hl'⟩ :=
        hgrown.of_stores hn (fun _ ↦ rfl) (hw.keepsTo hx) hl (fun _ ↦ rfl) he hs
      refine ⟨hgrown', ?_⟩
      rintro _ ⟨⟩
      exact hl'

theorem isGrown (h : w.Course taken f) (hw : w.IsSound) (hn : s.network.Shows stored) :
    f.IsGrown s w.direction w.origin none w.root :=
  (h.isGrown_and_label? hw hn).1

theorem label?_of_head (h : w.Course ((id, l) :: taken) f) (hw : w.IsSound)
    (hn : s.network.Shows stored) : f.label? id = some l :=
  (h.isGrown_and_label? hw hn).2 _ rfl

end Grown

end Course

theorem reachesAfter_explore {σ : Type} {w : Sweep s} {x : Exploration K} (hx : w.explores x)
    (watch : Watch K σ) (limit : Nat) (watched : σ) :
    let r : Explored K Q M σ :=
      x.explore watch limit w.root (s.mode.rootKey w.origin) watched
    w.ReachesAfter r.frontier r.visited := by
  intro r
  have hstart : w.Course [] (Frontier.empty.addRoot w.root (s.mode.rootKey w.origin) :
      Frontier K Q M) := .start
  change w.ReachesAfter (x.explore watch limit w.root (s.mode.rootKey w.origin) watched).frontier
    (x.explore watch limit w.root (s.mode.rootKey w.origin) watched).visited
  rw [Exploration.explore]
  split
  · exact ⟨[], hstart, rfl⟩
  · exact hstart.reachesAfter_run hx watch limit watched

section OneEnd

variable (Q M) (s : SearchSettings K) (source target : NodeId)

theorem reachesAfter_exploreToward (h : Estimate K) :
    (s.sweep (h.toward (some target)) source).ReachesAfter
      (s.exploreToward Q M h source target).frontier
      (s.exploreToward Q M h source target).visited :=
  reachesAfter_explore (w := s.sweep (h.toward (some target)) source) rfl (Watch.reach target)
    s.visitLimit none

theorem reachesAfter_exploreAll (targets : List NodeId) :
    (s.sweep (fun _ ↦ 0) source).ReachesAfter (s.exploreAll Q M source targets).frontier
      (s.exploreAll Q M source targets).visited :=
  reachesAfter_explore (w := s.sweep (fun _ ↦ 0) source) rfl .reachAll s.visitLimit ⟨targets, []⟩

theorem reachesAfter_exploreFrom (d : Direction) (start goal : NodeId) (t : Instant) :
    (s.timedSweep d start t).ReachesAfter (s.exploreFrom Q M d start goal t).frontier
      (s.exploreFrom Q M d start goal t).visited :=
  reachesAfter_explore (w := s.timedSweep d start t) rfl (Watch.reach goal) s.visitLimit none

end OneEnd

end Sweep

namespace Bidirectional.Method

variable {K Q M σ : Type} [Scalar K] [PriorityQueue Q K] [BestMap M]
variable {p : Method K σ} {q : Query}

theorem course_expand {d : Direction} {x : Exploration K} {taken : List (LabelId × Label K)}
    {own other f : Frontier K Q M} {id : LabelId} {l : Label K} {mt mt' : Meeting K}
    (h : (p.sweep q d).Course ((id, l) :: taken) own) (hx : (p.sweep q d).explores x)
    (he : p.expand x d id l other own mt = .ok (f, mt')) :
    (p.sweep q d).Course ((id, l) :: taken) f := by
  refine foldlM_preserves (P := fun b : Frontier K Q M × Meeting K ↦
    (p.sweep q d).Course ((id, l) :: taken) b.1) (fun {b b' e} he hb ht ↦ ?_) h he
  obtain ⟨⟨f₁, stored⟩, htry, ht⟩ := exists_ok_of_bind ht
  have hf₁ := hb.explore hx he htry
  cases stored with
  | none =>
    cases ht
    exact hf₁
  | some nextId =>
    obtain ⟨mt₁, _, ht⟩ := exists_ok_of_bind ht
    cases ht
    exact hf₁

theorem isKeyed_of_course {d : Direction} {taken : List (LabelId × Label K)} {f : Frontier K Q M}
    (h : (p.sweep q d).Course taken f) : f.IsKeyed (p.settings.keyOf d (q.root d)) := by
  induction h with
  | start => exact .addRoot (p.settings.keyOf d (q.root d)) (p.sweep q d).root
  | settle _ hp ih => exact ih.pop hp
  | explore _ hx _ htry ih =>
    obtain ⟨pin, rfl⟩ := hx
    rcases Exploration.tryEdge_cases htry with ⟨rfl, _⟩ | ⟨made, _, hs, rfl, _⟩
    · exact ih
    · obtain ⟨hedge, _⟩ := p.makesSteps_exploration q d pin hs.extend
      exact ih.store (hedge ▸ rfl)

theorem incomingEdge_eq_of_course {d : Direction} {taken taken' : List (LabelId × Label K)}
    {own other : Frontier K Q M} {key : StateKey} {i j : LabelId}
    (hm : p.settings.mode ≠ .nodeBased) (h : (p.sweep q d).Course taken own)
    (h' : (p.sweep q d.opposite).Course taken' other) (hi : own.best? key = some i)
    (hj : other.best? key = some j) :
    (own.label i).incomingEdge = (other.label j).incomingEdge := by
  obtain ⟨l, hl, hk⟩ := isKeyed_of_course h _ _ hi
  obtain ⟨l', hl', hk'⟩ := isKeyed_of_course h' _ _ hj
  have hroot := fun u ↦ SearchSettings.rootKey_of_ne_nodeBased hm u
  rw [Frontier.label_eq hl, Frontier.label_eq hl', Label.incomingEdge, Label.incomingEdge]
  cases he : l.edge with
  | none =>
    rw [he] at hk
    cases (hroot _).symm.trans hk
  | some e =>
    cases he' : l'.edge with
    | none =>
      rw [he'] at hk'
      cases (hroot _).symm.trans hk'
    | some e' =>
      rw [he] at hk
      rw [he'] at hk'
      exact congrArg some ((Network.Shows.key_eq_iff hm).1 (Option.some.inj (hk.trans hk'.symm))).1

/-- Wherever the other side has come to: if it knows the state to which an edge has just been
followed, and states are edges, then it has explored the same edge. No join finds that it has not. -/
theorem incomingEdge_eq_of_tryEdge {d : Direction} {taken taken' : List (LabelId × Label K)}
    {own other f : Frontier K Q M} {x : Exploration K} {id next j : LabelId} {l : Label K}
    {e : EdgeView K} (hm : p.settings.mode ≠ .nodeBased)
    (h : (p.sweep q d).Course ((id, l) :: taken) own)
    (h' : (p.sweep q d.opposite).Course taken' other) (hx : (p.sweep q d).explores x)
    (he : e ∈ x.edges l.node) (htry : x.tryEdge id l own e = .ok (f, some next))
    (hj : other.best? (p.settings.mode.key e d) = some j) :
    (f.label next).incomingEdge = (other.label j).incomingEdge := by
  refine incomingEdge_eq_of_course hm (h.explore hx he htry) h' ?_ hj
  obtain ⟨pin, rfl⟩ := hx
  rcases Exploration.tryEdge_cases htry with ⟨_, hnone⟩ | ⟨made, w, _, rfl, hnext⟩
  · cases hnone
  · cases hnext
    exact (Frontier.best?_store own _ made _).trans (if_pos rfl)

def SidesReached (p : Method K σ) (q : Query) (st : State K Q M σ) : Prop :=
  ∀ d, (p.sweep q d).ReachesAfter (st.side d).frontier (st.side d).visited

variable {st : State K Q M σ}

theorem sidesReached_start (p : Method K σ) (q : Query) :
    p.SidesReached q (p.start q : State K Q M σ) := by
  intro d
  refine ⟨[], ?_, ?_⟩
  · cases d with
    | forward => exact .start
    | backward => exact .start
  · cases d with
    | forward => rfl
    | backward => rfl

theorem sidesReached_advance (h : p.SidesReached q st) (d : Direction) (pin : Option EdgeId) :
    p.SidesReached q (p.advance q d pin st).1 := by
  have hown : (p.sweep q d).ReachesAfter ((p.advance q d pin st).1.side d).frontier
      ((p.advance q d pin st).1.side d).visited := by
    obtain ⟨taken, htaken, hcount⟩ := h d
    rw [advance]
    split
    · rw [State.side_withSide]
      exact ⟨taken, htaken, hcount⟩
    · next id next hp =>
      have hnext := htaken.settle hp
      dsimp only
      split
      · rw [State.side_withSide]
        exact ⟨_, hnext, congrArg Nat.succ hcount⟩
      · split
        · rw [State.side_withSide]
          exact ⟨_, hnext, congrArg Nat.succ hcount⟩
        · split
          · next hx =>
            rw [State.side_withSide]
            exact ⟨_, course_expand hnext ⟨pin, rfl⟩ hx, congrArg Nat.succ hcount⟩
          · rw [State.side_withSide]
            exact ⟨_, hnext, congrArg Nat.succ hcount⟩
  have hother := p.side_opposite_advance q d pin st
  intro d'
  cases d with
  | forward =>
    cases d' with
    | forward => exact hown
    | backward => exact hother ▸ h .backward
  | backward =>
    cases d' with
    | forward => exact hother ▸ h .forward
    | backward => exact hown

section Always

variable {I : State K Q M σ → Prop}
variable (hadvance : ∀ {st} d pin, I st → I (p.advance q d pin st).1)
include hadvance

theorem advanceUnfinished_always (hst : I st) (d : Direction) :
    I (p.advanceUnfinished q d st).1 := by
  rw [advanceUnfinished]
  split
  · exact hst
  · exact hadvance d none hst

omit [Scalar K] [PriorityQueue Q K] [BestMap M] hadvance in
theorem andThen_always {first : State K Q M σ × Except (QueryError K) Unit}
    {second : State K Q M σ → State K Q M σ × Except (QueryError K) Unit}
    (hfirst : I first.1) (hsecond : ∀ st, I st → I (second st).1) :
    I (andThen first second).1 := by
  obtain ⟨st, result⟩ := first
  cases result with
  | error _ => exact hfirst
  | ok _ => exact hsecond st hfirst

theorem rounds_always (left : Nat) (hst : I st) : I (p.rounds q left st).1 := by
  induction left generalizing st with
  | zero => exact hst
  | succ left ih =>
    rw [rounds]
    split
    · exact hst
    · have hround : I (p.round q st).1 :=
        andThen_always (advanceUnfinished_always hadvance hst .forward) fun st hst ↦
          advanceUnfinished_always hadvance hst .backward
      exact andThen_always hround fun st hst ↦ ih hst

theorem search_always (hstart : I (p.start q)) (hmeet : I (meetAtStart (p.start q))) :
    I (p.search q).1 := by
  rw [search]
  split
  · exact hmeet
  · have hroots : I (andThen (p.advance q .forward q.firstEdge (p.start q))
        (p.advance q .backward q.lastEdge)).1 :=
      andThen_always (hadvance _ _ hstart) fun st hst ↦ hadvance _ _ hst
    exact andThen_always hroots fun st hst ↦ rounds_always hadvance _ hst

end Always

theorem sidesReached_search (p : Method K σ) (q : Query) :
    p.SidesReached q (p.search q : State K Q M σ × Except (QueryError K) Unit).1 := by
  have hstart := p.sidesReached_start (Q := Q) (M := M) q
  refine search_always (fun d pin hst ↦ sidesReached_advance hst d pin) hstart fun d ↦ ?_
  cases d with
  | forward => exact hstart .forward
  | backward => exact hstart .backward

end Bidirectional.Method

end RoadRouting
