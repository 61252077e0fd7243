import RoadRouting.Proofs.Search.Alike
import RoadRouting.Search.Bidirectional

namespace RoadRouting

namespace BestMap

variable {M M' : Type} [BestMap M] [BestMap M']

def insertAll (m : M) (entries : List (StateKey × LabelId)) : M :=
  entries.foldl (fun m entry ↦ insert m entry.1 entry.2) m

theorem get?_insertAll {m : M} {m' : M'} (h : ∀ key, get? m key = get? m' key)
    (entries : List (StateKey × LabelId)) (key : StateKey) :
    get? (insertAll m entries) key = get? (insertAll m' entries) key := by
  induction entries generalizing m m' with
  | nil => exact h key
  | cons entry entries ih =>
    apply ih
    intro other
    rw [get?_insert, get?_insert, h]

theorem size_insertAll {m : M} {m' : M'} (h : ∀ key, get? m key = get? m' key)
    (hsize : size m = size m') (entries : List (StateKey × LabelId)) :
    size (insertAll m entries) = size (insertAll m' entries) := by
  induction entries generalizing m m' with
  | nil => exact hsize
  | cons entry entries ih =>
    apply ih
    · intro other
      rw [get?_insert, get?_insert, h]
    · rw [size_insert, size_insert, h, hsize]

end BestMap

namespace Bidirectional

variable {K Q M M' σ : Type} [Scalar K] [PriorityQueue Q K] [BestMap M] [BestMap M']

/-- Sides that differ in how they store the best labels only. -/
structure Side.Resembles (side : Side K Q M) (side' : Side K Q M') : Prop where
  frontier : side.frontier.Resembles id side'.frontier
  priority_eq : side'.priority = side.priority
  visited_eq : side'.visited = side.visited
  isFinished_eq : side'.isFinished = side.isFinished

structure State.Resembles (st : State K Q M σ) (st' : State K Q M' σ) : Prop where
  forward : st.forward.Resembles st'.forward
  backward : st.backward.Resembles st'.backward
  meeting_eq : st'.meeting = st.meeting
  memory_eq : st'.memory = st.memory

namespace State.Resembles

variable {st : State K Q M σ} {st' : State K Q M' σ}

omit [Scalar K] [PriorityQueue Q K]

theorem side (h : st.Resembles st') (d : Direction) : (st.side d).Resembles (st'.side d) := by
  cases d with
  | forward => exact h.forward
  | backward => exact h.backward

theorem withSide (h : st.Resembles st') {side : Side K Q M} {side' : Side K Q M'}
    (hside : side.Resembles side') (d : Direction) :
    (st.withSide d side).Resembles (st'.withSide d side') := by
  cases d with
  | forward => exact { h with forward := hside }
  | backward => exact { h with backward := hside }

theorem withMemory (h : st.Resembles st') (memory : σ) :
    State.Resembles { st with memory } { st' with memory } where
  forward := h.forward
  backward := h.backward
  meeting_eq := h.meeting_eq
  memory_eq := rfl

theorem withMeeting (h : st.Resembles st') (meeting : Meeting K) :
    State.Resembles { st with meeting } { st' with meeting } where
  forward := h.forward
  backward := h.backward
  meeting_eq := rfl
  memory_eq := h.memory_eq

theorem visited_eq (h : st.Resembles st') : st'.visited = st.visited := by
  rw [visited, h.forward.visited_eq, h.backward.visited_eq, visited]

theorem isFinished_eq [Scalar K] (h : st.Resembles st') (offset : K) :
    st'.isFinished offset = st.isFinished offset := by
  rw [isFinished, h.forward.isFinished_eq, h.backward.isFinished_eq, h.meeting_eq,
    h.forward.priority_eq, h.backward.priority_eq, isFinished]

end State.Resembles

structure StepAlike (r : State K Q M σ × Except (QueryError K) Unit)
    (r' : State K Q M' σ × Except (QueryError K) Unit) : Prop where
  state : r.1.Resembles r'.1
  ended_eq : r'.2 = r.2

namespace Method

variable {p : Method K σ} {q : Query} {st : State K Q M σ} {st' : State K Q M' σ}

omit [PriorityQueue Q K] in
theorem join_eq {own other : Frontier K Q M} {own' other' : Frontier K Q M'}
    (hown : own.Resembles id own') (hother : other.Resembles id other') (d : Direction)
    (e : EdgeView K) (i : LabelId) (meeting : Meeting K) :
    p.join d e own' other' i meeting = p.join d e own other i meeting := by
  have hlabel : ∀ i, own'.label i = own.label i := hown.label_eq Label.isView_id
  have hlabel' : ∀ i, other'.label i = other.label i := hother.label_eq Label.isView_id
  rw [join, hother.best_eq, join]
  simp only [hlabel, hlabel']

theorem tryEdge_alike {x : Exploration K} {d : Direction} {i : LabelId} {l : Label K}
    {other : Frontier K Q M} {other' : Frontier K Q M'} (hother : other.Resembles id other')
    {own : Frontier K Q M × Meeting K} {own' : Frontier K Q M' × Meeting K}
    (hown : own.1.Resembles id own'.1) (hmeeting : own'.2 = own.2) {e : EdgeView K}
    (he : e ∈ x.edges l.node) :
    EndAlike (fun r r' ↦ r.1.Resembles id r'.1 ∧ r'.2 = r.2)
      (p.tryEdge x d i l other own e) (p.tryEdge x d i l other' own' e) := by
  apply ((Exploration.Resembles.refl x).tryEdge_alike Label.isView_id hown he i).bind
  intro r r' hr
  obtain ⟨f, stored⟩ := r
  obtain ⟨f', stored'⟩ := r'
  obtain ⟨hf, hstored⟩ := hr
  cases hstored
  cases stored with
  | none => exact .ok ⟨hf, hmeeting⟩
  | some next =>
    dsimp only
    rw [join_eq hf hother, hmeeting]
    cases p.join d e f other next own.2 with
    | error error => exact .error error
    | ok meeting => exact .ok ⟨hf, rfl⟩

theorem expand_alike {own other : Frontier K Q M} {own' other' : Frontier K Q M'}
    (hown : own.Resembles id own') (hother : other.Resembles id other') (x : Exploration K)
    (d : Direction) (i : LabelId) (l : Label K) {meeting meeting' : Meeting K}
    (hmeeting : meeting' = meeting) :
    EndAlike (fun r r' ↦ r.1.Resembles id r'.1 ∧ r'.2 = r.2)
      (p.expand x d i l other own meeting) (p.expand x d i l other' own' meeting') := by
  apply EndAlike.foldlM
  · intro own own' e he h
    exact tryEdge_alike hother h.1 h.2 he
  · exact ⟨hown, hmeeting⟩

theorem advance_alike (h : st.Resembles st') (d : Direction) (pin : Option EdgeId) :
    StepAlike (p.advance q d pin st) (p.advance q d pin st') := by
  have hside := h.side d
  rw [advance, advance]
  obtain ⟨hp, hp'⟩ | ⟨i, f, f', hp, hp', hf⟩ := hside.frontier.pop?_alike
  · rw [hp, hp']
    refine ⟨h.withSide ?_ d, rfl⟩
    exact ⟨hside.frontier, hside.priority_eq, hside.visited_eq, rfl⟩
  · rw [hp, hp']
    dsimp only
    rw [show f'.label i = f.label i from hf.label_eq Label.isView_id i, h.memory_eq,
      hside.visited_eq]
    split
    · exact ⟨(h.withMemory _).withSide ⟨hf, rfl, rfl, rfl⟩ d, rfl⟩
    · have hmemory := h.withMemory (p.policy.stop (p.policy.skip st.memory (f.label i) d).2
        (f.label i) d).2
      split
      · exact ⟨hmemory.withSide ⟨hf, rfl, rfl, rfl⟩ d, rfl⟩
      · obtain ⟨_, hx, hx'⟩ | ⟨r, r', hx, hx', hr, hmeeting⟩ := (expand_alike hf
          (hmemory.side d.opposite).frontier (p.exploration q d pin) d i (f.label i)
          hmemory.meeting_eq).cases
        · rw [hx, hx']
          exact ⟨hmemory.withSide ⟨hf, rfl, rfl, rfl⟩ d, rfl⟩
        · rw [hx, hx']
          dsimp only
          rw [hmeeting]
          exact ⟨(hmemory.withMeeting r.2).withSide ⟨hr, rfl, rfl, rfl⟩ d, rfl⟩

theorem advanceUnfinished_alike (h : st.Resembles st') (d : Direction) :
    StepAlike (p.advanceUnfinished q d st) (p.advanceUnfinished q d st') := by
  rw [advanceUnfinished, advanceUnfinished, (h.side d).isFinished_eq]
  split
  · exact ⟨h, rfl⟩
  · exact advance_alike h d none

omit [Scalar K] [PriorityQueue Q K] in
theorem andThen_alike {first : State K Q M σ × Except (QueryError K) Unit}
    {first' : State K Q M' σ × Except (QueryError K) Unit}
    {second : State K Q M σ → State K Q M σ × Except (QueryError K) Unit}
    {second' : State K Q M' σ → State K Q M' σ × Except (QueryError K) Unit}
    (h : StepAlike first first')
    (hsecond : ∀ {st st'}, st.Resembles st' → StepAlike (second st) (second' st')) :
    StepAlike (andThen first second) (andThen first' second') := by
  obtain ⟨st, ended⟩ := first
  obtain ⟨st', ended'⟩ := first'
  obtain ⟨hst, hended⟩ := h
  cases hended
  cases ended with
  | error _ => exact ⟨hst, rfl⟩
  | ok _ => exact hsecond hst

theorem round_alike (h : st.Resembles st') : StepAlike (p.round q st) (p.round q st') := by
  apply andThen_alike (advanceUnfinished_alike h .forward)
  intro st st' h
  exact advanceUnfinished_alike h .backward

theorem rounds_alike (left : Nat) (h : st.Resembles st') :
    StepAlike (p.rounds q left st) (p.rounds q left st') := by
  induction left generalizing st st' with
  | zero => exact ⟨h, rfl⟩
  | succ left ih =>
    rw [rounds, rounds, h.isFinished_eq, h.visited_eq]
    split
    · exact ⟨h, rfl⟩
    · exact andThen_alike (round_alike h) ih

theorem startSide_alike (p : Method K σ) (q : Query) (d : Direction) (node : NodeId) :
    (p.startSide q d node : Side K Q M).Resembles (p.startSide q d node : Side K Q M') where
  frontier := Frontier.Resembles.empty.addRoot Label.isView_id _ _
  priority_eq := rfl
  visited_eq := rfl
  isFinished_eq := rfl

theorem search_alike (p : Method K σ) (q : Query) :
    StepAlike (p.search q : State K Q M σ × Except (QueryError K) Unit)
      (p.search q : State K Q M' σ × Except (QueryError K) Unit) := by
  have hforward : (p.startSide q .forward q.source : Side K Q M).Resembles
      (p.startSide q .forward q.source : Side K Q M') := startSide_alike p q _ _
  have hbackward : (p.startSide q .backward q.target : Side K Q M).Resembles
      (p.startSide q .backward q.target : Side K Q M') := startSide_alike p q _ _
  rw [search, search]
  split
  · refine ⟨⟨?_, ?_, rfl, rfl⟩, rfl⟩
    · exact { hforward with isFinished_eq := rfl }
    · exact { hbackward with isFinished_eq := rfl }
  · have hstart : (p.start q : State K Q M σ).Resembles (p.start q : State K Q M' σ) :=
      ⟨hforward, hbackward, rfl, rfl⟩
    apply andThen_alike
    · apply andThen_alike (advance_alike hstart .forward q.firstEdge)
      intro st st' h
      exact advance_alike h .backward q.lastEdge
    · exact rounds_alike _

omit [PriorityQueue Q K] in
theorem outcome_eq (h : st.Resembles st') : p.outcome q st' = p.outcome q st := by
  have hroute : ∀ labels, p.meetingRoute q st' labels = p.meetingRoute q st labels := by
    intro labels
    rw [meetingRoute, h.forward.frontier.pathTo_eq Label.isView_id,
      h.backward.frontier.pathFrom_eq Label.isView_id, h.meeting_eq, meetingRoute]
  rw [outcome, h.isFinished_eq, h.meeting_eq, h.visited_eq, outcome]
  simp only [hroute]

variable (Q M M') in
theorem bestRoute_map_eq (p : Method K σ) (q : Query) :
    p.bestRoute Q M q = p.bestRoute Q M' q := by
  have hsearch : StepAlike (p.search q : State K Q M σ × Except (QueryError K) Unit)
      (p.search q : State K Q M' σ × Except (QueryError K) Unit) := search_alike p q
  rw [bestRoute, bestRoute]
  split
  · rfl
  · rfl
  · rcases hr : (p.search q : State K Q M σ × Except (QueryError K) Unit) with ⟨st, ended⟩
    rcases hr' : (p.search q : State K Q M' σ × Except (QueryError K) Unit) with ⟨st', ended'⟩
    rw [hr, hr'] at hsearch
    obtain ⟨hst, hended⟩ := hsearch
    cases hended
    dsimp only
    rw [hst.visited_eq, outcome_eq hst]

end Method

end Bidirectional

/-- A search from both ends cannot tell the array that grows on demand from any other map, such as
one that takes space for the labeled states only, and neither can its owner: after the same
insertions both hold the same labels, and as many. -/
theorem bestMap_and_denseMap_alike {K Q M σ : Type} [Scalar K] [PriorityQueue Q K] [BestMap M] :
    (∀ (p : Bidirectional.Method K σ) (q : Bidirectional.Query),
      p.bestRoute Q M q = p.bestRoute Q DenseMap q) ∧
    ∀ entries : List (StateKey × LabelId),
      let map := BestMap.insertAll (BestMap.empty : M) entries
      let dense := BestMap.insertAll (BestMap.empty : DenseMap) entries
      (∀ key, BestMap.get? map key = BestMap.get? dense key) ∧
        BestMap.size map = BestMap.size dense := by
  have hempty : ∀ key, BestMap.get? (BestMap.empty : M) key =
      BestMap.get? (BestMap.empty : DenseMap) key := by
    intro key
    rw [BestMap.get?_empty, BestMap.get?_empty]
  have hsize : BestMap.size (BestMap.empty : M) = BestMap.size (BestMap.empty : DenseMap) :=
    BestMap.size_empty
  refine ⟨Bidirectional.Method.bestRoute_map_eq Q M DenseMap, fun entries ↦ ⟨?_, ?_⟩⟩
  · exact BestMap.get?_insertAll hempty entries
  · exact BestMap.size_insertAll hempty hsize entries

end RoadRouting
