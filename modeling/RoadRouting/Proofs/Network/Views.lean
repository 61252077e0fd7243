import RoadRouting.Graph.RoadGraph
import RoadRouting.Search.Settings

namespace RoadRouting

variable {K : Type}

theorem Direction.isBackward_opposite (d : Direction) : d.opposite.isBackward = !d.isBackward := by
  cases d
  · rfl
  · rfl

namespace EdgeView

/-- The view with which a search from the other end explores the edge. -/
def fromEnd (e : EdgeView K) : EdgeView K := if e.isLoop then e else e.reversed

/-- The edge with a loop seen as it is stored, which is how it is listed. -/
def listed (e : EdgeView K) : EdgeView K :=
  if e.isLoop && e.againstStorage then e.reversed else e

theorem isLoop_iff (e : EdgeView K) : e.isLoop = true ↔ e.base = e.adj := by
  simp [isLoop]

theorem fromEnd_of_not_isLoop {e : EdgeView K} (h : e.isLoop = false) : e.fromEnd = e.reversed := by
  simp [fromEnd, h]

theorem isLoop_reversed (e : EdgeView K) : e.reversed.isLoop = e.isLoop := by
  simp [isLoop, reversed, eq_comm]

@[simp] theorem isLoop_fromEnd (e : EdgeView K) : e.fromEnd.isLoop = e.isLoop := by
  unfold fromEnd
  split
  · rfl
  · exact isLoop_reversed e

@[simp] theorem fromEnd_fromEnd (e : EdgeView K) : e.fromEnd.fromEnd = e := by
  by_cases h : e.isLoop = true
  · simp [fromEnd, h]
  · simp [fromEnd, h, isLoop_reversed]

@[simp] theorem edge_fromEnd (e : EdgeView K) : e.fromEnd.edge = e.edge := by
  unfold fromEnd
  split
  · rfl
  · rfl

@[simp] theorem base_fromEnd (e : EdgeView K) : e.fromEnd.base = e.adj := by
  unfold fromEnd
  split
  · next h => exact (isLoop_iff e).1 h
  · rfl

@[simp] theorem adj_fromEnd (e : EdgeView K) : e.fromEnd.adj = e.base := by
  unfold fromEnd
  split
  · next h => exact ((isLoop_iff e).1 h).symm
  · rfl

theorem isOpen_fromEnd (e : EdgeView K) (d : Direction) :
    e.fromEnd.isOpen d.opposite = e.isOpen d := by
  by_cases h : e.isLoop = true
  · simp [fromEnd, isOpen, reading, h]
  · rw [fromEnd_of_not_isLoop (Bool.not_eq_true _ ▸ h), isOpen, isOpen, reading, reading,
      isLoop_reversed, if_neg h, if_neg h]
    cases d
    · rfl
    · rfl

theorem reading_forward (e : EdgeView K) : e.reading .forward = .forward := by
  unfold reading
  split
  · rfl
  · rfl

theorem speed_along_fromEnd (e : EdgeView K) :
    e.fromEnd.speed.along = e.speed.get (e.reading .backward) := by
  unfold fromEnd reading
  split
  · rfl
  · rfl

theorem distance_fromEnd (e : EdgeView K) : e.fromEnd.distance = e.distance := by
  unfold fromEnd
  split
  · rfl
  · rfl

/-- The edge as it is seen along the way that is traveled. -/
def traveled (e : EdgeView K) : Direction → EdgeView K
  | .forward => e
  | .backward => e.fromEnd

@[simp] theorem traveled_forward (e : EdgeView K) : e.traveled .forward = e := rfl

@[simp] theorem traveled_backward (e : EdgeView K) : e.traveled .backward = e.fromEnd := rfl

theorem speed_along_traveled (e : EdgeView K) (d : Direction) :
    (e.traveled d).speed.along = e.speed.get (e.reading d) := by
  cases d
  · rw [e.reading_forward]
    rfl
  · exact e.speed_along_fromEnd

theorem distance_traveled (e : EdgeView K) (d : Direction) :
    (e.traveled d).distance = e.distance := by
  cases d
  · rfl
  · exact e.distance_fromEnd

end EdgeView

namespace StoredEdge

variable (s : StoredEdge K) (id : EdgeId) {u : NodeId}

@[simp] theorem edge_view (u : NodeId) : (s.view id u).edge = id := by
  unfold view
  split
  · rfl
  · rfl

@[simp] theorem firstPart_view (u : NodeId) : (s.view id u).firstPart = id := by
  unfold view
  split
  · rfl
  · rfl

theorem againstStorage_view (u : NodeId) :
    (s.view id u).againstStorage = decide (u ≠ s.base) := by
  unfold view
  split
  · next h => simp [stored, h]
  · next h => simp [stored, EdgeView.reversed, h]

theorem base_view (hu : u = s.base ∨ u = s.adj) : (s.view id u).base = u := by
  unfold view
  split
  · next h => exact h.symm
  · next h => exact (hu.resolve_left h).symm

theorem adj_view (u : NodeId) :
    (s.view id u).adj = if u = s.base then s.adj else s.base := by
  unfold view
  split
  · rfl
  · rfl

theorem adj_view_mem (u : NodeId) :
    (s.view id u).adj = s.base ∨ (s.view id u).adj = s.adj := by
  rw [adj_view]
  split
  · exact .inr rfl
  · exact .inl rfl

theorem fromEnd_view (hu : u = s.base ∨ u = s.adj) :
    (s.view id u).fromEnd = s.view id (s.view id u).adj := by
  by_cases hloop : s.base = s.adj
  · have hb : u = s.base := hu.elim (fun h ↦ h) fun h ↦ h.trans hloop.symm
    simp [EdgeView.fromEnd, EdgeView.isLoop, view, hb, stored, hloop]
  · rcases hu with rfl | rfl
    · simp [EdgeView.fromEnd, EdgeView.isLoop, view, stored, hloop, Ne.symm hloop]
    · simp [EdgeView.fromEnd, EdgeView.isLoop, view, stored, Ne.symm hloop,
        EdgeView.reversed]

end StoredEdge

namespace Network

/-- The network lists the views of stored edges that can be traveled. -/
structure Shows (n : Network K) (stored : EdgeId → Option (StoredEdge K)) : Prop where
  edge_lt : ∀ {id s}, stored id = some s → id < n.edgeCount
  base_lt : ∀ {id s}, stored id = some s → s.base < n.nodeCount
  adj_lt : ∀ {id s}, stored id = some s → s.adj < n.nodeCount
  mem_edges : ∀ {u d e}, e ∈ n.edges u d ↔ ∃ id s, stored id = some s ∧
    (u = s.base ∨ u = s.adj) ∧ e = s.view id u ∧ e.isOpen d = true

def IsLoopFree (n : Network K) : Prop := ∀ {u e}, e ∈ n.edges u .forward → e.isLoop = false

variable {n : Network K} {stored : EdgeId → Option (StoredEdge K)}

namespace Shows

variable (h : n.Shows stored) {u u' : NodeId} {d : Direction} {e e' : EdgeView K}
include h

theorem base_eq (he : e ∈ n.edges u d) : e.base = u := by
  obtain ⟨id, s, _, hu, rfl, _⟩ := h.mem_edges.1 he
  exact s.base_view id hu

theorem firstPart_eq (he : e ∈ n.edges u d) : e.firstPart = e.edge := by
  obtain ⟨id, s, _, _, rfl, _⟩ := h.mem_edges.1 he
  rw [s.firstPart_view, s.edge_view]

theorem edge_lt_of_mem (he : e ∈ n.edges u d) : e.edge < n.edgeCount := by
  obtain ⟨id, s, hs, _, rfl, _⟩ := h.mem_edges.1 he
  rw [s.edge_view]
  exact h.edge_lt hs

theorem adj_lt_of_mem (he : e ∈ n.edges u d) : e.adj < n.nodeCount := by
  obtain ⟨id, s, hs, _, rfl, _⟩ := h.mem_edges.1 he
  rcases s.adj_view_mem id u with ha | ha
  · exact ha ▸ h.base_lt hs
  · exact ha ▸ h.adj_lt hs

theorem fromEnd_mem (he : e ∈ n.edges u d) : e.fromEnd ∈ n.edges e.adj d.opposite := by
  obtain ⟨id, s, hs, hu, rfl, ho⟩ := h.mem_edges.1 he
  refine h.mem_edges.2 ⟨id, s, hs, ?_, s.fromEnd_view id hu, ?_⟩
  · exact s.adj_view_mem id u
  · rw [EdgeView.isOpen_fromEnd, ho]

theorem lt_of_mem (he : e ∈ n.edges u d) : u < n.nodeCount := by
  have hlt := h.adj_lt_of_mem (h.fromEnd_mem he)
  rwa [EdgeView.adj_fromEnd, h.base_eq he] at hlt

theorem isOpen (he : e ∈ n.edges u d) : e.isOpen d = true := by
  obtain ⟨_, _, _, _, _, ho⟩ := h.mem_edges.1 he
  exact ho

theorem traveled_mem (he : e ∈ n.edges u d) :
    e.traveled d ∈ n.edges (e.traveled d).base .forward := by
  cases d with
  | forward => rwa [EdgeView.traveled_forward, h.base_eq he]
  | backward =>
    rw [EdgeView.traveled_backward, EdgeView.base_fromEnd]
    exact h.fromEnd_mem he

theorem isLoopFree (hs : ∀ {id s}, stored id = some s → s.base ≠ s.adj) : n.IsLoopFree := by
  intro u e he
  obtain ⟨id, s, hid, hu, rfl, _⟩ := h.mem_edges.1 he
  rw [← Bool.not_eq_true, EdgeView.isLoop_iff, s.base_view id hu, s.adj_view]
  have hne := hs hid
  grind

theorem exists_view_of_edge_eq {d' : Direction} (he : e ∈ n.edges u d) (he' : e' ∈ n.edges u' d')
    (hid : e.edge = e'.edge) : ∃ (id : EdgeId) (s : StoredEdge K),
      ((u = s.base ∨ u = s.adj) ∧ e = s.view id u) ∧
      (u' = s.base ∨ u' = s.adj) ∧ e' = s.view id u' := by
  obtain ⟨id, s, hs, hu, rfl, _⟩ := h.mem_edges.1 he
  obtain ⟨id', s', hs', hu', rfl, _⟩ := h.mem_edges.1 he'
  rw [s.edge_view, s'.edge_view] at hid
  subst hid
  cases hs.symm.trans hs'
  exact ⟨id, s, ⟨hu, rfl⟩, hu', rfl⟩

theorem eq_of_edge_eq {d' : Direction} (he : e ∈ n.edges u d) (he' : e' ∈ n.edges u d')
    (hid : e.edge = e'.edge) : e = e' := by
  obtain ⟨id, s, ⟨_, rfl⟩, _, rfl⟩ := h.exists_view_of_edge_eq he he' hid
  rfl

theorem adj_of_edge_eq (he : e ∈ n.edges u d) (he' : e' ∈ n.edges e.adj d)
    (hid : e.edge = e'.edge) : e'.adj = u := by
  rw [← h.eq_of_edge_eq (h.fromEnd_mem he) he' (e.edge_fromEnd.trans hid), EdgeView.adj_fromEnd,
    h.base_eq he]

theorem isLoop_of_edge_eq {d' : Direction} (he : e ∈ n.edges u d) (he' : e' ∈ n.edges u' d')
    (hid : e.edge = e'.edge) : e.isLoop = e'.isLoop := by
  obtain ⟨id, s, ⟨hu, rfl⟩, hu', rfl⟩ := h.exists_view_of_edge_eq he he' hid
  rw [EdgeView.isLoop, EdgeView.isLoop, s.base_view id hu, s.base_view id hu', s.adj_view,
    s.adj_view]
  grind

theorem againstStorage_of_isLoop (he : e ∈ n.edges u d) (hloop : e.isLoop = true) :
    e.againstStorage = false := by
  obtain ⟨id, s, _, hu, rfl, _⟩ := h.mem_edges.1 he
  rw [EdgeView.isLoop_iff, s.base_view id hu, s.adj_view] at hloop
  rw [s.againstStorage_view]
  grind

theorem reversed_notMem_of_isLoop {d' : Direction} (he : e ∈ n.edges u d)
    (hloop : e.isLoop = true) : e.reversed ∉ n.edges u' d' := by
  intro he'
  have hfalse := h.againstStorage_of_isLoop he' ((e.isLoop_reversed).trans hloop)
  rw [EdgeView.reversed, h.againstStorage_of_isLoop he hloop] at hfalse
  cases hfalse

theorem listed_eq (he : e ∈ n.edges u d) : e.listed = e := by
  cases hloop : e.isLoop with
  | false => simp [EdgeView.listed, hloop]
  | true => simp [EdgeView.listed, h.againstStorage_of_isLoop he hloop]

theorem listed_reversed (he : e ∈ n.edges u d) : e.reversed.listed = e.fromEnd := by
  cases hloop : e.isLoop with
  | false => simp [EdgeView.listed, EdgeView.fromEnd, e.isLoop_reversed, hloop]
  | true =>
    have hagainst : e.reversed.againstStorage = true :=
      congrArg not (h.againstStorage_of_isLoop he hloop)
    simp [EdgeView.listed, EdgeView.fromEnd, e.isLoop_reversed, hloop, hagainst]

variable {m : TraversalMode} (hm : m ≠ .nodeBased)
include hm

omit h in
theorem key_eq (e : EdgeView K) (d : Direction) :
    m.key e d = 2 * e.edge + (e.againstStorage ^^ d.isBackward).toNat := by
  cases m with
  | nodeBased => exact absurd rfl hm
  | edgeBased => rfl
  | edgeBasedWithUTurns => rfl

omit h in
theorem key_eq_iff {d' : Direction} : m.key e d = m.key e' d' ↔
    e.edge = e'.edge ∧ (e.againstStorage ^^ d.isBackward) = (e'.againstStorage ^^ d'.isBackward) := by
  rw [key_eq hm, key_eq hm]
  cases (e.againstStorage ^^ d.isBackward) <;> cases (e'.againstStorage ^^ d'.isBackward) <;>
    grind

theorem key_lt (he : e ∈ n.edges u d) : m.key e d < 2 * n.edgeCount := by
  have hlt := h.edge_lt_of_mem he
  have hbit := Bool.toNat_le (e.againstStorage ^^ d.isBackward)
  rw [key_eq hm]
  grind

omit hm in
theorem key_lt_max (he : e ∈ n.edges u d) : m.key e d < max n.nodeCount (2 * n.edgeCount) := by
  by_cases hm : m = .nodeBased
  · rw [hm]
    exact Nat.lt_of_lt_of_le (h.adj_lt_of_mem he) (Nat.le_max_left _ _)
  · exact Nat.lt_of_lt_of_le (h.key_lt hm he) (Nat.le_max_right _ _)

theorem eq_of_key (he : e ∈ n.edges u d) (he' : e' ∈ n.edges u' d)
    (hk : m.key e d = m.key e' d) : e = e' := by
  obtain ⟨hid, hbit⟩ := (key_eq_iff hm).1 hk
  obtain ⟨id, s, ⟨hu, rfl⟩, hu', rfl⟩ := h.exists_view_of_edge_eq he he' hid
  rw [s.againstStorage_view, s.againstStorage_view, Bool.xor_left_inj, decide_eq_decide] at hbit
  have huu : u = u' := by grind
  rw [huu]

omit h in
theorem key_fromEnd (hloop : e.isLoop = false) : m.key e.fromEnd d.opposite = m.key e d := by
  refine (key_eq_iff hm).2 ⟨e.edge_fromEnd, ?_⟩
  rw [EdgeView.fromEnd_of_not_isLoop hloop]
  cases d <;> simp [EdgeView.reversed, Direction.opposite, Direction.isBackward]

/-- Where searches from both ends have the same state they have traveled the same edge. -/
theorem eq_fromEnd_of_key (he : e ∈ n.edges u d) (he' : e' ∈ n.edges u' d.opposite)
    (hk : m.key e d = m.key e' d.opposite) : e.isLoop = false ∧ e' = e.fromEnd := by
  obtain ⟨hid, hbit⟩ := (key_eq_iff hm).1 hk
  have hloop : e.isLoop = false := by
    rw [← Bool.not_eq_true]
    intro hl
    -- both searches see a loop as it is stored, so that only the direction is left in the key
    have hl' : e'.isLoop = true := (h.isLoop_of_edge_eq he he' hid).symm.trans hl
    rw [h.againstStorage_of_isLoop he hl, h.againstStorage_of_isLoop he' hl',
      Direction.isBackward_opposite] at hbit
    simp at hbit
  refine ⟨hloop, h.eq_of_key hm he' (h.fromEnd_mem he) ?_⟩
  rw [key_fromEnd hm hloop, hk]

end Shows

end Network

end RoadRouting
