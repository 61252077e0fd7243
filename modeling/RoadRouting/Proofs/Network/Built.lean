import RoadRouting.Graph.PackedGraph
import RoadRouting.Proofs.Network.Views
import Mathlib.Data.List.Induction

namespace RoadRouting

variable {K : Type}

namespace RoadGraph

/-- The graphs that the operations make, where a change of an edge leaves its end nodes alone. -/
inductive IsBuilt [Scalar K] : RoadGraph K → Prop
  | empty : IsBuilt empty
  | withNodes (count : Nat) : IsBuilt (withNodes count)
  | addNode {g : RoadGraph K} (p : Position K) : IsBuilt g → IsBuilt (g.addNode p)
  | setPosition {g g' : RoadGraph K} {node : NodeId} {p : Position K} :
      IsBuilt g → g.setPosition? node p = some g' → IsBuilt g'
  | addEdge {g g' : RoadGraph K} {s : StoredEdge K} :
      IsBuilt g → g.addEdge? s = some g' → IsBuilt g'
  | setPillars {g g' : RoadGraph K} {edge : EdgeId} {points : List (Position K)} :
      IsBuilt g → g.setPillars? edge points = some g' → IsBuilt g'
  | modifyEdge {g g' : RoadGraph K} {edge : EdgeId} {change : StoredEdge K → StoredEdge K} :
      IsBuilt g → (∀ s, (change s).base = s.base ∧ (change s).adj = s.adj) →
      g.modifyEdge? edge change = some g' → IsBuilt g'

/-- Every edge joins two nodes and is noted there and nowhere else. -/
structure IsWired (g : RoadGraph K) : Prop where
  base_lt : ∀ {id : EdgeId} {s : StoredEdge K}, g.edges[id]? = some s → s.base < g.nodes.size
  adj_lt : ∀ {id : EdgeId} {s : StoredEdge K}, g.edges[id]? = some s → s.adj < g.nodes.size
  mem_incident : ∀ {u : NodeId} {n : Node K} {id : EdgeId}, g.nodes[u]? = some n →
    (id ∈ n.incident ↔ ∃ s, g.edges[id]? = some s ∧ (u = s.base ∨ u = s.adj))

theorem getElem?_register (nodes : Array (Node K)) (node : NodeId) (id : EdgeId) (u : NodeId) :
    (register nodes node id)[u]? = if node = u then
      (nodes[u]?).map fun n ↦ { n with incident := n.incident.push id } else nodes[u]? :=
  Array.getElem?_modify

theorem size_register (nodes : Array (Node K)) (node : NodeId) (id : EdgeId) :
    (register nodes node id).size = nodes.size :=
  Array.size_modify

theorem addEdge?_eq_some {g g' : RoadGraph K} {s : StoredEdge K} (h : g.addEdge? s = some g') :
    s.base < g.nodes.size ∧ s.adj < g.nodes.size ∧ g'.nodes.size = g.nodes.size ∧
      g'.edges = g.edges.push s ∧
      ∀ {u n'}, g'.nodes[u]? = some n' → ∃ n, g.nodes[u]? = some n ∧ n'.incident =
        if u = s.base ∨ u = s.adj then n.incident.push g.edges.size else n.incident := by
  unfold addEdge? at h
  split at h
  · next hlt =>
    cases h
    refine ⟨hlt.1, hlt.2, ?_, rfl, fun {u n'} hn' ↦ ?_⟩
    · dsimp only
      split
      · exact size_register _ _ _
      · rw [size_register, size_register]
    · dsimp only at hn'
      split at hn'
      · next hloop =>
        rw [getElem?_register] at hn'
        grind
      · next hloop =>
        rw [getElem?_register, getElem?_register] at hn'
        grind
  · cases h

theorem setPosition?_eq_some {g g' : RoadGraph K} {node : NodeId} {p : Position K}
    (h : g.setPosition? node p = some g') :
    g' = { g with nodes := g.nodes.modify node fun n ↦ { n with position := p } } := by
  unfold setPosition? at h
  split at h
  · exact (Option.some.inj h).symm
  · cases h

theorem setPillars?_eq_some {g g' : RoadGraph K} {edge : EdgeId} {points : List (Position K)}
    (h : g.setPillars? edge points = some g') :
    g' = { g with pillars := g.pillars.setIfInBounds edge points } := by
  unfold setPillars? at h
  split at h
  · exact (Option.some.inj h).symm
  · cases h

theorem modifyEdge?_eq_some {g g' : RoadGraph K} {edge : EdgeId}
    {change : StoredEdge K → StoredEdge K} (h : g.modifyEdge? edge change = some g') :
    g' = { g with edges := g.edges.modify edge change } := by
  unfold modifyEdge? at h
  split at h
  · exact (Option.some.inj h).symm
  · cases h

theorem IsWired.addNode {g : RoadGraph K} (h : g.IsWired) (p : Position K) :
    (g.addNode p).IsWired := by
  have hsize : (g.addNode p).nodes.size = g.nodes.size + 1 := Array.size_push _
  refine ⟨fun hs ↦ ?_, fun hs ↦ ?_, fun {u n id} hn ↦ ?_⟩
  · rw [hsize]
    exact Nat.lt_succ_of_lt (h.base_lt hs)
  · rw [hsize]
    exact Nat.lt_succ_of_lt (h.adj_lt hs)
  · rw [RoadGraph.addNode, Array.getElem?_push] at hn
    split at hn
    · next hu =>
      cases hn
      refine iff_of_false (Array.not_mem_empty id) ?_
      rintro ⟨s, hs, hend⟩
      have hbase := h.base_lt hs
      have hadj := h.adj_lt hs
      grind
    · exact h.mem_incident hn

theorem IsWired.congr {g g' : RoadGraph K} (h : g.IsWired)
    (hsize : g'.nodes.size = g.nodes.size)
    (hnodes : ∀ (u : NodeId) (n' : Node K), g'.nodes[u]? = some n' →
      ∃ n, g.nodes[u]? = some n ∧ n'.incident = n.incident)
    (hedges : ∀ id : EdgeId, (g'.edges[id]?).map (fun s ↦ (s.base, s.adj)) =
      (g.edges[id]?).map fun s ↦ (s.base, s.adj)) : g'.IsWired := by
  have hback : ∀ {id : EdgeId} {s' : StoredEdge K}, g'.edges[id]? = some s' →
      ∃ s, g.edges[id]? = some s ∧ s.base = s'.base ∧ s.adj = s'.adj := fun {id s'} hs ↦ by
    have he := hedges id
    rw [hs, Option.map_some, eq_comm, Option.map_eq_some_iff] at he
    obtain ⟨s, hs, he⟩ := he
    exact ⟨s, hs, congrArg Prod.fst he, congrArg Prod.snd he⟩
  refine ⟨fun hs ↦ ?_, fun hs ↦ ?_, fun {u n' id} hn ↦ ?_⟩
  · obtain ⟨s, hs, hb, _⟩ := hback hs
    rw [hsize, ← hb]
    exact h.base_lt hs
  · obtain ⟨s, hs, _, ha⟩ := hback hs
    rw [hsize, ← ha]
    exact h.adj_lt hs
  · obtain ⟨n, hn, hinc⟩ := hnodes u n' hn
    have he := hedges id
    rw [hinc, h.mem_incident hn]
    cases hs : g.edges[id]? <;> cases hs' : g'.edges[id]? <;> grind

theorem IsBuilt.isWired [Scalar K] {g : RoadGraph K} (h : g.IsBuilt) : g.IsWired := by
  induction h with
  | empty => exact ⟨nofun, nofun, nofun⟩
  | withNodes count =>
    refine ⟨nofun, nofun, fun {u n id} hn ↦ iff_of_false ?_ nofun⟩
    rw [RoadGraph.withNodes, Array.getElem?_replicate] at hn
    split at hn
    · cases hn
      exact Array.not_mem_empty id
    · cases hn
  | addNode p _ ih => exact ih.addNode p
  | setPosition _ hg ih =>
    rw [setPosition?_eq_some hg]
    refine ih.congr Array.size_modify (fun u n' hn' ↦ ?_) fun _ ↦ rfl
    rw [Array.getElem?_modify] at hn'
    grind
  | addEdge _ hg ih =>
    obtain ⟨hb, ha, hsize, hedges, hnodes⟩ := addEdge?_eq_some hg
    refine ⟨fun {id s} hs ↦ ?_, fun {id s} hs ↦ ?_, fun {u n' id} hn ↦ ?_⟩
    · rw [hedges, Array.getElem?_push] at hs
      rw [hsize]
      split at hs
      · cases hs
        assumption
      · exact ih.base_lt hs
    · rw [hedges, Array.getElem?_push] at hs
      rw [hsize]
      split at hs
      · cases hs
        assumption
      · exact ih.adj_lt hs
    · obtain ⟨n, hn, hinc⟩ := hnodes hn
      have hold : id ∈ n.incident ↔ _ := ih.mem_incident hn
      rw [hinc, hedges, Array.getElem?_push]
      grind
  | setPillars _ hg ih =>
    rw [setPillars?_eq_some hg]
    exact ⟨ih.base_lt, ih.adj_lt, ih.mem_incident⟩
  | modifyEdge _ hk hg ih =>
    rw [modifyEdge?_eq_some hg]
    refine ih.congr rfl (fun u n' hn' ↦ ⟨n', hn', rfl⟩) fun id ↦ ?_
    dsimp only
    rw [Array.getElem?_modify]
    grind

section OfEdges

variable [Scalar K]

def addJoining (g : RoadGraph K) (s : StoredEdge K) : RoadGraph K := (g.addEdge? s).getD g

def ofEdges (count : Nat) (edges : List (StoredEdge K)) : RoadGraph K :=
  edges.foldl addJoining (withNodes count)

def ofPlaces (places : List (Position K)) (edges : List (StoredEdge K)) : RoadGraph K :=
  edges.foldl addJoining (places.foldl addNode empty)

theorem IsBuilt.addJoining {g : RoadGraph K} (hg : g.IsBuilt) (s : StoredEdge K) :
    (g.addJoining s).IsBuilt := by
  unfold RoadGraph.addJoining
  cases hs : g.addEdge? s with
  | none => exact hg
  | some g' => exact hg.addEdge hs

theorem IsBuilt.foldl_addJoining {g : RoadGraph K} (hg : g.IsBuilt)
    (edges : List (StoredEdge K)) : (edges.foldl RoadGraph.addJoining g).IsBuilt :=
  List.foldlRecOn edges RoadGraph.addJoining hg fun _ hg s _ ↦ hg.addJoining s

theorem isBuilt_ofEdges (count : Nat) (edges : List (StoredEdge K)) :
    (ofEdges count edges).IsBuilt :=
  (IsBuilt.withNodes count).foldl_addJoining edges

theorem isBuilt_ofPlaces (places : List (Position K)) (edges : List (StoredEdge K)) :
    (ofPlaces places edges).IsBuilt := by
  have hplaces : (places.foldl addNode empty).IsBuilt :=
    List.foldlRecOn places addNode IsBuilt.empty fun _ hg p _ ↦ hg.addNode p
  exact hplaces.foldl_addJoining edges

omit [Scalar K] in
theorem mem_of_addJoining {g : RoadGraph K} {s s' : StoredEdge K}
    (h : s' ∈ (g.addJoining s).edges) : s' ∈ g.edges ∨ s' = s := by
  unfold addJoining addEdge? at h
  split at h
  · exact Array.mem_push.1 h
  · exact .inl h

omit [Scalar K] in
theorem mem_of_foldl_addJoining {g : RoadGraph K} {edges : List (StoredEdge K)}
    {s : StoredEdge K} (h : s ∈ (edges.foldl addJoining g).edges) : s ∈ g.edges ∨ s ∈ edges := by
  refine List.foldlRecOn (motive := fun g' ↦ ∀ s ∈ g'.edges, s ∈ g.edges ∨ s ∈ edges) edges
    addJoining (fun _ hs ↦ .inl hs) (fun g' hg s hs s' h' ↦ ?_) s h
  exact (mem_of_addJoining h').elim (hg s') fun heq ↦ .inr (heq ▸ hs)

theorem mem_of_ofEdges {count : Nat} {edges : List (StoredEdge K)} {s : StoredEdge K}
    (h : s ∈ (ofEdges count edges).edges) : s ∈ edges :=
  (mem_of_foldl_addJoining h).resolve_left (Array.not_mem_empty _)

omit [Scalar K] in
theorem mem_of_ofPlaces {places : List (Position K)} {edges : List (StoredEdge K)}
    {s : StoredEdge K} (h : s ∈ (ofPlaces places edges).edges) : s ∈ edges := by
  have hempty : (places.foldl addNode (empty : RoadGraph K)).edges = #[] :=
    List.foldlRecOn (motive := fun g : RoadGraph K ↦ g.edges = #[]) places addNode rfl
      fun _ hg _ _ ↦ hg
  refine (mem_of_foldl_addJoining h).resolve_left fun hs ↦ ?_
  rw [hempty] at hs
  exact Array.not_mem_empty _ hs

omit [Scalar K] in
theorem size_nodes_addJoining (g : RoadGraph K) (s : StoredEdge K) :
    (g.addJoining s).nodes.size = g.nodes.size := by
  unfold addJoining
  cases hs : g.addEdge? s with
  | none => rfl
  | some g' => exact (addEdge?_eq_some hs).2.2.1

theorem nodeCount_ofEdges (count : Nat) (edges : List (StoredEdge K)) :
    (ofEdges count edges).network.nodeCount = count := by
  have hsize : (withNodes count : RoadGraph K).nodes.size = count := Array.size_replicate
  refine List.foldlRecOn (motive := fun g ↦ g.nodes.size = count) edges addJoining hsize
    fun g hg s _ ↦ ?_
  rw [size_nodes_addJoining, hg]

end OfEdges

end RoadGraph

theorem mem_incidentViews {edges : Array (StoredEdge K)} {ids : List EdgeId} {u : NodeId}
    {d : Direction} {e : EdgeView K} : e ∈ incidentViews edges ids u d ↔
      ∃ id ∈ ids, ∃ s, edges[id]? = some s ∧ e = s.view id u ∧ e.isOpen d = true := by
  simp only [incidentViews, List.mem_filter, List.mem_filterMap, Option.map_eq_some_iff]
  constructor
  · rintro ⟨⟨id, hid, s, hs, rfl⟩, ho⟩
    exact ⟨id, hid, s, hs, rfl, ho⟩
  · rintro ⟨id, hid, s, hs, rfl, ho⟩
    exact ⟨⟨id, hid, s, hs, rfl⟩, ho⟩

namespace RoadGraph

theorem IsWired.mem_edges {g : RoadGraph K} (h : g.IsWired) {u : NodeId} {d : Direction}
    {e : EdgeView K} : e ∈ (g.edges? u d).getD [] ↔ ∃ (id : EdgeId) (s : StoredEdge K),
      g.edges[id]? = some s ∧ (u = s.base ∨ u = s.adj) ∧ e = s.view id u ∧ e.isOpen d = true := by
  cases hn : g.nodes[u]? with
  | none =>
    have hu := Array.getElem?_eq_none_iff.1 hn
    simp only [edges?, hn, Option.map_none, Option.getD_none, List.not_mem_nil, false_iff]
    rintro ⟨id, s, hs, hend, _⟩
    have hb := h.base_lt hs
    have ha := h.adj_lt hs
    grind
  | some n =>
    simp only [edges?, hn, Option.map_some, Option.getD_some, mem_incidentViews, Array.mem_toList_iff]
    constructor
    · rintro ⟨id, hid, s, hs, he⟩
      obtain ⟨s', hs', hend⟩ := (h.mem_incident hn).1 hid
      cases hs.symm.trans hs'
      exact ⟨id, s, hs, hend, he⟩
    · rintro ⟨id, s, hs, hend, he⟩
      exact ⟨id, (h.mem_incident hn).2 ⟨s, hs, hend⟩, s, hs, he⟩

theorem IsWired.shows [Scalar K] {g : RoadGraph K} (h : g.IsWired) :
    g.network.Shows g.edge? where
  edge_lt hs := (Array.getElem?_eq_some_iff.1 hs).1
  base_lt := h.base_lt
  adj_lt := h.adj_lt
  mem_edges := h.mem_edges

end RoadGraph

namespace PackedGraph

section Concat

variable {α : Type}

theorem concat_append (lists : List (List α)) (xs : List α) :
    concat (lists ++ [xs]) = ((concat lists).1 ++ xs.toArray,
      (concat lists).2.push ((concat lists).1.size, (concat lists).1.size + xs.length)) := by
  rw [concat, List.foldl_append]
  rfl

theorem toList_concat (lists : List (List α)) : (concat lists).1.toList = lists.flatten := by
  induction lists using List.reverseRecOn with
  | nil => rfl
  | append_singleton lists xs ih => simp [concat_append, ih]

theorem size_concat (lists : List (List α)) : (concat lists).1.size = lists.flatten.length := by
  rw [← toList_concat, Array.length_toList]

theorem size_ranges_concat (lists : List (List α)) : (concat lists).2.size = lists.length := by
  induction lists using List.reverseRecOn with
  | nil => rfl
  | append_singleton lists xs ih => simp [concat_append, ih]

theorem getElem?_starts_concat (lists : List (List α)) (i : Nat) :
    (((concat lists).2.map (·.1)).push (concat lists).1.size)[i]? =
      if i ≤ lists.length then some (lists.take i).flatten.length else none := by
  induction lists using List.reverseRecOn with
  | nil =>
    rw [concat, List.foldl_nil, Array.map_empty, Array.getElem?_push]
    simp
  | append_singleton lists xs ih =>
    rw [size_concat, concat_append, Array.map_push, size_concat, Array.getElem?_push]
    rw [size_concat] at ih
    rw [ih, Array.size_push, Array.size_map, size_ranges_concat, List.length_append,
      List.length_singleton]
    by_cases hi : i = lists.length + 1
    · have hall : (lists ++ [xs]).take i = lists ++ [xs] :=
        List.take_of_length_le (by simp [hi])
      rw [if_pos hi, if_pos (Nat.le_of_eq hi), hall]
    · by_cases hle : i ≤ lists.length
      · simp [hi, hle, Nat.le_succ_of_le hle, List.take_append_of_le_length hle]
      · rw [if_neg hi, if_neg hle, if_neg fun h ↦ hle (Nat.le_of_lt_succ (Nat.lt_of_le_of_ne h hi))]

theorem extract_concat {lists : List (List α)} {i : Nat} {xs : List α} (h : lists[i]? = some xs) :
    ((concat lists).1.extract (lists.take i).flatten.length
      (lists.take (i + 1)).flatten.length).toList = xs := by
  obtain ⟨hi, rfl⟩ := List.getElem?_eq_some_iff.1 h
  have hall : lists.flatten =
      (lists.take i).flatten ++ (lists[i] ++ (lists.drop (i + 1)).flatten) := by
    rw [← List.flatten_cons, ← List.drop_eq_getElem_cons hi, ← List.flatten_append,
      List.take_append_drop]
  have hstop : (lists.take (i + 1)).flatten.length =
      (lists.take i).flatten.length + lists[i].length := by
    rw [List.take_succ_eq_append_getElem hi, List.flatten_append, List.length_append,
      List.flatten_singleton]
  rw [hstop, Array.toList_extract, toList_concat, hall, List.extract_eq_take_drop,
    List.drop_left, Nat.add_sub_cancel_left, List.take_left]

end Concat

theorem edges?_pack (g : RoadGraph K) (u : NodeId) (d : Direction) :
    (pack g).edges? u d = g.edges? u d := by
  have hoffset := getElem?_starts_concat (g.nodes.toList.map (·.incident.toList))
  simp only [edges?, pack, hoffset, List.length_map, Array.length_toList, RoadGraph.edges?]
  by_cases hu : u < g.nodes.size
  · have hn : (g.nodes.toList.map (·.incident.toList))[u]? = some g.nodes[u].incident.toList := by
      simp [hu]
    simp only [if_pos (Nat.le_of_lt hu), if_pos (Nat.succ_le_of_lt hu), Option.bind_eq_bind,
      Option.bind_some, extract_concat hn, Array.getElem?_eq_getElem hu]
    rfl
  · simp only [if_neg fun h ↦ hu (Nat.lt_of_succ_le h), Array.getElem?_eq_none (Nat.le_of_not_lt hu)]
    split
    · rfl
    · rfl

end PackedGraph

inductive Network.IsBuilt [Scalar K] : Network K → Prop
  | road {g : RoadGraph K} : g.IsBuilt → IsBuilt g.network
  | packed {g : RoadGraph K} : g.IsBuilt → IsBuilt (PackedGraph.pack g).network

/-- A packed graph shows what was packed. -/
theorem RoadGraph.IsWired.shows_pack [Scalar K] {g : RoadGraph K} (h : g.IsWired) :
    (PackedGraph.pack g).network.Shows g.edge? := by
  have hcount : (PackedGraph.pack g).network.nodeCount = g.network.nodeCount := Array.size_map
  refine ⟨h.shows.edge_lt, ?_, ?_, fun {u d e} ↦ ?_⟩
  · rw [hcount]
    exact h.shows.base_lt
  · rw [hcount]
    exact h.shows.adj_lt
  · change e ∈ ((PackedGraph.pack g).edges? u d).getD [] ↔ _
    rw [PackedGraph.edges?_pack]
    exact h.mem_edges

theorem RoadGraph.IsBuilt.shows [Scalar K] {g : RoadGraph K} {n : Network K} (hg : g.IsBuilt)
    (hn : n = g.network ∨ n = (PackedGraph.pack g).network) : n.Shows g.edge? := by
  rcases hn with rfl | rfl
  · exact hg.isWired.shows
  · exact hg.isWired.shows_pack

theorem Network.IsBuilt.exists_shows [Scalar K] {n : Network K} (h : n.IsBuilt) :
    ∃ stored, n.Shows stored := by
  cases h with
  | road h => exact ⟨_, h.isWired.shows⟩
  | packed h => exact ⟨_, h.isWired.shows_pack⟩

theorem isBuilt_network_ofEdges [Scalar K] (count : Nat) (edges : List (StoredEdge K)) :
    (RoadGraph.ofEdges count edges).network.IsBuilt :=
  .road (RoadGraph.isBuilt_ofEdges count edges)

theorem isLoopFree_ofEdges [Scalar K] {count : Nat} {edges : List (StoredEdge K)}
    (h : ∀ s ∈ edges, s.base ≠ s.adj) : (RoadGraph.ofEdges count edges).network.IsLoopFree := by
  refine (RoadGraph.isBuilt_ofEdges count edges).isWired.shows.isLoopFree fun hs ↦ ?_
  exact h _ (RoadGraph.mem_of_ofEdges (Array.mem_of_getElem? hs))

end RoadRouting
