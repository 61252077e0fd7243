import RoadRouting.Proofs.Network.Built
import RoadRouting.Search.Bidirectional
import RoadRouting.Search.Unidirectional

namespace RoadRouting.PackedGraph

section Concat

variable {α : Type}

theorem flatten_take_succ {lists : List (List α)} {i : Nat} {xs : List α}
    (h : lists[i]? = some xs) :
    (lists.take (i + 1)).flatten.length = (lists.take i).flatten.length + xs.length := by
  rw [List.take_add_one, h, Option.toList_some, List.flatten_append, List.length_append,
    List.flatten_singleton]

theorem getElem?_ranges_concat (lists : List (List α)) (i : Nat) :
    (concat lists).2[i]? = (lists[i]?).map fun xs ↦
      ((lists.take i).flatten.length, (lists.take i).flatten.length + xs.length) := by
  induction lists using List.reverseRecOn with
  | nil => rfl
  | append_singleton lists xs ih =>
    rw [concat_append, Array.getElem?_push, size_ranges_concat, size_concat, ih]
    by_cases hi : i = lists.length
    · rw [if_pos hi, hi, List.getElem?_concat_length, List.take_left]
      rfl
    · rw [if_neg hi]
      by_cases hlt : i < lists.length
      · rw [List.getElem?_append_left hlt, List.take_append_of_le_length (Nat.le_of_lt hlt)]
      · have hle : (lists ++ [xs]).length ≤ i := by
          rw [List.length_append, List.length_singleton]
          omega
        rw [List.getElem?_eq_none (Nat.le_of_not_lt hlt), List.getElem?_eq_none hle]
        rfl

end Concat

variable {K : Type}

theorem edge?_pack (g : RoadGraph K) (edge : EdgeId) : (pack g).edge? edge = g.edge? edge := rfl

theorem position?_pack (g : RoadGraph K) (node : NodeId) :
    (pack g).position? node = g.position? node :=
  Array.getElem?_map

theorem geometry?_pack (g : RoadGraph K) (e : EdgeView K) :
    geometry? (pack g) e = g.geometry? e := by
  have hrange : (pack g).geometry[e.edge]? = (g.pillars[e.edge]?).map fun xs ↦
      ((g.pillars.toList.take e.edge).flatten.length,
        (g.pillars.toList.take e.edge).flatten.length + xs.length) := by
    rw [← @Array.getElem?_toList _ g.pillars]
    exact getElem?_ranges_concat g.pillars.toList e.edge
  unfold geometry? RoadGraph.geometry?
  rw [position?_pack, position?_pack, hrange]
  cases hpoints : g.pillars[e.edge]? with
  | none => rfl
  | some xs =>
    have hlist : g.pillars.toList[e.edge]? = some xs := by
      rw [Array.getElem?_toList, hpoints]
    have hextract : ((pack g).points.extract (g.pillars.toList.take e.edge).flatten.length
        ((g.pillars.toList.take e.edge).flatten.length + xs.length)).toList = xs := by
      rw [← flatten_take_succ hlist]
      exact extract_concat hlist
    simp only [Option.map_some, Option.bind_eq_bind, Option.bind_some, hextract]

/-- The graph answers every question about nodes, edges and points as a road graph does, also about
nodes and edges that there are not. -/
structure Represents (p : PackedGraph K) (g : RoadGraph K) : Prop where
  nodeCount_eq : p.positions.size = g.nodes.size
  edgeCount_eq : p.edges.size = g.edges.size
  edge?_eq : ∀ edge, p.edge? edge = g.edge? edge
  position?_eq : ∀ node, p.position? node = g.position? node
  edges?_eq : ∀ node d, p.edges? node d = g.edges? node d
  geometry?_eq : ∀ e, p.geometry? e = g.geometry? e

theorem represents_pack (g : RoadGraph K) : (pack g).Represents g where
  nodeCount_eq := Array.size_map
  edgeCount_eq := rfl
  edge?_eq := edge?_pack g
  position?_eq := position?_pack g
  edges?_eq := edges?_pack g
  geometry?_eq := geometry?_pack g

variable [Scalar K]

theorem Represents.network_eq {p : PackedGraph K} {g : RoadGraph K} (h : p.Represents g) :
    p.network = g.network := by
  unfold network RoadGraph.network
  rw [h.nodeCount_eq, h.edgeCount_eq]
  simp only [h.position?_eq, h.edges?_eq, h.geometry?_eq]

/-- A road graph and what it is packed into can be told apart neither by a question about them nor
by a search: set up alike, every search gives the same answer after as many visits. -/
theorem represents_and_answers_alike {Q M σ : Type} [PriorityQueue Q K] [BestMap M]
    (g : RoadGraph K) :
    (pack g).Represents g ∧ ∀ s : SearchSettings K,
      let packed : SearchSettings K := { s with network := (pack g).network }
      let road : SearchSettings K := { s with network := g.network }
      (∀ (h : Network K → Estimate K) (source target : NodeId),
        packed.bestRoute Q M (h packed.network) source target =
          road.bestRoute Q M (h road.network) source target) ∧
      (∀ (source : NodeId) (targets : List NodeId),
        packed.bestRoutes Q M source targets = road.bestRoutes Q M source targets) ∧
      (∀ (d : Direction) (source target : NodeId) (t : Instant),
        packed.bestRouteAt Q M d source target t = road.bestRouteAt Q M d source target t) ∧
      ∀ (h : Network K → Estimate K) (policy : PruningPolicy K σ) (offset : K)
        (q : Bidirectional.Query),
        (Bidirectional.Method.mk packed (h packed.network) policy offset).bestRoute Q M q =
          (Bidirectional.Method.mk road (h road.network) policy offset).bestRoute Q M q := by
  have hrepresents := represents_pack g
  refine ⟨hrepresents, fun s ↦ ?_⟩
  rw [hrepresents.network_eq]
  exact ⟨fun _ _ _ ↦ rfl, fun _ _ ↦ rfl, fun _ _ _ _ ↦ rfl, fun _ _ _ _ ↦ rfl⟩

end RoadRouting.PackedGraph
