import RoadRouting.Proofs.Network.Packed
import RoadRouting.Scalar
import Mathlib.Data.List.Sort

namespace RoadRouting

open Scalar (Exact)

variable {K : Type}

/-- Whether an edge can be traveled from a node, or to it. A loop can be if it is open the way it is
stored. -/
def StoredEdge.serves (s : StoredEdge K) (u : NodeId) : Direction → Bool
  | .forward => s.base = u && s.access.along || s.adj = u && s.base ≠ s.adj && s.access.against
  | .backward => s.adj = u && s.access.along || s.base = u && s.base ≠ s.adj && s.access.against

theorem StoredEdge.serves_iff (s : StoredEdge K) (id : EdgeId) (u : NodeId) (d : Direction) :
    s.serves u d = true ↔ (u = s.base ∨ u = s.adj) ∧ (s.view id u).isOpen d = true := by
  have hstored : (s.stored id).isLoop = decide (s.base = s.adj) := rfl
  have hloop := (s.stored id).isLoop_reversed
  unfold view
  split
  · next hu => cases d <;> grind [serves, stored, EdgeView.isOpen, EdgeView.reading, Sides.get]
  · next hu =>
    cases d <;>
      grind [serves, stored, EdgeView.isOpen, EdgeView.reading, EdgeView.reversed, Sides.get,
        Sides.swap]

theorem Network.Shows.mem_forward_iff {n : Network K} {stored : EdgeId → Option (StoredEdge K)}
    (h : n.Shows stored) {v : EdgeView K} {u w : NodeId} (hloop : v.isLoop = false) :
    v ∈ n.edges u .forward ∧ v.adj = w ↔ v.reversed ∈ n.edges w .backward ∧ v.base = u := by
  have hreversed := EdgeView.fromEnd_of_not_isLoop hloop
  constructor
  · rintro ⟨hv, rfl⟩
    exact ⟨hreversed ▸ h.fromEnd_mem hv, h.base_eq hv⟩
  · rintro ⟨hv, rfl⟩
    have hback := h.fromEnd_mem (hreversed.symm ▸ hv)
    rw [EdgeView.fromEnd_fromEnd, EdgeView.adj_fromEnd] at hback
    exact ⟨hback, h.base_eq hv⟩

namespace RoadGraph

/-- The views from a node of the edges that can be traveled from it, or to it, in the order in which
the edges were added. -/
def served (g : RoadGraph K) (u : NodeId) (d : Direction) : List (EdgeView K) :=
  (List.range g.edges.size).filterMap fun id ↦
    ((g.edge? id).filter (·.serves u d)).map (·.view id u)

theorem IsWired.lt_of_mem_incident {g : RoadGraph K} (h : g.IsWired) {u : NodeId} {n : Node K}
    (hn : g.nodes[u]? = some n) {id : EdgeId} (hid : id ∈ n.incident) : id < g.edges.size := by
  obtain ⟨s, hs, _⟩ := (h.mem_incident hn).1 hid
  exact (Array.getElem?_eq_some_iff.1 hs).1

theorem IsBuilt.setAccess [Scalar K] {g g' : RoadGraph K} (h : g.IsBuilt) {edge : EdgeId}
    {access : Sides Bool} (hg : g.setAccess? edge access = some g') : g'.IsBuilt := by
  refine h.modifyEdge ?_ hg
  exact fun _ ↦ ⟨rfl, rfl⟩

section Built

variable [Scalar K] {g : RoadGraph K} (h : g.IsBuilt)
include h

theorem IsBuilt.pairwise_incident {u : NodeId} {n : Node K} (hn : g.nodes[u]? = some n) :
    n.incident.toList.Pairwise (· < ·) := by
  induction h generalizing n with
  | empty => cases hn
  | withNodes count =>
    rw [RoadGraph.withNodes, Array.getElem?_replicate] at hn
    split at hn
    · cases hn
      exact .nil
    · cases hn
  | addNode p _ ih =>
    rw [RoadGraph.addNode, Array.getElem?_push] at hn
    split at hn
    · cases hn
      exact .nil
    · exact ih hn
  | setPosition _ hg ih =>
    rw [setPosition?_eq_some hg, Array.getElem?_modify] at hn
    grind
  | addEdge hbuilt hg ih =>
    obtain ⟨_, _, _, _, hnodes⟩ := addEdge?_eq_some hg
    obtain ⟨n₀, hn₀, hincident⟩ := hnodes hn
    rw [hincident]
    split
    · rw [Array.toList_push, List.pairwise_append]
      refine ⟨ih hn₀, List.pairwise_singleton _ _, fun id hid id' hid' ↦ ?_⟩
      rw [List.mem_singleton.1 hid']
      exact hbuilt.isWired.lt_of_mem_incident hn₀ (Array.mem_toList_iff.1 hid)
    · exact ih hn₀
  | setPillars _ hg ih =>
    rw [setPillars?_eq_some hg] at hn
    exact ih hn
  | modifyEdge _ _ hg ih =>
    rw [modifyEdge?_eq_some hg] at hn
    exact ih hn

theorem IsBuilt.incident_eq {u : NodeId} {n : Node K} (hn : g.nodes[u]? = some n) :
    n.incident.toList = (List.range g.edges.size).filter fun id ↦ n.incident.contains id := by
  refine (h.pairwise_incident hn).eq_of_mem_iff (List.pairwise_lt_range.filter _) fun id ↦ ?_
  simp only [Array.mem_toList_iff, List.mem_filter, List.mem_range, Array.contains_iff_mem]
  exact ⟨fun hid ↦ ⟨h.isWired.lt_of_mem_incident hn hid, hid⟩, And.right⟩

theorem IsBuilt.edges?_eq {u : NodeId} (hu : u < g.nodes.size) (d : Direction) :
    g.edges? u d = some (g.served u d) := by
  have hn := Array.getElem?_eq_getElem hu
  rw [edges?, hn, Option.map_some, incidentViews, h.incident_eq hn, List.filterMap_filter,
    List.filter_filterMap]
  refine congrArg some (List.filterMap_congr fun id _ ↦ ?_)
  have hmem : id ∈ g.nodes[u].incident ↔ _ := h.isWired.mem_incident hn
  cases hs : g.edges[id]? with
  | none => simp [edge?, hs]
  | some s =>
    have hserves := s.serves_iff id u d
    simp only [hs, Option.some.injEq, exists_eq_left'] at hmem
    simp only [edge?, hs, Array.contains_iff_mem, hmem, Option.map_some]
    by_cases hend : u = s.base ∨ u = s.adj
    · simp [hend, Option.filter, hserves]
    · simp [hend, Option.filter, hserves]

omit [Scalar K] h in
theorem served_addEdge {g' : RoadGraph K} {s : StoredEdge K} (hg : g.addEdge? s = some g')
    (u : NodeId) (d : Direction) :
    g'.served u d = g.served u d ++ if s.serves u d then [s.view g.edges.size u] else [] := by
  obtain ⟨_, _, _, hedges, _⟩ := addEdge?_eq_some hg
  have hlast : g'.edge? g.edges.size = some s := by simp [edge?, hedges]
  rw [served, hedges, Array.size_push, List.range_succ, List.filterMap_append]
  congr 1
  · refine List.filterMap_congr fun id hid ↦ ?_
    have hne : id ≠ g.edges.size := (List.mem_range.1 hid).ne
    simp [edge?, hedges, Array.getElem?_push, hne]
  · cases hs : s.serves u d <;> simp [hlast, hs, Option.filter]

/-- Every graph that can be built, packed or not, lists each edge that serves a node and a direction
once, in the order in which the edges were added; and what leads out of one end of an edge leads into
the other. -/
theorem lists_edges_in_order :
    (∀ u d, u < g.nodes.size → g.edges? u d = some (g.served u d) ∧
      (PackedGraph.pack g).edges? u d = some (g.served u d)) ∧
    (∀ s g', g.addEdge? s = some g' → ∀ u d,
      g'.served u d = g.served u d ++ if s.serves u d then [s.view g.edges.size u] else []) ∧
    ∀ n ∈ [g.network, (PackedGraph.pack g).network], ∀ v u w, v.isLoop = false →
      (v ∈ n.edges u .forward ∧ v.adj = w ↔ v.reversed ∈ n.edges w .backward ∧ v.base = u) := by
  have hpack := PackedGraph.represents_pack g
  refine ⟨fun u d hu ↦ ?_, fun s g' hg ↦ served_addEdge hg, fun n hn v u w hloop ↦ ?_⟩
  · rw [hpack.edges?_eq]
    exact ⟨h.edges?_eq hu d, h.edges?_eq hu d⟩
  · rw [hpack.network_eq] at hn
    obtain rfl : n = g.network := by simpa using hn
    exact h.isWired.shows.mem_forward_iff hloop

end Built

def openRoads : RoadGraph Exact :=
  ofEdges 3 [.twoWay 0 1 (.finite 5) (.finite 36), .oneWay 2 0 (.finite 6) (.finite 36),
    .oneWay 0 0 (.finite 7) (.finite 36), .oneWay 0 1 (.finite 8) (.finite 36)]

def closedRoad : RoadGraph Exact := (openRoads.setAccess? 0 ⟨false, true⟩).getD .empty

theorem lists_edges_in_order_closedRoad :
    closedRoad.IsBuilt ∧ (closedRoad.edges? 0 .forward).map (·.map (·.edge)) = some [2, 3] ∧
      (closedRoad.edges? 0 .backward).map (·.map (·.edge)) = some [0, 1, 2] ∧
      closedRoad.edges? 0 .backward = some (closedRoad.served 0 .backward) := by
  have hclosed : openRoads.setAccess? 0 ⟨false, true⟩ = some closedRoad := rfl
  have hbuilt : closedRoad.IsBuilt := (isBuilt_ofEdges 3 _).setAccess hclosed
  have hsize : 0 < closedRoad.nodes.size := by decide +kernel
  exact ⟨hbuilt, by decide +kernel, by decide +kernel,
    ((lists_edges_in_order hbuilt).1 0 .backward hsize).1⟩

end RoadGraph

end RoadRouting
