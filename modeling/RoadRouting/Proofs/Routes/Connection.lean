import RoadRouting.Proofs.Network.Views
import RoadRouting.Search.Route
import Mathlib.Data.List.Chain

namespace RoadRouting

variable {K : Type} {stored : EdgeId → Option (StoredEdge K)}

namespace StoredEdge

/-- The view leads from one end node of the stored edge to the other one. -/
def Spans (s : StoredEdge K) (e : EdgeView K) : Prop :=
  e.base = s.base ∧ e.adj = s.adj ∨ e.base = s.adj ∧ e.adj = s.base

theorem Spans.reversed {s : StoredEdge K} {e : EdgeView K} (h : s.Spans e) :
    s.Spans e.reversed := by
  rcases h with ⟨hbase, hadj⟩ | ⟨hbase, hadj⟩
  · exact .inr ⟨hadj, hbase⟩
  · exact .inl ⟨hadj, hbase⟩

theorem spans_view (s : StoredEdge K) (id : EdgeId) (u : NodeId) : s.Spans (s.view id u) := by
  unfold view
  split
  · exact .inl ⟨rfl, rfl⟩
  · exact .inr ⟨rfl, rfl⟩

end StoredEdge

theorem Network.Shows.spans {n : Network K} (h : n.Shows stored) {u : NodeId} {d : Direction}
    {e : EdgeView K} (he : e ∈ n.edges u d) : ∃ s, stored e.edge = some s ∧ s.Spans e := by
  obtain ⟨id, s, hs, _, rfl, _⟩ := h.mem_edges.1 he
  refine ⟨s, ?_, s.spans_view id u⟩
  rw [s.edge_view, hs]

/-- Edges that are traveled one after the other from a node to another one. -/
structure Leads (stored : EdgeId → Option (StoredEdge K)) (source : NodeId)
    (es : List (EdgeView K)) (target : NodeId) : Prop where
  spans : ∀ e ∈ es, ∃ s, stored e.edge = some s ∧ s.Spans e
  chain : es.IsChain fun e e' ↦ e.adj = e'.base
  first : ∀ e ∈ es.head?, e.base = source
  last : (es.getLast?.map (·.adj)).getD source = target

theorem leads_nil (u : NodeId) : Leads stored u [] u :=
  ⟨nofun, .nil, nofun, rfl⟩

theorem Leads.append {u v w : NodeId} {es es' : List (EdgeView K)} (h : Leads stored u es v)
    (h' : Leads stored v es' w) : Leads stored u (es ++ es') w where
  spans e he := (List.mem_append.1 he).elim (h.spans e) (h'.spans e)
  chain := by
    refine List.isChain_append.2 ⟨h.chain, h'.chain, fun e he e' he' ↦ ?_⟩
    have hlast := h.last
    rw [Option.mem_def.1 he] at hlast
    exact hlast.trans (h'.first e' he').symm
  first e he := by
    cases es with
    | nil => exact (h'.first e he).trans h.last.symm
    | cons => exact h.first e he
  last := by
    have hlast := h.last
    have hlast' := h'.last
    cases hes' : es'.getLast? with
    | none =>
      rw [hes'] at hlast'
      rw [List.getLast?_append, hes', Option.none_or, hlast]
      exact hlast'
    | some e =>
      rw [hes'] at hlast'
      rw [List.getLast?_append, hes']
      exact hlast'

namespace Route

/-- The nodes and the edges of a route are a connected walk between two nodes. -/
structure Connects (r : Route K) (stored : EdgeId → Option (StoredEdge K))
    (source target : NodeId) : Prop where
  length_nodes : r.nodes.length = r.edges.length + 1
  first : r.nodes.head? = some source
  last : r.nodes.getLast? = some target
  base : ∀ {i : Nat} {e : EdgeView K}, r.edges[i]? = some e → r.nodes[i]? = some e.base
  adj : ∀ {i : Nat} {e : EdgeView K}, r.edges[i]? = some e → r.nodes[i + 1]? = some e.adj
  spans : ∀ e ∈ r.edges, ∃ s, stored e.edge = some s ∧ s.Spans e

theorem nodesAlong_eq {source : NodeId} {es : List (EdgeView K)}
    (h : ∀ e ∈ es.head?, e.base = source) : nodesAlong source es = source :: es.map (·.adj) := by
  cases es with
  | nil => rfl
  | cons e es => exact congrArg (· :: (e :: es).map (·.adj)) (h e rfl)

theorem connects_of_leads [Scalar K] {source target : NodeId} {es : List (EdgeView K)}
    (h : Leads stored source es target) (weight : K) (t : Duration) :
    (ofEdgesWithDuration source es weight t).Connects stored source target := by
  have hnodes : (ofEdgesWithDuration source es weight t).nodes = source :: es.map (·.adj) :=
    nodesAlong_eq h.first
  refine ⟨?_, ?_, ?_, ?_, ?_, h.spans⟩
  · rw [hnodes, List.length_cons, List.length_map]
    rfl
  · rw [hnodes, List.head?_cons]
  · rw [hnodes, List.getLast?_cons, List.getLast?_map, h.last]
  · intro i e he
    change es[i]? = some e at he
    rw [hnodes]
    cases i with
    | zero =>
      rw [← List.head?_eq_getElem?] at he
      rw [List.getElem?_cons_zero, h.first e he]
    | succ i =>
      obtain ⟨hi, rfl⟩ := List.getElem?_eq_some_iff.1 he
      rw [List.getElem?_cons_succ, List.getElem?_map, List.getElem?_eq_getElem (by omega)]
      exact congrArg some (List.isChain_iff_getElem.1 h.chain i hi)
  · intro i e he
    change es[i]? = some e at he
    rw [hnodes, List.getElem?_cons_succ, List.getElem?_map, he]
    rfl

end Route

end RoadRouting
