import RoadRouting.Proofs.Network.Listing

namespace RoadRouting

open Scalar (Exact)

variable {K : Type}

/-- An edge traveled from one of its ends to the other. -/
structure Traversal where
  edge : EdgeId
  start : NodeId
  finish : NodeId
  deriving DecidableEq, Repr

/-- How a search in a direction travels an edge that it explores from its base. -/
def EdgeView.traversal (e : EdgeView K) : Direction → Traversal
  | .forward => ⟨e.edge, e.base, e.adj⟩
  | .backward => ⟨e.edge, e.adj, e.base⟩

@[simp] theorem EdgeView.traversal_fromEnd (e : EdgeView K) (d : Direction) :
    e.fromEnd.traversal d.opposite = e.traversal d := by
  cases d <;> simp [traversal, Direction.opposite]

theorem EdgeView.edge_and_base_of_traversal {e e' : EdgeView K} {d : Direction}
    (ht : e.traversal d = e'.traversal d) : e.edge = e'.edge ∧ e.base = e'.base := by
  cases d
  · exact ⟨congrArg Traversal.edge ht, congrArg Traversal.start ht⟩
  · exact ⟨congrArg Traversal.edge ht, congrArg Traversal.finish ht⟩

namespace Network.Shows

variable {n : Network K} {stored : EdgeId → Option (StoredEdge K)} (h : n.Shows stored)
  {u v : NodeId} {d : Direction} {e e' : EdgeView K}
include h

theorem eq_of_traversal (he : e ∈ n.edges u d) (he' : e' ∈ n.edges v d)
    (ht : e.traversal d = e'.traversal d) : e = e' := by
  obtain ⟨hid, hbase⟩ := EdgeView.edge_and_base_of_traversal ht
  rw [h.base_eq he, h.base_eq he'] at hbase
  subst hbase
  exact h.eq_of_edge_eq he he' hid

variable {m : TraversalMode} (hm : m ≠ .nodeBased)
include hm

theorem key_eq_iff_traversal (he : e ∈ n.edges u d) (he' : e' ∈ n.edges v d) :
    m.key e d = m.key e' d ↔ e.traversal d = e'.traversal d := by
  constructor
  · intro hk
    rw [h.eq_of_key hm he he' hk]
  · intro ht
    rw [h.eq_of_traversal he he' ht]

theorem key_eq_opposite_iff (he : e ∈ n.edges u d) (he' : e' ∈ n.edges v d.opposite) :
    m.key e d = m.key e' d.opposite ↔
      e.traversal d = e'.traversal d.opposite ∧ e.isLoop = false := by
  constructor
  · intro hk
    obtain ⟨hloop, rfl⟩ := h.eq_fromEnd_of_key hm he he' hk
    exact ⟨(e.traversal_fromEnd d).symm, hloop⟩
  · rintro ⟨ht, hloop⟩
    -- the other end lists the traversal as well, and only once
    have hother : e' = e.fromEnd :=
      h.eq_of_traversal he' (h.fromEnd_mem he) (ht.symm.trans (e.traversal_fromEnd d).symm)
    rw [hother, key_fromEnd hm hloop]

theorem exists_key_eq_opposite_iff (he : e ∈ n.edges u d) :
    (∃ v, ∃ e' ∈ n.edges v d.opposite, m.key e d = m.key e' d.opposite) ↔ e.isLoop = false := by
  constructor
  · rintro ⟨v, e', he', hk⟩
    exact (h.eq_fromEnd_of_key hm he he' hk).1
  · intro hloop
    exact ⟨e.adj, e.fromEnd, h.fromEnd_mem he, (key_fromEnd hm hloop).symm⟩

end Network.Shows

namespace RoadGraph

/-- In every graph that can be built, packed or not, two edges explored in the same direction have
the same key exactly if they are the same traversal. Explored in different directions they have it
exactly if they are the same traversal and no loop, so searches from both ends can meet on every
edge but a loop. -/
theorem keys_stand_for_traversals [Scalar K] {g : RoadGraph K} (h : g.IsBuilt) {m : TraversalMode}
    (hm : m ≠ .nodeBased) :
    ∀ n ∈ [g.network, (PackedGraph.pack g).network],
      (∀ u v, ∀ f ∈ n.edges u .forward, ∀ b ∈ n.edges v .backward,
        m.key f .forward = m.key b .backward ↔
          f.traversal .forward = b.traversal .backward ∧ f.isLoop = false) ∧
      (∀ d u v, ∀ e ∈ n.edges u d, ∀ e' ∈ n.edges v d,
        m.key e d = m.key e' d ↔ e.traversal d = e'.traversal d) ∧
      ∀ d u, ∀ e ∈ n.edges u d,
        (∃ v, ∃ e' ∈ n.edges v d.opposite, m.key e d = m.key e' d.opposite) ↔ e.isLoop = false := by
  intro n hn
  rw [(PackedGraph.represents_pack g).network_eq] at hn
  obtain rfl : n = g.network := by simpa using hn
  have hshows := h.isWired.shows
  refine ⟨fun u v f hf b hb ↦ ?_, fun d u v e he e' he' ↦ ?_, fun d u e he ↦ ?_⟩
  · exact hshows.key_eq_opposite_iff hm hf hb
  · exact hshows.key_eq_iff_traversal hm he he'
  · exact hshows.exists_key_eq_opposite_iff hm he

theorem keys_stand_for_traversals_openRoads :
    let m : TraversalMode := .edgeBasedWithUTurns
    let n := (PackedGraph.pack openRoads).network
    let out := (StoredEdge.twoWay 0 1 (.finite 5) (.finite 36)).view 0 0
    let beside := (StoredEdge.oneWay 0 1 (.finite 8) (.finite 36)).view 3 0
    openRoads.IsBuilt ∧ m ≠ .nodeBased ∧ out ∈ n.edges 0 .forward ∧ beside ∈ n.edges 0 .forward ∧
      out.reversed ∈ n.edges 1 .forward ∧ out.reversed ∈ n.edges 1 .backward ∧
      m.key out .forward = m.key out.reversed .backward ∧
      m.key out.reversed .forward ≠ m.key out.reversed .backward ∧
      m.key out .forward ≠ m.key beside .forward := by
  intro m n out beside
  have hbuilt : openRoads.IsBuilt := isBuilt_ofEdges 3 _
  have hm : m ≠ .nodeBased := nofun
  have hn : n ∈ [openRoads.network, n] := List.mem_cons_of_mem _ (List.mem_singleton.2 rfl)
  have hout : out ∈ n.edges 0 .forward := by decide +kernel
  have hbeside : beside ∈ n.edges 0 .forward := by decide +kernel
  have hback : out.reversed ∈ n.edges 1 .forward := by decide +kernel
  have hin : out.reversed ∈ n.edges 1 .backward := by decide +kernel
  obtain ⟨hmeet, hapart, -⟩ := keys_stand_for_traversals hbuilt hm n hn
  refine ⟨hbuilt, hm, hout, hbeside, hback, hin, ?_, ?_, ?_⟩
  · exact (hmeet 0 1 out hout out.reversed hin).2 ⟨rfl, rfl⟩
  · exact mt (hmeet 1 1 out.reversed hback out.reversed hin).1 (by decide)
  · exact mt (hapart .forward 0 0 out hout beside hbeside).1 (by decide)

def ring : RoadGraph Exact := ofEdges 1 [.twoWay 0 0 (.finite 10) (.finite 36)]

/-- The loop is listed both as leading out of its node and as leading into it, and is one traversal,
but its keys differ. -/
theorem keys_differ_on_ring :
    let loop := (StoredEdge.twoWay 0 0 (.finite 10) (.finite 36)).view 0 0
    ring.IsBuilt ∧ loop ∈ ring.network.edges 0 .forward ∧ loop ∈ ring.network.edges 0 .backward ∧
      loop.traversal .forward = loop.traversal .backward ∧
      TraversalMode.edgeBased.key loop .forward = 0 ∧
      TraversalMode.edgeBased.key loop .backward = 1 :=
  ⟨isBuilt_ofEdges 1 _, by decide +kernel, by decide +kernel, rfl, rfl, rfl⟩

end RoadGraph

end RoadRouting
