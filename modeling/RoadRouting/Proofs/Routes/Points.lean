import RoadRouting.Proofs.Network.Packed
import RoadRouting.Proofs.Routes.Returned
import Mathlib.Data.List.SplitBy

namespace RoadRouting

variable {K : Type}

namespace Position

variable [Scalar K]

def IsFinite (p : Position K) : Prop :=
  Scalar.isFinite p.x = true ∧ Scalar.isFinite p.y = true

instance (p : Position K) : Decidable p.IsFinite := inferInstanceAs (Decidable (_ ∧ _))

variable [Scalar.IsSigned K] {p q : Position K}

theorem beq_iff : (p == q) = true ↔ (p.x ≤ q.x ∧ q.x ≤ p.x) ∧ p.y ≤ q.y ∧ q.y ≤ p.y := by
  rw [← Scalar.IsSigned.beq_iff, ← Scalar.IsSigned.beq_iff, ← Bool.and_eq_true]
  rfl

instance : PartialEquivBEq (Position K) where
  symm h := by
    obtain ⟨⟨hx, hx'⟩, hy, hy'⟩ := beq_iff.1 h
    exact beq_iff.2 ⟨⟨hx', hx⟩, hy', hy⟩
  trans h h' := by
    obtain ⟨⟨hx, hx'⟩, hy, hy'⟩ := beq_iff.1 h
    obtain ⟨⟨kx, kx'⟩, ky, ky'⟩ := beq_iff.1 h'
    exact beq_iff.2 ⟨⟨Scalar.IsOrdered.le_trans hx kx, Scalar.IsOrdered.le_trans kx' hx'⟩,
      Scalar.IsOrdered.le_trans hy ky, Scalar.IsOrdered.le_trans ky' hy'⟩

theorem IsFinite.beq_self (h : p.IsFinite) : (p == p) = true := by
  have hle : ∀ {x : K}, Scalar.isFinite x = true → x ≤ x := by
    intro x hx
    have hnan : Scalar.isNaN x = false := by
      rw [Scalar.isFinite, Bool.and_eq_true, Bool.not_eq_true'] at hx
      exact hx.1
    exact (Scalar.IsOrdered.le_total hnan hnan).elim id id
  exact beq_iff.2 ⟨⟨hle h.1, hle h.1⟩, hle h.2, hle h.2⟩

end Position

namespace Route

variable [Scalar K]

/-- The first point of every run of equal points. -/
def collapse (points : List (Position K)) : List (Position K) :=
  (points.splitBy (· == ·)).filterMap List.head?

theorem isChain_joinPoints (points : List (Position K)) :
    (joinPoints points).IsChain fun p q ↦ (p == q) = false := by
  refine List.isChain_reverse.2 (List.foldlRecOn (motive := fun kept : List (Position K) ↦
    kept.IsChain fun p q ↦ (q == p) = false) points addPoint .nil fun kept hkept p _ ↦ ?_)
  cases kept with
  | nil => exact .singleton p
  | cons q kept =>
    rw [addPoint]
    split
    · exact hkept
    · next hne => exact .cons_cons (Bool.not_eq_true _ ▸ hne) hkept

theorem head?_joinPoints (p : Position K) (points : List (Position K)) :
    (joinPoints (p :: points)).head? = some p := by
  rw [joinPoints, List.head?_reverse, List.foldl_cons]
  refine List.foldlRecOn (motive := fun kept : List (Position K) ↦ kept.getLast? = some p) points
    addPoint rfl fun kept hkept q _ ↦ ?_
  cases kept with
  | nil => cases hkept
  | cons first kept =>
    rw [addPoint]
    split
    · exact hkept
    · exact hkept

theorem getLast?_joinPoints (points : List (Position K)) {p : Position K} (hp : (p == p) = true) :
    ∃ q, (joinPoints (points ++ [p])).getLast? = some q ∧ (q == p) = true := by
  rw [joinPoints, List.getLast?_reverse, List.foldl_append, List.foldl_cons, List.foldl_nil]
  cases points.foldl addPoint [] with
  | nil => exact ⟨p, rfl, hp⟩
  | cons q kept =>
    rw [addPoint]
    split
    · next heq => exact ⟨q, rfl, heq⟩
    · exact ⟨p, rfl, hp⟩

theorem foldl_addPoint_of_beq {p : Position K} {kept points : List (Position K)}
    (h : ∀ q ∈ points, (p == q) = true) : points.foldl addPoint (p :: kept) = p :: kept := by
  induction points with
  | nil => rfl
  | cons q points ih =>
    rw [List.foldl_cons, addPoint, if_pos (h q List.mem_cons_self)]
    exact ih fun q hq ↦ h q (List.mem_cons_of_mem _ hq)

variable [Scalar.IsSigned K]

theorem beq_of_isChain {p q : Position K} {points : List (Position K)}
    (h : (p :: points).IsChain fun p q ↦ (p == q) = true) (hq : q ∈ points) : (p == q) = true := by
  have : IsTrans (Position K) fun p q ↦ (p == q) = true := ⟨fun _ _ _ ↦ BEq.trans⟩
  exact h.rel_cons hq

theorem beq_eq_false_of_seam {p q : Position K} {run run' : List (Position K)}
    (hrun : (p :: run).IsChain fun p q ↦ (p == q) = true)
    (hseam : ∃ ha hb, ((p :: run).getLast ha == (q :: run').head hb) = false) :
    (p == q) = false := by
  obtain ⟨ha, _, hseam⟩ := hseam
  rw [← Bool.not_eq_true] at hseam ⊢
  refine fun heq ↦ hseam ?_
  rcases List.mem_cons.1 (List.getLast_mem ha) with hlast | hlast
  · rw [hlast]
    exact heq
  · exact BEq.trans (BEq.symm (beq_of_isChain hrun hlast)) heq

theorem foldl_addPoint_flatten {runs : List (List (Position K))} {kept : List (Position K)}
    (hne : [] ∉ runs) (hruns : ∀ run ∈ runs, run.IsChain fun p q ↦ (p == q) = true)
    (hseams : runs.IsChain fun a b ↦ ∃ ha hb, (a.getLast ha == b.head hb) = false)
    (hkept : ∀ p ∈ kept.head?, ∀ run ∈ runs.head?, ∀ q ∈ run.head?, (p == q) = false) :
    runs.flatten.foldl addPoint kept = (runs.filterMap List.head?).reverse ++ kept := by
  induction runs generalizing kept with
  | nil => rfl
  | cons run runs ih =>
    cases run with
    | nil => exact absurd List.mem_cons_self hne
    | cons p run =>
      have hrun := hruns _ List.mem_cons_self
      have hfirst : addPoint kept p = p :: kept := by
        cases kept with
        | nil => rfl
        | cons q kept =>
          rw [addPoint, if_neg (Bool.not_eq_true _ ▸ hkept q rfl _ rfl p rfl)]
      have hnext : ∀ q ∈ (p :: kept).head?, ∀ run' ∈ runs.head?, ∀ q' ∈ run'.head?,
          (q == q') = false := by
        rintro _ ⟨⟩ run' hrun' q' hq'
        have hseam := hseams.rel_head? hrun'
        cases run' with
        | nil => cases hq'
        | cons _ run' =>
          cases hq'
          exact beq_eq_false_of_seam hrun hseam
      rw [List.flatten_cons, List.foldl_append, List.foldl_cons, hfirst,
        foldl_addPoint_of_beq fun q hq ↦ beq_of_isChain hrun hq,
        ih (mt (List.mem_cons_of_mem _) hne) (fun run' h ↦ hruns run' (List.mem_cons_of_mem _ h))
          hseams.tail hnext]
      simp

theorem joinPoints_eq_collapse (points : List (Position K)) :
    joinPoints points = collapse points := by
  have hjoin : (points.splitBy (· == ·)).flatten.foldl addPoint [] =
      (collapse points).reverse ++ [] :=
    foldl_addPoint_flatten (List.nil_notMem_splitBy _ points)
      (fun _ ↦ List.isChain_of_mem_splitBy) (List.isChain_getLast_head_splitBy _ points) nofun
  rw [List.flatten_splitBy] at hjoin
  rw [joinPoints, hjoin, List.append_nil, List.reverse_reverse]

end Route

def EdgeView.IsOf (e : EdgeView K) (stored : EdgeId → Option (StoredEdge K)) : Prop :=
  ∃ id s, stored id = some s ∧ (e = s.stored id ∨ e = (s.stored id).reversed)

theorem Network.Shows.isOf {n : Network K} {stored : EdgeId → Option (StoredEdge K)}
    (h : n.Shows stored) {u : NodeId} {e : EdgeView K}
    (he : e ∈ n.edges u .forward ∨ e.reversed ∈ n.edges u .backward) : e.IsOf stored := by
  have hview : ∀ {id} {s : StoredEdge K},
      s.view id u = s.stored id ∨ s.view id u = (s.stored id).reversed := by
    intro id s
    unfold StoredEdge.view
    split
    · exact .inl rfl
    · exact .inr rfl
  rcases he with he | he
  · obtain ⟨id, s, hs, _, rfl, _⟩ := h.mem_edges.1 he
    exact ⟨id, s, hs, hview⟩
  · obtain ⟨id, s, hs, _, heq, _⟩ := h.mem_edges.1 he
    rw [← e.reversed_reversed, heq]
    refine ⟨id, s, hs, hview.symm.imp (fun hrev ↦ ?_) (congrArg EdgeView.reversed)⟩
    rw [hrev, EdgeView.reversed_reversed]

namespace RoadGraph

def lineFrom? (g : RoadGraph K) (edge : EdgeId) (start : NodeId) : Option (List (Position K)) := do
  let s ← g.edge? edge
  let base ← g.position? s.base
  let adj ← g.position? s.adj
  let inner ← g.pillars[edge]?
  if start = s.base then return base :: inner ++ [adj]
  else if start = s.adj then return adj :: inner.reverse ++ [base]
  else none

/-- The points are those of the edge from where it begins. A loop may be traveled either way. -/
def IsLine (g : RoadGraph K) (e : EdgeView K) (line : List (Position K)) : Prop :=
  ∃ points, g.lineFrom? e.edge e.base = some points ∧
    (line = points ∨ e.isLoop = true ∧ line = points.reverse)

variable [Scalar K] {g : RoadGraph K}

def bend (g : RoadGraph K) (edge : EdgeId) (points : List (Position K)) : RoadGraph K :=
  (g.setPillars? edge points).getD g

theorem IsBuilt.bend (hg : g.IsBuilt) (edge : EdgeId) (points : List (Position K)) :
    (g.bend edge points).IsBuilt := by
  unfold RoadGraph.bend
  cases hs : g.setPillars? edge points with
  | none => exact hg
  | some g' => exact hg.setPillars hs

theorem IsBuilt.size_pillars (hg : g.IsBuilt) : g.pillars.size = g.edges.size := by
  induction hg with
  | empty => rfl
  | withNodes count => rfl
  | addNode p _ ih => exact ih
  | setPosition _ hg ih =>
    rw [setPosition?_eq_some hg]
    exact ih
  | addEdge _ hg ih =>
    unfold addEdge? at hg
    split at hg
    · cases hg
      rw [Array.size_push, Array.size_push, ih]
    · cases hg
  | setPillars _ hg ih =>
    rw [setPillars?_eq_some hg]
    exact Array.size_setIfInBounds.trans ih
  | modifyEdge _ _ hg ih =>
    rw [modifyEdge?_eq_some hg]
    exact ih.trans Array.size_modify.symm

omit [Scalar K] in
theorem exists_position? {u : NodeId} (hu : u < g.nodes.size) : ∃ p, g.position? u = some p :=
  ⟨g.nodes[u].position, by rw [position?, Array.getElem?_eq_getElem hu, Option.map_some]⟩

theorem geometry_eq {e : EdgeView K} {base adj : Position K} {inner : List (Position K)}
    (hbase : g.position? e.base = some base) (hadj : g.position? e.adj = some adj)
    (hinner : g.pillars[e.edge]? = some inner) :
    g.network.geometry e = orientedPoints e base adj inner := by
  simp only [network, geometry?, hbase, hadj, hinner, Option.bind_eq_bind, Option.bind_some,
    Option.pure_def, Option.getD_some]

theorem IsBuilt.exists_line (hg : g.IsBuilt) {e : EdgeView K} (he : e.IsOf g.edge?) :
    ∃ start inner finish, g.position? e.base = some start ∧ g.position? e.adj = some finish ∧
      g.network.geometry e = start :: inner ++ [finish] ∧
      g.IsLine e (start :: inner ++ [finish]) := by
  obtain ⟨id, s, hs, he⟩ := he
  obtain ⟨base, hbase⟩ := exists_position? (hg.isWired.base_lt hs)
  obtain ⟨adj, hadj⟩ := exists_position? (hg.isWired.adj_lt hs)
  have hlt : id < g.pillars.size := hg.size_pillars ▸ (Array.getElem?_eq_some_iff.1 hs).1
  have hinner : g.pillars[id]? = some g.pillars[id] := Array.getElem?_eq_getElem hlt
  have hline : ∀ u, g.lineFrom? id u = if u = s.base then some (base :: g.pillars[id] ++ [adj])
      else if u = s.adj then some (adj :: g.pillars[id].reverse ++ [base]) else none := by
    intro u
    simp only [lineFrom?, hs, hbase, hadj, hinner, Option.bind_eq_bind, Option.bind_some,
      Option.pure_def]
  rcases he with rfl | rfl
  · exact ⟨base, g.pillars[id], adj, hbase, hadj, geometry_eq hbase hadj hinner, _,
      (hline _).trans (if_pos rfl), .inl rfl⟩
  · refine ⟨adj, g.pillars[id].reverse, base, hadj, hbase, geometry_eq hadj hbase hinner, ?_⟩
    by_cases hloop : s.adj = s.base
    · refine ⟨_, (hline _).trans (if_pos hloop), .inr ⟨decide_eq_true hloop, ?_⟩⟩
      simp [List.reverse_append]
    · exact ⟨_, (hline _).trans ((if_neg hloop).trans (if_pos rfl)), .inl rfl⟩

/-- Points along edges from a source to a target. Numbers can be equal without being the same, so
the last point need only equal the position of the target. -/
structure Draws (g : RoadGraph K) (source target : NodeId) (es : List (EdgeView K))
    (points : List (Position K)) : Prop where
  apart : points.IsChain fun p q ↦ (p == q) = false
  lines : ∃ lines, List.Forall₂ g.IsLine es lines ∧ points = Route.collapse lines.flatten
  ends : es ≠ [] → ∃ start finish last, g.position? source = some start ∧
    g.position? target = some finish ∧ points.head? = some start ∧ points.getLast? = some last ∧
    (last == finish) = true

section Draws

variable {source target : NodeId} {es : List (EdgeView K)}
variable (hg : g.IsBuilt) (hes : ∀ e ∈ es, e.IsOf g.edge?)
include hg hes

theorem IsBuilt.forall₂_isLine : List.Forall₂ g.IsLine es (es.map g.network.geometry) := by
  rw [List.forall₂_map_right_iff, List.forall₂_same]
  intro e he
  obtain ⟨_, _, _, _, _, hpoints, hline⟩ := hg.exists_line (hes e he)
  exact hpoints ▸ hline

variable (hleads : Leads g.edge? source es target) (hne : es ≠ [])
include hleads hne

theorem IsBuilt.exists_start : ∃ start, g.position? source = some start ∧
    (Route.joinPoints (es.flatMap g.network.geometry)).head? = some start := by
  obtain ⟨e, rest, rfl⟩ := List.exists_cons_of_ne_nil hne
  obtain ⟨start, _, _, hstart, _, hpoints, _⟩ := hg.exists_line (hes e List.mem_cons_self)
  refine ⟨start, hleads.first e rfl ▸ hstart, ?_⟩
  rw [List.flatMap_cons, hpoints]
  exact Route.head?_joinPoints start _

theorem IsBuilt.exists_finish (hfinite : ∀ p, g.position? target = some p → p.IsFinite)
    [Scalar.IsSigned K] : ∃ finish last, g.position? target = some finish ∧
      (Route.joinPoints (es.flatMap g.network.geometry)).getLast? = some last ∧
      (last == finish) = true := by
  obtain ⟨rest, e, rfl⟩ := (List.eq_nil_or_concat' es).resolve_left hne
  obtain ⟨start, inner, finish, _, hfinish, hpoints, _⟩ := hg.exists_line (hes e (by simp))
  have hlast := hleads.last
  rw [List.getLast?_concat] at hlast
  have hfinish : g.position? target = some finish := hlast ▸ hfinish
  obtain ⟨last, hlast, heq⟩ := Route.getLast?_joinPoints
    (rest.flatMap g.network.geometry ++ start :: inner) (hfinite finish hfinish).beq_self
  refine ⟨finish, last, hfinish, ?_, heq⟩
  rw [List.flatMap_append, List.flatMap_singleton, hpoints, ← List.append_assoc]
  exact hlast

end Draws

end RoadGraph

namespace SearchSettings

open Bidirectional (Method Query)
open Scalar (Exact)

section Drawn

variable [Scalar K] {Q M : Type} [PriorityQueue Q K] [BestMap M] [LawfulQueue Q]
variable [Scalar.IsSigned K] {s : SearchSettings K} {g : RoadGraph K} {q : Query} {r : Route K}

/-- No point of a route that is returned equals the one before it. The points are those of its edges
as they are stored and traveled, one for every run of equal ones, and unless it has no edges they
begin where the source is and end where the target is. -/
theorem draws_geometry (hg : g.IsBuilt)
    (hs : s.network = g.network ∨ s.network = (PackedGraph.pack g).network)
    (hfinite : ∀ u p, g.position? u = some p → p.IsFinite) (h : s.Returns Q M q r) :
    g.Draws q.source q.target r.edges (r.geometry s.network.geometry) := by
  have hn : s.network.Shows g.edge? := hg.shows hs
  have hnetwork : s.network = g.network :=
    hs.elim id fun h ↦ h.trans (PackedGraph.represents_pack g).network_eq
  obtain ⟨hexplored, hleads⟩ := h.tells hn
  rw [Route.geometry, hnetwork]
  have hes : ∀ e ∈ r.edges, e.IsOf g.edge? := fun e he ↦
    (hexplored e he).elim fun _ he ↦ hn.isOf he
  refine ⟨Route.isChain_joinPoints _, ⟨_, hg.forall₂_isLine hes, ?_⟩, fun hne ↦ ?_⟩
  · rw [Route.joinPoints_eq_collapse, List.flatMap_def]
  · have hleads := hleads.resolve_left hne
    obtain ⟨start, hstart, hhead⟩ := hg.exists_start hes hleads hne
    obtain ⟨finish, last, hfinish, hlast⟩ := hg.exists_finish hes hleads hne (hfinite _)
    exact ⟨start, finish, last, hstart, hfinish, hhead, hlast⟩

end Drawn

def windingRoads : RoadGraph Exact :=
  ((RoadGraph.ofPlaces ([(0, 0), (2, 0), (5, 0), (5, 0)].map point)
    [.twoWay 0 1 (.finite 3) (.finite 36), .twoWay 2 1 (.finite 5) (.finite 36),
      .twoWay 2 3 (.finite 1) (.finite 36)]).bend 0 [point (1, 1)]).bend 1
        [point (4, 1), point (3, 1)]
where
  point (p : Rat × Rat) : Position Exact := ⟨.finite p.1, .finite p.2⟩

def windingSettings : SearchSettings Exact where
  network := (PackedGraph.pack windingRoads).network
  weighting := .shortest .stored
  mode := .edgeBased
  visitLimit := 50

theorem draws_geometry_windingRoads : ∃ r,
    windingSettings.Returns (SortedQueue Exact) SparseMap ⟨0, 3, none, none⟩ r ∧
      r.edges.map (fun e ↦ (e.edge, e.againstStorage)) = [(0, false), (1, true), (2, false)] ∧
      r.geometry windingSettings.network.geometry =
        [(0, 0), (1, 1), (2, 0), (3, 1), (4, 1), (5, 0)].map windingRoads.point ∧
      windingRoads.IsBuilt ∧ (∀ u p, windingRoads.position? u = some p → p.IsFinite) ∧
      windingRoads.Draws 0 3 r.edges (r.geometry windingSettings.network.geometry) := by
  obtain ⟨r, hfound, hr⟩ : ∃ r, ((Method.mk windingSettings .zero .never 0).bestRoute
      (SortedQueue Exact) SparseMap ⟨0, 3, none, none⟩).result = .ok (.found r) ∧
        (r.edges.map (fun e ↦ (e.edge, e.againstStorage)),
          r.geometry windingSettings.network.geometry) = ([(0, false), (1, true), (2, false)],
            [(0, 0), (1, 1), (2, 0), (3, 1), (4, 1), (5, 0)].map windingRoads.point) :=
    exists_found_of_route? (by decide +kernel)
  obtain ⟨hedges, hpoints⟩ := Prod.mk.inj hr
  have hbuilt : windingRoads.IsBuilt := ((RoadGraph.isBuilt_ofPlaces _ _).bend _ _).bend _ _
  have hshows : windingSettings.network.Shows windingRoads.edge? := hbuilt.shows (.inr rfl)
  have hmeasured : windingSettings.network.IsMeasured := by
    have hall : ∀ s ∈ windingRoads.edges, s.IsMeasured := by decide +kernel
    exact hshows.isMeasured fun hs ↦ hall _ (Array.mem_of_getElem? hs)
  have hnonneg : windingSettings.weighting.IsNonneg windingSettings.network :=
    Weighting.IsAssembled.isNonneg (Weighting.distance_nonneg hshows hmeasured) (.shortest .stored)
  have hfinite : ∀ u p, windingRoads.position? u = some p → p.IsFinite := by
    have hall : ∀ n ∈ windingRoads.nodes, n.position.IsFinite := by decide +kernel
    intro u p hp
    obtain ⟨n, hn, rfl⟩ := Option.map_eq_some_iff.1 hp
    exact hall n (Array.mem_of_getElem? hn)
  have hreturned := Finds.returns hshows hnonneg (.bothEnds _ rfl hfound)
  exact ⟨r, hreturned, hedges, hpoints, hbuilt, hfinite,
    draws_geometry hbuilt (.inr rfl) hfinite hreturned⟩

end SearchSettings

end RoadRouting
