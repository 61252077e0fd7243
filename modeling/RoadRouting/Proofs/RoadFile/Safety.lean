import RoadRouting.Proofs.Network.Built
import RoadRouting.Proofs.Weighting.Safe
import RoadRouting.RoadFile

namespace RoadRouting

open Scalar (Exact IsOrdered IsSigned)

variable {K : Type} [Scalar K]

section Numbers

variable [IsSigned K] {x : K}

theorem RoadFile.isUsable_iff : isUsable x = true ↔ 0 ≤ x := by
  rw [isUsable, Bool.and_eq_true, Bool.not_eq_true', Bool.not_eq_true', decide_eq_false_iff_not]
  constructor
  · intro ⟨hnan, hneg⟩
    exact IsSigned.nonneg_of_not_neg hnan hneg
  · intro h
    exact ⟨(IsOrdered.not_isNaN_of_le h).2, IsSigned.not_neg_of_nonneg h⟩

theorem Scalar.nonneg_foldl_add_iff {xs : List K} {a : K} (ha : isNaN a = false → 0 ≤ a)
    (hxs : ∀ x ∈ xs, isNaN x = false → 0 ≤ x) :
    0 ≤ xs.foldl (· + ·) a ↔ isNaN a = false ∧ ∀ x ∈ xs, isNaN x = false := by
  induction xs generalizing a with
  | nil =>
    have hnan : 0 ≤ a → isNaN a = false := fun h ↦ (IsOrdered.not_isNaN_of_le h).2
    simpa using ⟨hnan, ha⟩
  | cons x xs ih =>
    have hx := hxs x List.mem_cons_self
    have hsum : isNaN (a + x) = false ↔ isNaN a = false ∧ isNaN x = false := by
      constructor
      · exact IsSigned.not_isNaN_of_add
      · intro ⟨hna, hnx⟩
        exact (IsOrdered.not_isNaN_of_le (IsOrdered.add_nonneg (ha hna) (hx hnx))).2
    have hstep : isNaN (a + x) = false → 0 ≤ a + x := by
      intro h
      obtain ⟨hna, hnx⟩ := hsum.1 h
      exact IsOrdered.add_nonneg (ha hna) (hx hnx)
    rw [List.foldl_cons, ih hstep fun y hy ↦ hxs y (List.mem_cons_of_mem x hy), hsum]
    simp [and_assoc]

end Numbers

namespace RoadFile

variable {metric : Position K → Position K → K} {nodes : Array (Position K)} {r : Road K}
variable {s : StoredEdge K} {edge : EdgeId} {source target : Position K} {d : K}

/-- No speed is infinite, and the side against a two-way road can be open. -/
structure Road.HasSpeeds (r : Road K) : Prop where
  speed : Scalar.isInfinite r.speed = false
  backward : r.oneWay = false →
    r.backwardSpeed.elim ((r.speed == 0) = false) fun b ↦ Scalar.isInfinite b = false

/-- The length is given, or no leg of the line measures "not a number". -/
def Road.HasLength (metric : Position K → Position K → K) (nodes : Array (Position K))
    (r : Road K) : Prop :=
  r.distance = none → ∀ source ∈ nodes[r.source]?, ∀ target ∈ nodes[r.target]?,
    let points := source :: r.geometry ++ [target]
    ∀ leg ∈ points.zipWith metric points.tail, Scalar.isNaN leg = false

theorem checkRoad_eq_ok (h : checkRoad metric nodes edge r = .ok s) :
    ∃ source target d, nodes[r.source]? = some source ∧ nodes[r.target]? = some target ∧
      isUsable r.speed = true ∧ (∀ b ∈ r.backwardSpeed, isUsable b = true) ∧
      roadLength metric source target edge r = .ok d ∧ s = storedEdge r d := by
  rw [checkRoad] at h
  split at h
  · next source target hsource htarget =>
    cases hspeed : isUsable r.speed with
    | false =>
      rw [hspeed] at h
      cases h
    | true =>
      rw [hspeed] at h
      cases hb : r.backwardSpeed with
      | none =>
        rw [hb] at h
        obtain ⟨d, hd, h⟩ := exists_ok_of_bind h
        cases h
        exact ⟨source, target, d, hsource, htarget, rfl, nofun, hd, rfl⟩
      | some b =>
        rw [hb] at h
        cases hbackward : isUsable b with
        | false =>
          simp only [hbackward] at h
          cases h
        | true =>
          simp only [hbackward] at h
          obtain ⟨d, hd, h⟩ := exists_ok_of_bind h
          cases h
          refine ⟨source, target, d, hsource, htarget, rfl, ?_, hd, rfl⟩
          intro b' hb'
          cases hb'
          exact hbackward
  · cases h

theorem storedEdge_eq (r : Road K) (d : K) : (storedEdge r d).base = r.source ∧
    (storedEdge r d).adj = r.target ∧ (storedEdge r d).distance = d := by
  unfold storedEdge
  split
  · exact ⟨rfl, rfl, rfl⟩
  · split
    · exact ⟨rfl, rfl, rfl⟩
    · exact ⟨rfl, rfl, rfl⟩

section Safe

variable [IsSigned K]

theorem nonneg_roadLength_iff
    (hmetric : ∀ p q, Scalar.isNaN (metric p q) = false → 0 ≤ metric p q)
    (hd : roadLength metric source target edge r = .ok d) : 0 ≤ d ↔ (r.distance = none →
      let points := source :: r.geometry ++ [target]
      ∀ leg ∈ points.zipWith metric points.tail, Scalar.isNaN leg = false) := by
  rw [roadLength] at hd
  split at hd
  · next distance hdistance =>
    split at hd
    · next hvalid =>
      cases hd
      simp only [Scalar.isFinite, Bool.and_eq_true, Bool.not_eq_true', decide_eq_false_iff_not]
        at hvalid
      obtain ⟨⟨hnan, _⟩, hneg⟩ := hvalid
      have hnonneg := IsSigned.nonneg_of_not_neg hnan hneg
      simp [hdistance, hnonneg]
    · cases hd
  · next hdistance =>
    cases hd
    have hlegs : ∀ leg ∈ (source :: r.geometry ++ [target]).zipWith metric
        (source :: r.geometry ++ [target]).tail, Scalar.isNaN leg = false → 0 ≤ leg := by
      intro leg hleg
      rw [← List.map_uncurry_zip_eq_zipWith, List.mem_map] at hleg
      obtain ⟨⟨p, q⟩, _, rfl⟩ := hleg
      exact hmetric p q
    rw [lineLength, Scalar.sum,
      Scalar.nonneg_foldl_add_iff (fun _ ↦ IsOrdered.zero_le_zero) hlegs]
    simp [hdistance, IsOrdered.not_isNaN_zero]

theorem isFinite_iff {v : K} (hv : 0 ≤ v) :
    Scalar.isFinite v = true ↔ Scalar.isInfinite v = false := by
  rw [Scalar.isFinite, (IsOrdered.not_isNaN_of_le hv).2, Bool.not_false, Bool.true_and,
    Bool.not_eq_true']

theorem side_iff {v : K} {isOpen : Bool} (hv : 0 ≤ v) (ho : isOpen = true ↔ 0 < v) :
    (isOpen = true → Scalar.isFinite v = true ∧ 0 < v) ↔ Scalar.isInfinite v = false := by
  rw [ho, isFinite_iff hv]
  constructor
  · intro h
    cases hzero : (v == 0) with
    | true => exact IsSigned.isInfinite_of_beq_zero hzero
    | false => exact (h ((IsSigned.pos_iff_beq_zero hv).2 hzero)).1
  · intro hfinite hpos
    exact ⟨hfinite, hpos⟩

theorem haveSpeeds_storedEdge_iff (hspeed : 0 ≤ r.speed) (hback : ∀ b ∈ r.backwardSpeed, 0 ≤ b) :
    (storedEdge r d).access.HaveSpeeds (storedEdge r d).speed ↔ r.HasSpeeds := by
  have hopen : (!(r.speed == 0)) = true ↔ 0 < r.speed := by
    rw [IsSigned.pos_iff_beq_zero hspeed, Bool.not_eq_true']
  have halong := side_iff hspeed hopen
  rw [Sides.haveSpeeds_iff, storedEdge]
  cases hone : r.oneWay with
  | true =>
    rw [if_pos rfl]
    constructor
    · intro ⟨h, _⟩
      exact ⟨halong.1 h, fun htwo ↦ by cases hone.symm.trans htwo⟩
    · intro h
      exact ⟨halong.2 h.speed, nofun⟩
  | false =>
    rw [if_neg Bool.false_ne_true]
    cases hb : r.backwardSpeed with
    | none =>
      -- the side against stays open even at speed zero, so the road must have a speed
      dsimp only [StoredEdge.twoWay, Sides.both]
      rw [halong, isFinite_iff hspeed, IsSigned.pos_iff_beq_zero hspeed]
      constructor
      · intro ⟨hfinite, hzero⟩
        exact ⟨hfinite, fun _ ↦ by rw [hb]; exact (hzero rfl).2⟩
      · intro h
        have hzero := h.backward hone
        rw [hb] at hzero
        exact ⟨h.speed, fun _ ↦ ⟨h.speed, hzero⟩⟩
    | some b =>
      have hagainst := side_iff (hback b hb) (decide_eq_true_iff (p := 0 < b))
      dsimp only
      rw [halong, hagainst]
      constructor
      · intro ⟨hfinite, hfinite'⟩
        exact ⟨hfinite, fun _ ↦ by rw [hb]; exact hfinite'⟩
      · intro h
        have hfinite := h.backward hone
        rw [hb] at hfinite
        exact ⟨h.speed, hfinite⟩

/-- What the road decides of the edge that is stored for it. -/
theorem stored_iff (hmetric : ∀ p q, Scalar.isNaN (metric p q) = false → 0 ≤ metric p q)
    (h : checkRoad metric nodes edge r = .ok s) :
    (0 ≤ s.distance ↔ r.HasLength metric nodes) ∧
      (s.access.HaveSpeeds s.speed ↔ r.HasSpeeds) := by
  obtain ⟨source, target, d, hsource, htarget, hspeed, hback, hd, rfl⟩ := checkRoad_eq_ok h
  constructor
  · rw [(storedEdge_eq r d).2.2, nonneg_roadLength_iff hmetric hd]
    constructor
    · intro hline hnone source' hsource' target' htarget'
      cases hsource.symm.trans hsource'
      cases htarget.symm.trans htarget'
      exact hline hnone
    · intro hroad hnone
      exact hroad hnone source hsource target htarget
  · apply haveSpeeds_storedEdge_iff (isUsable_iff.1 hspeed)
    intro b hb
    exact isUsable_iff.1 (hback b hb)

end Safe

section Roads

variable {g g' : RoadGraph K} {access access' : AccessRules} {roads rest : List (Road K)}

structure IsLoaded (metric : Position K → Position K → K) (nodes : Array (Position K))
    (roads : List (Road K)) (g : RoadGraph K) : Prop where
  built : g.IsBuilt
  size_nodes : g.nodes.size = nodes.size
  size_pillars : g.pillars.size = g.edges.size
  edges : List.Forall₂ (fun r s ↦ ∃ edge, checkRoad metric nodes edge r = .ok s) roads
    g.edges.toList

theorem isLoaded_nodes (places : List (Position K)) :
    IsLoaded metric places.toArray [] (places.foldl RoadGraph.addNode .empty) := by
  induction places using List.reverseRecOn with
  | nil => exact ⟨.empty, rfl, rfl, .nil⟩
  | append_singleton places p ih =>
    have hnone := List.forall₂_nil_left_iff.1 ih.edges
    rw [List.foldl_append]
    refine ⟨ih.built.addNode p, ?_, ih.size_pillars, List.forall₂_nil_left_iff.2 hnone⟩
    simp [RoadGraph.addNode, ih.size_nodes]

theorem IsLoaded.addRoad (h : IsLoaded metric nodes roads g)
    (hs : checkRoad metric nodes edge r = .ok s) :
    IsLoaded metric nodes (roads ++ [r]) (RoadFile.addRoad g s r.geometry) := by
  have hends : s.base < g.nodes.size ∧ s.adj < g.nodes.size := by
    obtain ⟨_, _, d, hsource, htarget, _, _, _, rfl⟩ := checkRoad_eq_ok hs
    obtain ⟨hbase, hadj, _⟩ := storedEdge_eq r d
    rw [hbase, hadj, h.size_nodes]
    exact ⟨(Array.getElem?_eq_some_iff.1 hsource).1, (Array.getElem?_eq_some_iff.1 htarget).1⟩
  obtain ⟨g₁, hadd, hpillars⟩ : ∃ g₁, g.addEdge? s = some g₁ ∧ g₁.pillars = g.pillars.push [] :=
    ⟨_, if_pos hends, rfl⟩
  obtain ⟨_, _, hnodes, hedges, _⟩ := RoadGraph.addEdge?_eq_some hadd
  have hlt : g.edges.size < g₁.pillars.size := by
    rw [hpillars, Array.size_push, h.size_pillars]
    exact Nat.lt_succ_self _
  have hset : g₁.setPillars? g.edges.size r.geometry = some
      { g₁ with pillars := g₁.pillars.setIfInBounds g.edges.size r.geometry } := if_pos hlt
  have hg : RoadFile.addRoad g s r.geometry =
      { g₁ with pillars := g₁.pillars.setIfInBounds g.edges.size r.geometry } := by
    rw [RoadFile.addRoad, hadd, Option.bind_some, hset]
  rw [hg]
  refine ⟨(h.built.addEdge hadd).setPillars hset, hnodes.trans h.size_nodes, ?_, ?_⟩
  · simp [hpillars, hedges, h.size_pillars]
  · rw [hedges, Array.toList_push]
    exact List.rel_append h.edges (.cons ⟨edge, hs⟩ .nil)

theorem IsLoaded.loadRoads (h : IsLoaded metric nodes roads g)
    (hload : RoadFile.loadRoads metric nodes g access rest = .ok (g', access')) :
    IsLoaded metric nodes (roads ++ rest) g' := by
  induction rest generalizing roads g access with
  | nil =>
    cases hload
    rwa [List.append_nil]
  | cons r rest ih =>
    rw [RoadFile.loadRoads] at hload
    obtain ⟨s, hs, hload⟩ := exists_ok_of_bind hload
    have hall := ih (h.addRoad hs) hload
    rwa [List.append_assoc] at hall

end Roads

end RoadFile

structure TurnTable.IsNonneg (t : TurnTable K) : Prop where
  costs : ∀ {turn : Turn} {cost}, t.costs[turn]? = some cost → 0 ≤ cost
  uTurnCost : 0 ≤ t.uTurnCost

namespace TurnTable

variable {t : TurnTable K}

theorem isNonneg_empty [IsSigned K] : (empty : TurnTable K).IsNonneg where
  costs h := by
    rw [empty, Std.TreeMap.getElem?_emptyc] at h
    cases h
  uTurnCost := IsSigned.zero_le_infinity

protected theorem IsNonneg.set (h : t.IsNonneg) (turn : Turn) {cost : K} (hcost : 0 ≤ cost) :
    (t.set turn cost).IsNonneg where
  costs {turn' cost'} hlisted := by
    rw [TurnTable.set, Std.TreeMap.getElem?_insert] at hlisted
    split at hlisted
    · cases hlisted
      exact hcost
    · exact h.costs hlisted
  uTurnCost := h.uTurnCost

end TurnTable

namespace RoadFile

variable [IsSigned K]

theorem isNonneg_loadTurns {edges : Nat} {table table' : TurnTable K} {turns : List (TurnEntry K)}
    (ht : table.IsNonneg) (h : loadTurns edges table turns = .ok table') : table'.IsNonneg := by
  induction turns generalizing table with
  | nil =>
    cases h
    exact ht
  | cons turn rest ih =>
    rw [loadTurns] at h
    split at h
    · cases h
    · cases hcost : turn.cost with
      | none =>
        rw [hcost] at h
        exact ih (ht.set _ IsSigned.zero_le_infinity) h
      | some cost =>
        simp only [hcost] at h
        cases husable : isUsable cost with
        | true =>
          rw [husable] at h
          exact ih (ht.set _ (isUsable_iff.1 husable)) h
        | false =>
          rw [husable] at h
          cases h

/-- Of a road file that is accepted the ends of the edges exist and no turn cost is negative. The
length of an edge is a number that is not negative, and its open sides have speeds, if and only if
its road has them. -/
theorem forall₂_of_load {metric : Position K → Position K → K} {file : RoadFile K}
    {loaded : LoadedRoads K}
    (hmetric : ∀ p q, Scalar.isNaN (metric p q) = false → 0 ≤ metric p q)
    (h : load metric file = .ok loaded) :
    (∀ s ∈ loaded.graph.edges,
        s.base < loaded.graph.positions.size ∧ s.adj < loaded.graph.positions.size) ∧
      loaded.turns.IsNonneg ∧
      List.Forall₂ (fun r s ↦ (0 ≤ s.distance ↔ r.HasLength metric file.nodes.toArray) ∧
        (s.access.HaveSpeeds s.speed ↔ r.HasSpeeds)) file.roads loaded.graph.edges.toList := by
  rw [load] at h
  obtain ⟨⟨g, access⟩, hroads, h⟩ := exists_ok_of_bind h
  obtain ⟨turns, hturns, h⟩ := exists_ok_of_bind h
  cases h
  have hg := (isLoaded_nodes file.nodes).loadRoads hroads
  refine ⟨?_, isNonneg_loadTurns TurnTable.isNonneg_empty hturns, ?_⟩
  · intro s hs
    obtain ⟨id, hid⟩ := Array.getElem?_of_mem hs
    have hsize : (PackedGraph.pack g).positions.size = g.nodes.size := Array.size_map
    rw [hsize]
    exact ⟨hg.built.isWired.base_lt hid, hg.built.isWired.adj_lt hid⟩
  · apply hg.edges.imp
    intro r s ⟨edge, hs⟩
    exact stored_iff hmetric hs

def degreeApart (p q : Position Exact) : Exact := if p = q then 0 else .finite 111195

theorem degreeApart_nonneg (p q : Position Exact) : 0 ≤ degreeApart p q := by
  unfold degreeApart
  split
  · exact IsOrdered.zero_le_zero
  · rw [Exact.zero_eq, Exact.finite_le_finite]
    norm_num

def threeRoads : RoadFile Exact where
  nodes := [⟨0, 0⟩, ⟨0, .finite 1⟩]
  roads := [⟨0, 1, some (.finite 10), 0, none, false, [], []⟩,
    ⟨0, 1, none, .finite 36, none, false, [], []⟩, ⟨0, 0, none, .finite 36, none, true, [], []⟩]
  turnRestrictions := [⟨0, 1, 1, none⟩]
  turnCosts := [⟨1, 1, 0, some (.finite 5)⟩]

theorem load_threeRoads : ∃ loaded, load degreeApart threeRoads = .ok loaded ∧
    loaded.graph.edges.toList = [⟨0, 1, .finite 10, ⟨false, true⟩, ⟨0, 0⟩⟩,
      .twoWay 0 1 (.finite 111195) (.finite 36), .oneWay 0 0 0 (.finite 36)] :=
  exists_ok_of_map (by decide +kernel)

/-- The speed is not there, but the road is open against its direction. -/
theorem not_haveSpeeds_threeRoads : ∃ loaded, load degreeApart threeRoads = .ok loaded ∧
    ∃ s ∈ loaded.graph.edges, ¬s.access.HaveSpeeds s.speed := by
  obtain ⟨loaded, hload, hedges⟩ := load_threeRoads
  refine ⟨loaded, hload, ⟨0, 1, .finite 10, ⟨false, true⟩, ⟨0, 0⟩⟩, ?_, fun h ↦ ?_⟩
  · rw [← Array.mem_toList_iff, hedges]
    exact List.mem_cons_self
  · obtain ⟨_, hpos⟩ := h .backward rfl
    cases hpos

theorem forall₂_of_load_threeRoads : ∃ loaded, load degreeApart threeRoads = .ok loaded ∧
    (∀ s ∈ loaded.graph.edges,
        s.base < loaded.graph.positions.size ∧ s.adj < loaded.graph.positions.size) ∧
      loaded.turns.IsNonneg ∧
      List.Forall₂ (fun r s ↦
        (0 ≤ s.distance ↔ r.HasLength degreeApart threeRoads.nodes.toArray) ∧
        (s.access.HaveSpeeds s.speed ↔ r.HasSpeeds)) threeRoads.roads
        loaded.graph.edges.toList := by
  obtain ⟨loaded, hload, _⟩ := load_threeRoads
  exact ⟨loaded, hload, forall₂_of_load (fun p q _ ↦ degreeApart_nonneg p q) hload⟩

end RoadFile

end RoadRouting
