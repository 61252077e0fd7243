import RoadRouting.Proofs.Network.Built
import RoadRouting.Proofs.Costs
import RoadRouting.Weighting.Decorators

namespace RoadRouting

open Scalar (Exact IsSigned)

structure Network.IsMeasured (n : Network Exact) : Prop where
  distance : ∀ {u e}, e ∈ n.edges u .forward → ∃ q, 0 ≤ q ∧ e.distance = .finite q
  speed : ∀ {u e}, e ∈ n.edges u .forward → ∃ q, 0 < q ∧ e.speed.along = .finite q

/-- The length of an edge is not negative, and the speeds are positive where it is open. -/
structure StoredEdge.IsMeasured (s : StoredEdge Exact) : Prop where
  distance : ∃ q, 0 ≤ q ∧ s.distance = .finite q
  speed : ∀ side, s.access.get side = true → ∃ q, 0 < q ∧ s.speed.get side = .finite q

theorem StoredEdge.isMeasured_iff {s : StoredEdge Exact} : s.IsMeasured ↔
    (0 ≤ s.distance ∧ Scalar.isFinite s.distance = true) ∧
    (s.access.along = true → 0 < s.speed.along ∧ Scalar.isFinite s.speed.along = true) ∧
    (s.access.against = true → 0 < s.speed.against ∧ Scalar.isFinite s.speed.against = true) := by
  simp only [Exact.nonneg_and_isFinite_iff, Exact.pos_and_isFinite_iff]
  constructor
  · exact fun h ↦ ⟨h.distance, h.speed .forward, h.speed .backward⟩
  · rintro ⟨hdistance, halong, hagainst⟩
    refine ⟨hdistance, fun side ho ↦ ?_⟩
    cases side with
    | forward => exact halong ho
    | backward => exact hagainst ho

instance (s : StoredEdge Exact) : Decidable s.IsMeasured :=
  decidable_of_iff _ StoredEdge.isMeasured_iff.symm

theorem Network.Shows.isMeasured {n : Network Exact} {stored : EdgeId → Option (StoredEdge Exact)}
    (h : n.Shows stored) (hs : ∀ {id s}, stored id = some s → s.IsMeasured) : n.IsMeasured where
  distance he := by
    obtain ⟨id, s, hid, _, rfl, _⟩ := h.mem_edges.1 he
    obtain ⟨q, hq, hd⟩ := (hs hid).distance
    refine ⟨q, hq, ?_⟩
    unfold StoredEdge.view
    split
    · exact hd
    · exact hd
  speed {u e} he := by
    have ho := h.isOpen he
    rw [EdgeView.isOpen, e.reading_forward] at ho
    obtain ⟨id, s, hid, _, rfl, _⟩ := h.mem_edges.1 he
    unfold StoredEdge.view at ho ⊢
    split at ho
    · next hu =>
      rw [if_pos hu]
      exact (hs hid).speed .forward ho
    · next hu =>
      rw [if_neg hu]
      exact (hs hid).speed .backward ho

theorem isMeasured_ofEdges {count : Nat} {edges : List (StoredEdge Exact)}
    (h : ∀ s ∈ edges, s.IsMeasured) : (RoadGraph.ofEdges count edges).network.IsMeasured :=
  (RoadGraph.isBuilt_ofEdges count edges).isWired.shows.isMeasured fun hs ↦
    h _ (RoadGraph.mem_of_ofEdges (Array.mem_of_getElem? hs))

theorem isMeasured_ofPlaces {places : List (Position Exact)} {edges : List (StoredEdge Exact)}
    (h : ∀ s ∈ edges, s.IsMeasured) : (RoadGraph.ofPlaces places edges).network.IsMeasured :=
  (RoadGraph.isBuilt_ofPlaces places edges).isWired.shows.isMeasured fun hs ↦
    h _ (RoadGraph.mem_of_ofPlaces (Array.mem_of_getElem? hs))

namespace Weighting

/-- The fastest or the shortest path at the stored speeds, and what it charges for traveling an edge
the way it is seen. -/
inductive IsPlain : Weighting Exact → (EdgeView Exact → Exact) → Prop
  | fastest {speeds : SpeedSource Exact} {maxSpeed : Exact} :
      (∀ e side, speeds.speed e side none = e.speed.get side) →
      IsPlain (fastest speeds maxSpeed) fun e ↦ e.distance * 3.6 / e.speed.along
  | shortest {speeds : SpeedSource Exact} :
      (∀ e side, speeds.speed e side none = e.speed.get side) →
      IsPlain (shortest speeds) fun e ↦ e.distance

/-- A plain weighting, or one with turn costs where the mode tells edges apart. -/
inductive Charges (m : TraversalMode) (price : EdgeView Exact → Exact) :
    Weighting Exact → TurnCosts Exact → Prop
  | plain {w : Weighting Exact} : w.IsPlain price → Charges m price w fun _ _ _ ↦ 0
  | turns {w : Weighting Exact} {turns : TurnCosts Exact} : w.IsPlain price → m ≠ .nodeBased →
      (∀ a v b, 0 ≤ turns a v b) → Charges m price (w.withTurns turns) turns

@[simp] theorem weight_fastest (speeds : SpeedSource Exact) (maxSpeed : Exact)
    (e : EdgeView Exact) (d : Direction) (before : Option EdgeId) :
    (fastest speeds maxSpeed).weight e d before = secondsAt speeds e d none := rfl

@[simp] theorem duration_fastest (speeds : SpeedSource Exact) (maxSpeed : Exact)
    (e : EdgeView Exact) (d : Direction) (before : Option EdgeId) :
    (fastest speeds maxSpeed).duration e d before = millisAt speeds e d none := rfl

@[simp] theorem weight_shortest (speeds : SpeedSource Exact) (e : EdgeView Exact) (d : Direction)
    (before : Option EdgeId) : (shortest speeds).weight e d before =
      .ok (if e.isOpen d then e.distance else Scalar.infinity) := rfl

@[simp] theorem duration_shortest (speeds : SpeedSource Exact) (e : EdgeView Exact)
    (d : Direction) (before : Option EdgeId) :
    (shortest speeds).duration e d before = millisAt speeds e d none := rfl

theorem weight_withTurns {K : Type} [Scalar K] (w : Weighting K) (turns : TurnCosts K)
    (e : EdgeView K) (d : Direction) (before : Option EdgeId) : (w.withTurns turns).weight e d before =
      (w.weight e d before).map (· + turnWeight turns e d before) := by
  cases h : w.weight e d before <;> simp [withTurns, h] <;> rfl

theorem duration_withTurns {K : Type} [Scalar K] (w : Weighting K) (turns : TurnCosts K)
    (e : EdgeView K) (d : Direction) (before : Option EdgeId) : (w.withTurns turns).duration e d before =
      (w.duration e d before).map (· + turnDuration turns e d before) := by
  cases h : w.duration e d before <;> simp [withTurns, h] <;> rfl

theorem checkedSpeed_eq {K : Type} [Scalar K] [IsSigned K] {speed : K}
    (hfinite : Scalar.isFinite speed = true) (hpos : 0 < speed) (e : EdgeView K) :
    checkedSpeed e speed = .ok speed := by
  simp only [Scalar.isFinite, Bool.and_eq_true, Bool.not_eq_true'] at hfinite
  have hneg := IsSigned.not_neg_of_nonneg (IsSigned.nonneg_of_pos hpos)
  simp [checkedSpeed, hfinite, hneg, IsSigned.beq_zero_of_pos hpos]

section Roads

variable {n : Network Exact} {stored : EdgeId → Option (StoredEdge Exact)}
variable (hn : n.Shows stored) (hm : n.IsMeasured)
variable {w : Weighting Exact} {price : EdgeView Exact → Exact}
variable {u : NodeId} {d : Direction} {e : EdgeView Exact}
include hn hm

theorem checkedSpeed_of_mem (he : e ∈ n.edges u d) :
    checkedSpeed e (e.speed.get (e.reading d)) = .ok (e.speed.get (e.reading d)) := by
  obtain ⟨q, hq, hs⟩ := hm.speed (hn.traveled_mem he)
  rw [← e.speed_along_traveled, hs, checkedSpeed_eq rfl (Exact.zero_lt_finite.2 hq)]

theorem IsPlain.weight_eq (hw : w.IsPlain price) (he : e ∈ n.edges u d) (before : Option EdgeId) :
    w.weight e d before = .ok (price (e.traveled d)) := by
  cases hw with
  | fastest hs =>
    simp only [weight_fastest, secondsAt, hn.isOpen he, if_true, hs, travelSeconds,
      checkedSpeed_of_mem hn hm he, e.speed_along_traveled, e.distance_traveled]
    rfl
  | shortest hs => simp only [weight_shortest, hn.isOpen he, if_true, e.distance_traveled]

theorem IsPlain.duration_isOk (hw : w.IsPlain price) (he : e ∈ n.edges u d)
    (before : Option EdgeId) : ∃ t, w.duration e d before = .ok t := by
  have ho := hn.isOpen he
  rw [EdgeView.isOpen] at ho
  cases hw with
  | fastest hs =>
    simp only [duration_fastest, millisAt, travelDuration, ho, hs, checkedSpeed_of_mem hn hm he]
    exact ⟨_, rfl⟩
  | shortest hs =>
    simp only [duration_shortest, millisAt, travelDuration, ho, hs, checkedSpeed_of_mem hn hm he]
    exact ⟨_, rfl⟩

omit hn in
theorem IsPlain.price_eq (hw : w.IsPlain price) (he : e ∈ n.edges u .forward) :
    ∃ q, 0 ≤ q ∧ price e = .finite q := by
  obtain ⟨l, hl, hd⟩ := hm.distance he
  cases hw with
  | fastest hs =>
    obtain ⟨v, hv, hs⟩ := hm.speed he
    refine ⟨l * 3.6 / v, by positivity, ?_⟩
    dsimp only
    rw [hd, hs]
    exact Exact.finite_div_finite hv.ne'
  | shortest hs => exact ⟨l, hl, hd⟩

variable {m : TraversalMode} {turns : TurnCosts Exact}

theorem Charges.weight_eq (hw : Charges m price w turns) (he : e ∈ n.edges u d)
    (before : Option EdgeId) :
    w.weight e d before = .ok (price (e.traveled d) + turnWeight turns e d before) := by
  cases hw with
  | plain hw =>
    obtain ⟨q, _, hq⟩ := hw.price_eq hm (hn.traveled_mem he)
    have hturn : turnWeight (fun _ _ _ ↦ (0 : Exact)) e d before = 0 := by
      cases before <;> cases d <;> rfl
    rw [hw.weight_eq hn hm he, hturn, hq, Exact.finite_add_zero]
  | turns hw _ _ =>
    rw [weight_withTurns, hw.weight_eq hn hm he]
    rfl

theorem Charges.duration_isOk (hw : Charges m price w turns) (he : e ∈ n.edges u d)
    (before : Option EdgeId) : ∃ t, w.duration e d before = .ok t := by
  cases hw with
  | plain hw => exact hw.duration_isOk hn hm he before
  | turns hw _ _ =>
    obtain ⟨t, ht⟩ := hw.duration_isOk hn hm he before
    rw [duration_withTurns, ht]
    exact ⟨_, rfl⟩

end Roads

end Weighting

end RoadRouting
