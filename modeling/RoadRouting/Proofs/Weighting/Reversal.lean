import RoadRouting.Proofs.Network.Built
import RoadRouting.Proofs.Search.Replay
import RoadRouting.Proofs.Weighting.Prices
import Mathlib.Data.Option.NAry
import Mathlib.Data.UInt

namespace RoadRouting

open Scalar (Exact)

namespace Scalar.Exact

theorem isFinite_sum (xs : List Exact) :
    Scalar.isFinite xs.sum = true ↔ ∀ x ∈ xs, Scalar.isFinite x = true := by
  induction xs with
  | nil => simp [zero_eq]
  | cons x xs ih => simp [isFinite_add, ih]

theorem isInfinite_sum {xs : List Exact} (h : Scalar.isNaN xs.sum = false) :
    Scalar.isInfinite xs.sum = true ↔ ∃ x ∈ xs, Scalar.isInfinite x = true := by
  induction xs with
  | nil => simp [zero_eq]
  | cons x xs ih =>
    rw [List.sum_cons] at h ⊢
    rw [isInfinite_add h, Bool.or_eq_true, ih (not_isNaN_of_add h).2]
    simp

end Scalar.Exact

theorem toNat_sum_durations (ts : List Duration) :
    ts.sum.toNat = (ts.map (·.toNat)).sum % UInt64.size := by
  induction ts with
  | nil => rfl
  | cons t ts ih =>
    rw [List.sum_cons, UInt64.toNat_add, ih, List.map_cons, List.sum_cons, Nat.add_mod_mod]

variable {K ε X : Type}

section Plus

variable [Add X]

theorem plus_zero [Zero X] [Std.LawfulIdentity (α := X) (· + ·) 0] (x : X) : x + 0 = x :=
  Std.LawfulRightIdentity.right_id x

theorem zero_plus [Zero X] [Std.LawfulIdentity (α := X) (· + ·) 0] (x : X) : 0 + x = x :=
  Std.LawfulLeftIdentity.left_id x

variable [Std.Associative (α := X) (· + ·)]

theorem plus_assoc (x y z : X) : x + y + z = x + (y + z) := Std.Associative.assoc x y z

variable [Std.Commutative (α := X) (· + ·)]

theorem plus_left_comm (x y z : X) : x + (y + z) = y + (x + z) := by ac_rfl

theorem plus_right_comm (x y z : X) : x + y + z = x + z + y := by ac_rfl

end Plus

inductive Network.Walk (n : Network K) : NodeId → List (EdgeView K) → NodeId → Prop
  | nil (u : NodeId) : Walk n u [] u
  | cons {u v : NodeId} {e : EdgeView K} {es : List (EdgeView K)} :
      e ∈ n.edges u .forward → Walk n e.adj es v → Walk n u (e :: es) v

/-- The second view is that of the same edge as it is listed for searching from where the first one
leads to. -/
def Network.Mirrors (n : Network K) (e b : EdgeView K) : Prop :=
  b ∈ n.edges e.adj .backward ∧ b.edge = e.edge

section Mirrors

variable {n : Network K} {stored : EdgeId → Option (StoredEdge K)} (h : n.Shows stored)
variable {u v : NodeId} {e b : EdgeView K} {es bs : List (EdgeView K)}
include h

theorem Network.Shows.mirrors_iff (he : e ∈ n.edges u .forward) :
    n.Mirrors e b ↔ b = e.fromEnd := by
  constructor
  · rintro ⟨hb, hid⟩
    exact h.eq_of_edge_eq hb (h.fromEnd_mem he) (hid.trans e.edge_fromEnd.symm)
  · rintro rfl
    exact ⟨h.fromEnd_mem he, e.edge_fromEnd⟩

theorem Network.Walk.mirrors_iff (hw : n.Walk u es v) :
    List.Forall₂ n.Mirrors es bs ↔ bs = es.map EdgeView.fromEnd := by
  induction hw generalizing bs with
  | nil u => simp
  | cons he _ ih => simp [List.forall₂_cons_left_iff, h.mirrors_iff he, ih]

end Mirrors

def chargesAlong (charge : EdgeView K → Option EdgeId → Except ε X) :
    Option EdgeId → List (EdgeView K) → Except ε (List X)
  | _, [] => .ok []
  | before, e :: es => do
    let x ← charge e before
    return x :: (← chargesAlong charge (some e.edge) es)

theorem toOption_map {Y : Type} (x : Except ε X) (f : X → Y) :
    (x.map f).toOption = x.toOption.map f := by
  cases x with
  | error _ => rfl
  | ok _ => rfl

def totalAlong [Add X] [Zero X] (charge : EdgeView K → Option EdgeId → Except ε X)
    (before : Option EdgeId) (es : List (EdgeView K)) : Option X :=
  (chargesAlong charge before es).toOption.map List.sum

theorem totalAlong_eq_some [Add X] [Zero X] {charge : EdgeView K → Option EdgeId → Except ε X}
    {before : Option EdgeId} {es : List (EdgeView K)} {xs : List X}
    (h : chargesAlong charge before es = .ok xs) : totalAlong charge before es = some xs.sum := by
  rw [totalAlong, h]
  rfl

variable [Add X] [Zero X]

section Totals

variable (charge : EdgeView K → Option EdgeId → Except ε X) (before : Option EdgeId)
variable (e : EdgeView K) (es : List (EdgeView K))

@[simp] theorem totalAlong_nil : totalAlong charge before [] = some 0 := rfl

theorem totalAlong_cons : totalAlong charge before (e :: es) =
    Option.map₂ (· + ·) (charge e before).toOption (totalAlong charge (some e.edge) es) := by
  unfold totalAlong
  rw [chargesAlong]
  cases charge e before with
  | error _ => rfl
  | ok x =>
    cases chargesAlong charge (some e.edge) es with
    | error _ => rfl
    | ok xs => rfl

variable [Std.LawfulIdentity (α := X) (· + ·) 0]

theorem totalAlong_append_singleton [Std.Associative (α := X) (· + ·)] :
    totalAlong charge before (es ++ [e]) = Option.map₂ (· + ·) (totalAlong charge before es)
      (charge e (EdgeView.lastOf before es)).toOption := by
  induction es generalizing before with
  | nil =>
    rw [List.nil_append, totalAlong_cons]
    cases h : charge e before <;> simp [EdgeView.lastOf, h, plus_zero, zero_plus]
  | cons e' es ih =>
    rw [List.cons_append, totalAlong_cons, totalAlong_cons, ih, Option.map₂_assoc plus_assoc]
    rfl

theorem lastOf_reverse : EdgeView.lastOf none es.reverse = es.head?.map (·.edge) := by
  cases es with
  | nil => rfl
  | cons e es => simp [EdgeView.lastOf]

end Totals

/-- What is charged for an edge is a part for the edge and one for the turn between it and its
neighbour, and both are the same from either end. -/
structure Splits (n : Network K) (charge : Direction → EdgeView K → Option EdgeId → Except ε X)
    (part : EdgeView K → Option X) (turn : EdgeId → NodeId → EdgeId → X) : Prop where
  forward : ∀ {u e before}, e ∈ n.edges u .forward → (charge .forward e before).toOption =
    (part e).map (· + before.elim 0 fun a ↦ turn a u e.edge)
  backward : ∀ {u e next}, e ∈ n.edges u .forward → (charge .backward e.fromEnd next).toOption =
    (part e).map (· + next.elim 0 fun b ↦ turn e.edge e.adj b)

namespace Splits

variable {n : Network K} {charge : Direction → EdgeView K → Option EdgeId → Except ε X}
variable {part : EdgeView K → Option X} {turn : EdgeId → NodeId → EdgeId → X}
variable [Std.LawfulIdentity (α := X) (· + ·) 0]

theorem of_steady (hforward : ∀ e before, charge .forward e before = charge .forward e none)
    (hbackward : ∀ {u e} next, e ∈ n.edges u .forward →
      charge .backward e.fromEnd next = charge .forward e none) :
    Splits n charge (fun e ↦ (charge .forward e none).toOption) fun _ _ _ ↦ 0 where
  forward {u e before} he := by
    rw [hforward]
    cases before <;> simp [plus_zero]
  backward {u e next} he := by
    rw [hbackward next he]
    cases next <;> simp [plus_zero]

variable (h : Splits n charge part turn) {u v : NodeId} {e : EdgeView K} {es : List (EdgeView K)}
variable [Std.Associative (α := X) (· + ·)]
include h

theorem totalAlong_forward [Std.Commutative (α := X) (· + ·)] (hw : n.Walk u es v) (a : EdgeId) :
    totalAlong (charge .forward) (some a) es =
      (totalAlong (charge .forward) none es).map
        (· + (es.head?.map (·.edge)).elim 0 fun b ↦ turn a u b) := by
  cases hw with
  | nil u => simp [plus_zero]
  | @cons _ _ e es he _ =>
    rw [totalAlong_cons, totalAlong_cons, h.forward he, h.forward he]
    cases part e <;> cases totalAlong (charge .forward) (some e.edge) es <;>
      simp [plus_zero, plus_right_comm]

theorem totalAlong_backward (he : e ∈ n.edges u .forward) :
    totalAlong (charge .backward) none ((e :: es).map EdgeView.fromEnd).reverse =
      Option.map₂ (· + ·) (totalAlong (charge .backward) none (es.map EdgeView.fromEnd).reverse)
        ((part e).map (· + (es.head?.map (·.edge)).elim 0 fun b ↦ turn e.edge e.adj b)) := by
  rw [List.map_cons, List.reverse_cons, totalAlong_append_singleton, lastOf_reverse, h.backward he]
  simp [Function.comp_def]

theorem totalAlong_eq [Std.Commutative (α := X) (· + ·)] (hw : n.Walk u es v) :
    totalAlong (charge .forward) none es =
      totalAlong (charge .backward) none (es.map EdgeView.fromEnd).reverse := by
  induction hw with
  | nil u => rfl
  | @cons _ _ e es he hw ih =>
    rw [totalAlong_cons, h.totalAlong_backward he, h.totalAlong_forward hw, ← ih, h.forward he]
    cases part e <;> cases totalAlong (charge .forward) none es <;>
      simp [plus_zero, plus_left_comm]

theorem add {extra : EdgeView K → Direction → Option EdgeId → X} {t : EdgeId → NodeId → EdgeId → X}
    (hnone : ∀ e d, extra e d none = 0)
    (hforward : ∀ e a, extra e .forward (some a) = t a e.base e.firstPart)
    (hbackward : ∀ e b, extra e .backward (some b) = t e.firstPart e.base b)
    {stored : EdgeId → Option (StoredEdge K)} (hn : n.Shows stored) :
    Splits n (fun d e neighbour ↦ (charge d e neighbour).map (· + extra e d neighbour)) part
      fun a v b ↦ turn a v b + t a v b where
  forward {u e before} he := by
    rw [toOption_map, h.forward he, Option.map_map]
    cases before with
    | none => simp [hnone, plus_zero, Function.comp_def]
    | some a => simp [hforward, hn.base_eq he, hn.firstPart_eq he, plus_assoc, Function.comp_def]
  backward {u e next} he := by
    rw [toOption_map, h.backward he, Option.map_map]
    cases next with
    | none => simp [hnone, plus_zero, Function.comp_def]
    | some b =>
      simp [hbackward, hn.firstPart_eq (hn.fromEnd_mem he), plus_assoc, Function.comp_def]

end Splits

namespace Weighting

inductive IsPlainWithTurns : Weighting Exact → Prop
  | plain {w : Weighting Exact} {price : EdgeView Exact → Exact} : w.IsPlain price →
      IsPlainWithTurns w
  | withTurns {w : Weighting Exact} (turns : TurnCosts Exact) : IsPlainWithTurns w →
      IsPlainWithTurns (w.withTurns turns)

section FromEnd

variable {speeds : SpeedSource Exact} {e : EdgeView Exact}
variable (hs : ∀ e side, speeds.speed e side none = e.speed.get side)
include hs

theorem speed_fromEnd : speeds.speed e.fromEnd (e.fromEnd.reading .backward) none =
    speeds.speed e (e.reading .forward) none := by
  rw [hs, hs, ← e.fromEnd.speed_along_fromEnd, e.fromEnd_fromEnd, e.reading_forward]
  rfl

omit hs in
theorem checkedSpeed_fromEnd (speed : Exact) :
    checkedSpeed e.fromEnd speed = checkedSpeed e speed := by
  simp only [checkedSpeed, e.edge_fromEnd]

theorem secondsAt_fromEnd :
    secondsAt speeds e.fromEnd .backward none = secondsAt speeds e .forward none := by
  have ho : e.fromEnd.isOpen .backward = e.isOpen .forward := e.isOpen_fromEnd .forward
  rw [secondsAt, secondsAt, ho, speed_fromEnd hs]
  simp only [travelSeconds, checkedSpeed_fromEnd, e.distance_fromEnd]

theorem millisAt_fromEnd (hopen : e.isOpen .forward = true) :
    millisAt speeds e.fromEnd .backward none = millisAt speeds e .forward none := by
  have ho : e.fromEnd.access.get (e.fromEnd.reading .backward) = true :=
    (e.isOpen_fromEnd .forward).trans hopen
  have ho' : e.access.get (e.reading .forward) = true := hopen
  simp only [millisAt, travelDuration, ho, ho', Bool.not_true, Bool.false_eq_true, if_false,
    speed_fromEnd hs, checkedSpeed_fromEnd, e.distance_fromEnd]

end FromEnd

theorem turnDuration_none (turns : TurnCosts Exact) (e : EdgeView Exact) (d : Direction) :
    turnDuration turns e d none = 0 := by
  have hzero : Scalar.truncate ((0 : Exact) * millisPerSecond) = 0 := by decide +kernel
  simp [turnDuration, turnWeight, hzero]

section Splitting

variable {n : Network Exact} {stored : EdgeId → Option (StoredEdge Exact)} (hn : n.Shows stored)
variable {w : Weighting Exact}
include hn

theorem IsPlainWithTurns.splits_weight (hw : w.IsPlainWithTurns) :
    ∃ part turn, Splits n (fun d e neighbour ↦ w.weight e d neighbour) part turn := by
  induction hw with
  | plain hw =>
    refine ⟨_, _, .of_steady (fun e before ↦ ?_) fun {u e} next he ↦ ?_⟩
    · cases hw with
      | fastest _ => rfl
      | shortest _ => rfl
    · cases hw with
      | fastest hs => exact secondsAt_fromEnd hs
      | shortest _ =>
        have ho : e.fromEnd.isOpen .backward = e.isOpen .forward := e.isOpen_fromEnd .forward
        simp only [weight_shortest, ho, e.distance_fromEnd]
  | withTurns turns _ ih =>
    obtain ⟨part, turn, h⟩ := ih
    simp only [weight_withTurns]
    exact ⟨_, _, h.add (fun _ _ ↦ rfl) (fun _ _ ↦ rfl) (fun _ _ ↦ rfl) hn⟩

theorem IsPlainWithTurns.splits_duration (hw : w.IsPlainWithTurns) :
    ∃ part turn, Splits n (fun d e neighbour ↦ w.duration e d neighbour) part turn := by
  induction hw with
  | plain hw =>
    refine ⟨_, _, .of_steady (fun e before ↦ ?_) fun {u e} next he ↦ ?_⟩
    · cases hw with
      | fastest _ => rfl
      | shortest _ => rfl
    · cases hw with
      | fastest hs => exact millisAt_fromEnd hs (hn.isOpen he)
      | shortest hs => exact millisAt_fromEnd hs (hn.isOpen he)
  | withTurns turns _ ih =>
    obtain ⟨part, turn, h⟩ := ih
    let millis (a : EdgeId) (v : NodeId) (b : EdgeId) : Duration :=
      if Scalar.isFinite (turns a v b) then Scalar.truncate (turns a v b * millisPerSecond) else 0
    simp only [duration_withTurns]
    exact ⟨part, fun a v b ↦ turn a v b + millis a v b, h.add (turnDuration_none turns)
      (fun _ _ ↦ rfl) (fun _ _ ↦ rfl) hn⟩

end Splitting

/-- What is charged for edges in search order, seen from where they begin or from where they end. -/
structure AgreesBothWays (w : Weighting Exact) (es bs : List (EdgeView Exact)) : Prop where
  weight : totalAlong (w.weight · .forward ·) none es =
    totalAlong (w.weight · .backward ·) none bs.reverse
  duration : totalAlong (w.duration · .forward ·) none es =
    totalAlong (w.duration · .backward ·) none bs.reverse
  millis : ∀ {ts ts'}, chargesAlong (w.duration · .forward ·) none es = .ok ts →
    chargesAlong (w.duration · .backward ·) none bs.reverse = .ok ts' →
    (ts.map (·.toNat)).sum < UInt64.size → (ts'.map (·.toNat)).sum < UInt64.size →
    (ts.map (·.toNat)).sum = (ts'.map (·.toNat)).sum
  finite : ∀ {xs ys}, chargesAlong (w.weight · .forward ·) none es = .ok xs →
    chargesAlong (w.weight · .backward ·) none bs.reverse = .ok ys →
    ((∀ x ∈ xs, Scalar.isFinite x = true) ↔ ∀ y ∈ ys, Scalar.isFinite y = true)
  infinite : ∀ {xs ys}, chargesAlong (w.weight · .forward ·) none es = .ok xs →
    chargesAlong (w.weight · .backward ·) none bs.reverse = .ok ys → Scalar.isNaN xs.sum = false →
    ((∃ x ∈ xs, Scalar.isInfinite x = true) ↔ ∃ y ∈ ys, Scalar.isInfinite y = true)

theorem AgreesBothWays.of_totals {w : Weighting Exact} {es bs : List (EdgeView Exact)}
    (hweight : totalAlong (w.weight · .forward ·) none es =
      totalAlong (w.weight · .backward ·) none bs.reverse)
    (hduration : totalAlong (w.duration · .forward ·) none es =
      totalAlong (w.duration · .backward ·) none bs.reverse) : w.AgreesBothWays es bs := by
  have hsum : ∀ {xs ys}, chargesAlong (w.weight · .forward ·) none es = .ok xs →
      chargesAlong (w.weight · .backward ·) none bs.reverse = .ok ys → xs.sum = ys.sum := by
    intro xs ys hxs hys
    rw [totalAlong_eq_some hxs, totalAlong_eq_some hys] at hweight
    exact Option.some.inj hweight
  refine ⟨hweight, hduration, fun {ts ts'} hts hts' hlt hlt' ↦ ?_, fun {xs ys} hxs hys ↦ ?_,
    fun {xs ys} hxs hys hnan ↦ ?_⟩
  · rw [totalAlong_eq_some hts, totalAlong_eq_some hts'] at hduration
    have hmod := congrArg UInt64.toNat (Option.some.inj hduration)
    rwa [toNat_sum_durations, toNat_sum_durations, Nat.mod_eq_of_lt hlt,
      Nat.mod_eq_of_lt hlt'] at hmod
  · rw [← Exact.isFinite_sum, ← Exact.isFinite_sum, hsum hxs hys]
  · rw [← Exact.isInfinite_sum hnan, hsum hxs hys, Exact.isInfinite_sum (hsum hxs hys ▸ hnan)]

/-- Whatever turn costs are put around a plain weighting: over a walk it charges the same from both
ends, in weights and in durations, and forbids the walk from both ends or from neither. -/
theorem charges_alike_from_both_ends {n : Network Exact} (hn : n.IsBuilt) {w : Weighting Exact}
    (hw : w.IsPlainWithTurns) {u v : NodeId} {es : List (EdgeView Exact)} (hwalk : n.Walk u es v) :
    (∃! bs, List.Forall₂ n.Mirrors es bs) ∧
      ∀ bs, List.Forall₂ n.Mirrors es bs → w.AgreesBothWays es bs := by
  obtain ⟨stored, hshows⟩ := hn.exists_shows
  refine ⟨⟨_, (hwalk.mirrors_iff hshows).2 rfl, fun bs hbs ↦ (hwalk.mirrors_iff hshows).1 hbs⟩,
    fun bs hbs ↦ ?_⟩
  obtain rfl := (hwalk.mirrors_iff hshows).1 hbs
  obtain ⟨_, _, hweight⟩ := hw.splits_weight hshows
  obtain ⟨_, _, hduration⟩ := hw.splits_duration hshows
  exact .of_totals (hweight.totalAlong_eq hwalk) (hduration.totalAlong_eq hwalk)

end Weighting

theorem charges_alike_from_both_ends_past_loop :
    let there : StoredEdge Exact := .twoWay 0 1 (.finite 10) (.finite 36)
    let around : StoredEdge Exact := .oneWay 1 1 (.finite 5) (.finite 18)
    let back : StoredEdge Exact := ⟨2, 1, .finite 20, .both true, ⟨.finite 72, .finite 36⟩⟩
    let n := (RoadGraph.ofEdges 3 [there, around, back]).network
    let es := [there.view 0 0, around.view 1 1, back.view 2 1]
    let w := ((Weighting.fastest .stored (.finite 72)).withTurns fun a v b ↦
      .finite (10 * a + v + b)).withTurns fun a _ b ↦ if a = b then .infinity else .finite (1 / 2)
    n.IsBuilt ∧ w.IsPlainWithTurns ∧ n.Walk 0 es 2 ∧
      totalAlong (w.weight · .forward ·) none es = some (.finite 20) ∧
      totalAlong (w.duration · .forward ·) none es = some 20000 ∧
      ∃ bs, List.Forall₂ n.Mirrors es bs ∧ w.AgreesBothWays es bs := by
  intro there around back n es w
  have hn : n.IsBuilt := isBuilt_network_ofEdges _ _
  have hw : w.IsPlainWithTurns := .withTurns _ (.withTurns _ (.plain (.fastest fun _ _ ↦ rfl)))
  have hwalk : n.Walk 0 es 2 :=
    .cons (by decide +kernel) (.cons (by decide +kernel) (.cons (by decide +kernel) (.nil 2)))
  obtain ⟨⟨bs, hbs, _⟩, hall⟩ := Weighting.charges_alike_from_both_ends hn hw hwalk
  refine ⟨hn, hw, hwalk, ?_, ?_, bs, hbs, hall bs hbs⟩
  · decide +kernel
  · decide +kernel

end RoadRouting
