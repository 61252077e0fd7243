import RoadRouting.Proofs.Roads.Walks
import RoadRouting.Proofs.Weighting.Nonneg
import RoadRouting.Search.Route

namespace RoadRouting

open Scalar (Exact)

namespace Route

theorem exists_duration {K : Type} [Scalar K] {w : Weighting K} {start : NodeId}
    {es : List (EdgeView K)} {weight : K} {r : Route K} (h : ofEdges w start es weight = .ok r) :
    ∃ t, r = ofEdgesWithDuration start es weight t := by
  obtain ⟨t, _, h⟩ := exists_ok_of_bind h
  cases h
  exact ⟨t, rfl⟩

theorem edges_of_ofEdges {K : Type} [Scalar K] {w : Weighting K} {start : NodeId}
    {es : List (EdgeView K)} {weight : K} {r : Route K} (h : ofEdges w start es weight = .ok r) :
    r.edges = es := by
  obtain ⟨t, rfl⟩ := exists_duration h
  rfl

end Route

theorem exists_found_of_route? {K α : Type} {result : Except (QueryError K) (Outcome K)}
    {f : Route K → α} {x : α} (h : (result.toOption.bind Outcome.route?).map f = some x) :
    ∃ r, result = .ok (.found r) ∧ f r = x := by
  cases result with
  | error _ => cases h
  | ok outcome =>
    cases outcome with
    | found r => exact ⟨r, rfl, Option.some.inj h⟩
    | unreachable => cases h
    | visitLimitReached => cases h

namespace Roads

/-- A weighting charges the prices of the roads and the costs of the turns. -/
structure IsPricedBy (R : Roads) (w : Weighting Exact)
    (stored : EdgeId → Option (StoredEdge Exact)) : Prop extends R.IsLawful stored where
  weight : ∀ {u d e} before, e ∈ R.network.edges u d → w.weight e d before =
    .ok (R.price (e.traveled d) + Weighting.turnWeight R.turns e d before)
  duration : ∀ {u d e} before, e ∈ R.network.edges u d → ∃ t, w.duration e d before = .ok t

structure IsWeighedBy (R : Roads) (w : Weighting Exact)
    (stored : EdgeId → Option (StoredEdge Exact)) (d : Direction) : Prop
    extends R.IsLawful stored where
  weight : ∀ {u e} before, e ∈ R.network.edges u d → w.weight e d before =
    .ok (R.price (e.traveled d) + Weighting.turnWeight R.turns e d before)

theorem IsPricedBy.isWeighedBy {R : Roads} {w : Weighting Exact}
    {stored : EdgeId → Option (StoredEdge Exact)} (hR : R.IsPricedBy w stored) (d : Direction) :
    R.IsWeighedBy w stored d :=
  ⟨hR.toIsLawful, hR.weight⟩

theorem isPricedBy {n : Network Exact} {stored : EdgeId → Option (StoredEdge Exact)}
    (hn : n.Shows stored) (hm : n.IsMeasured) {m : TraversalMode}
    {price : EdgeView Exact → Exact} {w : Weighting Exact} {turns : TurnCosts Exact}
    (hw : Weighting.Charges m price w turns) :
    (Roads.mk n m price turns).IsPricedBy w stored where
  shows := hn
  price he := by
    cases hw with
    | plain hw => exact hw.price_eq hm he
    | turns hw _ _ => exact hw.price_eq hm he
  turns := by
    cases hw with
    | plain _ => exact fun _ _ _ ↦ Exact.finite_le_finite.2 le_rfl
    | turns _ _ ht => exact ht
  nodeBased hnode := by
    cases hw with
    | plain _ => exact fun _ _ _ ↦ rfl
    | turns _ hne _ => exact absurd hnode hne
  weight before he := hw.weight_eq hn hm he before
  duration before he := hw.duration_isOk hn hm he before

/-- The settings of a search over the roads that leaves nothing out. -/
def settings (R : Roads) (w : Weighting Exact) (limit : Nat) : SearchSettings Exact where
  network := R.network
  weighting := w
  mode := R.mode
  visitLimit := limit

theorem checkNodes_isOk {R : Roads} {w : Weighting Exact} {limit : Nat} {source target : NodeId}
    (hs : source < R.network.nodeCount) (ht : target < R.network.nodeCount) :
    (R.settings w limit).checkNodes [source, target] = .ok () := by
  have hs' : ¬R.network.nodeCount ≤ source := not_le.2 hs
  have ht' : ¬R.network.nodeCount ≤ target := not_le.2 ht
  simp [SearchSettings.checkNodes, settings, hs', ht']

variable {R : Roads} {w : Weighting Exact} {stored : EdgeId → Option (StoredEdge Exact)}
variable (hR : R.IsPricedBy w stored)
include hR

theorem totalDuration_isOk {u v : NodeId} {es : List (EdgeView Exact)} {g : Rat}
    (h : R.Walk u es v g) (before : Option EdgeId) (total : Duration) :
    ∃ t, Route.totalDuration w before total es = .ok t := by
  induction h generalizing before total with
  | nil => exact ⟨total, rfl⟩
  | @cons u v e es c τ g he _ _ _ ih =>
    obtain ⟨time, htime⟩ := hR.duration before he
    obtain ⟨t, ht⟩ := ih (some e.edge) (total + time)
    exact ⟨t, by rw [Route.totalDuration, htime, ← ht]; rfl⟩

theorem ofEdges_isOk {u v : NodeId} {es : List (EdgeView Exact)} {g : Rat} (h : R.Walk u es v g)
    (start : NodeId) (weight : Exact) :
    ∃ r, Route.ofEdges w start es weight = .ok r ∧ r.edges = es ∧ r.weight = weight := by
  obtain ⟨t, ht⟩ := totalDuration_isOk hR h none 0
  exact ⟨_, by rw [Route.ofEdges, ht]; rfl, rfl, rfl⟩

theorem hasCosts_settings (limit : Nat) (d : Direction) : (R.settings w limit).HasCosts d := by
  intro u e before x he hx
  obtain ⟨q, hq, hp⟩ := hR.price (hR.shows.traveled_mem he)
  cases (hR.weight before he).symm.trans hx
  apply Scalar.IsOrdered.add_nonneg _ (Weighting.turnWeight_nonneg hR.turns e d before)
  rw [hp, Exact.zero_eq, Exact.finite_le_finite]
  exact hq

end Roads

end RoadRouting
