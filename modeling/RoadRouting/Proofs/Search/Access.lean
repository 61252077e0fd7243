import RoadRouting.Access
import RoadRouting.Proofs.Search.Replay

namespace RoadRouting

open Scalar (Exact IsOrdered)

variable {K : Type}

/-- An edge on the way with the times, without bounds, at which it is entered and left. -/
structure Ride (K : Type) where
  edge : EdgeView K
  entered : Int
  left : Int
  deriving DecidableEq

/-- The time at which a search in a direction comes to the edge. -/
def Ride.reached (ride : Ride K) : Direction → Int
  | .forward => ride.entered
  | .backward => ride.left

def Weighting.rides (w : Weighting K) (d : Direction) :
    Option EdgeId → Int → List (EdgeView K) → Except (QueryError K) (List (Ride K))
  | _, _, [] => .ok []
  | before, t, e :: es => do
    let duration ← w.duration e d before
    let ride : Ride K := match d with
      | .forward => ⟨e, t, d.later t duration⟩
      | .backward => ⟨e, d.later t duration, t⟩
    return ride :: (← w.rides d (some e.edge) (d.later t duration) es)

variable [Scalar K] {inner : Weighting K} {access : AccessPolicy K} {d : Direction}

theorem Weighting.exists_rides_of_replay (hinf : Scalar.isInfinite (Scalar.infinity : K) = true)
    (htimeless : ∀ e before t, inner.durationAt e d before t = inner.duration e d before)
    {before : Option EdgeId} {t : Int} {es : List (EdgeView K)} {legs : List (Leg K)}
    (h : (inner.withAccess access).replay d before t es = .ok legs)
    (hfinite : ∀ leg ∈ legs, Scalar.isFinite leg.weight = true) :
    ∃ rides, inner.rides d before t es = .ok rides ∧
      ∀ ride ∈ rides, access ride.edge (.ofInt (ride.reached d)) = true := by
  induction es generalizing before t legs with
  | nil => exact ⟨[], rfl, nofun⟩
  | cons e es ih =>
    obtain ⟨weight, hweight, h⟩ := exists_ok_of_bind h
    obtain ⟨duration, hduration, h⟩ := exists_ok_of_bind h
    obtain ⟨rest, hrest, h⟩ := exists_ok_of_bind h
    cases h
    obtain ⟨rides, hrides, haccess⟩ := ih hrest fun leg hleg ↦
      hfinite leg (List.mem_cons_of_mem _ hleg)
    have hopen : access e (.ofInt t) = true := by
      by_contra hclosed
      have hcharged : weight = Scalar.infinity := by
        change (if access e (.ofInt t) then _ else _) = _ at hweight
        rw [if_neg hclosed] at hweight
        cases hweight
        rfl
      have hw : Scalar.isFinite weight = true := hfinite _ List.mem_cons_self
      rw [hcharged, Scalar.isFinite, hinf, Bool.not_true, Bool.and_false] at hw
      cases hw
    have hride : inner.duration e d before = .ok duration :=
      (htimeless e before _).symm.trans hduration
    rw [Weighting.rides, hride]
    simp only [bind, Except.bind, hrides]
    refine ⟨_, rfl, ?_⟩
    intro ride hmem
    rcases List.mem_cons.1 hmem with rfl | hmem
    · cases d with
      | forward => exact hopen
      | backward => exact hopen
    · exact haccess ride hmem

namespace SearchSettings

variable {Q M : Type} [IsOrdered K] [PriorityQueue Q K] [LawfulQueue Q] [BestMap M]
variable {s : SearchSettings K}

/-- Along a route the policy lets every edge be entered at the instant at which the search has come to
it: for a departure that is when the edge is entered, for an arrival it is when the edge is left. -/
theorem accepts_of_found (hinf : Scalar.isInfinite (Scalar.infinity : K) = true)
    (hw : s.weighting = inner.withAccess access)
    (htimeless : ∀ e before t, inner.durationAt e d before t = inner.duration e d before)
    (hs : s.HasCostsAt d) {source target : NodeId} {t : Instant} {r : Route K}
    (hfound : (s.bestRouteAt Q M d source target t).result = .ok (.found r)) :
    ∃ rides, inner.rides d none t.toInt (r.explored d) = .ok rides ∧
      ∀ ride ∈ rides, access ride.edge (.ofInt (ride.reached d)) = true := by
  obtain ⟨l, legs, hlegs, _⟩ := exists_retraces_of_found hs hfound
  have hreplay := hlegs.replay
  rw [hw] at hreplay
  exact Weighting.exists_rides_of_replay hinf htimeless hreplay hlegs.finite

def fromNineToTen : AccessRules := AccessRules.empty.openOnlyDuring 0 ⟨[], ⟨32400, 0⟩, ⟨36000, 0⟩⟩

def morningRoad : SearchSettings Exact where
  network := (RoadGraph.ofEdges 2 [.oneWay 0 1 (.finite 10) (.finite 36)]).network
  weighting := (Weighting.fastest .stored (.finite 36)).withAccess fromNineToTen.allows
  mode := .nodeBased
  visitLimit := 9

theorem accepts_of_found_morningRoad :
    ∃ r, (morningRoad.bestRouteAt (SortedQueue Exact) SparseMap .forward 0 1 35999999).result =
        .ok (.found r) ∧ r.weight = .finite 1 ∧
      ∃ rides, (Weighting.fastest .stored (.finite 36)).rides .forward none 35999999 r.edges =
          .ok rides ∧
        ∀ ride ∈ rides, fromNineToTen.allows ride.edge (.ofInt ride.entered) = true := by
  have hroute : ((morningRoad.bestRouteAt (SortedQueue Exact) SparseMap .forward 0 1
      35999999).result.toOption.bind Outcome.route?).map (·.weight) = some (.finite 1) := by
    decide +kernel
  obtain ⟨r, hfound, hone⟩ := exists_found_of_route? hroute
  obtain ⟨stored, hshows⟩ := Network.IsBuilt.exists_shows
    (isBuilt_network_ofEdges 2 _ : morningRoad.network.IsBuilt)
  have hm : morningRoad.network.IsMeasured := isMeasured_ofEdges (by decide +kernel)
  have hs : morningRoad.HasCostsAt .forward := by
    intro u e before t w he hw
    exact ((Weighting.isNonneg_fastest (Weighting.distance_nonneg hshows hm) _ _).withAccess
      _).weightAt he hw
  exact ⟨r, hfound, hone, accepts_of_found rfl rfl (fun _ _ _ ↦ rfl) hs hfound⟩

/-- Who arrives half a second after nine has entered the road half a second before. -/
theorem enters_closed_morningRoad :
    ∃ r, (morningRoad.bestRouteAt (SortedQueue Exact) SparseMap .backward 0 1 32400500).result =
        .ok (.found r) ∧
      ∃ rides, (Weighting.fastest .stored (.finite 36)).rides .forward none
          (32400500 - r.duration.toNat) r.edges = .ok rides ∧
        ∃ ride ∈ rides, fromNineToTen.allows ride.edge (.ofInt ride.entered) = false := by
  have hroute : ((morningRoad.bestRouteAt (SortedQueue Exact) SparseMap .backward 0 1
      32400500).result.toOption.bind Outcome.route?).map (fun r ↦
        ((Weighting.fastest .stored (.finite 36)).rides .forward none
          (32400500 - r.duration.toNat) r.edges).toOption.map (·.any fun ride ↦
            !fromNineToTen.allows ride.edge (.ofInt ride.entered))) = some (some true) := by
    decide +kernel
  obtain ⟨r, hfound, hrides⟩ := exists_found_of_route? hroute
  obtain ⟨rides, hrides, hany⟩ := exists_ok_of_map hrides
  obtain ⟨ride, hmem, hclosed⟩ := List.any_eq_true.1 hany
  exact ⟨r, hfound, rides, hrides, ride, hmem, by rwa [Bool.not_eq_true'] at hclosed⟩

end SearchSettings

end RoadRouting
