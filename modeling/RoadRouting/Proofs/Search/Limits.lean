import RoadRouting.Proofs.Bidirectional.Limits
import RoadRouting.Proofs.Search.Found
import RoadRouting.Proofs.Search.OneToMany

namespace RoadRouting

open Scalar (Exact IsOrdered)
open Bidirectional (Method Query)

namespace Exploration

variable {K Q M σ : Type} [Scalar K] [PriorityQueue Q K] [BestMap M]

theorem run_visited_le (x : Exploration K) (w : Watch K σ) (left visited : Nat)
    (f : Frontier K Q M) (watched : σ) :
    (x.run w left visited f watched).visited ≤ visited + left + 1 := by
  induction left generalizing visited f watched with
  | zero =>
    rw [run]
    split
    · exact Nat.le_succ visited
    · exact le_rfl
  | succ left ih =>
    rw [run]
    split
    · dsimp only
      omega
    · dsimp only
      split
      · dsimp only
        omega
      · split
        · next f' _ => exact (ih (visited + 1) f' _).trans (by omega)
        · dsimp only
          omega

theorem explore_visited_le (x : Exploration K) (w : Watch K σ) (limit : Nat) (root : Label K)
    (key : Option StateKey) (watched : σ) :
    (x.explore w limit root key watched : Explored K Q M σ).visited ≤ limit + 1 := by
  rw [explore]
  split
  · exact Nat.zero_le _
  · exact (x.run_visited_le w limit 0 _ watched).trans (by omega)

theorem lt_visited_of_run_limited {x : Exploration K} {w : Watch K σ} {left visited : Nat}
    {f : Frontier K Q M} {watched : σ}
    (h : (x.run w left visited f watched).ending = .ok .limited) :
    visited + left < (x.run w left visited f watched).visited := by
  induction left generalizing visited f watched with
  | zero =>
    cases hp : f.pop? with
    | none => rw [run_of_pop_eq_none hp] at h; cases h
    | some popped =>
      rw [run_of_limit hp]
      exact Nat.lt_succ_self _
  | succ left ih =>
    rw [run] at h ⊢
    split at h
    · cases h
    · dsimp only at h ⊢
      split at h
      · cases h
      · next hd =>
        rw [if_neg hd]
        split at h
        · have hlt := ih h
          omega
        · cases h

theorem lt_visited_of_limited {x : Exploration K} {w : Watch K σ} {limit : Nat} {root : Label K}
    {key : Option StateKey} {watched : σ}
    (h : (x.explore w limit root key watched : Explored K Q M σ).ending = .ok .limited) :
    limit < (x.explore w limit root key watched : Explored K Q M σ).visited := by
  rw [explore] at h ⊢
  split at h
  · cases h
  · next hd =>
    rw [if_neg hd]
    have hlt := lt_visited_of_run_limited h
    omega

theorem run_eq_of_le {x : Exploration K} {w : Watch K σ} {left left' visited : Nat}
    {f : Frontier K Q M} {watched : σ} (hle : left ≤ left')
    (h : (x.run w left visited f watched).ending ≠ .ok .limited) :
    x.run w left' visited f watched = x.run w left visited f watched := by
  induction left generalizing left' visited f watched with
  | zero =>
    cases hp : f.pop? with
    | none => rw [run_of_pop_eq_none hp, run_of_pop_eq_none hp]
    | some popped => exact absurd (congrArg Explored.ending (run_of_limit hp)) h
  | succ left ih =>
    obtain ⟨left', rfl⟩ : ∃ k, left' = k + 1 := ⟨left' - 1, by omega⟩
    rw [run] at h ⊢
    rw [run]
    split
    · rfl
    · next id next hp =>
      rw [hp] at h
      dsimp only at h ⊢
      split
      · rfl
      · next hd =>
        rw [if_neg hd] at h
        split
        · next f' hx =>
          rw [hx] at h
          exact ih (Nat.le_of_succ_le_succ hle) h
        · rfl

theorem explore_eq_of_le {x : Exploration K} {w : Watch K σ} {limit limit' : Nat} {root : Label K}
    {key : Option StateKey} {watched : σ} (hle : limit ≤ limit')
    (h : (x.explore w limit root key watched : Explored K Q M σ).ending ≠ .ok .limited) :
    (x.explore w limit' root key watched : Explored K Q M σ) =
      x.explore w limit root key watched := by
  rw [explore] at h ⊢
  rw [explore]
  split
  · rfl
  · next hd =>
    rw [if_neg hd] at h
    exact run_eq_of_le hle h

end Exploration

namespace SearchSettings

variable {K Q M : Type} [Scalar K] [PriorityQueue Q K] [BestMap M]
variable {s : SearchSettings K} {limit : Nat}

def withLimit (s : SearchSettings K) (limit : Nat) : SearchSettings K := { s with visitLimit := limit }

section OneEnd

variable {source target : NodeId}

theorem bestRoute_visited_le (h : Estimate K) :
    (s.bestRoute Q M h source target).visited ≤ s.visitLimit + 1 := by
  rw [bestRoute]
  split
  · exact Nat.zero_le _
  · exact Exploration.explore_visited_le _ _ _ _ _ _

theorem bestRouteAt_visited_le (d : Direction) (t : Instant) :
    (s.bestRouteAt Q M d source target t).visited ≤ s.visitLimit + 1 := by
  unfold bestRouteAt
  split
  · exact Nat.zero_le _
  · exact Exploration.explore_visited_le _ _ _ _ _ _

theorem bestRoutes_visited_le (targets : List NodeId) :
    (s.bestRoutes Q M source targets).visited ≤ s.visitLimit + 1 := by
  rw [bestRoutes]
  split
  · exact Nat.zero_le _
  · exact Exploration.explore_visited_le _ _ _ _ _ _

variable (hlimit : s.visitLimit ≤ limit)
include hlimit

theorem bestRoute_withLimit {h : Estimate K}
    (hresult : (s.bestRoute Q M h source target).result ≠ .ok .visitLimitReached) :
    (s.withLimit limit).bestRoute Q M h source target = s.bestRoute Q M h source target := by
  have hcheck : (s.withLimit limit).checkNodes [source, target] = s.checkNodes [source, target] := rfl
  have hsame : (s.exploreToward Q M h source target).ending ≠ .ok .limited →
      (s.withLimit limit).exploreToward Q M h source target = s.exploreToward Q M h source target :=
    fun h ↦ Exploration.explore_eq_of_le hlimit h
  unfold bestRoute at hresult ⊢
  rw [hcheck]
  cases hc : s.checkNodes [source, target] with
  | error _ => rfl
  | ok _ =>
    rw [hc] at hresult
    dsimp only at hresult ⊢
    rw [hsame fun hlimited ↦ hresult (by simp only [hlimited]; rfl)]
    rfl

theorem bestRouteAt_withLimit {d : Direction} {t : Instant}
    (hresult : (s.bestRouteAt Q M d source target t).result ≠ .ok .visitLimitReached) :
    (s.withLimit limit).bestRouteAt Q M d source target t = s.bestRouteAt Q M d source target t := by
  have hcheck : (s.withLimit limit).checkNodes [source, target] = s.checkNodes [source, target] := rfl
  have hsame : ∀ start goal, (s.exploreFrom Q M d start goal t).ending ≠ .ok .limited →
      (s.withLimit limit).exploreFrom Q M d start goal t = s.exploreFrom Q M d start goal t :=
    fun _ _ h ↦ Exploration.explore_eq_of_le hlimit h
  unfold bestRouteAt at hresult ⊢
  rw [hcheck]
  cases hc : s.checkNodes [source, target] with
  | error _ => rfl
  | ok _ =>
    rw [hc] at hresult
    cases d with
    | forward =>
      dsimp only at hresult ⊢
      rw [hsame source target fun hlimited ↦ hresult (by simp only [hlimited]; rfl)]
    | backward =>
      dsimp only at hresult ⊢
      rw [hsame target source fun hlimited ↦ hresult (by simp only [hlimited]; rfl)]

omit hlimit in
theorem bestRoute_getElem [IsOrdered K] [LawfulQueue Q] (hs : s.HasCosts .forward)
    {targets : List NodeId} {outcomes : List (Outcome K)}
    (h : (s.bestRoutes Q M source targets).result = .ok outcomes) {i : Nat}
    (ht : i < targets.length) (hi : i < outcomes.length) :
    (s.bestRoute Q M .zero source targets[i]).result = .ok outcomes[i] := by
  refine bestRoute_of_mem_zip hs h (List.mem_iff_getElem.2 ⟨i, by simp [ht, hi], ?_⟩)
  rw [List.getElem_zip]

theorem forall₂_bestRoutes_withLimit [IsOrdered K] [LawfulQueue Q] (hs : s.HasCosts .forward)
    {targets : List NodeId} {outcomes outcomes' : List (Outcome K)}
    (h : (s.bestRoutes Q M source targets).result = .ok outcomes)
    (h' : ((s.withLimit limit).bestRoutes Q M source targets).result = .ok outcomes') :
    List.Forall₂ (fun o o' ↦ o ≠ .visitLimitReached → o' = o) outcomes outcomes' := by
  obtain ⟨_, _, _, hall⟩ := exists_of_bestRoutes h
  obtain ⟨_, _, _, hall'⟩ := exists_of_bestRoutes h'
  refine List.forall₂_iff_get.2 ⟨hall.length_eq.symm.trans hall'.length_eq, fun i hi hi' ho ↦ ?_⟩
  have ht : i < targets.length := hall.length_eq ▸ hi
  have hone := bestRoute_getElem hs h ht hi
  have hone' := bestRoute_getElem (s := s.withLimit limit) hs h' ht hi'
  rw [bestRoute_withLimit hlimit (hone ▸ fun hlimited ↦ ho (Except.ok.inj hlimited)), hone] at hone'
  exact (Except.ok.inj hone').symm

end OneEnd

/-- No search visits more than its limit and one label more, or two from both ends. What it answers
unless it has reached the limit is what it answers with any larger limit, target by target if they are
many and no weight is below zero. -/
theorem answers_withLimit (hlimit : s.visitLimit ≤ limit) :
    (∀ {h source target}, (s.bestRoute Q M h source target).visited ≤ s.visitLimit + 1 ∧
      ((s.bestRoute Q M h source target).result ≠ .ok .visitLimitReached →
        (s.withLimit limit).bestRoute Q M h source target = s.bestRoute Q M h source target)) ∧
    (∀ {d source target t}, (s.bestRouteAt Q M d source target t).visited ≤ s.visitLimit + 1 ∧
      ((s.bestRouteAt Q M d source target t).result ≠ .ok .visitLimitReached →
        (s.withLimit limit).bestRouteAt Q M d source target t =
          s.bestRouteAt Q M d source target t)) ∧
    (∀ {source targets}, (s.bestRoutes Q M source targets).visited ≤ s.visitLimit + 1 ∧
      (∀ [IsOrdered K] [LawfulQueue Q], s.HasCosts .forward → ∀ {outcomes outcomes'},
        (s.bestRoutes Q M source targets).result = .ok outcomes →
        ((s.withLimit limit).bestRoutes Q M source targets).result = .ok outcomes' →
        List.Forall₂ (fun o o' ↦ o ≠ .visitLimitReached → o' = o) outcomes outcomes')) ∧
    ∀ {σ} {p : Method K σ} {q}, p.settings = s →
      (p.bestRoute Q M q).visited ≤ s.visitLimit + 2 ∧
      ((p.bestRoute Q M q).result ≠ .ok .visitLimitReached →
        (p.withBounds limit p.offset).bestRoute Q M q = p.bestRoute Q M q) := by
  refine ⟨⟨bestRoute_visited_le _, bestRoute_withLimit hlimit⟩,
    ⟨bestRouteAt_visited_le _ _, bestRouteAt_withLimit hlimit⟩,
    ⟨bestRoutes_visited_le _, fun hs _ _ ↦ forall₂_bestRoutes_withLimit hlimit hs⟩, ?_⟩
  rintro σ p q rfl
  exact ⟨p.bestRoute_visited_le q, Method.bestRoute_withBounds hlimit⟩

theorem answers_withLimit_wayRound :
    (∃ r, ((Roads.wayRound.settings (.shortest .stored) 2).bestRoute (SortedQueue Exact) SparseMap
        .zero 0 1).result = .ok (.found r) ∧
      ((Roads.wayRound.settings (.shortest .stored) 20).bestRoute (SortedQueue Exact) SparseMap
        .zero 0 1).result = .ok (.found r)) ∧
    ∃ outcomes outcomes',
      ((Roads.wayRound.settings (.shortest .stored) 2).bestRoutes (SortedQueue Exact) SparseMap
        0 [1, 3]).result = .ok outcomes ∧
      ((Roads.wayRound.settings (.shortest .stored) 20).bestRoutes (SortedQueue Exact) SparseMap
        0 [1, 3]).result = .ok outcomes' ∧
      outcomes.map Outcome.name = ["found", "visit_limit_reached"] ∧
      List.Forall₂ (fun o o' ↦ o ≠ .visitLimitReached → o' = o) outcomes outcomes' := by
  have hn : Roads.wayRound.network.IsBuilt := isBuilt_network_ofEdges _ _
  obtain ⟨stored, hshows⟩ := hn.exists_shows
  have hR : Roads.wayRound.IsPricedBy (.shortest .stored) stored :=
    Roads.isPricedBy hshows Roads.isMeasured_wayRound (.plain (.shortest fun _ _ ↦ rfl))
  have hlimit : (Roads.wayRound.settings (.shortest .stored) 2).visitLimit ≤ 20 := by decide
  obtain ⟨hone, _, hmany, _⟩ := answers_withLimit (Q := SortedQueue Exact) (M := SparseMap) hlimit
  obtain ⟨r, hfound, _⟩ : ∃ r, ((Roads.wayRound.settings (.shortest .stored) 2).bestRoute
      (SortedQueue Exact) SparseMap .zero 0 1).result = .ok (.found r) ∧ r.nodes = [0, 1] :=
    exists_found_of_route? (by decide +kernel)
  have hsame := congrArg Answer.result (hone.2 fun hlimited ↦ nomatch hfound.symm.trans hlimited)
  obtain ⟨outcomes, hless, hnames⟩ : ∃ outcomes,
      ((Roads.wayRound.settings (.shortest .stored) 2).bestRoutes (SortedQueue Exact) SparseMap
        0 [1, 3]).result = .ok outcomes ∧
      outcomes.map Outcome.name = ["found", "visit_limit_reached"] :=
    exists_ok_of_map (by decide +kernel)
  obtain ⟨outcomes', hmore, _⟩ : ∃ outcomes,
      ((Roads.wayRound.settings (.shortest .stored) 20).bestRoutes (SortedQueue Exact) SparseMap
        0 [1, 3]).result = .ok outcomes ∧
      outcomes.map Outcome.name = ["found", "unreachable"] :=
    exists_ok_of_map (by decide +kernel)
  exact ⟨⟨r, hfound, hsame.trans hfound⟩, outcomes, outcomes', hless, hmore, hnames,
    hmany.2 (Roads.hasCosts_settings hR 2 .forward) hless hmore⟩

def rewardedRound (limit : Nat) : SearchSettings Exact where
  network := (RoadGraph.ofEdges 4 [.oneWay 0 1 (.finite 5) (.finite 36),
    .oneWay 0 2 (.finite 6) (.finite 36), .oneWay 2 1 (.finite (-2)) (.finite 36)]).network
  weighting := .shortest .stored
  mode := .nodeBased
  visitLimit := limit

/-- With time to look for the node without roads, the search replaces the route that it had found. -/
theorem not_forall₂_bestRoutes_rewardedRound : ∃ outcomes outcomes',
    ((rewardedRound 2).bestRoutes (SortedQueue Exact) SparseMap 0 [1, 3]).result = .ok outcomes ∧
    ((rewardedRound 10).bestRoutes (SortedQueue Exact) SparseMap 0 [1, 3]).result = .ok outcomes' ∧
    outcomes.map Outcome.weight? = [some (.finite 5), none] ∧
    outcomes'.map Outcome.weight? = [some (.finite 4), none] ∧
    ¬List.Forall₂ (fun o o' ↦ o ≠ .visitLimitReached → o' = o) outcomes outcomes' := by
  obtain ⟨outcomes, hless, hfive⟩ : ∃ outcomes,
      ((rewardedRound 2).bestRoutes (SortedQueue Exact) SparseMap 0 [1, 3]).result = .ok outcomes ∧
      outcomes.map Outcome.weight? = [some (.finite 5), none] :=
    exists_ok_of_map (by decide +kernel)
  obtain ⟨outcomes', hmore, hfour⟩ : ∃ outcomes,
      ((rewardedRound 10).bestRoutes (SortedQueue Exact) SparseMap 0 [1, 3]).result = .ok outcomes ∧
      outcomes.map Outcome.weight? = [some (.finite 4), none] :=
    exists_ok_of_map (by decide +kernel)
  refine ⟨outcomes, outcomes', hless, hmore, hfive, hfour, fun hall ↦ ?_⟩
  cases hall with
  | nil => cases hfive
  | @cons o o' _ _ hsame _ =>
    obtain ⟨ho, _⟩ := List.cons.inj hfive
    obtain ⟨ho', _⟩ := List.cons.inj hfour
    have hne : o ≠ .visitLimitReached := by
      rintro rfl
      cases ho
    rw [hsame hne, ho] at ho'
    exact absurd ho' (by decide)

end SearchSettings

end RoadRouting
