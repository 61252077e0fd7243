import RoadRouting.Proofs.Bidirectional.BestRoute
import RoadRouting.Proofs.Search.Courses
import RoadRouting.Proofs.Search.Limits
import RoadRouting.Proofs.Search.ReportedWeight
import Mathlib.Algebra.BigOperators.Group.Finset.Basic
import Mathlib.Algebra.Order.BigOperators.Group.Finset

namespace RoadRouting

open Scalar (Exact IsOrdered)
open Bidirectional (Method Query)

/-- Finitely many numbers that are not below zero are whole multiples of some fraction. -/
theorem exists_parts (qs : List Rat) (hqs : ∀ q ∈ qs, 0 ≤ q) :
    ∃ parts : Nat, 0 < parts ∧ ∃ most : Nat, ∀ q ∈ qs, ∃ n ≤ most, q = n / parts := by
  induction qs with
  | nil => exact ⟨1, one_pos, 0, nofun⟩
  | cons q qs ih =>
    obtain ⟨parts, hparts, most, hall⟩ := ih fun q hq ↦ hqs q (List.mem_cons_of_mem _ hq)
    have hparts' : (parts : Rat) ≠ 0 := Nat.cast_ne_zero.2 hparts.ne'
    have hden : (q.den : Rat) ≠ 0 := Nat.cast_ne_zero.2 q.den_ne_zero
    refine ⟨parts * q.den, Nat.mul_pos hparts q.den_pos, most * q.den + q.num.toNat * parts, ?_⟩
    intro q' hq'
    rcases List.mem_cons.1 hq' with rfl | hq'
    · refine ⟨q'.num.toNat * parts, Nat.le_add_left _ _, ?_⟩
      have hnum : ((q'.num.toNat : Nat) : Rat) = (q'.num : Rat) := by
        have hnonneg : 0 ≤ q'.num := Rat.num_nonneg.2 (hqs q' List.mem_cons_self)
        exact_mod_cast congrArg (Int.cast (R := Rat)) (Int.toNat_of_nonneg hnonneg)
      push_cast
      rw [hnum, mul_comm (parts : Rat), mul_div_mul_right _ _ hparts', Rat.num_div_den]
    · obtain ⟨n, hn, hq'⟩ := hall q' hq'
      refine ⟨n * q.den, (Nat.mul_le_mul_right _ hn).trans (Nat.le_add_right _ _), ?_⟩
      push_cast
      rw [mul_div_mul_right _ _ hden, hq']

def Weighting.IsCounted (w : Weighting Exact) (n : Network Exact) (d : Direction)
    (parts most : Nat) : Prop :=
  ∀ {u e before c}, e ∈ n.edges u d → (∀ a ∈ before, a < n.edgeCount) →
    w.weight e d before = .ok c → Scalar.isInfinite c = false →
    ∃ k ≤ most, c = .finite ((k : Nat) / parts)

def Weighting.values (w : Weighting Exact) (n : Network Exact) (d : Direction) : List Rat :=
  (List.range n.nodeCount).flatMap fun u ↦ (n.edges u d).flatMap fun e ↦
    (none :: (List.range n.edgeCount).map some).filterMap fun before ↦
      match w.weight e d before with
      | .ok (.finite q) => some q
      | _ => none

theorem Weighting.IsNonneg.exists_isCounted {w : Weighting Exact} {n : Network Exact}
    {stored : EdgeId → Option (StoredEdge Exact)} (hw : w.IsNonneg n) (hn : n.Shows stored)
    (d : Direction) : ∃ parts, 0 < parts ∧ ∃ most, w.IsCounted n d parts most := by
  have hvalues : ∀ q ∈ w.values n d, 0 ≤ q := by
    intro q hq
    simp only [values, List.mem_flatMap, List.mem_filterMap] at hq
    obtain ⟨u, _, e, he, before, _, hq⟩ := hq
    split at hq
    · next hweight =>
      cases hq
      exact Exact.finite_le_finite.1 (hw.weight he hweight)
    · cases hq
  obtain ⟨parts, hparts, most, hall⟩ := exists_parts _ hvalues
  refine ⟨parts, hparts, most, fun {u e before c} he hbefore hc hfinite ↦ ?_⟩
  rcases Exact.zero_le_iff.1 (hw.weight he hc) with rfl | ⟨q, _, rfl⟩
  · cases hfinite
  · have hq : q ∈ w.values n d := by
      simp only [values, List.mem_flatMap, List.mem_filterMap]
      refine ⟨u, List.mem_range.2 (hn.lt_of_mem he), e, he, before, ?_, by rw [hc]⟩
      cases before with
      | none => exact List.mem_cons_self
      | some a =>
        exact List.mem_cons_of_mem _ (List.mem_map_of_mem (List.mem_range.2 (hbefore a rfl)))
    obtain ⟨k, hk, hq⟩ := hall q hq
    exact ⟨k, hk, congrArg Exact.finite hq⟩

namespace Frontier

variable {Q M : Type} [PriorityQueue Q Exact] [LawfulQueue Q] [BestMap M]
variable {f next : Frontier Exact Q M} {parts most : Nat} {id : LabelId} {l : Label Exact}

def units (parts : Nat) (c : Exact) : Nat := (c.value * parts).num.toNat

omit [PriorityQueue Q Exact] [LawfulQueue Q] [BestMap M] in
theorem units_finite (hparts : 0 < parts) (k : Nat) : units parts (.finite (k / parts)) = k := by
  have hne : (parts : Rat) ≠ 0 := Nat.cast_ne_zero.2 hparts.ne'
  rw [units, Exact.value_finite, div_mul_cancel₀ _ hne, Rat.num_natCast, Int.toNat_natCast]

/-- A label costs at most `most` parts for each of the labels that were made before it. -/
def IsCounted (f : Frontier Exact Q M) (parts most : Nat) : Prop :=
  ∀ {id l}, f.label? id = some l → ∃ k ≤ id * most, l.cost = .finite ((k : Nat) / parts)

variable (parts most) in
/-- What the label with a number can still save, and whether it is queued. A label that has not been
made counts as the dearest one. -/
def allowance (f : Frontier Exact Q M) (id : LabelId) : Nat :=
  match f.label? id with
  | some l => units parts l.cost + (f.priority? id).toList.length
  | none => id * most + 1

variable (parts most) in
def potential (count : Nat) (f : Frontier Exact Q M) : Nat :=
  ∑ id ∈ Finset.range count, f.allowance parts most id

omit [BestMap M] in
theorem potential_pop {count : Nat} (hq : LawfulQueue.IsValid f.queue)
    (hp : f.pop? = some (id, next)) (hl : f.label? id = some l) (hid : id < count) :
    next.potential parts most count < f.potential parts most count := by
  have hlabel := label?_of_pop? hp
  refine Finset.sum_lt_sum (fun j _ ↦ ?_) ⟨id, Finset.mem_range.2 hid, ?_⟩
  · rw [allowance, allowance, hlabel, priority?_pop hq hp]
    split
    · split
      · exact Nat.add_le_add_left (Nat.zero_le _) _
      · exact le_rfl
    · exact le_rfl
  · obtain ⟨k, hk⟩ := Option.ne_none_iff_exists'.1 (priority?_ne_none_of_pop hq hp)
    rw [allowance, allowance, hlabel, priority?_pop hq hp, hl, hk, if_pos rfl]
    exact Nat.lt_succ_self _

section Store

variable {start made lp : Label Exact} {keyOf : Option (EdgeView Exact) → Option StateKey}
variable {key : StateKey} (h : f.IsTree start keyOf) (hb : f.IsBranch keyOf key made id lp)
variable {w : Nat}
include h hb

theorem IsCounted.store (hf : f.IsCounted parts most) (hparts : 0 < parts) (hw : w ≤ most)
    (hcost : made.cost = lp.cost + .finite (w / parts)) :
    (f.store key made).1.IsCounted parts most ∧
      (∀ {lj}, f.label? (f.store key made).2 = some lj →
        units parts made.cost < units parts lj.cost) := by
  have hpos : (0 : Rat) < parts := Nat.cast_pos.2 hparts
  obtain ⟨k, hk, hlp⟩ := hf hb.label
  have hmade : made.cost = .finite (((k + w : Nat) : Rat) / parts) := by
    rw [hcost, hlp, Exact.finite_add_finite]
    push_cast
    rw [add_div]
  have hless : ∀ {lj}, f.label? (f.store key made).2 = some lj →
      units parts made.cost < units parts lj.cost := by
    intro lj hlj
    obtain ⟨kj, _, hcj⟩ := hf hlj
    have hbetter := hb.better (best?_of_label?_store hlj) hlj
    rw [hcj, hmade, Exact.finite_le_finite, div_le_div_iff_of_pos_right hpos, Nat.cast_le,
      not_le] at hbetter
    rwa [hcj, hmade, units_finite hparts, units_finite hparts]
  refine ⟨fun {j lj} hj ↦ ?_, hless⟩
  by_cases hji : j = (f.store key made).2
  · subst hji
    cases (h.label?_store_self made).symm.trans hj
    refine ⟨k + w, ?_, hmade⟩
    rcases f.store_cases key made with hknown | ⟨_, hsize⟩
    · obtain ⟨lj, hlj, _⟩ := h.best hknown
      obtain ⟨kj, hkj, hcj⟩ := hf hlj
      have hlt := hless hlj
      rw [hcj, hmade, units_finite hparts, units_finite hparts] at hlt
      exact hlt.le.trans hkj
    · rw [hsize]
      calc k + w ≤ id * most + most := Nat.add_le_add hk hw
        _ = (id + 1) * most := (Nat.succ_mul id most).symm
        _ ≤ f.size * most := Nat.mul_le_mul_right _ (lt_size_of_label? hb.label)
  · rw [h.label?_store_of_ne hji] at hj
    exact hf hj

omit hb in
theorem potential_store (count : Nat) (hf : (f.store key made).1.IsCounted parts most)
    (hparts : 0 < parts) (hless : ∀ {lj}, f.label? (f.store key made).2 = some lj →
      units parts made.cost < units parts lj.cost) :
    (f.store key made).1.potential parts most count ≤ f.potential parts most count := by
  refine Finset.sum_le_sum fun j _ ↦ ?_
  rw [allowance, allowance, priority?_store h.queue]
  by_cases hji : j = (f.store key made).2
  · subst hji
    rw [h.label?_store_self made, if_pos rfl]
    cases hj : f.label? (f.store key made).2 with
    | some lj => exact (hless hj).trans_le (Nat.le_add_right _ _)
    | none =>
      obtain ⟨k, hk, hcost⟩ := hf (h.label?_store_self made)
      change units parts made.cost + 1 ≤ (f.store key made).2 * most + 1
      rw [hcost, units_finite hparts]
      exact Nat.succ_le_succ hk
  · rw [h.label?_store_of_ne hji, if_neg hji]

end Store

end Frontier

namespace Frontier.IsGrown

variable {K Q M : Type} [Scalar K] [PriorityQueue Q K] [LawfulQueue Q] [BestMap M]
variable {s : SearchSettings K} {d : Direction} {origin : NodeId} {pin : Option EdgeId}
variable {start l : Label K} {f : Frontier K Q M} {id : LabelId}
variable {stored : EdgeId → Option (StoredEdge K)}

theorem lt_edgeCount (h : f.IsGrown s d origin pin start) (hn : s.network.Shows stored)
    (hl : f.label? id = some l) : ∀ a ∈ l.incomingEdge, a < s.network.edgeCount := by
  intro a ha
  obtain ⟨e, he, rfl⟩ := Option.map_eq_some_iff.1 ha
  obtain ⟨_, hfollows⟩ := h.exists_follows hl e he
  exact hn.edge_lt_of_mem hfollows.listed

theorem size_le (h : f.IsGrown s d origin pin start) (hn : s.network.Shows stored) :
    f.size ≤ max s.network.nodeCount (2 * s.network.edgeCount) + 1 := by
  refine h.toIsTree.size_le_of_lt fun {id l} hl hid ↦ ?_
  obtain ⟨e, _, _, hedge, _, _, _, hfollows⟩ := h.form hl hid
  exact ⟨_, hn.key_lt_max hfollows.listed, by rw [hedge]; rfl⟩

end Frontier.IsGrown

namespace Sweep

variable {Q M : Type} [PriorityQueue Q Exact] [BestMap M]
variable {s : SearchSettings Exact} {w : Sweep s} {f : Frontier Exact Q M}
variable {taken : List (LabelId × Label Exact)} {parts most : Nat}
variable {stored : EdgeId → Option (StoredEdge Exact)}

def steps (n : Network Exact) (most : Nat) : Nat :=
  ∑ id ∈ Finset.range (max n.nodeCount (2 * n.edgeCount) + 1), (id * most + 1)

theorem isCounted_start (hw : w.IsSound) :
    (Frontier.empty.addRoot w.root (s.mode.rootKey w.origin) : Frontier Exact Q M).IsCounted
      parts most := by
  intro id l hl
  rw [Frontier.label?_addRoot] at hl
  split at hl
  · cases hl
    exact ⟨0, Nat.zero_le _, by rw [hw.root_cost, Nat.cast_zero, zero_div]; rfl⟩
  · cases hl

variable [LawfulQueue Q]

theorem potential_start (hw : w.IsSound) (count : Nat) :
    (Frontier.empty.addRoot w.root (s.mode.rootKey w.origin) : Frontier Exact Q M).potential
      parts most count ≤ ∑ id ∈ Finset.range count, (id * most + 1) := by
  refine Finset.sum_le_sum fun id _ ↦ ?_
  rw [Frontier.allowance, Frontier.label?_addRoot, Frontier.priority?_addRoot]
  by_cases hid : id = 0
  · have hzero : Frontier.units parts w.root.cost = 0 := by
      rw [hw.root_cost, Frontier.units, Exact.zero_eq, Exact.value_finite, zero_mul]
      rfl
    rw [if_pos hid, if_pos hid]
    change Frontier.units parts w.root.cost + 1 ≤ _
    rw [hzero]
    exact Nat.succ_le_succ (Nat.zero_le _)
  · rw [if_neg hid]

variable (hw : w.IsSound) (hn : s.network.Shows stored) (ht : w.IsTimeless) (hparts : 0 < parts)
variable (hc : s.weighting.IsCounted s.network w.direction parts most)
include hw hn ht hparts hc

/-- Every label that is taken out uses up some of what could be saved at the start. -/
theorem Course.isCounted_and_add_potential_le (h : w.Course taken f) : f.IsCounted parts most ∧
    taken.length + f.potential parts most (max s.network.nodeCount (2 * s.network.edgeCount) + 1) ≤
      steps s.network most := by
  induction h with
  | start =>
    refine ⟨isCounted_start hw, ?_⟩
    rw [List.length_nil, Nat.zero_add]
    exact potential_start hw _
  | @settle taken f next id h hp ih =>
    obtain ⟨hcounted, hle⟩ := ih
    have hgrown := h.isGrown hw hn
    obtain ⟨l, hl, _⟩ := hgrown.label?_of_pop hp
    have hlt : id < max s.network.nodeCount (2 * s.network.edgeCount) + 1 :=
      (Frontier.lt_size_of_label? hl).trans_le (hgrown.size_le hn)
    have hless : next.potential parts most _ < f.potential parts most _ :=
      Frontier.potential_pop hgrown.queue hp hl hlt
    refine ⟨?_, ?_⟩
    · intro j lj hj
      rw [Frontier.label?_of_pop? hp] at hj
      exact hcounted hj
    · rw [List.length_cons]
      omega
  | @explore taken f f' id l x e r h hx he htry ih =>
    obtain ⟨hcounted, hle⟩ := ih
    have hgrown := h.isGrown hw hn
    have hl := h.label?_of_head hw hn
    rcases Exploration.tryEdge_cases htry with ⟨rfl, _⟩ | ⟨made, c, hs, rfl, _⟩
    · exact ⟨hcounted, hle⟩
    · have hx' := hw.keepsTo hx
      obtain ⟨hb, _⟩ := hgrown.of_stores hn (fun _ ↦ rfl) hx' hl (fun _ ↦ rfl) he hs
      obtain ⟨_, _, _, hcost⟩ := hx'.steps hs.extend
      obtain ⟨k, hk, rfl⟩ := hc (hx'.edges l.node ▸ he) (hgrown.lt_edgeCount hn hl)
        (ht hx ▸ hs.price) hs.finite
      obtain ⟨hcounted', hless⟩ := hcounted.store hgrown.toIsTree hb hparts hk hcost
      refine ⟨hcounted', ?_⟩
      exact (Nat.add_le_add_left (Frontier.potential_store hgrown.toIsTree _ hcounted' hparts hless)
        _).trans hle

theorem count_le_of_reachesAfter {count : Nat} (h : w.ReachesAfter f count) :
    count ≤ steps s.network most := by
  obtain ⟨taken, hcourse, rfl⟩ := h
  have hle := (hcourse.isCounted_and_add_potential_le hw hn ht hparts hc).2
  omega

end Sweep

open Bidirectional (State)

variable {Q M : Type} [PriorityQueue Q Exact] [LawfulQueue Q] [BestMap M]

theorem exists_count_le {n : Network Exact} {w : Weighting Exact} (hn : n.IsBuilt)
    (hw : w.IsNonneg n) : ∃ most, ∀ {s : SearchSettings Exact} {v : Sweep s} {count : Nat}
      {f : Frontier Exact Q M}, s.network = n → s.weighting = w → v.IsAsked → v.IsTimeless →
      v.ReachesAfter f count → count ≤ most := by
  obtain ⟨stored, hshows⟩ := hn.exists_shows
  obtain ⟨parts, hparts, most, hc⟩ := hw.exists_isCounted hshows .forward
  obtain ⟨parts', hparts', most', hc'⟩ := hw.exists_isCounted hshows .backward
  refine ⟨max (Sweep.steps n most) (Sweep.steps n most'), ?_⟩
  rintro s v count f rfl rfl hasked htimeless hreach
  cases hd : v.direction with
  | forward =>
    exact (Sweep.count_le_of_reachesAfter (hasked.isSound hw) hshows htimeless hparts (hd ▸ hc)
      hreach).trans (le_max_left _ _)
  | backward =>
    exact (Sweep.count_le_of_reachesAfter (hasked.isSound hw) hshows htimeless hparts' (hd ▸ hc')
      hreach).trans (le_max_right _ _)

/-- No search takes out more labels than a network and its weights allow. So without a limit that is
smaller, a search with any estimate stops because it has come to its end. -/
theorem exists_visited_le {n : Network Exact} {w : Weighting Exact} (hn : n.IsBuilt)
    (hw : w.IsNonneg n) : ∃ most, ∀ s : SearchSettings Exact, s.network = n → s.weighting = w →
      (∀ {estimate source taken} {f : Frontier Exact Q M},
        (s.sweep estimate source).Course taken f → taken.length ≤ most) ∧
      (∀ {h source target}, let r := s.exploreToward Q M h source target
        r.visited ≤ most ∧ (most ≤ s.visitLimit → r.ending ≠ .ok .limited)) ∧
      ∀ {σ} {p : Method Exact σ} {q}, p.settings = s →
        (∀ {d taken} {f : Frontier Exact Q M},
          (p.sweep q d).Course taken f → taken.length ≤ most) ∧
        (p.search q : State Exact Q M σ × _).1.visited ≤ most ∧
        (most ≤ s.visitLimit → ∀ {st : State Exact Q M σ}, p.search q = (st, .ok ()) →
          st.isFinished p.offset = true) := by
  obtain ⟨most, hmost⟩ := exists_count_le (Q := Q) (M := M) hn hw
  refine ⟨most + most, fun s hnetwork hweighting ↦ ⟨fun h ↦ ?_, fun {h source target} ↦ ?_, ?_⟩⟩
  · exact (hmost hnetwork hweighting (.oneEnd _ _) (Sweep.isTimeless_sweep _ _)
      ⟨_, h, rfl⟩).trans (Nat.le_add_right _ _)
  · have hvisited := hmost hnetwork hweighting (.oneEnd _ _) (Sweep.isTimeless_sweep _ _)
      (Sweep.reachesAfter_exploreToward Q M s source target h)
    refine ⟨hvisited.trans (Nat.le_add_right _ _), fun hlimit hlimited ↦ ?_⟩
    have hlt := Exploration.lt_visited_of_limited hlimited
    change s.visitLimit < (s.exploreToward Q M h source target).visited at hlt
    omega
  · rintro σ p q rfl
    have hside : ∀ {d count} {f : Frontier Exact Q M}, (p.sweep q d).ReachesAfter f count →
        count ≤ most :=
      hmost hnetwork hweighting (.bothEnds _ _ _) (Sweep.isTimeless_side _ _ _)
    have hvisited : (p.search q : State Exact Q M σ × _).1.visited ≤ most + most :=
      Nat.add_le_add (hside (p.sidesReached_search q .forward))
        (hside (p.sidesReached_search q .backward))
    refine ⟨fun h ↦ (hside ⟨_, h, rfl⟩).trans (Nat.le_add_right _ _), hvisited,
      fun hlimit st hsearch ↦ ?_⟩
    refine (Method.isFinished_or_isExceeded hsearch).resolve_right fun hexceeded ↦ ?_
    have hlt : p.settings.visitLimit < st.visited := of_decide_eq_true hexceeded
    rw [hsearch] at hvisited
    dsimp only at hvisited
    omega

theorem exists_visited_le_hiddenDetour : ∃ most, ∀ limit,
    let s := Roads.hiddenDetour.settings (.shortest .stored) limit
    let p : Method Exact Unit := ⟨s, Roads.hidingEstimate, .never, 0⟩
    (s.exploreToward (SortedQueue Exact) SparseMap Roads.hidingEstimate 0 3).visited ≤ most ∧
      (p.search ⟨0, 3, none, none⟩ :
        State Exact (SortedQueue Exact) SparseMap Unit × _).1.visited ≤ most := by
  have hn : Roads.hiddenDetour.network.IsBuilt := isBuilt_network_ofEdges _ _
  have hw : (Weighting.shortest .stored).IsNonneg Roads.hiddenDetour.network :=
    (Weighting.IsAssembled.shortest .stored).isNonneg_of_isMeasured hn Roads.isMeasured_hiddenDetour
  obtain ⟨most, hmost⟩ := exists_visited_le (Q := SortedQueue Exact) (M := SparseMap) hn hw
  refine ⟨most, fun limit ↦ ?_⟩
  obtain ⟨_, hone, hboth⟩ := hmost (Roads.hiddenDetour.settings (.shortest .stored) limit) rfl rfl
  exact ⟨hone.1, (hboth rfl).2.1⟩

omit [LawfulQueue Q] in
theorem SearchSettings.visited_bestRoute_le {s : SearchSettings Exact} {h : Estimate Exact}
    {source target : NodeId} {most : Nat}
    (hmost : ∀ {count} {f : Frontier Exact Q M},
      (s.sweep (h.toward (some target)) source).ReachesAfter f count → count ≤ most) :
    (s.bestRoute Q M h source target).visited ≤ most := by
  rw [SearchSettings.bestRoute]
  split
  · exact Nat.zero_le _
  · exact hmost (Sweep.reachesAfter_exploreToward Q M s source target h)

omit [LawfulQueue Q] in
theorem Bidirectional.Method.visited_bestRoute_le {σ : Type} {p : Method Exact σ} {q : Query}
    {most : Nat} (hmost : ∀ {d count} {f : Frontier Exact Q M},
      (p.sweep q d).ReachesAfter f count → count ≤ most) :
    (p.bestRoute Q M q).visited ≤ most + most := by
  rw [Method.bestRoute]
  split
  · exact Nat.zero_le _
  · exact Nat.zero_le _
  · exact Nat.add_le_add (hmost (p.sidesReached_search q .forward))
      (hmost (p.sidesReached_search q .backward))

theorem Answer.IsBest.ne_visitLimitReached {a : Answer Exact (Outcome Exact)}
    {walk : List (EdgeView Exact) → Rat → Prop} {limit : Nat} (h : a.IsBest walk limit)
    (hvisited : a.visited ≤ limit) : a.result ≠ .ok .visitLimitReached := by
  intro hlimited
  rw [Answer.IsBest, hlimited] at h
  exact absurd hvisited (not_le.2 h)

/-- With a limit that is large enough for a network and its weights, no search stops at the limit: it
finds a cheapest walk or there is none. -/
theorem Roads.exists_limit_isBest {R : Roads} {w : Weighting Exact} (hn : R.network.IsBuilt)
    (hm : R.network.IsMeasured) (hw : Weighting.Charges R.mode R.price w R.turns) :
    ∃ most, ∀ {limit source target}, most ≤ limit → source < R.network.nodeCount →
      target < R.network.nodeCount →
      (∀ {h}, R.Admits h target →
        let a := (R.settings w limit).bestRoute Q M h source target
        a.IsBest (fun es g ↦ R.Walk source es target g) limit ∧
          a.result ≠ .ok .visitLimitReached) ∧
      ∀ {h offset}, R.IsConsistentBetween h source target → 0 ≤ offset →
        (R.mode ≠ .nodeBased → R.network.IsLoopFree) →
        let a := (R.method w limit h offset).bestRoute Q M { source, target }
        a.IsBest (fun es g ↦ R.Walk source es target g) limit ∧
          a.result ≠ .ok .visitLimitReached := by
  obtain ⟨stored, hshows⟩ := hn.exists_shows
  have hR : R.IsPricedBy w stored := isPricedBy hshows hm hw
  obtain ⟨most, hmost⟩ :=
    exists_count_le (Q := Q) (M := M) hn (hw.isAssembled.isNonneg_of_isMeasured hn hm)
  refine ⟨most + most, fun {limit source target} hlimit hs ht ↦ ⟨?_, ?_⟩⟩
  · intro h hh a
    have hbest : a.IsBest (fun es g ↦ R.Walk source es target g) limit :=
      isBest_of_arrives hR hs ht (exploreToward_arrives limit hR hs ht hh)
    have hvisited : a.visited ≤ most :=
      SearchSettings.visited_bestRoute_le (hmost rfl rfl (.oneEnd _ _) (Sweep.isTimeless_sweep _ _))
    exact ⟨hbest, hbest.ne_visitLimitReached (by omega)⟩
  · intro h offset hh hoffset hloop a
    have hbest : a.IsBest (fun es g ↦ R.Walk source es target g) limit := by
      rw [← journey_of_no_pins]
      exact isBest_of_isConsistentBetween hn hm hw (fun _ d ↦ by cases d <;> rfl)
        (fun hmode ↦ avoidsLoops_of_isLoopFree (hloop hmode)) hs ht hh hoffset
    have hvisited : a.visited ≤ most + most :=
      Method.visited_bestRoute_le (hmost rfl rfl (.bothEnds _ _ _) (Sweep.isTimeless_side _ _ _))
    exact ⟨hbest, hbest.ne_visitLimitReached (hvisited.trans hlimit)⟩

end RoadRouting
