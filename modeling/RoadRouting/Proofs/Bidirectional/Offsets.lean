import RoadRouting.Proofs.Bidirectional.Limits
import RoadRouting.Proofs.Bidirectional.ReportedWeight
import RoadRouting.Proofs.Weighting.Nonneg

namespace RoadRouting

open Scalar (Exact IsOrdered IsSigned)

namespace Scalar

/-- The infinite cost is above all numbers, and a tolerance that grows lowers what is left. -/
class IsExtended (K : Type) [Scalar K] : Prop extends IsSigned K where
  le_of_isInfinite : ∀ {x y : K}, 0 ≤ x → isInfinite x = true → isNaN y = false → y ≤ x
  isInfinite_of_le : ∀ {x y : K}, 0 ≤ x → x ≤ y → isInfinite x = true → isInfinite y = true
  isInfinite_sub_of_lt : ∀ {x y z : K}, 0 ≤ x → 0 ≤ y → isInfinite y = false → x - y < z →
    isInfinite (x - y) = false
  le_sub_of_le : ∀ {x y o o' : K}, isFinite o = true → isFinite o' = true → o ≤ o' → x ≤ y - o' →
    x ≤ y - o

def SumsStayFinite (K : Type) [Scalar K] : Prop :=
  ∀ x y : K, isInfinite x = false → isInfinite y = false →
    isInfinite (x + y) = false ∧ isInfinite (x - y) = false

section Laws

variable {K : Type} [Scalar K]

theorem IsSigned.isFinite_of_lt [IsSigned K] {x y : K} (h : x < y) (hx : isInfinite x = false) :
    isFinite x = true := by
  rw [isFinite, (IsOrdered.not_isNaN_of_le (IsSigned.lt_iff.1 h).1).1, hx]
  rfl

theorem IsSigned.lt_trans [IsSigned K] {x y z : K} (hxy : x < y) (hyz : y < z) : x < z := by
  obtain ⟨hxy, hyx⟩ := IsSigned.lt_iff.1 hxy
  obtain ⟨hyz, _⟩ := IsSigned.lt_iff.1 hyz
  exact IsSigned.lt_iff.2 ⟨IsOrdered.le_trans hxy hyz, fun hzx ↦ hyx (IsOrdered.le_trans hyz hzx)⟩

theorem IsExtended.isInfinite_of_lt [IsExtended K] {x y : K} (hx : 0 ≤ x) (h : x < y) :
    isInfinite x = false := by
  obtain ⟨hle, hlt⟩ := IsSigned.lt_iff.1 h
  rw [← Bool.not_eq_true]
  exact fun hinf ↦ hlt (IsExtended.le_of_isInfinite hx hinf (IsOrdered.not_isNaN_of_le hle).2)

end Laws

theorem Exact.sumsStayFinite : SumsStayFinite Exact := by
  intro x y hx hy
  cases x with
  | nan => exact ⟨rfl, rfl⟩
  | negInfinity => cases hx
  | infinity => cases hx
  | finite p =>
    cases y with
    | nan => exact ⟨rfl, rfl⟩
    | negInfinity => cases hy
    | infinity => cases hy
    | finite q =>
      rw [Exact.finite_sub_finite]
      exact ⟨rfl, rfl⟩

instance : IsExtended Exact where
  le_of_isInfinite {x y} hx hinf hnan := by
    rcases Exact.zero_le_iff.1 hx with rfl | ⟨p, _, rfl⟩
    · cases y with
      | nan => cases hnan
      | _ => rfl
    · cases hinf
  isInfinite_of_le {x y} hx hle hinf := by
    rcases Exact.zero_le_iff.1 hx with rfl | ⟨p, _, rfl⟩
    · cases y with
      | infinity => rfl
      | _ => cases hle
    · cases hinf
  isInfinite_sub_of_lt {x y z} hx hy hfinite hlt := by
    rcases Exact.zero_le_iff.1 hy with rfl | ⟨q, _, rfl⟩
    · cases hfinite
    · rcases Exact.zero_le_iff.1 hx with rfl | ⟨p, _, rfl⟩
      · cases z <;> cases hlt
      · rw [Exact.finite_sub_finite]
        rfl
  le_sub_of_le {x y o o'} ho ho' hle h := by
    cases o with
    | finite p =>
      cases o' with
      | finite p' =>
        cases y with
        | finite q =>
          rw [Exact.finite_sub_finite] at h ⊢
          have hp := Exact.finite_le_finite.1 hle
          exact Exact.le_finite_trans h (by linarith)
        | nan => cases x <;> cases h
        | negInfinity => exact h
        | infinity => exact h
      | _ => cases ho'
    | _ => cases ho

end Scalar

/-- An edge that can be traveled after another one has a weight of its own too. -/
def SearchSettings.OpensAlone {K : Type} [Scalar K] (s : SearchSettings K) : Prop :=
  ∀ {u d e before w w₀}, e ∈ s.network.edges u d → s.weighting.weight e d before = .ok w →
    Scalar.isInfinite w = false → s.weighting.weight e d none = .ok w₀ → Scalar.isInfinite w₀ = false

theorem Weighting.IsAssembled.opensAlone {K : Type} [Scalar K] [Scalar.IsExtended K]
    {s : SearchSettings K} (hw : s.weighting.IsAssembled)
    (hd : ∀ {u d e}, e ∈ s.network.edges u d → 0 ≤ e.distance) : s.OpensAlone := by
  intro u d e before x x₀ he hx hfinite hx₀
  generalize s.weighting = w at hw hx hx₀
  induction hw generalizing x x₀ with
  | fastest speeds maxSpeed =>
    cases hx.symm.trans hx₀
    exact hfinite
  | shortest speeds =>
    cases hx.symm.trans hx₀
    exact hfinite
  | @withTurns w turns hw hturns ih =>
    obtain ⟨y, hy, hx⟩ := exists_ok_of_bind hx
    obtain ⟨y₀, hy₀, hx₀⟩ := exists_ok_of_bind hx₀
    cases hx
    cases hx₀
    have hnonneg := (hw.isNonneg hd).weight he hy
    have hnonneg₀ := (hw.isNonneg hd).weight he hy₀
    have hyfinite : Scalar.isInfinite y = false := by
      rw [← Bool.not_eq_true] at hfinite ⊢
      exact fun hinf ↦ hfinite (Scalar.IsExtended.isInfinite_of_le hnonneg
        (IsOrdered.le_add hnonneg (turnWeight_nonneg hturns e d before)) hinf)
    have hyfinite₀ := ih hyfinite hy hy₀
    rw [← Bool.not_eq_true] at hyfinite₀ ⊢
    exact fun hinf ↦ hyfinite₀ (Scalar.IsExtended.isInfinite_of_le
      (IsOrdered.add_nonneg hnonneg₀ IsOrdered.zero_le_zero) (IsOrdered.add_zero_le hnonneg₀) hinf)
  | withAccess access _ ih => exact ih hfinite hx hx₀

namespace Bidirectional

open Scalar (IsExtended SumsStayFinite)

section Bounds

variable {K : Type} [Scalar K]

/-- Costs that remain costs along edges, and of which a meeting that is better than another one is
not infinite. -/
structure KeepsMeetings (s : SearchSettings K) (P : K → Prop) : Prop where
  zero : P 0
  step : ∀ {u d e before w x}, e ∈ s.network.edges u d → s.weighting.weight e d before = .ok w →
    Scalar.isInfinite w = false → P x → P (x + w)
  meet : ∀ {x y z}, P x → P y → x + y < z → Scalar.isInfinite (x + y) = false
  join : ∀ {u d e before w w₀ x y z}, s.mode ≠ .nodeBased → e ∈ s.network.edges u d →
    s.weighting.weight e d before = .ok w → Scalar.isInfinite w = false →
    s.weighting.weight e d none = .ok w₀ → P x → P y → x + y - w₀ < z →
    Scalar.isInfinite (x + y - w₀) = false

variable {s : SearchSettings K} (hopen : s.mode ≠ .nodeBased → s.OpensAlone)
include hopen

theorem keepsMeetings_of_sumsStayFinite [IsSigned K] (hsums : SumsStayFinite K) :
    KeepsMeetings s fun x ↦ Scalar.isInfinite x = false where
  zero := IsSigned.isInfinite_of_beq_zero
    (IsSigned.beq_iff.2 ⟨IsOrdered.zero_le_zero, IsOrdered.zero_le_zero⟩)
  step _ _ hfinite hx := (hsums _ _ hx hfinite).1
  meet hx hy _ := (hsums _ _ hx hy).1
  join hm he hw hfinite hw₀ hx hy _ :=
    (hsums _ _ (hsums _ _ hx hy).1 (hopen hm he hw hfinite hw₀)).2

theorem keepsMeetings_of_hasCosts [IsExtended K] (hcosts : ∀ d, s.HasCosts d) :
    KeepsMeetings s (0 ≤ ·) where
  zero := IsOrdered.zero_le_zero
  step he hw _ hx := IsOrdered.add_nonneg hx (hcosts _ he hw)
  meet hx hy hlt := IsExtended.isInfinite_of_lt (IsOrdered.add_nonneg hx hy) hlt
  join hm he hw hfinite hw₀ hx hy hlt :=
    IsExtended.isInfinite_sub_of_lt (IsOrdered.add_nonneg hx hy) (hcosts _ he hw₀)
      (hopen hm he hw hfinite hw₀) hlt

theorem exists_keepsMeetings [IsExtended K] (hsums : SumsStayFinite K ∨ ∀ d, s.HasCosts d) :
    ∃ P, KeepsMeetings s P :=
  hsums.elim (fun h ↦ ⟨_, keepsMeetings_of_sumsStayFinite hopen h⟩)
    fun h ↦ ⟨_, keepsMeetings_of_hasCosts hopen h⟩

end Bounds

variable {K Q M σ : Type} [Scalar K] [PriorityQueue Q K] [BestMap M]
variable {p : Method K σ} {q : Query} {d : Direction} {P : K → Prop}
variable {own other own' : Frontier K Q M} {mt mt' m₀ : Meeting K} {st st' : State K Q M σ}

def CostsIn (P : K → Prop) (f : Frontier K Q M) : Prop := ∀ id, P (f.label id).cost

section Labels

omit [PriorityQueue Q K] [BestMap M] in
theorem CostsIn.congr {f next : Frontier K Q M} (h : CostsIn P f) (hl : next.label? = f.label?) :
    CostsIn P next := by
  intro id
  rw [Frontier.label, hl]
  exact h id

theorem CostsIn.addRoot (hP : P 0) {start : Label K} (hstart : start.cost = 0)
    (key : Option StateKey) : CostsIn P ((Frontier.empty : Frontier K Q M).addRoot start key) := by
  intro id
  rw [Frontier.label, Frontier.label?_addRoot]
  split
  · exact hstart ▸ hP
  · exact hP

theorem CostsIn.store {f : Frontier K Q M} {key : StateKey} {made : Label K} (h : CostsIn P f)
    (hP : P 0) (hmade : P made.cost) : CostsIn P (f.store key made).1 := by
  intro id
  rw [Frontier.label]
  cases hl : (f.store key made).1.label? id with
  | none => exact hP
  | some l =>
    rcases Frontier.label?_store_cases hl with rfl | hold
    · exact hmade
    · exact Frontier.label_eq hold ▸ h id

end Labels

omit [PriorityQueue Q K] in
theorem cost_of_join {e : EdgeView K} {id : LabelId} (h : p.join d e own other id mt = .ok mt') :
    mt' = mt ∨ mt'.labels ≠ none ∧ mt'.cost < mt.cost ∧ ∃ j,
      mt'.cost = (own.label id).cost + (other.label j).cost ∨
      p.settings.mode ≠ .nodeBased ∧ ∃ w, p.settings.weighting.weight e d none = .ok w ∧
        mt'.cost = (own.label id).cost + (other.label j).cost - w := by
  rw [Method.join] at h
  split at h
  · cases h
    exact .inl rfl
  · next j _ =>
    dsimp only at h
    split at h
    · next hm =>
      obtain ⟨w, hw, h⟩ := exists_ok_of_bind h
      cases h
      split
      · next hlt =>
        refine .inr ⟨Option.some_ne_none _, hlt, j, .inr ⟨?_, w, hw, rfl⟩⟩
        simpa [TraversalMode.isEdgeBased] using hm
      · exact .inl rfl
    · cases h
      split
      · next hlt => exact .inr ⟨Option.some_ne_none _, hlt, j, .inl rfl⟩
      · exact .inl rfl

/-- All costs are in the range, and the meeting is the one given or a better one of a finite cost. -/
structure Improves (P : K → Prop) (m₀ : Meeting K) (_ : Direction) (own other : Frontier K Q M)
    (mt : Meeting K) : Prop where
  own : CostsIn P own
  other : CostsIn P other
  meeting : mt = m₀ ∨ mt.labels ≠ none ∧ mt.cost < m₀.cost ∧ Scalar.isFinite mt.cost = true

section Steps

variable [IsSigned K] (hP : KeepsMeetings p.settings P)
include hP

theorem Improves.store {u : NodeId} {x : Exploration K} {id : LabelId} {l made : Label K}
    {e : EdgeView K} {w : K} (h : Improves P m₀ d own other mt) (hl : P l.cost)
    (he : e ∈ p.settings.network.edges u d) (hx : x.MakesSteps)
    (hprice : x.price l e = p.settings.weighting.weight e d l.incomingEdge)
    (hs : x.Stores id l own e made w)
    (hjoin : p.join d e (own.store (x.key e) made).1 other (own.store (x.key e) made).2 mt = .ok mt') :
    Improves P m₀ d (own.store (x.key e) made).1 other mt' := by
  have hw : p.settings.weighting.weight e d l.incomingEdge = .ok w := hprice.symm.trans hs.price
  have hmade : P made.cost := by
    rw [(hx hs.extend).2.2.2]
    exact hP.step he hw hs.finite hl
  have hown : CostsIn P (own.store (x.key e) made).1 := h.own.store hP.zero hmade
  refine ⟨hown, h.other, ?_⟩
  rcases cost_of_join hjoin with rfl | ⟨hlabels, hlt, j, hcost⟩
  · exact h.meeting
  · have hfinite : Scalar.isFinite mt'.cost = true := by
      refine IsSigned.isFinite_of_lt hlt ?_
      rcases hcost with hcost | ⟨hm, w₀, hw₀, hcost⟩
      · rw [hcost] at hlt ⊢
        exact hP.meet (hown _) (h.other j) hlt
      · rw [hcost] at hlt ⊢
        exact hP.join hm he hw hs.finite hw₀ (hown _) (h.other j) hlt
    rcases h.meeting with rfl | ⟨_, hlt', _⟩
    · exact .inr ⟨hlabels, hlt, hfinite⟩
    · exact .inr ⟨hlabels, IsSigned.lt_trans hlt hlt', hfinite⟩

theorem Improves.advances {pin : Option EdgeId} (h : Improves P m₀ d own other mt)
    (ha : p.Advances (p.exploration q d pin) d own other mt own' mt') :
    Improves P m₀ d own' other mt' := by
  cases ha with
  | exhausted _ => exact h
  | pruned hp _ => exact ⟨h.own.congr (Frontier.label?_of_pop? hp), h.other, h.meeting⟩
  | @expanded id next _ _ hp hexpand =>
    have hnext := h.own.congr (Frontier.label?_of_pop? hp)
    refine Method.expand_preserves (P := fun f mt ↦ Improves P m₀ d f other mt)
      (fun {f mt e made w mt'} he hf hs hjoin ↦ ?_) ⟨hnext, h.other, h.meeting⟩ hexpand
    exact hf.store hP (hnext id) he (p.makesSteps_exploration q d pin) rfl hs hjoin

theorem satisfies_improves {pin : Option EdgeId} (h : st.Satisfies (Improves P m₀))
    (ha : p.advance q d pin st = (st', .ok ())) : st'.Satisfies (Improves P m₀) :=
  Method.satisfies_of_advance (fun h ↦ ⟨h.other, h.own, h.meeting⟩)
    (fun h hadvances ↦ h.advances hP hadvances) h ha

omit [IsSigned K] in
theorem satisfies_improves_start :
    (p.start q : State K Q M σ).Satisfies (Improves P (p.start q : State K Q M σ).meeting) := by
  intro d
  cases d with
  | forward => exact ⟨.addRoot hP.zero rfl _, .addRoot hP.zero rfl _, .inl rfl⟩
  | backward => exact ⟨.addRoot hP.zero rfl _, .addRoot hP.zero rfl _, .inl rfl⟩

theorem costsIn_of_search (h : p.search q = (st, .ok ())) :
    CostsIn P st.forward.frontier ∧ CostsIn P st.backward.frontier := by
  have hstart := satisfies_improves_start (Q := Q) (M := M) (q := q) hP
  by_cases hne : q.source = q.target ∧ q.firstEdge = none ∧ q.lastEdge = none
  · rw [Method.search, if_pos hne] at h
    cases h
    exact ⟨(hstart .forward).own, (hstart .forward).other⟩
  · have hst := Method.search_preserves (I := fun st ↦ st.Satisfies (Improves P _))
      (fun h ha ↦ satisfies_improves hP h ha)
      (fun _ hforward hbackward ↦ satisfies_improves hP (satisfies_improves hP hstart hforward)
        hbackward) hne h
    exact ⟨(hst .forward).own, (hst .forward).other⟩

theorem improves_of_rounds {offset : K} {limit more : Nat} (hsearch : p.search q = (st, .ok ()))
    (hrounds : (p.withBounds limit offset).rounds q more st = (st', .ok ())) :
    Improves P st.meeting .forward st'.forward.frontier st'.backward.frontier st'.meeting ∧
      st.visited ≤ st'.visited := by
  obtain ⟨hforward, hbackward⟩ := costsIn_of_search hP hsearch
  have hstart : st.Satisfies (Improves P st.meeting) := by
    intro d
    cases d with
    | forward => exact ⟨hforward, hbackward, .inl rfl⟩
    | backward => exact ⟨hbackward, hforward, .inl rfl⟩
  have hst' := Method.rounds_preserves (p := p.withBounds limit offset)
    (I := fun st' ↦ st'.Satisfies (Improves P st.meeting) ∧ st.visited ≤ st'.visited)
    (fun h ha ↦ ⟨satisfies_improves hP h.1 ha, h.2.trans (Method.le_visited_of_advance ha)⟩) more
    ⟨hstart, le_rfl⟩ hrounds
  exact ⟨hst'.1 .forward, hst'.2⟩

omit hP [PriorityQueue Q K] [BestMap M] in
theorem Improves.meeting_le (h : Improves P m₀ d own other mt) (hlabels : m₀.labels ≠ none)
    (hfinite : Scalar.isFinite m₀.cost = true) :
    mt.labels ≠ none ∧ Scalar.isFinite mt.cost = true ∧ mt.cost ≤ m₀.cost := by
  rcases h.meeting with rfl | ⟨hlabels', hlt, hfinite'⟩
  · have hnan : Scalar.isNaN mt.cost = false := by
      simpa using (Bool.and_eq_true_iff.1 hfinite).1
    exact ⟨hlabels, hfinite, (IsOrdered.le_total hnan hnan).elim id id⟩
  · exact ⟨hlabels', hfinite', (IsSigned.lt_iff.1 hlt).1⟩

end Steps

section Outcome

omit [PriorityQueue Q K] [BestMap M] in
theorem exists_found_of_outcome {outcome : Outcome K} (h : p.outcome q st = .ok outcome)
    (hst : st.isFinished p.offset = true) (hlabels : st.meeting.labels ≠ none)
    (hfinite : Scalar.isFinite st.meeting.cost = true) :
    ∃ r, outcome = .found r ∧ r.weight = st.meeting.cost := by
  obtain ⟨labels, hlabels⟩ := Option.ne_none_iff_exists'.1 hlabels
  rw [Method.outcome, if_pos hst, hlabels] at h
  simp only [hfinite, if_true] at h
  obtain ⟨r, hroute, hr⟩ := exists_ok_of_map_eq_ok h
  obtain ⟨t, rfl⟩ := Route.exists_duration hroute
  exact ⟨_, hr.symm, rfl⟩

omit [PriorityQueue Q K] [BestMap M] in
theorem meeting_of_outcome_found {r : Route K} (h : p.outcome q st = .ok (.found r)) :
    st.meeting.labels ≠ none ∧ Scalar.isFinite st.meeting.cost = true ∧
      r.weight = st.meeting.cost := by
  obtain ⟨labels, hlabels, hfinite, hroute⟩ := Method.exists_labels_of_outcome h
  obtain ⟨t, rfl⟩ := Route.exists_duration hroute
  exact ⟨hlabels ▸ Option.some_ne_none _, hfinite, rfl⟩

variable {offset : K} {r : Route K} {outcome : Outcome K}

/-- A search that has found a route finds one that is no worse if it goes on for longer, unless it is
cut short: no weight is below zero or sums do not overflow, and edges that can be traveled after
others have a weight of their own where states are edges. -/
theorem found_of_offset_le [IsExtended K]
    (hopen : p.settings.mode ≠ .nodeBased → p.settings.OpensAlone)
    (hsums : SumsStayFinite K ∨ ∀ d, p.settings.HasCosts d)
    (hoffset : Scalar.isFinite p.offset = true) (hoffset' : Scalar.isFinite offset = true)
    (hle : p.offset ≤ offset) (hfound : (p.bestRoute Q M q).result = .ok (.found r))
    (hended : ((p.withBounds p.settings.visitLimit offset).bestRoute Q M q).result = .ok outcome)
    (hlimit : outcome ≠ .visitLimitReached) :
    (∃ r', outcome = .found r' ∧ r'.weight ≤ r.weight) ∧ (p.bestRoute Q M q).visited ≤
      ((p.withBounds p.settings.visitLimit offset).bestRoute Q M q).visited := by
  obtain ⟨P, hP⟩ := exists_keepsMeetings hopen hsums
  have hlater : ∀ st : State K Q M σ, st.isFinished offset = true →
      st.isFinished p.offset = true := by
    intro st hst
    simp only [State.isFinished, Bool.or_eq_true, decide_eq_true_eq] at hst ⊢
    exact hst.imp_right fun h ↦ IsExtended.le_sub_of_le hoffset hoffset' hle h
  obtain ⟨st, hsearch, hanswer⟩ := Method.exists_search_of_bestRoute hfound
  obtain ⟨st', hsearch', hanswer'⟩ := Method.exists_search_of_bestRoute hended
  have houtcome : p.outcome q st = .ok (.found r) :=
    (congrArg Answer.result hanswer).symm.trans hfound
  have houtcome' : (p.withBounds p.settings.visitLimit offset).outcome q st' = .ok outcome :=
    (congrArg Answer.result hanswer').symm.trans hended
  rw [hanswer, hanswer']
  obtain ⟨more, hmore⟩ := Method.exists_search_eq_andThen le_rfl hlater q
  rw [hsearch, hsearch'] at hmore
  obtain ⟨himproves, hvisited⟩ := improves_of_rounds hP hsearch hmore.symm
  obtain ⟨hlabels, hfinite, hweight⟩ := meeting_of_outcome_found houtcome
  obtain ⟨hlabels', hfinite', hcost⟩ := himproves.meeting_le hlabels hfinite
  have hdone := Method.isFinished_of_search hsearch' (houtcome' ▸ fun h ↦ hlimit (Except.ok.inj h))
  obtain ⟨r', rfl, hweight'⟩ := exists_found_of_outcome houtcome' hdone hlabels' hfinite'
  exact ⟨⟨r', rfl, hweight' ▸ hweight ▸ hcost⟩, hvisited⟩

end Outcome

open Roads (shrunkRoads beelineOnLine)

def shrunkRoadsByEdge : Roads := { shrunkRoads with mode := .edgeBased }

theorem found_of_offset_le_shrunkRoads : (∃ r r',
    ((shrunkRoads.method (.shortest .stored) noVisitLimit beelineOnLine 0).bestRoute
      (SortedQueue Exact) SparseMap { source := 0, target := 2 }).result = .ok (.found r) ∧
    ((shrunkRoads.method (.shortest .stored) noVisitLimit beelineOnLine (.finite 10)).bestRoute
      (SortedQueue Exact) SparseMap { source := 0, target := 2 }).result = .ok (.found r') ∧
    r.weight = .finite 12 ∧ r'.weight = .finite 8 ∧ r'.weight ≤ r.weight ∧
    ((shrunkRoads.method (.shortest .stored) noVisitLimit beelineOnLine 0).bestRoute
      (SortedQueue Exact) SparseMap { source := 0, target := 2 }).visited ≤
    ((shrunkRoads.method (.shortest .stored) noVisitLimit beelineOnLine (.finite 10)).bestRoute
      (SortedQueue Exact) SparseMap { source := 0, target := 2 }).visited) ∧ ∃ r r',
    ((shrunkRoadsByEdge.method (.shortest .stored) noVisitLimit beelineOnLine 0).bestRoute
      (SortedQueue Exact) SparseMap { source := 0, target := 2 }).result = .ok (.found r) ∧
    ((shrunkRoadsByEdge.method (.shortest .stored) noVisitLimit beelineOnLine
      (.finite 10)).bestRoute (SortedQueue Exact) SparseMap
        { source := 0, target := 2 }).result = .ok (.found r') ∧
    r.weight = .finite 12 ∧ r'.weight = .finite 8 ∧ r'.weight ≤ r.weight := by
  have hten : (0 : Exact) ≤ .finite 10 := Exact.finite_le_finite.2 (by norm_num)
  constructor
  · obtain ⟨r, hfound, hr⟩ := Roads.exists_found_shrunkRoads
    obtain ⟨r', hfound', hr'⟩ : ∃ r', ((shrunkRoads.method (.shortest .stored) noVisitLimit
        beelineOnLine (.finite 10)).bestRoute (SortedQueue Exact) SparseMap
          { source := 0, target := 2 }).result = .ok (.found r') ∧ r'.weight = .finite 8 :=
      exists_found_of_route? (by decide +kernel)
    obtain ⟨⟨_, hsame, hle⟩, hvisited⟩ := found_of_offset_le (fun h ↦ absurd rfl h)
      (.inl Exact.sumsStayFinite) rfl rfl hten hfound hfound' nofun
    cases hsame
    exact ⟨r, r', hfound, hfound', (Prod.mk.inj hr).1, hr', hle, hvisited⟩
  · obtain ⟨r, hfound, hr⟩ : ∃ r, ((shrunkRoadsByEdge.method (.shortest .stored) noVisitLimit
        beelineOnLine 0).bestRoute (SortedQueue Exact) SparseMap
          { source := 0, target := 2 }).result = .ok (.found r) ∧ r.weight = .finite 12 :=
      exists_found_of_route? (by decide +kernel)
    obtain ⟨r', hfound', hr'⟩ : ∃ r', ((shrunkRoadsByEdge.method (.shortest .stored) noVisitLimit
        beelineOnLine (.finite 10)).bestRoute (SortedQueue Exact) SparseMap
          { source := 0, target := 2 }).result = .ok (.found r') ∧ r'.weight = .finite 8 :=
      exists_found_of_route? (by decide +kernel)
    obtain ⟨_, hshows⟩ := Network.IsBuilt.exists_shows
      (.road (RoadGraph.isBuilt_ofPlaces _ _) : shrunkRoadsByEdge.network.IsBuilt)
    have hm : shrunkRoadsByEdge.network.IsMeasured := isMeasured_ofPlaces (by decide +kernel)
    have hopen : (shrunkRoadsByEdge.settings (.shortest .stored) noVisitLimit).OpensAlone :=
      (Weighting.IsAssembled.shortest .stored).opensAlone (Weighting.distance_nonneg hshows hm)
    obtain ⟨⟨_, hsame, hle⟩, _⟩ := found_of_offset_le (fun _ ↦ hopen)
      (.inl Exact.sumsStayFinite) rfl rfl hten hfound hfound' nofun
    cases hsame
    exact ⟨r, r', hfound, hfound', hr, hr', hle⟩

def plunge : RoadGraph Float :=
  .ofEdges 7 [.oneWay 0 1 10 36, .oneWay 0 2 6 36, .oneWay 2 3 0 36, .oneWay 3 4 (-1.7e308) 36,
    .oneWay 4 5 (-1.7e308) 36, .oneWay 5 6 0 36, .oneWay 6 1 6 36]

def plungeMethod (offset : Float) : Method Float Unit where
  settings := { network := plunge.network, weighting := .shortest .stored, mode := .nodeBased
                visitLimit := noVisitLimit }
  estimate := .zero
  policy := .never
  offset

def brokenRound : RoadGraph Exact :=
  .ofEdges 6 [.oneWay 0 1 (.finite 10) (.finite 36), .oneWay 0 2 (.finite 6) (.finite 36),
    .oneWay 2 3 (.finite 1) (.finite 36), .oneWay 3 4 (.finite 1) (.finite 36),
    .oneWay 4 5 (.finite 1) (.finite 36), .oneWay 5 1 (.finite 6) (.finite 36)]

def brokenRoundMethod (offset : Exact) : Method Exact Unit where
  settings := {
    network := brokenRound.network
    weighting := { Weighting.shortest .stored with
      weight := fun e _ before ↦
        .ok (if e.edge = 3 ∧ before = none then .infinity else e.distance) }
    mode := .edgeBased
    visitLimit := noVisitLimit }
  estimate := .zero
  policy := .never
  offset

theorem eq_unreachable_of_name {K : Type} {result : Except (QueryError K) (Outcome K)}
    (h : result.toOption.map Outcome.name = some "unreachable") : result = .ok .unreachable := by
  obtain ⟨outcome, rfl, hname⟩ := exists_ok_of_map h
  cases outcome with
  | unreachable => rfl
  | found _ => exact absurd hname (by decide : "found" ≠ "unreachable")
  | visitLimitReached => exact absurd hname (by decide : "visit_limit_reached" ≠ "unreachable")

/-- A search that goes on can lose the route to a meeting whose cost is the lower infinity. -/
theorem unreachable_of_offset_le :
    (∃ r, ((plungeMethod 0).bestRoute (SortedQueue Float) SparseMap
        { source := 0, target := 1 }).result = .ok (.found r) ∧
      ((plungeMethod 100).bestRoute (SortedQueue Float) SparseMap
        { source := 0, target := 1 }).result = .ok .unreachable) ∧
    ∃ r, ((brokenRoundMethod 0).bestRoute (SortedQueue Exact) SparseMap
        { source := 0, target := 1 }).result = .ok (.found r) ∧
      ((brokenRoundMethod (.finite 100)).bestRoute (SortedQueue Exact) SparseMap
        { source := 0, target := 1 }).result = .ok .unreachable := by
  constructor
  · obtain ⟨r, hfound, _⟩ : ∃ r, ((plungeMethod 0).bestRoute (SortedQueue Float) SparseMap
        { source := 0, target := 1 }).result = .ok (.found r) ∧ r.nodes = [0, 1] :=
      exists_found_of_route? (by decide +kernel)
    exact ⟨r, hfound, eq_unreachable_of_name (by decide +kernel)⟩
  · obtain ⟨r, hfound, _⟩ : ∃ r, ((brokenRoundMethod 0).bestRoute (SortedQueue Exact) SparseMap
        { source := 0, target := 1 }).result = .ok (.found r) ∧ r.nodes = [0, 1] :=
      exists_found_of_route? (by decide +kernel)
    exact ⟨r, hfound, eq_unreachable_of_name (by decide +kernel)⟩

end Bidirectional

end RoadRouting
