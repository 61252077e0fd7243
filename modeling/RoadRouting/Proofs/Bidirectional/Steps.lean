import RoadRouting.Proofs.Search.Steps
import RoadRouting.Search.Bidirectional

namespace RoadRouting.Bidirectional

namespace Query

def root (q : Query) : Direction → NodeId
  | .forward => q.source
  | .backward => q.target

def pin (q : Query) : Direction → Option EdgeId
  | .forward => q.firstEdge
  | .backward => q.lastEdge

end Query

namespace State

variable {K Q M σ : Type} (st : State K Q M σ) (d : Direction) (side : Side K Q M)

theorem side_withSide : (st.withSide d side).side d = side := by
  cases d <;> rfl

theorem side_opposite_withSide : (st.withSide d side).side d.opposite = st.side d.opposite := by
  cases d <;> rfl

theorem meeting_withSide : (st.withSide d side).meeting = st.meeting := by
  cases d <;> rfl

/-- A property of both frontiers and the meeting, seen from either side. -/
def Satisfies (J : Direction → Frontier K Q M → Frontier K Q M → Meeting K → Prop)
    (st : State K Q M σ) : Prop :=
  ∀ d, J d (st.side d).frontier (st.side d.opposite).frontier st.meeting

end State

namespace Method

variable {K Q M σ : Type} [Scalar K] [PriorityQueue Q K] [BestMap M]
variable {p : Method K σ} {q : Query} {d : Direction} {pin : Option EdgeId}
variable {st st' : State K Q M σ} {own other next f : Frontier K Q M} {mt mt' : Meeting K}

omit [PriorityQueue Q K] [BestMap M] in
theorem makesSteps_exploration (p : Method K σ) (q : Query) (d : Direction) (pin : Option EdgeId) :
    (p.exploration q d pin).MakesSteps := by
  intro id l e cost made h
  cases h
  exact ⟨rfl, rfl, rfl, rfl⟩

section Advance

variable {x : Exploration K} {id : LabelId} {l : Label K} {e : EdgeView K}

omit [PriorityQueue Q K] in
theorem join_cases (h : p.join d e own other id mt = .ok mt') :
    mt' = mt ∨ ∃ j cost, other.best? (p.settings.mode.key e d) = some j ∧
      mt' = ⟨cost, some (ordered (if p.settings.mode.isEdgeBased then
        (own.label id).parent.getD id else id) j d)⟩ := by
  rw [join] at h
  split at h
  · cases h
    exact .inl rfl
  · next j hj =>
    have hnew : ∀ {ownId cost}, (if cost < mt.cost then
        Meeting.mk cost (some (ordered ownId j d)) else mt) = mt' →
        mt' = mt ∨ ∃ cost, mt' = ⟨cost, some (ordered ownId j d)⟩ := by
      rintro ownId cost rfl
      split
      · exact .inr ⟨cost, rfl⟩
      · exact .inl rfl
    dsimp only at h
    split at h
    · next hm =>
      obtain ⟨_, _, h⟩ := exists_ok_of_bind h
      rw [if_pos hm]
      exact (hnew (Except.ok.inj h)).imp_right fun ⟨cost, hmt⟩ ↦ ⟨j, cost, hj, hmt⟩
    · next hm =>
      rw [if_neg hm]
      exact (hnew (Except.ok.inj h)).imp_right fun ⟨cost, hmt⟩ ↦ ⟨j, cost, hj, hmt⟩

theorem expand_preserves {P : Frontier K Q M → Meeting K → Prop}
    (hstore : ∀ {f mt e made w mt'}, e ∈ x.edges l.node → P f mt → x.Stores id l f e made w →
      p.join d e (f.store (x.key e) made).1 other (f.store (x.key e) made).2 mt = .ok mt' →
      P (f.store (x.key e) made).1 mt')
    (hP : P own mt) (h : p.expand x d id l other own mt = .ok (f, mt')) : P f mt' := by
  refine foldlM_preserves (P := fun b ↦ P b.1 b.2) (fun {b b' e} he hb ht ↦ ?_) hP h
  obtain ⟨⟨f₁, stored⟩, htry, ht⟩ := exists_ok_of_bind ht
  rcases Exploration.tryEdge_cases htry with ⟨rfl, rfl⟩ | ⟨made, w, hs, rfl, rfl⟩
  · cases ht
    exact hb
  · obtain ⟨mt₁, hjoin, ht⟩ := exists_ok_of_bind ht
    cases ht
    exact hstore he hb hs hjoin

/-- What an advance in a direction makes of its frontier and of the meeting. -/
inductive Advances (p : Method K σ) (x : Exploration K) (d : Direction)
    (own other : Frontier K Q M) (mt : Meeting K) : Frontier K Q M → Meeting K → Prop
  | exhausted : own.pop? = none → Advances p x d own other mt own mt
  | pruned {id : LabelId} {next : Frontier K Q M} {memory : σ} : own.pop? = some (id, next) →
      (p.policy.skip memory (next.label id) d).1 = true ∨
        (p.policy.stop memory (next.label id) d).1 = true → Advances p x d own other mt next mt
  | expanded {id : LabelId} {next f : Frontier K Q M} {mt' : Meeting K} :
      own.pop? = some (id, next) → p.expand x d id (next.label id) other next mt = .ok (f, mt') →
      Advances p x d own other mt f mt'

theorem advances_of_advance (h : p.advance q d pin st = (st', .ok ())) :
    st'.side d.opposite = st.side d.opposite ∧
      p.Advances (p.exploration q d pin) d (st.side d).frontier (st.side d.opposite).frontier
        st.meeting (st'.side d).frontier st'.meeting := by
  rw [advance] at h
  split at h
  · next hp =>
    cases h
    rw [State.side_opposite_withSide, State.side_withSide, State.meeting_withSide]
    exact ⟨rfl, .exhausted hp⟩
  · next id next hp =>
    dsimp only at h
    split at h
    · next hskip =>
      cases h
      rw [State.side_opposite_withSide, State.side_withSide, State.meeting_withSide]
      exact ⟨by cases d <;> rfl, .pruned hp (.inl hskip)⟩
    · split at h
      · next hstop =>
        cases h
        rw [State.side_opposite_withSide, State.side_withSide, State.meeting_withSide]
        exact ⟨by cases d <;> rfl, .pruned hp (.inr hstop)⟩
      · split at h
        · next f mt' hx =>
          cases h
          rw [State.side_opposite_withSide, State.side_withSide, State.meeting_withSide]
          exact ⟨by cases d <;> rfl, .expanded hp (by cases d <;> exact hx)⟩
        · cases h

theorem satisfies_of_advance
    {J : Direction → Frontier K Q M → Frontier K Q M → Meeting K → Prop}
    (hswap : ∀ {d own other mt}, J d own other mt → J d.opposite other own mt)
    (hstep : ∀ {own' mt'}, J d (st.side d).frontier (st.side d.opposite).frontier st.meeting →
      p.Advances (p.exploration q d pin) d (st.side d).frontier (st.side d.opposite).frontier
        st.meeting own' mt' → J d own' (st.side d.opposite).frontier mt')
    (hst : st.Satisfies J) (h : p.advance q d pin st = (st', .ok ())) : st'.Satisfies J := by
  obtain ⟨hother, hadvances⟩ := advances_of_advance h
  have hd := hstep (hst d) hadvances
  rw [← hother] at hd
  intro d'
  cases d with
  | forward =>
    cases d' with
    | forward => exact hd
    | backward => exact hswap hd
  | backward =>
    cases d' with
    | forward => exact hswap hd
    | backward => exact hd

end Advance

theorem meetingRoute_meetAtStart (p : Method K σ) (q : Query) :
    p.meetingRoute q (meetAtStart (p.start q) : State K Q M σ) (0, 0) =
      Route.ofEdges p.settings.weighting q.source [] 0 := by
  have hedges : ∀ d, ((meetAtStart (p.start q) : State K Q M σ).side d).frontier.edgesTo 0 = [] := by
    intro d
    cases d with
    | forward => exact Frontier.edgesTo_root ((Frontier.label?_addRoot _ _ 0).trans (if_pos rfl)) rfl
    | backward => exact Frontier.edgesTo_root ((Frontier.label?_addRoot _ _ 0).trans (if_pos rfl)) rfl
  have hto : (meetAtStart (p.start q) : State K Q M σ).forward.frontier.pathTo 0 = [] :=
    congrArg List.reverse (hedges .forward)
  have hfrom : (meetAtStart (p.start q) : State K Q M σ).backward.frontier.pathFrom 0 = [] :=
    congrArg (List.map EdgeView.reversed) (hedges .backward)
  rw [meetingRoute, hto, hfrom]
  rfl

section Search

variable {I : State K Q M σ → Prop}
variable (hadvance : ∀ {d st st'}, I st → p.advance q d none st = (st', .ok ()) → I st')
include hadvance

theorem advanceUnfinished_preserves (hst : I st)
    (h : p.advanceUnfinished q d st = (st', .ok ())) : I st' := by
  rw [advanceUnfinished] at h
  split at h
  · cases h
    exact hst
  · exact hadvance hst h

omit hadvance [Scalar K] [PriorityQueue Q K] [BestMap M] in
theorem exists_of_andThen {first : State K Q M σ × Except (QueryError K) Unit}
    {second : State K Q M σ → State K Q M σ × Except (QueryError K) Unit}
    (h : andThen first second = (st', .ok ())) :
    ∃ st, first = (st, .ok ()) ∧ second st = (st', .ok ()) := by
  obtain ⟨st, result⟩ := first
  cases result with
  | error _ => cases h
  | ok _ => exact ⟨st, rfl, h⟩

theorem rounds_preserves (left : Nat) (hst : I st)
    (h : p.rounds q left st = (st', .ok ())) : I st' := by
  induction left generalizing st with
  | zero =>
    cases h
    exact hst
  | succ left ih =>
    rw [rounds] at h
    split at h
    · cases h
      exact hst
    · obtain ⟨st₂, hround, h⟩ := exists_of_andThen h
      obtain ⟨st₁, hforward, hbackward⟩ := exists_of_andThen hround
      have hst₁ := advanceUnfinished_preserves hadvance hst hforward
      exact ih (advanceUnfinished_preserves hadvance hst₁ hbackward) h

variable (hstart : ∀ {st st'}, ¬(q.source = q.target ∧ q.firstEdge = none ∧ q.lastEdge = none) →
  p.advance q .forward q.firstEdge (p.start q) = (st, .ok ()) →
  p.advance q .backward q.lastEdge st = (st', .ok ()) → I st')
include hstart

theorem search_preserves (hne : ¬(q.source = q.target ∧ q.firstEdge = none ∧ q.lastEdge = none))
    (h : p.search q = (st', .ok ())) : I st' := by
  rw [search, if_neg hne] at h
  obtain ⟨st₂, hroots, h⟩ := exists_of_andThen h
  obtain ⟨st₁, hforward, hbackward⟩ := exists_of_andThen hroots
  exact rounds_preserves hadvance _ (hstart hne hforward hbackward) h

omit hadvance hstart in
theorem exists_search_of_bestRoute {outcome : Outcome K}
    (h : (p.bestRoute Q M q).result = .ok outcome) :
    ∃ st : State K Q M σ, p.search q = (st, .ok ()) ∧
      p.bestRoute Q M q = ⟨st.visited, p.outcome q st⟩ := by
  rw [bestRoute] at h ⊢
  split at h
  · cases h
  · cases h
  · obtain ⟨_, hend, _⟩ := exists_ok_of_bind h
    refine ⟨(p.search q).1, Prod.ext rfl hend, ?_⟩
    dsimp only
    rw [hend]
    rfl

omit hadvance hstart [PriorityQueue Q K] [BestMap M] in
theorem outcome_cases (p : Method K σ) (q : Query) (st : State K Q M σ) :
    p.outcome q st = .ok .unreachable ∨ p.outcome q st = .ok .visitLimitReached ∨
      ∃ labels, st.meeting.labels = some labels ∧ Scalar.isFinite st.meeting.cost = true ∧
        p.outcome q st = (p.meetingRoute q st labels).map .found := by
  rw [outcome]
  split
  · split
    · next labels hlabels =>
      split
      · next hfinite => exact .inr (.inr ⟨labels, hlabels, hfinite, rfl⟩)
      · exact .inl rfl
    · exact .inl rfl
  · split
    · exact .inr (.inl rfl)
    · exact .inl rfl

omit hadvance hstart [PriorityQueue Q K] [BestMap M] in
theorem exists_labels_of_outcome {r : Route K} (h : p.outcome q st = .ok (.found r)) :
    ∃ labels, st.meeting.labels = some labels ∧ Scalar.isFinite st.meeting.cost = true ∧
      p.meetingRoute q st labels = .ok r := by
  rcases p.outcome_cases q st with hnone | hnone | ⟨labels, hlabels, hfinite, hroute⟩
  · cases hnone.symm.trans h
  · cases hnone.symm.trans h
  · obtain ⟨_, hr, hfound⟩ := exists_ok_of_map_eq_ok (hroute.symm.trans h)
    cases hfound
    exact ⟨labels, hlabels, hfinite, hr⟩

theorem exists_of_bestRoute {r : Route K}
    (hfound : (p.bestRoute Q M q).result = .ok (.found r)) :
    (q.source = q.target ∧ q.firstEdge = none ∧ q.lastEdge = none) ∧
        Route.ofEdges p.settings.weighting q.source [] 0 = .ok r ∨
      ∃ (st : State K Q M σ) (labels : LabelId × LabelId), I st ∧
        st.meeting.labels = some labels ∧ p.meetingRoute q st labels = .ok r := by
  obtain ⟨st, hsearch, hanswer⟩ := exists_search_of_bestRoute hfound
  rw [hanswer] at hfound
  obtain ⟨labels, hlabels, _, hroute⟩ := exists_labels_of_outcome hfound
  by_cases hne : q.source = q.target ∧ q.firstEdge = none ∧ q.lastEdge = none
  · rw [search, if_pos hne] at hsearch
    cases hsearch
    cases hlabels
    exact .inl ⟨hne, (meetingRoute_meetAtStart p q).symm.trans hroute⟩
  · exact .inr ⟨st, labels, search_preserves hadvance hstart hne hsearch, hlabels, hroute⟩

end Search

variable {r : Route K}

theorem lt_of_bestRoute (hfound : (p.bestRoute Q M q).result = .ok (.found r)) :
    q.source < p.settings.network.nodeCount ∧ q.target < p.settings.network.nodeCount := by
  rw [bestRoute] at hfound
  cases hc : p.settings.checkNodes [q.source, q.target] with
  | error _ =>
    rw [hc] at hfound
    split at hfound
    · cases hfound
    · cases hfound
    · next h => cases h
  | ok _ => simpa using SearchSettings.checkNodes_eq_ok_iff.1 hc

omit [Scalar K] in
theorem no_pins_of_checkPins (hc : p.checkPins q = .ok ()) (hm : p.settings.mode = .nodeBased) :
    q.firstEdge = none ∧ q.lastEdge = none := by
  rw [checkPins] at hc
  split at hc
  · cases hc
  · next hpins => simpa [TraversalMode.isEdgeBased, hm] using hpins

theorem no_pins_of_bestRoute (hfound : (p.bestRoute Q M q).result = .ok (.found r))
    (hm : p.settings.mode = .nodeBased) : q.firstEdge = none ∧ q.lastEdge = none := by
  rw [bestRoute] at hfound
  cases hc : p.checkPins q with
  | error _ => rw [hc] at hfound; cases hfound
  | ok _ => exact no_pins_of_checkPins hc hm

end Method

end RoadRouting.Bidirectional
