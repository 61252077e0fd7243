import RoadRouting.Proofs.Bidirectional.Steps

namespace RoadRouting.Bidirectional

namespace State

variable {K Q M σ : Type}

theorem visited_eq (st : State K Q M σ) (d : Direction) :
    st.visited = (st.side d).visited + (st.side d.opposite).visited := by
  cases d with
  | forward => rfl
  | backward => exact Nat.add_comm _ _

theorem isFinished_of_side [Scalar K] {st : State K Q M σ} {d : Direction}
    (h : (st.side d).isFinished = true) (offset : K) : st.isFinished offset = true := by
  cases d with
  | forward =>
    change st.forward.isFinished = true at h
    rw [isFinished, h]
    rfl
  | backward =>
    change st.backward.isFinished = true at h
    rw [isFinished, h, Bool.or_true]
    rfl

end State

namespace Method

variable {K Q M σ : Type}

def withBounds (p : Method K σ) (limit : Nat) (offset : K) : Method K σ :=
  { p with settings := { p.settings with visitLimit := limit }, offset }

variable [Scalar K]

def stops (p : Method K σ) (st : State K Q M σ) : Bool :=
  st.isFinished p.offset || p.settings.isExceeded st.visited

variable [PriorityQueue Q K] [BestMap M]
variable {p : Method K σ} {q : Query} {d : Direction} {pin : Option EdgeId}
variable {st st' : State K Q M σ}

theorem rounds_succ (p : Method K σ) (q : Query) (left : Nat) (st : State K Q M σ) :
    p.rounds q (left + 1) st =
      if p.stops st then (st, .ok ()) else andThen (p.round q st) (p.rounds q left) := rfl

section Advance

theorem side_opposite_advance (p : Method K σ) (q : Query) (d : Direction) (pin : Option EdgeId)
    (st : State K Q M σ) : (p.advance q d pin st).1.side d.opposite = st.side d.opposite := by
  rw [advance]
  split
  · exact st.side_opposite_withSide d _
  · dsimp only
    split
    · exact State.side_opposite_withSide { st with memory := _ } d _
    · split
      · exact State.side_opposite_withSide { st with memory := _ } d _
      · split
        · exact State.side_opposite_withSide { st with meeting := _, memory := _ } d _
        · exact State.side_opposite_withSide { st with memory := _ } d _

theorem visited_advance (p : Method K σ) (q : Query) (d : Direction) (pin : Option EdgeId)
    (st : State K Q M σ) :
    (p.advance q d pin st).1.visited = st.visited + 1 ∨
      ((p.advance q d pin st).1.side d).isFinished = true ∧
        (p.advance q d pin st).1.visited = st.visited := by
  have hside : ((p.advance q d pin st).1.side d).visited = (st.side d).visited + 1 ∨
      ((p.advance q d pin st).1.side d).isFinished = true ∧
        ((p.advance q d pin st).1.side d).visited = (st.side d).visited := by
    rw [advance]
    split
    · rw [State.side_withSide]
      exact .inr ⟨rfl, rfl⟩
    · refine .inl ?_
      dsimp only
      split
      · rw [State.side_withSide]
      · split
        · rw [State.side_withSide]
        · split
          · rw [State.side_withSide]
          · rw [State.side_withSide]
  have hother := congrArg Side.visited (p.side_opposite_advance q d pin st)
  rw [State.visited_eq _ d, State.visited_eq st d, hother]
  rcases hside with hmore | ⟨hdone, hsame⟩
  · exact .inl (by omega)
  · exact .inr ⟨hdone, by omega⟩

theorem le_visited_of_advance {result : Except (QueryError K) Unit}
    (h : p.advance q d pin st = (st', result)) : st.visited ≤ st'.visited := by
  have hadvance := p.visited_advance q d pin st
  rw [h] at hadvance
  dsimp only at hadvance
  omega

end Advance

section Rounds

theorem visited_advanceUnfinished (p : Method K σ) (q : Query) (d : Direction)
    (st : State K Q M σ) :
    st.visited ≤ (p.advanceUnfinished q d st).1.visited ∧
      (p.advanceUnfinished q d st).1.visited ≤ st.visited + 1 := by
  rw [advanceUnfinished]
  split
  · exact ⟨le_rfl, Nat.le_succ _⟩
  · have h := p.visited_advance q d none st
    omega

omit [Scalar K] [PriorityQueue Q K] [BestMap M] in
theorem andThen_visited_le {first : State K Q M σ × Except (QueryError K) Unit}
    {second : State K Q M σ → State K Q M σ × Except (QueryError K) Unit} {n : Nat}
    (hfirst : first.1.visited ≤ n) (hsecond : ∀ st, st = first.1 → (second st).1.visited ≤ n) :
    (andThen first second).1.visited ≤ n := by
  obtain ⟨st, result⟩ := first
  cases result with
  | error _ => exact hfirst
  | ok _ => exact hsecond st rfl

theorem round_visited_le (p : Method K σ) (q : Query) (st : State K Q M σ) :
    (p.round q st).1.visited ≤ st.visited + 2 := by
  have hforward := p.visited_advanceUnfinished q .forward st
  refine andThen_visited_le (by omega) ?_
  rintro _ rfl
  have hbackward := p.visited_advanceUnfinished q .backward (p.advanceUnfinished q .forward st).1
  omega

theorem lt_visited_of_round (hst : st.isFinished p.offset = false)
    (h : p.round q st = (st', .ok ())) :
    st'.isFinished p.offset = true ∨ st.visited < st'.visited := by
  obtain ⟨st₁, hforward, hbackward⟩ := exists_of_andThen h
  have hopen : (st.side .forward).isFinished = false := by
    rw [← Bool.not_eq_true]
    intro hdone
    cases hst.symm.trans (State.isFinished_of_side hdone p.offset)
  have hst₁ : st₁ = (p.advance q .forward none st).1 := by
    rw [advanceUnfinished, if_neg (by simp [hopen])] at hforward
    rw [hforward]
  have hvisited := p.visited_advanceUnfinished q .backward st₁
  rw [hbackward] at hvisited
  rcases p.visited_advance q .forward none st with hmore | ⟨hdone, _⟩
  · rw [← hst₁] at hmore
    exact .inr (Nat.lt_of_lt_of_le (Nat.lt_of_lt_of_eq (Nat.lt_succ_self _) hmore.symm) hvisited.1)
  · -- the other direction leaves the side as it is
    have hside : st'.side .forward = st₁.side .forward := by
      rw [advanceUnfinished] at hbackward
      split at hbackward
      · cases hbackward
        rfl
      · have hkept := p.side_opposite_advance q .backward none st₁
        rw [hbackward] at hkept
        exact hkept
    rw [← hst₁, ← hside] at hdone
    exact .inl (State.isFinished_of_side hdone p.offset)

theorem rounds_of_stops (h : p.stops st = true) (q : Query) (left : Nat) :
    p.rounds q left st = (st, .ok ()) := by
  cases left with
  | zero => rfl
  | succ left => rw [rounds_succ, if_pos h]

theorem rounds_visited_le (q : Query) (left : Nat) (st : State K Q M σ) {n : Nat}
    (hst : st.visited ≤ n) (hn : p.settings.visitLimit + 2 ≤ n) :
    (p.rounds q left st).1.visited ≤ n := by
  induction left generalizing st with
  | zero => exact hst
  | succ left ih =>
    rw [rounds_succ]
    split
    · exact hst
    · next hgo =>
      have hle : st.visited ≤ p.settings.visitLimit := by
        simpa [SearchSettings.isExceeded] using fun h ↦ hgo (Bool.or_eq_true_iff.2 (.inr h))
      have hround := p.round_visited_le q st
      refine andThen_visited_le (by omega) ?_
      rintro _ rfl
      exact ih _ (by omega)

theorem isExceeded_of_rounds {left : Nat} (hleft : p.settings.visitLimit < left + st.visited)
    (h : p.rounds q left st = (st', .ok ())) (hst : st'.isFinished p.offset = false) :
    p.settings.isExceeded st'.visited = true := by
  induction left generalizing st with
  | zero =>
    cases h
    rw [Nat.zero_add] at hleft
    exact decide_eq_true hleft
  | succ left ih =>
    rw [rounds_succ] at h
    split at h
    · next hstop =>
      cases h
      simpa [stops, hst] using hstop
    · next hgo =>
      simp only [stops, Bool.or_eq_true, not_or, Bool.not_eq_true] at hgo
      obtain ⟨st₁, hround, h⟩ := exists_of_andThen h
      rcases lt_visited_of_round hgo.1 hround with hdone | hmore
      · have hsame : st' = st₁ := by
          cases left with
          | zero =>
            cases h
            rfl
          | succ left =>
            rw [rounds, hdone] at h
            cases h
            rfl
        cases hst.symm.trans (hsame ▸ hdone)
      · exact ih (by omega) h

/-- A search that takes the same rounds and stops later goes on where the other one has stopped. -/
theorem exists_rounds_eq_andThen {p' : Method K σ}
    (hround : ∀ st : State K Q M σ, p'.round q st = p.round q st)
    (hstops : ∀ st : State K Q M σ, p'.stops st = true → p.stops st = true) {left left' : Nat}
    (hle : left ≤ left') (st : State K Q M σ) :
    ∃ more, p'.rounds q left' st = andThen (p.rounds q left st) (p'.rounds q more) := by
  induction left generalizing left' st with
  | zero => exact ⟨left', rfl⟩
  | succ left ih =>
    obtain ⟨left', rfl⟩ : ∃ k, left' = k + 1 := ⟨left' - 1, by omega⟩
    by_cases hst : p.stops st = true
    · exact ⟨left' + 1, by rw [rounds_of_stops hst]; rfl⟩
    · rw [rounds_succ, rounds_succ, if_neg hst, if_neg (mt (hstops st) hst), hround]
      cases hnext : p.round q st with
      | mk st₁ result =>
        cases result with
        | error _ => exact ⟨0, rfl⟩
        | ok _ => exact ih (Nat.le_of_succ_le_succ hle) st₁

end Rounds

section Search

theorem search_visited_le (p : Method K σ) (q : Query) :
    (p.search q : State K Q M σ × Except (QueryError K) Unit).1.visited ≤
      p.settings.visitLimit + 2 := by
  rw [search]
  split
  · exact Nat.zero_le _
  · have hstart : (p.start q : State K Q M σ).visited = 0 := rfl
    have hforward := p.visited_advance q .forward q.firstEdge (p.start q : State K Q M σ)
    have hroots : (andThen (p.advance q .forward q.firstEdge (p.start q : State K Q M σ))
        (p.advance q .backward q.lastEdge)).1.visited ≤ 2 := by
      refine andThen_visited_le (by omega) ?_
      rintro _ rfl
      have hbackward := p.visited_advance q .backward q.lastEdge
        (p.advance q .forward q.firstEdge (p.start q : State K Q M σ)).1
      omega
    refine andThen_visited_le (by omega) ?_
    rintro _ rfl
    exact rounds_visited_le q _ _ (by omega) le_rfl

theorem bestRoute_visited_le (p : Method K σ) (q : Query) :
    (p.bestRoute Q M q).visited ≤ p.settings.visitLimit + 2 := by
  rw [bestRoute]
  split
  · exact Nat.zero_le _
  · exact Nat.zero_le _
  · exact p.search_visited_le q

omit [PriorityQueue Q K] [BestMap M] in
theorem outcome_of_isExceeded (hst : st.isFinished p.offset = false)
    (hexceeded : p.settings.isExceeded st.visited = true) :
    p.outcome q st = .ok .visitLimitReached := by
  rw [outcome, hst, hexceeded]
  rfl

theorem isFinished_or_isExceeded (hsearch : p.search q = (st, .ok ())) :
    st.isFinished p.offset = true ∨ p.settings.isExceeded st.visited = true := by
  cases hst : st.isFinished p.offset with
  | true => exact .inl rfl
  | false =>
    rw [search] at hsearch
    split at hsearch
    · cases hsearch
      cases hst
    · obtain ⟨st₁, _, hrounds⟩ := exists_of_andThen hsearch
      exact .inr (isExceeded_of_rounds (by omega) hrounds hst)

theorem isFinished_of_search (hsearch : p.search q = (st, .ok ()))
    (h : p.outcome q st ≠ .ok .visitLimitReached) : st.isFinished p.offset = true := by
  by_contra hst
  rw [Bool.not_eq_true] at hst
  rcases isFinished_or_isExceeded hsearch with hdone | hexceeded
  · cases hst.symm.trans hdone
  · exact h (outcome_of_isExceeded hst hexceeded)

theorem exists_search_eq_andThen {limit : Nat} {offset : K} (hlimit : p.settings.visitLimit ≤ limit)
    (hoffset : ∀ st : State K Q M σ, st.isFinished offset = true → st.isFinished p.offset = true)
    (q : Query) : ∃ more, ((p.withBounds limit offset).search q : State K Q M σ × _) =
      andThen (p.search q) ((p.withBounds limit offset).rounds q more) := by
  have hstops : ∀ st : State K Q M σ, (p.withBounds limit offset).stops st = true →
      p.stops st = true := by
    intro st hst
    refine Bool.or_eq_true_iff.2 ((Bool.or_eq_true_iff.1 hst).imp (hoffset st) fun hexceeded ↦ ?_)
    exact decide_eq_true (hlimit.trans_lt (of_decide_eq_true hexceeded))
  rw [search, search]
  split
  · exact ⟨0, rfl⟩
  · change ∃ more, andThen (andThen (p.advance q .forward q.firstEdge (p.start q))
      (p.advance q .backward q.lastEdge)) _ = _
    cases andThen (p.advance q .forward q.firstEdge (p.start q : State K Q M σ))
        (p.advance q .backward q.lastEdge) with
    | mk st result =>
      cases result with
      | error _ => exact ⟨0, rfl⟩
      | ok _ =>
        have hround : ∀ st : State K Q M σ, (p.withBounds limit offset).round q st = p.round q st :=
          fun _ ↦ rfl
        exact exists_rounds_eq_andThen hround hstops (Nat.succ_le_succ hlimit) st

def answer (p : Method K σ) (q : Query)
    (ended : State K Q M σ × Except (QueryError K) Unit) : Answer K (Outcome K) where
  visited := ended.1.visited
  result := do
    ended.2
    p.outcome q ended.1

variable (Q M) in
theorem bestRoute_cases (p : Method K σ) (q : Query) :
    (∃ error, ∀ limit offset,
        (p.withBounds limit offset).bestRoute Q M q = ⟨0, .error error⟩) ∨
      ∀ limit offset, (p.withBounds limit offset).bestRoute Q M q =
        (p.withBounds limit offset).answer q
          ((p.withBounds limit offset).search q : State K Q M σ × _) := by
  cases hpins : p.checkPins q with
  | error error =>
    refine .inl ⟨error, fun limit offset ↦ ?_⟩
    rw [bestRoute, show (p.withBounds limit offset).checkPins q = .error error from hpins]
  | ok _ =>
    cases hnodes : p.settings.checkNodes [q.source, q.target] with
    | error error =>
      refine .inl ⟨error, fun limit offset ↦ ?_⟩
      rw [bestRoute, show (p.withBounds limit offset).checkPins q = .ok () from hpins,
        show (p.withBounds limit offset).settings.checkNodes [q.source, q.target] = .error error
          from hnodes]
    | ok _ =>
      refine .inr fun limit offset ↦ ?_
      rw [bestRoute, show (p.withBounds limit offset).checkPins q = .ok () from hpins,
        show (p.withBounds limit offset).settings.checkNodes [q.source, q.target] = .ok ()
          from hnodes]
      rfl

theorem bestRoute_withBounds {limit : Nat} (hlimit : p.settings.visitLimit ≤ limit)
    (h : (p.bestRoute Q M q).result ≠ .ok .visitLimitReached) :
    (p.withBounds limit p.offset).bestRoute Q M q = p.bestRoute Q M q := by
  rcases bestRoute_cases Q M p q with ⟨error, herror⟩ | hanswer
  · exact (herror _ _).trans (herror p.settings.visitLimit p.offset).symm
  · have hp : p.bestRoute Q M q = p.answer q (p.search q : State K Q M σ × _) :=
      hanswer p.settings.visitLimit p.offset
    obtain ⟨more, hmore⟩ := exists_search_eq_andThen (Q := Q) (M := M) hlimit (fun _ h ↦ h) q
    rw [hp] at h
    rw [hp, hanswer, hmore]
    cases hsearch : (p.search q : State K Q M σ × Except (QueryError K) Unit) with
    | mk st result =>
      cases result with
      | error _ => rfl
      | ok _ =>
        rw [hsearch] at h
        have hst : st.isFinished p.offset = true := isFinished_of_search hsearch h
        have hstops : (p.withBounds limit p.offset).stops st = true :=
          Bool.or_eq_true_iff.2 (.inl hst)
        rw [show andThen (st, .ok ()) _ = _ from rounds_of_stops hstops q more]
        have houtcome : (p.withBounds limit p.offset).outcome q st = p.outcome q st := by
          rw [outcome, outcome, show st.isFinished (p.withBounds limit p.offset).offset = true
            from hst, hst]
          rfl
        exact congrArg (Answer.mk st.visited) houtcome

end Search

end Method

end RoadRouting.Bidirectional
