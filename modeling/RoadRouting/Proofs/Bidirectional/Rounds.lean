import RoadRouting.Proofs.Bidirectional.Joining
import RoadRouting.Proofs.Terrain.Ordered

namespace RoadRouting

open Scalar (Exact)

namespace Roads

open Bidirectional (Query Meeting Method Side State)

variable {Q M : Type} [PriorityQueue Q Exact] [LawfulQueue Q] [BestMap M]

/-- What holds of the search in one direction. -/
structure ExploresInOrder (T : Terrain) (side : Side Exact Q M) : Prop where
  explored : T.Explored side.frontier fun _ _ ↦ False
  ordered : ∃ k, side.priority = .finite k ∧ T.Ordered side.frontier k
  visited : side.visited ≤ side.frontier.settledIds.card
  finished : side.isFinished = true → ∀ id, side.frontier.priority? id = none

/-- What holds of both searches once their roots have been explored. -/
structure SearchesInOrder (R : Roads) (q : Query) (π : NodeId → Rat) (st : State Exact Q M Unit) :
    Prop where
  side : ∀ d, ExploresInOrder (R.side q π d) (st.side d)
  opened : ∀ d, (st.side d).frontier.priority? 0 = none
  meeting : R.IsLeastMeeting q .forward st.forward.frontier st.backward.frontier st.meeting

/-- What an advance in a direction makes of a state. -/
structure AdvancesInOrder (R : Roads) (q : Query) (π : NodeId → Rat) (d : Direction)
    (st st' : State Exact Q M Unit) : Prop where
  side : ExploresInOrder (R.side q π d) (st'.side d)
  opened : (st'.side d).frontier.priority? 0 = none
  other : st'.side d.opposite = st.side d.opposite
  meeting : R.IsLeastMeeting q d (st'.side d).frontier (st.side d.opposite).frontier st'.meeting
  progress : (st'.side d).isFinished = true ∧ (st'.side d).visited = (st.side d).visited ∨
    (st'.side d).visited = (st.side d).visited + 1

variable {R : Roads} {w : Weighting Exact} {stored : EdgeId → Option (StoredEdge Exact)}
variable {limit : Nat} {h : Estimate Exact} {offset : Exact} {q : Query} {π : NodeId → Rat}
variable {d : Direction}

variable (limit offset) in
theorem expand_joining_isOk (hR : R.IsPricedBy w stored)
    (hq : R.mode = .nodeBased → ∀ d, q.pin d = none)
    (hπ : ∀ u < R.network.nodeCount, h.balanced q.source q.target d u = .finite (balance π d u))
    {own other : Frontier Exact Q M} {mt : Meeting Exact} {id : LabelId} {l : Label Exact}
    {es : List (EdgeView Exact)}
    (he : (R.side q π d).Explored own fun j e ↦ j = id ∧ e ∈ es)
    (he' : (R.side q π d.opposite).Explored other fun _ _ ↦ False)
    (hj : R.IsLeastMeeting q d own other mt) (hl : own.label? id = some l)
    (hes : ∀ e ∈ es, e ∈ R.network.edges l.node d) {P : Frontier Exact Q M → Prop}
    (hfollow : ∀ {f e c} {pending : LabelId → EdgeView Exact → Prop},
      (R.side q π d).Explored f pending → (R.side q π d).Improves f id l e c → P f →
      P ((R.side q π d).follow f id l e c).1) (hP : P own) :
    ∃ f' mt', es.foldlM ((R.method w limit h offset).tryEdge
        ((R.method w limit h offset).exploration q d (pinAt (q.pin d) l.edge)) d id l other)
          (own, mt) = .ok (f', mt') ∧
      (R.side q π d).Explored f' (fun _ _ ↦ False) ∧ R.IsLeastMeeting q d f' other mt' ∧ P f' := by
  have hT := side_isLawful (π := π) (d := d) hR.toIsLawful hq
  induction es generalizing own mt with
  | nil => exact ⟨own, mt, rfl, he.resolve fun hp _ _ ↦ absurd hp.2 List.not_mem_nil, hj, hP⟩
  | cons e es ih =>
    have hrest : ∀ e ∈ es, e ∈ R.network.edges l.node d :=
      fun e he ↦ hes e (List.mem_cons_of_mem _ he)
    rcases tryEdge_cases limit (hR.isWeighedBy d) (fun hm ↦ hq hm d) hπ he hl
      (hes e List.mem_cons_self) with ⟨htry, ho⟩ | ⟨c, hi, htry⟩
    · obtain ⟨f', mt', hf', hdone⟩ := ih (he.skip hl ho) hj hl hrest hP
      have hstep : (R.method w limit h offset).tryEdge
          ((R.method w limit h offset).exploration q d (pinAt (q.pin d) l.edge)) d id l other
          (own, mt) e = .ok (own, mt) := by
        rw [Method.tryEdge]
        exact congrArg (· >>= _) htry
      exact ⟨f', mt', by rw [List.foldlM_cons, hstep]; exact hf', hdone⟩
    · have hl' := (he.label?_follow_of_ne (he.follow_ne hi hT).symm).trans hl
      obtain ⟨mt₁, hjoin, hj₁⟩ := join_isOk limit h offset (hR.isWeighedBy d) hq he he' hi hj
      obtain ⟨f', mt', hf', hdone⟩ := ih (he.follow_next hT hi) hj₁ hl' hrest (hfollow he hi hP)
      have hstep : (R.method w limit h offset).tryEdge
          ((R.method w limit h offset).exploration q d (pinAt (q.pin d) l.edge)) d id l other
          (own, mt) e = .ok (((R.side q π d).follow own id l e c).1, mt₁) := by
        rw [Method.tryEdge]
        refine (congrArg (· >>= _) htry).trans ?_
        exact congrArg (· >>= fun mt ↦ pure (((R.side q π d).follow own id l e c).1, mt)) hjoin
      exact ⟨f', mt', by rw [List.foldlM_cons, hstep]; exact hf', hdone⟩

section Advance

variable {st : State Exact Q M Unit} {pin : Option EdgeId}

omit [LawfulQueue Q] in
theorem advance_of_pop_eq_none (hp : (st.side d).frontier.pop? = none) :
    (R.method w limit h offset).advance q d pin st =
      (st.withSide d { st.side d with isFinished := true }, .ok ()) := by
  rw [Method.advance, hp]

omit [LawfulQueue Q] in
theorem advance_of_pop {id : LabelId} {f f' : Frontier Exact Q M} {l : Label Exact}
    {mt : Meeting Exact} (hp : (st.side d).frontier.pop? = some (id, f)) (hl : f.label? id = some l)
    (hexpand : (R.network.edges l.node d).foldlM ((R.method w limit h offset).tryEdge
      ((R.method w limit h offset).exploration q d pin) d id l (st.side d.opposite).frontier)
        (f, st.meeting) = .ok (f', mt)) :
    (R.method w limit h offset).advance q d pin st =
      (State.withSide { st with meeting := mt } d
        ⟨f', l.priority, (st.side d).visited + 1, false⟩, .ok ()) := by
  rw [Method.advance, hp]
  have hx : (R.method w limit h offset).expand ((R.method w limit h offset).exploration q d pin) d
      id l (st.side d.opposite).frontier f st.meeting = .ok (f', mt) := hexpand
  have hskip : (R.method w limit h offset).policy.skip st.memory l d = (false, st.memory) := rfl
  have hstop : (R.method w limit h offset).policy.stop st.memory l d = (false, st.memory) := rfl
  simp only [Frontier.label_eq hl, hskip, hstop, Bool.false_eq_true, if_false]
  rw [hx]

variable (limit offset pin) in
/-- Settling a label and exploring its edges never fails, and keeps the search and the meeting right.
The pin has to be the one that is in force at the label. -/
theorem advance_isOk (hR : R.IsPricedBy w stored) (hq : R.mode = .nodeBased → ∀ d, q.pin d = none)
    (hπ : ∀ u < R.network.nodeCount, h.balanced q.source q.target d u = .finite (balance π d u))
    (hc : R.IsConsistent π) (hside : ExploresInOrder (R.side q π d) (st.side d))
    (hother : (R.side q π d.opposite).Explored (st.side d.opposite).frontier fun _ _ ↦ False)
    (hj : R.IsLeastMeeting q d (st.side d).frontier (st.side d.opposite).frontier st.meeting)
    (hpin : ∀ {id next l}, (st.side d).frontier.pop? = some (id, next) →
      next.label? id = some l → pin = pinAt (q.pin d) l.edge ∧ next.priority? 0 = none) :
    ∃ st', (R.method w limit h offset).advance q d pin st = (st', .ok ()) ∧
      R.AdvancesInOrder q π d st st' := by
  have hT := side_isLawful (π := π) (d := d) hR.toIsLawful hq
  have hC : (R.side q π d).IsConsistent := side_isConsistent hR.toIsLawful hc
  obtain ⟨k, hk, hordered⟩ := hside.ordered
  cases hp : (st.side d).frontier.pop? with
  | none =>
    have hempty := Frontier.priority?_of_pop_eq_none hside.explored.queue hp
    refine ⟨_, advance_of_pop_eq_none hp, ?_, ?_, State.side_opposite_withSide _ _ _, ?_, .inl ?_⟩
    · rw [State.side_withSide]
      exact ⟨hside.explored, ⟨k, hk, hordered⟩, hside.visited, fun _ ↦ hempty⟩
    · rw [State.side_withSide]
      exact hempty 0
    · rw [State.side_withSide, State.meeting_withSide]
      exact hj
    · rw [State.side_withSide]
      exact ⟨rfl, rfl⟩
  | some popped =>
    obtain ⟨id, next⟩ := popped
    obtain ⟨l, hl, _, hnext⟩ := explored_pop hside.explored hp
    obtain ⟨rfl, hzero⟩ := hpin hp hl
    have hcard := Frontier.card_settledIds_pop hside.explored.queue hp
      (Frontier.lt_size_of_label? ((congrFun (Frontier.label?_of_pop? hp) id).symm.trans hl))
    have hvisited : (st.side d).visited + 1 ≤ next.settledIds.card :=
      hcard ▸ Nat.succ_le_succ hside.visited
    obtain ⟨f', mt', hexpand, hdone, hmeeting, hord, hcount, hopen⟩ :=
      expand_joining_isOk limit offset hR hq hπ hnext hother
        (hj.pop hp) hl
        (fun e he ↦ he)
        (P := fun f ↦ (R.side q π d).Ordered f ((R.side q π d).rank l) ∧
          (st.side d).visited + 1 ≤ f.settledIds.card ∧ f.priority? 0 = none)
        (fun he hi hP ↦ ⟨hP.1.follow hC he hi,
          hP.2.1.trans (Terrain.card_settledIds_follow hP.1 hT hC he hi),
          by rw [he.priority?_follow, if_neg (he.follow_ne_zero hi hT).symm, hP.2.2]⟩)
        ⟨hordered.pop hside.explored hp hl, hvisited, hzero⟩
    refine ⟨_, advance_of_pop hp hl hexpand, ?_, ?_, State.side_opposite_withSide _ _ _, ?_, .inr ?_⟩
    · rw [State.side_withSide]
      exact ⟨hdone, ⟨_, hnext.priority_eq hl, hord⟩, hcount, nofun⟩
    · rw [State.side_withSide]
      exact hopen
    · rw [State.side_withSide, State.meeting_withSide]
      exact hmeeting
    · rw [State.side_withSide]

end Advance

section Rounds

variable {st st' : State Exact Q M Unit}

theorem SearchesInOrder.visited_le (hR : R.IsLawful stored) (hm : R.mode ≠ .nodeBased)
    (hg : R.SearchesInOrder q π st) : st.visited ≤ 2 * (2 * R.network.edgeCount + 1) := by
  have hside : ∀ d, (st.side d).visited ≤ 2 * R.network.edgeCount + 1 := fun d ↦ by
    have hsize := (hg.side d).explored.size_le fun {p e c} ha ↦
      hR.shows.key_lt hm (arc_terrain_iff.1 ha).1
    exact (hg.side d).visited.trans ((Frontier.card_settledIds_le _).trans hsize)
  have hforward : st.forward.visited ≤ _ := hside .forward
  have hbackward : st.backward.visited ≤ _ := hside .backward
  rw [State.visited]
  omega

theorem SearchesInOrder.meetingFrom (hR : R.IsLawful stored) (hg : R.SearchesInOrder q π st)
    (d : Direction) :
    R.IsLeastMeeting q d (st.side d).frontier (st.side d.opposite).frontier st.meeting := by
  cases d with
  | forward => exact hg.meeting
  | backward => exact hg.meeting.swap hR (hg.side .forward).explored (hg.side .backward).explored

theorem AdvancesInOrder.searchesInOrder (hR : R.IsLawful stored) (ha : R.AdvancesInOrder q π d st st')
    (hother : ExploresInOrder (R.side q π d.opposite) (st.side d.opposite))
    (hopen : (st.side d.opposite).frontier.priority? 0 = none) : R.SearchesInOrder q π st' := by
  have hside' := ha.other ▸ hother
  have hopen' := ha.other ▸ hopen
  have hmeeting := ha.other ▸ ha.meeting
  cases d with
  | forward =>
    refine ⟨fun d ↦ ?_, fun d ↦ ?_, hmeeting⟩
    · cases d with
      | forward => exact ha.side
      | backward => exact hside'
    · cases d with
      | forward => exact ha.opened
      | backward => exact hopen'
  | backward =>
    refine ⟨fun d ↦ ?_, fun d ↦ ?_, hmeeting.swap hR ha.side.explored hside'.explored⟩
    · cases d with
      | forward => exact hside'
      | backward => exact ha.side
    · cases d with
      | forward => exact hopen'
      | backward => exact ha.opened

variable (hR : R.IsPricedBy w stored) (hq : R.mode = .nodeBased → ∀ d, q.pin d = none)
variable (hπ : ∀ d, ∀ u < R.network.nodeCount,
  h.balanced q.source q.target d u = .finite (balance π d u))
variable (hc : R.IsConsistent π)
include hR hq hπ hc

variable (limit offset) in
theorem advanceUnfinished_isOk (hg : R.SearchesInOrder q π st) (d : Direction) :
    ∃ st', (R.method w limit h offset).advanceUnfinished q d st = (st', .ok ()) ∧
      R.SearchesInOrder q π st' ∧ st'.side d.opposite = st.side d.opposite ∧
      ((st'.side d).isFinished = true ∧ (st'.side d).visited = (st.side d).visited ∨
        (st'.side d).visited = (st.side d).visited + 1) := by
  rw [Method.advanceUnfinished]
  split
  · next hfin => exact ⟨st, rfl, hg, rfl, .inl ⟨hfin, rfl⟩⟩
  · obtain ⟨st', hst', ha⟩ := advance_isOk limit offset none hR hq
      (hπ d) hc (hg.side d) (hg.side d.opposite).explored (hg.meetingFrom hR.toIsLawful d)
      fun {id next l} hp hl ↦ by
        have hopen := hg.opened d
        have hprio := Frontier.priority?_pop (hg.side d).explored.queue hp
        have hid : id ≠ 0 := by
          rintro rfl
          exact Frontier.priority?_ne_none_of_pop (hg.side d).explored.queue hp hopen
        refine ⟨?_, by rw [hprio, if_neg hid.symm, hopen]⟩
        rw [Frontier.label?_of_pop? hp] at hl
        obtain ⟨e, _, _, _, _, rfl, _⟩ := (hg.side d).explored.form hl hid
        rfl
    exact ⟨st', hst', ha.searchesInOrder hR.toIsLawful (hg.side _) (hg.opened _), ha.other,
      ha.progress⟩

variable (limit offset) in
theorem round_isOk (hg : R.SearchesInOrder q π st) :
    ∃ st', (R.method w limit h offset).round q st = (st', .ok ()) ∧ R.SearchesInOrder q π st' ∧
      (st'.isFinished offset = true ∨ st.visited + 1 ≤ st'.visited) := by
  obtain ⟨st₁, hst₁, hg₁, hother₁, hprogress₁⟩ :=
    advanceUnfinished_isOk limit offset hR hq hπ hc hg .forward
  obtain ⟨st₂, hst₂, hg₂, hother₂, hprogress₂⟩ :=
    advanceUnfinished_isOk limit offset hR hq hπ hc hg₁ .backward
  refine ⟨st₂, ?_, hg₂, ?_⟩
  · rw [Method.round, hst₁]
    exact hst₂
  · change st₁.backward = st.backward at hother₁
    change st₂.forward = st₁.forward at hother₂
    change st₁.forward.isFinished = true ∧ st₁.forward.visited = st.forward.visited ∨
      st₁.forward.visited = st.forward.visited + 1 at hprogress₁
    change st₂.backward.isFinished = true ∧ st₂.backward.visited = st₁.backward.visited ∨
      st₂.backward.visited = st₁.backward.visited + 1 at hprogress₂
    rcases hprogress₁ with ⟨hfin, _⟩ | hvisited
    · left
      simp [State.isFinished, hother₂, hfin]
    · right
      simp only [State.visited, hother₂]
      rw [hother₁] at hprogress₂
      omega

omit [LawfulQueue Q] hR hq hπ hc in
theorem rounds_of_isFinished (hfin : st.isFinished offset = true) (left : Nat) :
    (R.method w limit h offset).rounds q left st = (st, .ok ()) := by
  cases left with
  | zero => rfl
  | succ left =>
    have hfin' : st.isFinished (R.method w limit h offset).offset = true := hfin
    rw [Method.rounds, hfin']
    rfl

variable (limit offset) in
theorem rounds_isOk (left : Nat) (hg : R.SearchesInOrder q π st)
    (hleft : limit < st.visited + left) :
    ∃ st', (R.method w limit h offset).rounds q left st = (st', .ok ()) ∧
      R.SearchesInOrder q π st' ∧
      (st'.isFinished offset = true ∨ limit < st'.visited) := by
  induction left generalizing st with
  | zero => exact ⟨st, rfl, hg, .inr hleft⟩
  | succ left ih =>
    by_cases hfin : st.isFinished offset = true
    · exact ⟨st, rounds_of_isFinished hfin _, hg, .inl hfin⟩
    · by_cases hlimit : limit < st.visited
      · refine ⟨st, ?_, hg, .inr hlimit⟩
        have hexceeded : (R.method w limit h offset).settings.isExceeded st.visited = true :=
          decide_eq_true hlimit
        rw [Method.rounds, hexceeded, Bool.or_true, if_pos rfl]
      · obtain ⟨st₁, hst₁, hg₁, hprogress⟩ :=
          round_isOk limit offset hR hq hπ hc hg
        have hstep : (R.method w limit h offset).rounds q (left + 1) st =
            (R.method w limit h offset).rounds q left st₁ := by
          have hfin' : st.isFinished (R.method w limit h offset).offset = false :=
            Bool.not_eq_true _ ▸ hfin
          have hexceeded : (R.method w limit h offset).settings.isExceeded st.visited = false :=
            decide_eq_false hlimit
          rw [Method.rounds, hfin', hexceeded, hst₁]
          rfl
        rw [hstep]
        -- a round that does not end the search visits a label, so `left` may count the rounds
        rcases hprogress with hfin₁ | hvisited
        · exact ⟨st₁, rounds_of_isFinished hfin₁ _, hg₁, .inl hfin₁⟩
        · exact ih hg₁ (by omega)

end Rounds

section Start

variable (hπ : ∀ d, ∀ u < R.network.nodeCount,
  h.balanced q.source q.target d u = .finite (balance π d u))
variable (hroot : ∀ d, q.root d < R.network.nodeCount)
include hπ hroot

omit [LawfulQueue Q] in
variable (w limit offset) in
theorem frontier_startSide (d : Direction) :
    ((R.method w limit h offset).startSide q d (q.root d) : Side Exact Q M).frontier =
      Frontier.empty.addRoot (R.side q π d).rootLabel (R.side q π d).rootKey := by
  have hlabel : (R.side q π d).rootLabel =
      .root (q.root d) (h.balanced q.source q.target d (q.root d)) := by
    rw [hπ d _ (hroot d)]
    rfl
  rw [hlabel]
  rfl

variable (w limit offset) in
theorem exploresInOrder_startSide (d : Direction) :
    ExploresInOrder (R.side q π d)
      ((R.method w limit h offset).startSide q d (q.root d) : Side Exact Q M) := by
  have hfrontier := frontier_startSide (Q := Q) (M := M) w limit offset hπ hroot d
  exact ⟨hfrontier ▸ Terrain.Explored.start _, ⟨_, hπ d _ (hroot d), hfrontier ▸ .start _⟩,
    Nat.zero_le _, nofun⟩

omit [LawfulQueue Q] in
theorem isLeastMeeting_start (hne : R.mode = .nodeBased → q.source ≠ q.target) :
    R.IsLeastMeeting q .forward
      ((R.method w limit h offset).start q : State Exact Q M Unit).forward.frontier
      ((R.method w limit h offset).start q : State Exact Q M Unit).backward.frontier
      ⟨Scalar.infinity, none⟩ := by
  refine ⟨fun {k i j li lj c} hi hj _ _ _ ↦ ?_, nofun, fun _ ↦ rfl⟩
  have hi' := frontier_startSide (Q := Q) (M := M) w limit offset hπ hroot .forward ▸ hi
  have hj' := frontier_startSide (Q := Q) (M := M) w limit offset hπ hroot .backward ▸ hj
  rw [Frontier.best?_addRoot] at hi' hj'
  split at hi'
  · next hk =>
    split at hj'
    · next hk' =>
      have hkey : R.mode.rootKey q.source = some k := hk
      have hkey' : R.mode.rootKey q.target = some k := hk'
      cases hm : R.mode with
      | nodeBased =>
        rw [hm] at hkey hkey'
        exact absurd (Option.some.inj (hkey.trans hkey'.symm)) (hne hm)
      | edgeBased => rw [hm] at hkey; cases hkey
      | edgeBasedWithUTurns => rw [hm] at hkey; cases hkey
    · cases hj'
  · cases hi'

variable (hR : R.IsPricedBy w stored) (hq : R.mode = .nodeBased → ∀ d, q.pin d = none)
variable (hc : R.IsConsistent π)
include hR hq hc

variable (limit offset) in
theorem advance_root_isOk (st : State Exact Q M Unit) (d : Direction)
    (hstart : st.side d = (R.method w limit h offset).startSide q d (q.root d))
    (hother : ExploresInOrder (R.side q π d.opposite) (st.side d.opposite))
    (hj : R.IsLeastMeeting q d (st.side d).frontier (st.side d.opposite).frontier st.meeting) :
    ∃ st', (R.method w limit h offset).advance q d (q.pin d) st = (st', .ok ()) ∧
      R.AdvancesInOrder q π d st st' := by
  have hfrontier := frontier_startSide (Q := Q) (M := M) w limit offset hπ hroot d
  have hside := exploresInOrder_startSide (Q := Q) (M := M) w limit offset hπ hroot d
  refine advance_isOk limit offset _ hR hq (hπ d) hc (hstart ▸ hside) hother.explored hj
    fun {id next l} hp hl ↦ ?_
  rw [hstart] at hp
  have hprio := Frontier.priority?_pop hside.explored.queue hp
  obtain ⟨k, hk, _⟩ := Frontier.least_of_pop hside.explored.queue hp
  rw [Frontier.label?_of_pop? hp, hfrontier, Frontier.label?_addRoot] at hl
  rw [hfrontier, Frontier.priority?_addRoot] at hk
  split at hl
  · next hid =>
    cases hl
    exact ⟨rfl, by rw [hprio, if_pos hid.symm]⟩
  · next hid => rw [if_neg hid] at hk; cases hk

variable (limit offset) in
theorem search_isOk (hne : ¬(q.source = q.target ∧ q.firstEdge = none ∧ q.lastEdge = none)) :
    ∃ st' : State Exact Q M Unit, (R.method w limit h offset).search q = (st', .ok ()) ∧
      R.SearchesInOrder q π st' ∧ (st'.isFinished offset = true ∨ limit < st'.visited) := by
  have hne' : R.mode = .nodeBased → q.source ≠ q.target := fun hm hst ↦
    hne ⟨hst, hq hm .forward, hq hm .backward⟩
  have hbackward := exploresInOrder_startSide (Q := Q) (M := M) w limit offset hπ hroot .backward
  obtain ⟨st₁, hst₁, ha₁⟩ := advance_root_isOk limit offset hπ hroot hR hq hc
    ((R.method w limit h offset).start q) .forward rfl hbackward
    (isLeastMeeting_start hπ hroot hne')
  have hother : st₁.side .backward =
      (R.method w limit h offset).startSide q .backward (q.root .backward) := ha₁.other
  have hmeeting := (ha₁.other ▸ ha₁.meeting).swap hR.toIsLawful ha₁.side.explored
    (hother ▸ hbackward.explored)
  obtain ⟨st₂, hst₂, ha₂⟩ := advance_root_isOk limit offset hπ hroot hR hq hc st₁ .backward hother
    ha₁.side hmeeting
  have hg := ha₂.searchesInOrder hR.toIsLawful ha₁.side ha₁.opened
  obtain ⟨st₃, hst₃, horder, hend⟩ := rounds_isOk limit offset hR hq hπ hc
    (limit + 1) hg (by omega)
  refine ⟨st₃, ?_, horder, hend⟩
  have hst₁' : (R.method w limit h offset).advance q .forward q.firstEdge
      ((R.method w limit h offset).start q) = (st₁, .ok ()) := hst₁
  have hst₂' : (R.method w limit h offset).advance q .backward q.lastEdge st₁ = (st₂, .ok ()) :=
    hst₂
  simp only [Method.search, if_neg hne, Method.andThen, hst₁', hst₂']
  exact hst₃

end Start

end Roads

end RoadRouting
