import RoadRouting.Proofs.Routes.Found
import RoadRouting.Proofs.Routes.Links
import RoadRouting.Proofs.Search.Courses

namespace RoadRouting

open Scalar (IsOrdered)
open Bidirectional (Method Query Meeting State)

structure SearchSettings.Tells {K : Type} (s : SearchSettings K)
    (stored : EdgeId → Option (StoredEdge K)) (source target : NodeId) (es : List (EdgeView K)) :
    Prop where
  explored : ∀ e ∈ es, ∃ u,
    e ∈ s.network.edges u .forward ∨ e.reversed ∈ s.network.edges u .backward
  leads : es = [] ∨ Leads stored source es target

namespace Frontier.IsLinked

variable {K Q M : Type} [Scalar K] [PriorityQueue Q K] [LawfulQueue Q] [BestMap M]
variable {f : Frontier K Q M} {s : SearchSettings K} {stored : EdgeId → Option (StoredEdge K)}
variable {id : LabelId} {ids : List LabelId} {source target u : NodeId}

section Forward

variable (h : f.IsLinked s .forward source)
include h

theorem explored_pathTo : ∀ e ∈ f.pathTo id, ∃ u, e ∈ s.network.edges u .forward ∨
    e.reversed ∈ s.network.edges u .backward := fun _ he ↦
  (h.exists_listed (List.mem_reverse.1 he)).imp fun _ ↦ .inl

variable (hn : s.network.Shows stored) (hat : f.IsAt id u)
include hn hat

theorem leads_pathTo (hs : f.Lineage id ids) : Leads stored source (f.pathTo id) u := by
  obtain ⟨hchained, rfl⟩ := h.chained_of_isAt hs hat
  exact hchained.leads_reverse hn

theorem tells_pathTo : s.Tells stored source u (f.pathTo id) where
  explored := h.explored_pathTo
  leads := by
    rcases f.edgesTo_eq_nil_or id with hnil | ⟨ids, hs⟩
    · exact .inl (congrArg List.reverse hnil)
    · exact .inr (h.leads_pathTo hn hat hs)

end Forward

section Backward

variable (h : f.IsLinked s .backward target)
include h

theorem explored_pathFrom : ∀ e ∈ f.pathFrom id, ∃ u, e ∈ s.network.edges u .forward ∨
    e.reversed ∈ s.network.edges u .backward := by
  intro e he
  obtain ⟨e', he', rfl⟩ := List.mem_map.1 he
  obtain ⟨u, hu⟩ := h.exists_listed he'
  exact ⟨u, .inr (by rwa [EdgeView.reversed_reversed])⟩

variable (hn : s.network.Shows stored) (hat : f.IsAt id u)
include hn hat

theorem leads_pathFrom (hs : f.Lineage id ids) : Leads stored u (f.pathFrom id) target := by
  obtain ⟨hchained, rfl⟩ := h.chained_of_isAt hs hat
  exact hchained.leads_reversed hn

theorem tells_pathFrom : s.Tells stored u target (f.pathFrom id) where
  explored := h.explored_pathFrom
  leads := by
    rcases f.edgesTo_eq_nil_or id with hnil | ⟨ids, hs⟩
    · exact .inl (congrArg (List.map EdgeView.reversed) hnil)
    · exact .inr (h.leads_pathFrom hn hat hs)

end Backward

end Frontier.IsLinked

namespace SearchSettings

variable {K Q M : Type} [Scalar K] [PriorityQueue Q K] [LawfulQueue Q] [BestMap M]
variable {s : SearchSettings K} {stored : EdgeId → Option (StoredEdge K)}
variable {source target : NodeId} {r : Route K} (hn : s.network.Shows stored)

section OneEnd

include hn

theorem isLinked_explore_reach {x : Exploration K} {d : Direction} (hx : x.Explores s d)
    (origin goal : NodeId) (limit : Nat) {start : Label K} (hedge : start.edge = none)
    (hnode : start.node = origin) (hparent : start.parent = none) {id : LabelId}
    (hseen : (x.explore (Watch.reach goal) limit start (s.mode.rootKey origin) none :
      Explored K Q M (Option LabelId)).watched = some id) :
    (x.explore (Watch.reach goal) limit start (s.mode.rootKey origin) none :
      Explored K Q M (Option LabelId)).frontier.IsLinked s d origin ∧
    (x.explore (Watch.reach goal) limit start (s.mode.rootKey origin) none :
      Explored K Q M (Option LabelId)).frontier.IsAt id goal := by
  have hnote : ∀ (seen : Option LabelId) id (l : Label K),
      ((Watch.reach goal).note seen id l).toList.map (Prod.mk goal) ⊆
        (l.node, id) :: seen.toList.map (Prod.mk goal) := by
    intro seen id l
    dsimp only [Watch.reach]
    split
    · next heq => simp [heq]
    · exact List.subset_cons_self _ _
  obtain ⟨hlinked, hnoted⟩ := Frontier.IsLinked.explore (Q := Q) (M := M) hn hx
    (fun seen : Option LabelId ↦ seen.toList.map (Prod.mk goal)) hnote limit start none hedge hnode
    hparent rfl
  exact ⟨hlinked, hnoted goal id (by simp [hseen])⟩

theorem tells_of_bestRoute {h : Estimate K}
    (hfound : (s.bestRoute Q M h source target).result = .ok (.found r)) :
    s.Tells stored source target r.edges := by
  obtain ⟨goal, _, hseen, hroute⟩ := exists_goal_of_bestRoute hfound
  obtain ⟨hlinked, hat⟩ := isLinked_explore_reach hn (s.explores_exploration .forward _) source
    target s.visitLimit rfl rfl rfl hseen
  rw [Route.edges_of_ofEdges hroute]
  exact hlinked.tells_pathTo hn hat

theorem tells_of_bestRoutes {targets : List NodeId} {outcomes : List (Outcome K)}
    (hresult : (s.bestRoutes Q M source targets).result = .ok outcomes)
    (hmem : (target, .found r) ∈ targets.zip outcomes) :
    s.Tells stored source target r.edges := by
  obtain ⟨goal, hgoal, hroute⟩ := exists_goal_of_mem_zip hresult hmem
  have hnote : ∀ (seen : TargetsSeen) id (l : Label K),
      (Watch.reachAll.note seen id l).settled ⊆ (l.node, id) :: seen.settled := by
    intro seen id l
    dsimp only [Watch.reachAll]
    split
    · exact List.Subset.refl _
    · exact List.subset_cons_self _ _
  obtain ⟨hlinked, hnoted⟩ := Frontier.IsLinked.explore (Q := Q) (M := M) hn
    (s.explores_exploration .forward fun _ ↦ 0) TargetsSeen.settled hnote s.visitLimit
    (.root source 0) ⟨targets, []⟩ rfl rfl rfl rfl
  obtain ⟨before, after, hsettled, _⟩ := List.lookup_eq_some_iff.1 hgoal
  have hmem : (target, goal) ∈ (s.exploreAll Q M source targets).watched.settled := by
    simp [hsettled]
  rw [Route.edges_of_ofEdges hroute]
  exact hlinked.tells_pathTo hn (hnoted target goal hmem)

theorem tells_of_bestRouteAt {d : Direction} {t : Instant}
    (hfound : (s.bestRouteAt Q M d source target t).result = .ok (.found r)) :
    s.Tells stored source target r.edges := by
  obtain ⟨goal, _, hseen, rfl⟩ := exists_goal_of_bestRouteAt hfound
  obtain ⟨hlinked, hat⟩ := isLinked_explore_reach hn (s.explores_timedExploration d)
    (ends source target d).1 (ends source target d).2 s.visitLimit rfl rfl rfl hseen
  cases d with
  | forward => exact hlinked.tells_pathTo hn hat
  | backward => exact hlinked.tells_pathFrom hn hat

end OneEnd

end SearchSettings

namespace Bidirectional

variable {K Q M σ : Type} [Scalar K] [PriorityQueue Q K] [LawfulQueue Q] [BestMap M]

/-- The labels of both searches are linked, and those of the meeting are at one node; seen from the
search in a direction. -/
structure Linked (s : SearchSettings K) (q : Query) (d : Direction) (own other : Frontier K Q M)
    (mt : Meeting K) : Prop where
  here : own.IsLinked s d (q.root d)
  there : other.IsLinked s d.opposite (q.root d.opposite)
  met : ∀ {labels}, mt.labels = some labels →
    ∃ a b u, labels = ordered a b d ∧ own.IsAt a u ∧ other.IsAt b u

variable {s : SearchSettings K} {q : Query} {d : Direction} {own other next own' : Frontier K Q M}
variable {mt mt' : Meeting K}

theorem Linked.swap (h : Linked s q d own other mt) : Linked s q d.opposite other own mt where
  here := h.there
  there := by
    cases d with
    | forward => exact h.here
    | backward => exact h.here
  met hl := by
    obtain ⟨a, b, u, hlabels, ha, hb⟩ := h.met hl
    refine ⟨b, a, u, ?_, hb, ha⟩
    cases d with
    | forward => exact hlabels
    | backward => exact hlabels

theorem Linked.pop {id : LabelId} (h : Linked s q d own other mt)
    (hp : own.pop? = some (id, next)) : Linked s q d next other mt where
  here := h.here.pop hp
  there := h.there
  met := by
    unfold Frontier.IsAt
    rw [Frontier.label?_of_pop? hp]
    exact h.met

variable {stored : EdgeId → Option (StoredEdge K)}

section Steps

variable {p : Method K σ} (hn : p.settings.network.Shows stored)
include hn

theorem Linked.store {pin : Option EdgeId} {id : LabelId} {l made : Label K} {e : EdgeView K}
    {w : K} (h : Linked p.settings q d own other mt) (hat : own.IsAt id l.node)
    (he : e ∈ (p.exploration q d pin).edges l.node)
    (hs : (p.exploration q d pin).Stores id l own e made w)
    (hjoin : p.join d e (own.store ((p.exploration q d pin).key e) made).1 other
      (own.store ((p.exploration q d pin).key e) made).2 mt = .ok mt') :
    Linked p.settings q d (own.store ((p.exploration q d pin).key e) made).1 other mt' := by
  have hx := p.explores_exploration q d pin
  have hkeep := fun {j u} ↦ h.here.isAt_store hn hx he hs (j := j) (u := u)
  refine ⟨h.here.store hn hx he hs hat, h.there, fun {labels} hlabels ↦ ?_⟩
  rcases Method.join_cases hjoin with rfl | ⟨j, cost, hj, rfl⟩
  · obtain ⟨a, b, u, hab, ha, hb⟩ := h.met hlabels
    exact ⟨a, b, u, hab, hkeep ha, hb⟩
  · obtain ⟨hedge, hnode, hparent, _⟩ := hx.steps hs.extend
    obtain ⟨lb, hlb, hk⟩ := h.there.keyed _ _ hj
    have hself : (own.store ((p.exploration q d pin).key e) made).1.label?
        (own.store ((p.exploration q d pin).key e) made).2 = some made :=
      h.here.keyed.label?_store_self made
    have hother : other.IsAt j (if p.settings.mode.isEdgeBased then l.node else e.adj) := by
      refine ⟨lb, hlb, (h.there.node hlb).trans (SearchSettings.node_of_keyOf hn he (fun e' he' ↦ ?_) hk)⟩
      obtain ⟨_, v, _, _, hv⟩ := h.there.link hlb he'
      exact ⟨v, hv⟩
    cases hlabels
    cases hmode : p.settings.mode.isEdgeBased with
    | false =>
      rw [hmode] at hother
      exact ⟨_, j, _, rfl, ⟨made, hself, hnode⟩, hother⟩
    | true =>
      rw [hmode] at hother
      rw [if_pos rfl, Frontier.label_eq hself, hparent]
      exact ⟨id, j, _, rfl, hkeep hat, hother⟩

theorem Linked.advances {pin : Option EdgeId} (h : Linked p.settings q d own other mt)
    (ha : p.Advances (p.exploration q d pin) d own other mt own' mt') :
    Linked p.settings q d own' other mt' := by
  cases ha with
  | exhausted _ => exact h
  | pruned hp _ => exact h.pop hp
  | @expanded id next _ _ hp hexpand =>
    obtain ⟨l, hl⟩ := h.here.exists_label?_of_pop hp
    rw [Frontier.label_eq hl] at hexpand
    refine (Method.expand_preserves (P := fun f mt ↦ Linked p.settings q d f other mt ∧
      f.IsAt id l.node) (fun {f mt e made w mt'} he hf hs hjoin ↦ ?_) ⟨h.pop hp, l, hl, rfl⟩
      hexpand).1
    obtain ⟨hlinked, hat⟩ := hf
    exact ⟨hlinked.store hn hat he hs hjoin,
      hlinked.here.isAt_store hn (p.explores_exploration q d pin) he hs hat⟩

theorem satisfies_linked {pin : Option EdgeId} {st st' : State K Q M σ}
    (h : st.Satisfies (Linked p.settings q)) (ha : p.advance q d pin st = (st', .ok ())) :
    st'.Satisfies (Linked p.settings q) :=
  Method.satisfies_of_advance (·.swap) (·.advances hn ·) h ha

omit hn in
theorem satisfies_linked_start :
    (p.start q : State K Q M σ).Satisfies (Linked p.settings q) := by
  have hlinked : ∀ d, ((p.start q : State K Q M σ).side d).frontier.IsLinked p.settings d
      (q.root d) := by
    intro d
    cases d with
    | forward => exact .addRoot p.settings .forward rfl rfl rfl
    | backward => exact .addRoot p.settings .backward rfl rfl rfl
  exact fun d ↦ ⟨hlinked d, hlinked d.opposite, nofun⟩

omit hn in
theorem satisfies_linked_meetAtStart (hends : q.source = q.target) :
    (Method.meetAtStart (p.start q) : State K Q M σ).Satisfies (Linked p.settings q) := by
  have hmet : Linked p.settings q .forward
      (Method.meetAtStart (p.start q) : State K Q M σ).forward.frontier
      (Method.meetAtStart (p.start q) : State K Q M σ).backward.frontier ⟨0, some (0, 0)⟩ := by
    obtain ⟨hforward, hbackward, _⟩ :=
      satisfies_linked_start (Q := Q) (M := M) (p := p) (q := q) .forward
    refine ⟨hforward, hbackward, fun hlabels ↦ ?_⟩
    refine ⟨0, 0, q.source, (Option.some.inj hlabels).symm, ?_, ?_⟩
    · exact ⟨_, (Frontier.label?_addRoot _ _ 0).trans (if_pos rfl), rfl⟩
    · exact ⟨_, (Frontier.label?_addRoot _ _ 0).trans (if_pos rfl), hends.symm⟩
  intro d
  cases d with
  | forward => exact hmet
  | backward => exact hmet.swap

theorem satisfies_linked_search {st : State K Q M σ} (h : p.search q = (st, .ok ())) :
    st.Satisfies (Linked p.settings q) := by
  by_cases hne : q.source = q.target ∧ q.firstEdge = none ∧ q.lastEdge = none
  · rw [Method.search, if_pos hne] at h
    cases h
    exact satisfies_linked_meetAtStart hne.1
  · exact Method.search_preserves (I := fun st : State K Q M σ ↦ st.Satisfies (Linked p.settings q))
      (fun hst ha ↦ satisfies_linked hn hst ha)
      (fun _ hforward hbackward ↦ satisfies_linked hn
        (satisfies_linked hn satisfies_linked_start hforward) hbackward) hne h

end Steps

def State.unwinds (st : State K Q M σ) : Bool :=
  st.meeting.labels.all fun labels ↦ (st.forward.frontier.unwind? labels.1).isSome &&
    (st.backward.frontier.unwind? labels.2).isSome

end Bidirectional

namespace SearchSettings

section Returns

variable {K Q M : Type} [Scalar K] [PriorityQueue Q K] [BestMap M]

/-- A route that one of the searches returns. It is one that is found. A search from both ends has
to follow the parents of the labels on which it has met, and where these went round in a circle it
would not return. -/
inductive Returns (Q M : Type) [PriorityQueue Q K] [BestMap M] (s : SearchSettings K) :
    Query → Route K → Prop
  | oneToOne {source target : NodeId} {r : Route K} (h : Estimate K) :
      (s.bestRoute Q M h source target).result = .ok (.found r) →
      Returns Q M s ⟨source, target, none, none⟩ r
  | oneToMany {source target : NodeId} {r : Route K} {targets : List NodeId}
      {outcomes : List (Outcome K)} : (s.bestRoutes Q M source targets).result = .ok outcomes →
      (target, .found r) ∈ targets.zip outcomes → Returns Q M s ⟨source, target, none, none⟩ r
  | timed {source target : NodeId} {r : Route K} (d : Direction) (t : Instant) :
      (s.bestRouteAt Q M d source target t).result = .ok (.found r) →
      Returns Q M s ⟨source, target, none, none⟩ r
  | bothEnds {q : Query} {r : Route K} {σ : Type} (p : Method K σ) : p.settings = s →
      (p.bestRoute Q M q).result = .ok (.found r) →
      (p.search q : State K Q M σ × _).1.unwinds = true → Returns Q M s q r

variable [LawfulQueue Q] {s : SearchSettings K} {stored : EdgeId → Option (StoredEdge K)}
variable {q : Query} {r : Route K}

theorem exists_met_of_bothEnds {σ : Type} {p : Method K σ} (hn : p.settings.network.Shows stored)
    (hfound : (p.bestRoute Q M q).result = .ok (.found r)) :
    ∃ (st : State K Q M σ) (a b : LabelId) (u : NodeId), (p.search q).1 = st ∧
      st.meeting.labels = some (a, b) ∧ st.Satisfies (Bidirectional.Linked p.settings q) ∧
      st.forward.frontier.IsAt a u ∧ st.backward.frontier.IsAt b u ∧
      r.edges = st.forward.frontier.pathTo a ++ st.backward.frontier.pathFrom b := by
  obtain ⟨st, hsearch, hanswer⟩ := Method.exists_search_of_bestRoute hfound
  rw [hanswer] at hfound
  obtain ⟨labels, hlabels, _, hroute⟩ := Method.exists_labels_of_outcome hfound
  have hlinked := Bidirectional.satisfies_linked_search hn hsearch
  obtain ⟨a, b, u, rfl, ha, hb⟩ := (hlinked .forward).met hlabels
  exact ⟨st, a, b, u, by rw [hsearch], hlabels, hlinked, ha, hb, Route.edges_of_ofEdges hroute⟩

theorem tells_of_bothEnds {σ : Type} {p : Method K σ} (hn : p.settings.network.Shows stored)
    (hfound : (p.bestRoute Q M q).result = .ok (.found r))
    (hunwinds : (p.search q : State K Q M σ × _).1.unwinds = true) :
    p.settings.Tells stored q.source q.target r.edges := by
  obtain ⟨st, a, b, u, hsearch, hlabels, hlinked, ha, hb, hedges⟩ :=
    exists_met_of_bothEnds hn hfound
  obtain ⟨hforward, hbackward, _⟩ := hlinked .forward
  rw [hsearch, State.unwinds, hlabels, Option.all_some, Bool.and_eq_true,
    Frontier.isSome_unwind?_iff, Frontier.isSome_unwind?_iff] at hunwinds
  obtain ⟨⟨_, hs⟩, _, hs'⟩ := hunwinds
  rw [hedges]
  refine ⟨fun e he ↦ ?_, .inr ?_⟩
  · rcases List.mem_append.1 he with he | he
    · exact hforward.explored_pathTo e he
    · exact hbackward.explored_pathFrom e he
  · exact (hforward.leads_pathTo hn ha hs).append (hbackward.leads_pathFrom hn hb hs')

theorem Returns.tells (hn : s.network.Shows stored) (h : s.Returns Q M q r) :
    s.Tells stored q.source q.target r.edges := by
  cases h with
  | oneToOne h hfound => exact tells_of_bestRoute hn hfound
  | oneToMany hresult hmem => exact tells_of_bestRoutes hn hresult hmem
  | timed d t hfound => exact tells_of_bestRouteAt hn hfound
  | bothEnds p hp hfound hunwinds =>
    subst hp
    exact tells_of_bothEnds hn hfound hunwinds

variable [IsOrdered K]

theorem unwinds_of_bothEnds {σ : Type} {p : Method K σ} (hn : p.settings.network.Shows stored)
    (hw : p.settings.weighting.IsNonneg p.settings.network)
    (hfound : (p.bestRoute Q M q).result = .ok (.found r)) :
    (p.search q : State K Q M σ × _).1.unwinds = true := by
  have hgrown : ∀ d, ∃ start, ((p.search q : State K Q M σ × _).1.side d).frontier.IsGrown
      p.settings d (q.root d) none start := by
    intro d
    obtain ⟨_, hcourse, _⟩ := p.sidesReached_search (Q := Q) (M := M) q d
    exact ⟨_, hcourse.isGrown ((Sweep.IsAsked.bothEnds p q d).isSound hw) hn⟩
  obtain ⟨st, a, b, u, rfl, hlabels, _, ⟨la, hla, _⟩, ⟨lb, hlb, _⟩, _⟩ :=
    exists_met_of_bothEnds hn hfound
  obtain ⟨_, hforward⟩ := hgrown .forward
  obtain ⟨_, hbackward⟩ := hgrown .backward
  rw [State.unwinds, hlabels, Option.all_some, Bool.and_eq_true, Frontier.isSome_unwind?_iff,
    Frontier.isSome_unwind?_iff]
  exact ⟨hforward.lineage hla, hbackward.lineage hlb⟩

theorem Finds.returns (hn : s.network.Shows stored) (hw : s.weighting.IsNonneg s.network)
    (h : s.Finds Q M q r) : s.Returns Q M q r := by
  cases h with
  | oneToOne h hfound => exact .oneToOne h hfound
  | oneToMany hresult hmem => exact .oneToMany hresult hmem
  | timed d t hfound => exact .timed d t hfound
  | bothEnds p hp hfound =>
    subst hp
    exact .bothEnds p rfl hfound (unwinds_of_bothEnds hn hw hfound)

end Returns

end SearchSettings

end RoadRouting
