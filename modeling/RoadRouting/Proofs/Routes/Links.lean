import RoadRouting.Proofs.Bidirectional.Steps
import RoadRouting.Proofs.Routes.Labels
import RoadRouting.Proofs.Search.Success

namespace RoadRouting

structure Exploration.Explores {K : Type} (x : Exploration K) (s : SearchSettings K)
    (d : Direction) : Prop where
  steps : x.MakesSteps
  edges : ∀ u, x.edges u = s.network.edges u d
  key : ∀ e, x.key e = s.mode.key e d

theorem SearchSettings.explores_exploration {K : Type} [Scalar K] (s : SearchSettings K)
    (d : Direction) (estimate : NodeId → K) : (s.exploration d estimate).Explores s d :=
  ⟨s.makesSteps_exploration d estimate, fun _ ↦ rfl, fun _ ↦ rfl⟩

theorem SearchSettings.explores_timedExploration {K : Type} [Scalar K] (s : SearchSettings K)
    (d : Direction) : (s.timedExploration d).Explores s d :=
  ⟨s.makesSteps_timedExploration d, fun _ ↦ rfl, fun _ ↦ rfl⟩

theorem Bidirectional.Method.explores_exploration {K σ : Type} [Scalar K] (p : Method K σ)
    (q : Query) (d : Direction) (pin : Option EdgeId) :
    (p.exploration q d pin).Explores p.settings d :=
  ⟨p.makesSteps_exploration q d pin, fun _ ↦ rfl, fun _ ↦ rfl⟩

namespace Frontier

def IsAt {K Q M : Type} (f : Frontier K Q M) (id : LabelId) (u : NodeId) : Prop :=
  ∃ l, f.label? id = some l ∧ l.node = u

variable {K Q M : Type} [Scalar K] [PriorityQueue Q K] [LawfulQueue Q] [BestMap M]

/-- Labels that are at the ends of their edges, each of which leads on from the node of a parent. -/
structure IsLinked (f : Frontier K Q M) (s : SearchSettings K) (d : Direction) (origin : NodeId) :
    Prop where
  queue : LawfulQueue.IsValid f.queue
  queued : ∀ {id k}, f.priority? id = some k → ∃ l, f.label? id = some l
  keyed : f.IsKeyed (s.keyOf d origin)
  node : ∀ {id l}, f.label? id = some l → l.node = (l.edge.map (·.adj)).getD origin
  root : ∀ {id l}, f.label? id = some l → l.edge = none → l.parent = none
  link : ∀ {id l e}, f.label? id = some l → l.edge = some e →
    ∃ parent u, l.parent = some parent ∧ f.IsAt parent u ∧ e ∈ s.network.edges u d

namespace IsLinked

variable {f next f' : Frontier K Q M} {s : SearchSettings K} {d : Direction} {origin : NodeId}
variable {id : LabelId} {l : Label K}

variable (s d) in
protected theorem addRoot {start : Label K} (hedge : start.edge = none)
    (hnode : start.node = origin) (hparent : start.parent = none) :
    (empty.addRoot start (s.mode.rootKey origin) : Frontier K Q M).IsLinked s d origin := by
  have hlabel : ∀ {id l}, (empty.addRoot start (s.mode.rootKey origin) : Frontier K Q M).label? id =
      some l → l = start := by
    intro id l hl
    rw [label?_addRoot] at hl
    split at hl
    · exact (Option.some.inj hl).symm
    · cases hl
  refine ⟨queue_isValid_addRoot _ _, fun {id k} hq ↦ ?_, ?_, fun {id l} hl ↦ ?_,
    fun {id l} hl _ ↦ ?_, fun {id l e} hl he ↦ ?_⟩
  · rw [priority?_addRoot] at hq
    split at hq
    · next hid => exact ⟨start, by rw [label?_addRoot, if_pos hid]⟩
    · cases hq
  · have hkeyed := IsKeyed.addRoot (Q := Q) (M := M) (s.keyOf d origin) start
    rw [hedge] at hkeyed
    exact hkeyed
  · rw [hlabel hl, hedge, hnode]
    rfl
  · rw [hlabel hl, hparent]
  · rw [hlabel hl, hedge] at he
    cases he

section Steps

variable (h : f.IsLinked s d origin)
include h

theorem exists_label?_of_pop (hp : f.pop? = some (id, next)) : ∃ l, next.label? id = some l := by
  obtain ⟨k, hk⟩ := Option.ne_none_iff_exists'.1 (priority?_ne_none_of_pop h.queue hp)
  obtain ⟨l, hl⟩ := h.queued hk
  exact ⟨l, label?_of_pop? hp ▸ hl⟩

protected theorem pop (hp : f.pop? = some (id, next)) : next.IsLinked s d origin := by
  have hl := label?_of_pop? hp
  refine ⟨queue_isValid_pop h.queue hp, fun {j k} hj ↦ ?_, h.keyed.pop hp, ?_, ?_, ?_⟩
  · rw [priority?_pop h.queue hp] at hj
    split at hj
    · cases hj
    · exact hl ▸ h.queued hj
  · rw [hl]
    exact h.node
  · rw [hl]
    exact h.root
  · unfold IsAt
    rw [hl]
    exact h.link

variable {stored : EdgeId → Option (StoredEdge K)} (hn : s.network.Shows stored)
variable {x : Exploration K} (hx : x.Explores s d) {e : EdgeView K} {made : Label K} {w : K}

section Store

variable (he : e ∈ x.edges l.node) (hs : x.Stores id l f e made w)
include hx hs

omit h [PriorityQueue Q K] [LawfulQueue Q] in
theorem keyOf_made : s.keyOf d origin made.edge = some (x.key e) := by
  rw [(hx.steps hs.extend).1, hx.key]
  rfl

include hn he

theorem isAt_store {j : LabelId} {u : NodeId} (hj : f.IsAt j u) :
    (f.store (x.key e) made).1.IsAt j u := by
  obtain ⟨lj, hlj, rfl⟩ := hj
  by_cases hji : j = (f.store (x.key e) made).2
  · subst hji
    obtain ⟨_, hlj', hk⟩ := h.keyed _ _ (best?_of_label?_store hlj)
    cases hlj'.symm.trans hlj
    refine ⟨made, h.keyed.label?_store_self made, ?_⟩
    rw [hx.key] at hk
    rw [hx.edges] at he
    rw [(hx.steps hs.extend).2.1, h.node hlj,
      SearchSettings.adj_eq_of_keyOf hn (fun e₀ he₀ ↦ ?_) he hk]
    obtain ⟨_, u, _, _, hu⟩ := h.link hlj he₀
    exact ⟨u, hu⟩
  · exact ⟨lj, (h.keyed.label?_store_of_ne hji).trans hlj, rfl⟩

protected theorem store (hat : f.IsAt id l.node) :
    (f.store (x.key e) made).1.IsLinked s d origin := by
  obtain ⟨hedge, hnode, hparent, _⟩ := hx.steps hs.extend
  have hkeep := fun {j u} ↦ h.isAt_store hn hx he hs (j := j) (u := u)
  refine ⟨queue_isValid_store h.queue _ _, fun {j k} hj ↦ ?_, h.keyed.store (keyOf_made hx hs),
    fun {j lj} hj ↦ ?_, fun {j lj} hj hnone ↦ ?_, fun {j lj e'} hj he' ↦ ?_⟩
  · rw [priority?_store h.queue] at hj
    split at hj
    · next hji => exact ⟨made, hji ▸ h.keyed.label?_store_self made⟩
    · next hji =>
      obtain ⟨lj, hlj⟩ := h.queued hj
      exact ⟨lj, (h.keyed.label?_store_of_ne hji).trans hlj⟩
  · rcases label?_store_cases hj with rfl | hj
    · rw [hedge, hnode]
      rfl
    · exact h.node hj
  · rcases label?_store_cases hj with rfl | hj
    · cases hedge.symm.trans hnone
    · exact h.root hj hnone
  · rcases label?_store_cases hj with rfl | hj
    · cases hedge.symm.trans he'
      exact ⟨id, l.node, hparent, hkeep hat, hx.edges l.node ▸ he⟩
    · obtain ⟨parent, u, hp, hparent, hu⟩ := h.link hj he'
      exact ⟨parent, u, hp, hkeep hparent, hu⟩

end Store

include hn hx

theorem expand (hl : f.label? id = some l) (hexpand : x.expand id l f (x.edges l.node) = .ok f') :
    f'.IsLinked s d origin ∧ ∀ j u, f.IsAt j u → f'.IsAt j u := by
  refine Exploration.expand_preserves
    (P := fun g ↦ g.IsLinked s d origin ∧ ∀ j u, f.IsAt j u → g.IsAt j u)
    (fun {g e made w} he hg hs ↦ ?_) ⟨h, fun _ _ hj ↦ hj⟩ hexpand
  obtain ⟨hlinked, hkeep⟩ := hg
  exact ⟨hlinked.store hn hx he hs (hkeep id l.node ⟨l, hl, rfl⟩),
    fun j u hj ↦ hlinked.isAt_store hn hx he hs (hkeep j u hj)⟩

end Steps

theorem explore {σ : Type} {stored : EdgeId → Option (StoredEdge K)} (hn : s.network.Shows stored)
    {x : Exploration K} (hx : x.Explores s d) {w : Watch K σ} (noted : σ → List (NodeId × LabelId))
    (hnote : ∀ seen id l, noted (w.note seen id l) ⊆ (l.node, id) :: noted seen) (limit : Nat)
    (start : Label K) (seen : σ) (hedge : start.edge = none) (hnode : start.node = origin)
    (hparent : start.parent = none) (hseen : noted seen = []) :
    let explored : Explored K Q M σ := x.explore w limit start (s.mode.rootKey origin) seen
    explored.frontier.IsLinked s d origin ∧
      ∀ u id, (u, id) ∈ noted explored.watched → explored.frontier.IsAt id u := by
  refine Exploration.explore_keeps
    (J := fun f seen ↦ f.IsLinked s d origin ∧ ∀ u id, (u, id) ∈ noted seen → f.IsAt id u)
    (fun {id f next seen} h hp ↦ ?_) limit ⟨.addRoot s d hedge hnode hparent, ?_⟩
  · obtain ⟨hlinked, hnoted⟩ := h
    have hnext := hlinked.pop hp
    have hsame : ∀ u j, (u, j) ∈ noted seen → next.IsAt j u := by
      unfold IsAt
      rw [label?_of_pop? hp]
      exact hnoted
    obtain ⟨l, hl⟩ := hlinked.exists_label?_of_pop hp
    rw [label_eq hl]
    have hnoted' : ∀ u j, (u, j) ∈ noted (w.note seen id l) → next.IsAt j u := by
      intro u j hj
      rcases List.mem_cons.1 (hnote seen id l hj) with heq | hj
      · cases heq
        exact ⟨l, hl, rfl⟩
      · exact hsame u j hj
    refine ⟨⟨hnext, hsame⟩, ⟨hnext, hnoted'⟩, fun hexpand ↦ ?_⟩
    obtain ⟨hf', hkeep⟩ := hnext.expand hn hx hl hexpand
    exact ⟨hf', fun u j hj ↦ hkeep j u (hnoted' u j hj)⟩
  · rw [hseen]
    nofun

section Paths

variable (h : f.IsLinked s d origin)
include h

theorem exists_listed {e : EdgeView K} (he : e ∈ f.edgesTo id) : ∃ u, e ∈ s.network.edges u d := by
  obtain ⟨_, _, hl, hedge⟩ := exists_of_mem_edgesTo he
  obtain ⟨_, u, _, _, hu⟩ := h.link hl hedge
  exact ⟨u, hu⟩

theorem chained_edgesTo {ids : List LabelId} (hs : f.Lineage id ids) (hl : f.label? id = some l) :
    s.network.Chained d origin (f.edgesTo id) ∧ (f.edgesTo id).head? = l.edge := by
  induction hs generalizing l with
  | @root id l' hl' hp =>
    cases hl'.symm.trans hl
    have hnone : l'.edge = none := by
      cases hedge : l'.edge with
      | none => rfl
      | some e =>
        obtain ⟨_, _, hparent, _⟩ := h.link hl hedge
        cases hp.symm.trans hparent
    rw [edgesTo_root hl hp, hnone]
    exact ⟨.nil, rfl⟩
  | @step id parent l' ids hl' hp hs ih =>
    cases hl'.symm.trans hl
    cases hedge : l'.edge with
    | none => cases (h.root hl hedge).symm.trans hp
    | some e =>
      obtain ⟨_, u, hparent, ⟨lp, hlp, rfl⟩, hu⟩ := h.link hl hedge
      cases hp.symm.trans hparent
      obtain ⟨hchained, hhead⟩ := ih hlp
      rw [h.node hlp, ← hhead] at hu
      rw [edgesTo_step hl hp hs, hedge]
      exact ⟨hchained.cons hu, rfl⟩

theorem chained_of_isAt {ids : List LabelId} {u : NodeId} (hs : f.Lineage id ids)
    (hat : f.IsAt id u) : s.network.Chained d origin (f.edgesTo id) ∧
      ((f.edgesTo id).head?.map (·.adj)).getD origin = u := by
  obtain ⟨l, hl, rfl⟩ := hat
  obtain ⟨hchained, hhead⟩ := h.chained_edgesTo hs hl
  exact ⟨hchained, by rw [hhead, h.node hl]⟩

end Paths

end IsLinked

end Frontier

end RoadRouting
