import RoadRouting.Proofs.Bidirectional.Steps
import RoadRouting.Proofs.Routes.Labels

namespace RoadRouting.Bidirectional

open Scalar (IsOrdered)

variable {K : Type} [Scalar K] {s : SearchSettings K} {q : Query} {d : Direction}
variable {x x' y : Option (EdgeView K)}

/-- A route leads through a place of the search in a direction and one of the other search. -/
structure Meets (s : SearchSettings K) (q : Query) (d : Direction) (x y : Option (EdgeView K)) :
    Prop where
  node : (x.map (·.adj)).getD (q.root d) = (y.map (·.adj)).getD (q.root d.opposite)
  turn : ∀ e ∈ x, ∀ e' ∈ y, s.Turns d e.edge e.adj e'.edge
  pinned : x = none → Obeys (q.pin d) y
  pinned_opposite : y = none → Obeys (q.pin d.opposite) x

theorem Meets.swap (h : Meets s q d x y) : Meets s q d.opposite y x where
  node := by
    cases d with
    | forward => exact h.node.symm
    | backward => exact h.node.symm
  turn e' he' e he := by
    have hnode := h.node
    rw [Option.mem_def.1 he, Option.mem_def.1 he'] at hnode
    change e.adj = e'.adj at hnode
    have hturn := h.turn e he e' he'
    rw [hnode] at hturn
    cases d with
    | forward => exact hturn
    | backward => exact hturn
  pinned := h.pinned_opposite
  pinned_opposite := by
    cases d with
    | forward => exact h.pinned
    | backward => exact h.pinned

section Places

variable (hpins : s.mode = .nodeBased → ∀ d, q.pin d = none)
include hpins

theorem meets_of_nodeBased (hm : s.mode = .nodeBased)
    (hnode : (x.map (·.adj)).getD (q.root d) = (y.map (·.adj)).getD (q.root d.opposite)) :
    Meets s q d x y where
  node := hnode
  turn e _ e' _ := SearchSettings.turns_of_nodeBased hm d _ _ _
  pinned _ := by
    rw [hpins hm d]
    nofun
  pinned_opposite _ := by
    rw [hpins hm d.opposite]
    nofun

variable {stored : EdgeId → Option (StoredEdge K)} (hn : s.network.Shows stored)
include hn

theorem Meets.congr {k : StateKey}
    (hx : ∀ e ∈ x, ∃ p, s.Follows d (q.root d) (q.pin d) p e)
    (hx' : ∀ e ∈ x', ∃ p, s.Follows d (q.root d) (q.pin d) p e)
    (hk : s.keyOf d (q.root d) x = some k) (hk' : s.keyOf d (q.root d) x' = some k)
    (h : Meets s q d x y) : Meets s q d x' y := by
  by_cases hm : s.mode = .nodeBased
  · rw [SearchSettings.keyOf_of_nodeBased hm] at hk hk'
    exact meets_of_nodeBased hpins hm ((Option.some.inj (hk'.trans hk.symm)).trans h.node)
  · exact SearchSettings.eq_of_keyOf hn hx hx' hk hk' hm ▸ h

omit hpins in
theorem meets_fromEnd {e : EdgeView K} (h : s.Follows d (q.root d) (q.pin d) x e) :
    Meets s q d x (some e.fromEnd) where
  node := by
    rw [Option.map_some, Option.getD_some, EdgeView.adj_fromEnd, hn.base_eq h.listed]
  turn e₀ he₀ e' he' := by
    cases he'
    have hbase := hn.base_eq h.listed
    rw [Option.mem_def.1 he₀] at hbase
    have hturn := h.turn e₀ he₀
    rw [hbase] at hturn
    rwa [EdgeView.edge_fromEnd]
  pinned hnone := by
    intro a ha
    rw [Option.map_some, EdgeView.edge_fromEnd]
    exact h.pinned hnone a ha
  pinned_opposite := nofun

theorem meets_of_keyOf {e : EdgeView K} (h : s.Follows d (q.root d) (q.pin d) x e)
    (hy : ∀ e' ∈ y, ∃ p, s.Follows d.opposite (q.root d.opposite) (q.pin d.opposite) p e')
    (hk : s.keyOf d.opposite (q.root d.opposite) y = some (s.mode.key e d)) :
    Meets s q d (if s.mode.isEdgeBased then x else some e) y := by
  have hlisted : ∀ e' ∈ y, ∃ v, e' ∈ s.network.edges v d.opposite :=
    fun e' he' ↦ (hy e' he').elim fun _ h' ↦ ⟨_, h'.listed⟩
  by_cases hm : s.mode = .nodeBased
  · have hnode := SearchSettings.node_of_keyOf hn h.listed hlisted hk
    have hmode : s.mode.isEdgeBased = false := by simp [TraversalMode.isEdgeBased, hm]
    rw [hmode] at hnode ⊢
    exact meets_of_nodeBased hpins hm hnode.symm
  · have hmode : s.mode.isEdgeBased = true := by simp [TraversalMode.isEdgeBased, hm]
    rw [hmode, if_pos rfl]
    obtain rfl := SearchSettings.eq_fromEnd_of_keyOf hn hm h.listed hlisted hk
    exact meets_fromEnd hn h

end Places

section Searches

variable {Q M σ : Type} [PriorityQueue Q K] [LawfulQueue Q] [BestMap M]

/-- What holds of both searches and the meeting, seen from the search in a direction. -/
structure GrowsAndMeets (s : SearchSettings K) (q : Query) (d : Direction)
    (own other : Frontier K Q M) (mt : Meeting K) : Prop where
  here : ∃ start, own.IsGrown s d (q.root d) (q.pin d) start
  there : ∃ start, other.IsGrown s d.opposite (q.root d.opposite) (q.pin d.opposite) start
  met : ∀ {labels}, mt.labels = some labels → ∃ a b la lb, labels = ordered a b d ∧
    own.label? a = some la ∧ other.label? b = some lb ∧ Meets s q d la.edge lb.edge

variable {own other next own' : Frontier K Q M} {mt mt' : Meeting K}

theorem GrowsAndMeets.swap (h : GrowsAndMeets s q d own other mt) :
    GrowsAndMeets s q d.opposite other own mt where
  here := h.there
  there := by
    cases d with
    | forward => exact h.here
    | backward => exact h.here
  met hl := by
    obtain ⟨a, b, la, lb, hlabels, ha, hb, hmeets⟩ := h.met hl
    refine ⟨b, a, lb, la, ?_, hb, ha, hmeets.swap⟩
    cases d with
    | forward => exact hlabels
    | backward => exact hlabels

theorem GrowsAndMeets.pop {id : LabelId} (h : GrowsAndMeets s q d own other mt)
    (hp : own.pop? = some (id, next)) : GrowsAndMeets s q d next other mt where
  here := by
    obtain ⟨start, hown⟩ := h.here
    exact ⟨start, hown.pop hp⟩
  there := h.there
  met := by
    rw [Frontier.label?_of_pop? hp]
    exact h.met

/-- The same when both roots have been explored. -/
structure GrowsPastRoots (s : SearchSettings K) (q : Query) (d : Direction)
    (own other : Frontier K Q M) (mt : Meeting K) : Prop
    extends GrowsAndMeets s q d own other mt where
  opened : own.priority? 0 = none
  opened_opposite : other.priority? 0 = none

theorem GrowsPastRoots.swap (h : GrowsPastRoots s q d own other mt) :
    GrowsPastRoots s q d.opposite other own mt :=
  ⟨h.toGrowsAndMeets.swap, h.opened_opposite, h.opened⟩

section Steps

variable [IsOrdered K] {p : Method K σ} {stored : EdgeId → Option (StoredEdge K)}
variable (hn : p.settings.network.Shows stored)
variable (hw : p.settings.weighting.IsNonneg p.settings.network)
variable (hpins : p.settings.mode = .nodeBased → ∀ d, q.pin d = none)
include hn hw hpins

omit [IsOrdered K] hw in
theorem exists_meets_store {start : Label K} {key : StateKey} {id a : LabelId}
    {l made la lb : Label K} {e : EdgeView K}
    (hown : own.IsGrown p.settings d (q.root d) (q.pin d) start)
    (hb : own.IsBranch (p.settings.keyOf d (q.root d)) key made id l)
    (hedge : made.edge = some e) (hf : p.settings.Follows d (q.root d) (q.pin d) l.edge e)
    (ha : own.label? a = some la) (hmeets : Meets p.settings q d la.edge lb.edge) :
    ∃ la', (own.store key made).1.label? a = some la' ∧
      Meets p.settings q d la'.edge lb.edge := by
  by_cases hai : a = (own.store key made).2
  · subst hai
    obtain ⟨_, hla, hk⟩ := hown.best (Frontier.best?_of_label?_store ha)
    cases hla.symm.trans ha
    refine ⟨made, hown.label?_store_self made, ?_⟩
    refine hmeets.congr hpins hn (hown.exists_follows ha) (fun e₀ he₀ ↦ ?_) hk hb.state
    cases hedge.symm.trans he₀
    exact ⟨l.edge, hf⟩
  · exact ⟨la, (hown.label?_store_of_ne hai).trans ha, hmeets⟩

theorem GrowsAndMeets.store {pin : Option EdgeId} {id : LabelId} {l made : Label K} {e : EdgeView K}
    {w : K} (h : GrowsAndMeets p.settings q d own other mt) (hl : own.label? id = some l)
    (hpin : l.edge = none → pin = q.pin d)
    (he : e ∈ (p.exploration q d pin).edges l.node)
    (hs : (p.exploration q d pin).Stores id l own e made w)
    (hjoin : p.join d e (own.store ((p.exploration q d pin).key e) made).1 other
      (own.store ((p.exploration q d pin).key e) made).2 mt = .ok mt') :
    GrowsAndMeets p.settings q d (own.store ((p.exploration q d pin).key e) made).1 other mt' := by
  obtain ⟨start, hown⟩ := h.here
  obtain ⟨_, hother⟩ := h.there
  obtain ⟨hb, hedge, hf, hgrown, hl'⟩ :=
    hown.of_stores hn (fun hm ↦ hpins hm d) (Method.keepsTo_exploration hw q d pin) hl hpin he hs
  refine ⟨⟨start, hgrown⟩, h.there, fun {labels} hlabels ↦ ?_⟩
  rcases Method.join_cases hjoin with rfl | ⟨j, cost, hj, rfl⟩
  · obtain ⟨a, b, la, lb, hab, ha, hlb, hmeets⟩ := h.met hlabels
    obtain ⟨la', ha', hmeets'⟩ := exists_meets_store hn hpins hown hb hedge hf ha hmeets
    exact ⟨a, b, la', lb, hab, ha', hlb, hmeets'⟩
  · obtain ⟨lb, hlb, hk⟩ := hother.best hj
    have hmeets := meets_of_keyOf hpins hn hf (hother.exists_follows hlb) hk
    cases hlabels
    cases hmode : p.settings.mode.isEdgeBased with
    | false =>
      rw [hmode, ← hedge] at hmeets
      exact ⟨_, j, made, lb, rfl, hown.label?_store_self made, hlb, hmeets⟩
    | true =>
      rw [hmode] at hmeets
      rw [if_pos rfl, Frontier.label_eq (hown.label?_store_self made), hb.parent_eq]
      exact ⟨id, j, l, lb, rfl, hl', hlb, hmeets⟩

theorem GrowsAndMeets.advances {pin : Option EdgeId} (h : GrowsAndMeets p.settings q d own other mt)
    (hroot : ∀ {id next}, own.pop? = some (id, next) → (id = 0 → pin = q.pin d) ∧
      next.priority? 0 = none)
    (ha : p.Advances (p.exploration q d pin) d own other mt own' mt') :
    GrowsAndMeets p.settings q d own' other mt' ∧ own'.priority? 0 = none := by
  obtain ⟨start, hown⟩ := h.here
  cases ha with
  | exhausted hp => exact ⟨h, Frontier.priority?_of_pop_eq_none hown.queue hp 0⟩
  | pruned hp _ => exact ⟨h.pop hp, (hroot hp).2⟩
  | @expanded id next _ _ hp hexpand =>
    obtain ⟨hpin, hzero⟩ := hroot hp
    obtain ⟨l, hl, _⟩ := hown.label?_of_pop hp
    rw [← Frontier.label?_of_pop? hp] at hl
    rw [Frontier.label_eq hl] at hexpand
    have hpin' : l.edge = none → pin = q.pin d := fun hedge ↦ hpin <| by
      by_contra hid
      obtain ⟨e, _, _, he, _⟩ := (hown.pop hp).form hl hid
      cases hedge.symm.trans he
    refine (Method.expand_preserves (P := fun f mt ↦ (GrowsAndMeets p.settings q d f other mt ∧
      f.priority? 0 = none) ∧ f.label? id = some l) (fun {f mt e made w mt'} he hf hs hjoin ↦ ?_)
      ⟨⟨h.pop hp, hzero⟩, hl⟩ hexpand).1
    obtain ⟨⟨hsound, hzero⟩, hl⟩ := hf
    obtain ⟨start, hgrown⟩ := hsound.here
    obtain ⟨hb, _, _, _, hl'⟩ := hgrown.of_stores hn (fun hm ↦ hpins hm d)
      (Method.keepsTo_exploration hw q d pin) hl hpin' he hs
    refine ⟨⟨hsound.store hn hw hpins hl hpin' he hs hjoin, ?_⟩, hl'⟩
    rw [Frontier.priority?_store hgrown.queue, if_neg (hgrown.store_ne_zero hb).symm, hzero]

theorem GrowsPastRoots.advances (h : GrowsPastRoots p.settings q d own other mt)
    (ha : p.Advances (p.exploration q d none) d own other mt own' mt') :
    GrowsPastRoots p.settings q d own' other mt' := by
  obtain ⟨start, hown⟩ := h.here
  have hroot : ∀ {id next}, own.pop? = some (id, next) →
      (id = 0 → none = q.pin d) ∧ next.priority? 0 = none := by
    intro id next hp
    have hid : id ≠ 0 := by
      rintro rfl
      exact Frontier.priority?_ne_none_of_pop hown.queue hp h.opened
    refine ⟨fun hzero ↦ absurd hzero hid, ?_⟩
    rw [Frontier.priority?_pop hown.queue hp, if_neg hid.symm, h.opened]
  obtain ⟨hsound, hopened⟩ := h.toGrowsAndMeets.advances hn hw hpins hroot ha
  exact ⟨hsound, hopened, h.opened_opposite⟩

omit hn hw hpins in
theorem growsAndMeets_start (d : Direction) :
    GrowsAndMeets p.settings q d ((p.start q : State K Q M σ).side d).frontier
      ((p.start q : State K Q M σ).side d.opposite).frontier (p.start q : State K Q M σ).meeting := by
  have hgrown : ∀ d, ∃ start, ((p.start q : State K Q M σ).side d).frontier.IsGrown p.settings d
      (q.root d) (q.pin d) start := by
    intro d
    cases d with
    | forward => exact ⟨_, .addRoot p.settings .forward rfl rfl rfl rfl⟩
    | backward => exact ⟨_, .addRoot p.settings .backward rfl rfl rfl rfl⟩
  exact ⟨hgrown d, hgrown d.opposite, nofun⟩

theorem GrowsAndMeets.advances_start
    (h : GrowsAndMeets p.settings q d ((p.start q : State K Q M σ).side d).frontier other mt)
    (ha : p.Advances (p.exploration q d (q.pin d)) d ((p.start q : State K Q M σ).side d).frontier
      other mt own' mt') :
    GrowsAndMeets p.settings q d own' other mt' ∧ own'.priority? 0 = none := by
  obtain ⟨start, hown⟩ := h.here
  refine h.advances hn hw hpins (fun hp ↦ ⟨fun _ ↦ rfl, ?_⟩) ha
  rw [Frontier.priority?_pop hown.queue hp, if_pos]
  by_contra hid
  refine Frontier.priority?_ne_none_of_pop hown.queue hp ?_
  cases d with
  | forward => exact (Frontier.priority?_addRoot _ _ _).trans (if_neg (Ne.symm hid))
  | backward => exact (Frontier.priority?_addRoot _ _ _).trans (if_neg (Ne.symm hid))

theorem satisfies_growsPastRoots {st st' : State K Q M σ}
    (hforward : p.advance q .forward q.firstEdge (p.start q) = (st, .ok ()))
    (hbackward : p.advance q .backward q.lastEdge st = (st', .ok ())) :
    st'.Satisfies (GrowsPastRoots p.settings q) := by
  obtain ⟨hother, hadvances⟩ := Method.advances_of_advance hforward
  obtain ⟨hsound, hopened⟩ := (growsAndMeets_start .forward).advances_start hn hw hpins hadvances
  obtain ⟨hother', hadvances'⟩ := Method.advances_of_advance hbackward
  change st.side .backward = _ at hother
  rw [hother] at hadvances'
  obtain ⟨hsound', hopened'⟩ := hsound.swap.advances_start hn hw hpins hadvances'
  have hboth : GrowsPastRoots p.settings q .backward (st'.side .backward).frontier
      (st'.side .forward).frontier st'.meeting := by
    change st'.side .forward = st.side .forward at hother'
    rw [hother']
    exact ⟨hsound', hopened', hopened⟩
  intro d
  cases d with
  | forward => exact hboth.swap
  | backward => exact hboth

end Steps

end Searches

end RoadRouting.Bidirectional
