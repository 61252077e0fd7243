import RoadRouting.Proofs.Bidirectional.Rounds
import RoadRouting.Proofs.Terrain.Trails

namespace RoadRouting

open Scalar (Exact)

namespace Roads

open Bidirectional (Query Meeting Method Side State)

variable {Q M : Type} [PriorityQueue Q Exact] [LawfulQueue Q] [BestMap M]
variable {R : Roads} {stored : EdgeId → Option (StoredEdge Exact)}
variable {offset : Exact} {q : Query} {π : NodeId → Rat} {st : State Exact Q M Unit}
variable (hR : R.IsLawful stored) (hg : R.SearchesInOrder q π st)

section Shared

variable {p p' : Option (EdgeView Exact)} {g g' c : Rat} {id id' : LabelId} {l l' : Label Exact}
variable {k : StateKey}
include hR hg

theorem cost_le_of_shared (hp : (R.side q π .forward).IsPlace p)
    (hk : (R.side q π .forward).keyOf p = some k)
    (hk' : (R.side q π .backward).keyOf p' = some k)
    (hr : (R.side q π .forward).Reached st.forward.frontier p g id l)
    (hr' : (R.side q π .backward).Reached st.backward.frontier p' g' id' l')
    (hc : R.Overlap .forward p c) : st.meeting.cost ≤ .finite (g + g' - c) := by
  have hexp := (hg.side .forward).explored
  have hb := hexp.best?_of_reached hr hk
  have hb' := (hg.side .backward).explored.best?_of_reached hr' hk'
  obtain ⟨_, hl, hkl⟩ := hexp.best hb
  cases hl.symm.trans hr.label
  have hle := hg.meeting.joined hb hb' hl hr'.label (hc.congr hR hp (hexp.isPlace hl) hk hkl)
  have htotal := hr.total_le
  have htotal' := hr'.total_le
  exact Exact.le_finite_trans hle (by linarith)

end Shared

theorem SearchesInOrder.ne_nil_of_queued (hg : R.SearchesInOrder q π st) (d : Direction)
    {es : List (EdgeView Exact)} {g : Rat} {id : LabelId} {l : Label Exact}
    (hr : (R.side q π d).Reached (st.side d).frontier es.head? g id l)
    (hqueued : (st.side d).frontier.priority? id ≠ none) : es ≠ [] := by
  rintro rfl
  rcases hr.state with ⟨_, rfl⟩ | ⟨e, he, _⟩
  · exact hqueued (hg.opened d)
  · cases he

section Finished

variable (hq : R.mode = .nodeBased → ∀ d, q.pin d = none)
variable (hc : R.IsConsistent π) (hoffset : 0 ≤ offset) (hfin : st.isFinished offset = true)
variable {es es' bs : List (EdgeView Exact)} {g : Rat}
include hR hg hq hc hoffset hfin

omit hc hoffset hfin in
theorem exists_reached_of_journey (hj : R.Journey q es g) :
    ∃ es₁ es₂ k id l, es = es₁ ++ es₂ ∧ (R.side q π .forward).Trail es₁.reverse k ∧
      (R.side q π .forward).Reached st.forward.frontier es₁.reverse.head? k id l ∧
      (es₂ = [] ∨ st.forward.frontier.priority? id ≠ none) := by
  have hT : (R.side q π .forward).IsLawful := side_isLawful hR hq
  rw [← List.append_nil es, journey_append_iff (π := π) hR] at hj
  obtain ⟨k, _, _, ht, _, _, _⟩ := hj
  obtain ⟨rs, g', id, l, ⟨pre, hpre⟩, ht', hr, hend⟩ :=
    (hg.side .forward).explored.reached_of_trail hT ht
  refine ⟨rs.reverse, pre.reverse, g', id, l, ?_, ?_, ?_, ?_⟩
  · rw [← List.reverse_append, hpre, List.reverse_reverse]
  · rwa [List.reverse_reverse]
  · rwa [List.reverse_reverse]
  · refine hend.imp_left fun hrs ↦ ?_
    rw [hrs, List.append_left_eq_self] at hpre
    rw [hpre, List.reverse_nil]

/-- The meeting costs no more than a walk on which both searches have a label queued. -/
theorem cost_le_of_queued {k g' : Rat} {id id' : LabelId} {l l' : Label Exact}
    (hj : R.Journey q (es ++ es') g) (ht : (R.side q π .forward).Trail es.reverse k)
    (hr : (R.side q π .forward).Reached st.forward.frontier es.reverse.head? k id l)
    (hend : es' = [] ∨ st.forward.frontier.priority? id ≠ none)
    (hsuf : bs <:+ es'.map EdgeView.fromEnd) (hb : (R.side q π .backward).Trail bs g')
    (hr' : (R.side q π .backward).Reached st.backward.frontier bs.head? g' id' l')
    (hqueued' : st.backward.frontier.priority? id' ≠ none) : st.meeting.cost ≤ .finite g := by
  have hTf : (R.side q π .forward).IsLawful := side_isLawful hR hq
  have hTb : (R.side q π .backward).IsLawful := side_isLawful hR hq
  obtain ⟨k₀, τ, k', ht₀, hs, ht', rfl⟩ := (journey_append_iff (π := π) hR).1 hj
  obtain rfl := ht₀.functional hTf ht
  have hqueued : st.forward.frontier.priority? id ≠ none := by
    refine hend.resolve_left fun hnil ↦ hg.ne_nil_of_queued .backward hr' hqueued' ?_
    rwa [hnil, List.map_nil, List.suffix_nil] at hsuf
  obtain ⟨kf, hkf, hordf⟩ := (hg.side .forward).ordered
  obtain ⟨kb, hkb, hordb⟩ := (hg.side .backward).ordered
  have hCb : (R.side q π .backward).IsConsistent := side_isConsistent hR hc
  have hnode := (hg.side .forward).explored.node_of_reached hTf ht.isPlace hr
  have hnode' := (hg.side .backward).explored.node_of_reached hTb hb.isPlace hr'
  have hle : kf ≤ k₀ + π ((R.side q π .forward).node es.reverse.head?) := by
    have hrank := hordf.queued hr.label hqueued
    rw [Terrain.rank, ← hnode] at hrank
    exact hrank.trans (add_le_add_left hr.total_le _)
  have hle' : kb ≤ k' + -π ((R.side q π .backward).node (es'.map EdgeView.fromEnd).head?) := by
    have hrank := hordb.queued hr'.label hqueued'
    rw [Terrain.rank, ← hnode'] at hrank
    exact (hrank.trans (add_le_add_left hr'.total_le _)).trans (ht'.priority_le hCb hsuf hTb hb)
  have hτ := hs.joins.nonneg hR
  -- the halves of the walk meet at one node, where the estimates of both directions cancel
  rw [hs.node_eq (π := π)] at hle
  rw [State.isFinished, Bool.or_eq_true, Bool.or_eq_true, decide_eq_true_iff] at hfin
  rcases hfin with (hfin | hfin) | hfin
  · exact absurd ((hg.side .forward).finished hfin id) hqueued
  · exact absurd ((hg.side .backward).finished hfin id') hqueued'
  · change st.forward.priority = .finite kf at hkf
    change st.backward.priority = .finite kb at hkb
    rw [hkf, hkb, Exact.finite_add_finite] at hfin
    exact Exact.le_finite_of_le_sub hfin hoffset (by linarith)

theorem cost_le_of_journey_of_nodeBased (hm : R.mode = .nodeBased) (hj : R.Journey q es g) :
    st.meeting.cost ≤ .finite g := by
  have hTb : (R.side q π .backward).IsLawful := side_isLawful hR hq
  obtain ⟨es₁, es₂, k, id, l, rfl, ht, hr, hend⟩ := exists_reached_of_journey hR hg hq hj
  obtain ⟨k₀, τ, k', ht₀, hs, ht', rfl⟩ := (journey_append_iff (π := π) hR).1 hj
  obtain rfl := ht₀.functional (side_isLawful hR hq) ht
  obtain ⟨bs, g', id', l', hsuf, hb, hr', hend'⟩ :=
    (hg.side .backward).explored.reached_of_trail hTb ht'
  rcases hend' with rfl | hqueued'
  · obtain rfl := hb.functional hTb ht'
    have hk : (R.side q π .forward).keyOf es₁.reverse.head? = some _ := keyOf_of_nodeBased hm _
    have hk' : (R.side q π .backward).keyOf (es₂.map EdgeView.fromEnd).head? = some _ :=
      keyOf_of_nodeBased hm _
    have hle := cost_le_of_shared hR hg ht.isPlace (hk.trans (congrArg some hs.node_eq)) hk' hr hr'
      (.node hm)
    have hτ := hs.joins.nonneg hR
    exact Exact.le_finite_trans hle (by linarith)
  · exact cost_le_of_queued hR hg hq hc hoffset hfin hj ht hr hend hsuf hb hr' hqueued'

theorem cost_le_of_journey_of_ne_nodeBased (hm : R.mode ≠ .nodeBased) (hne : es ≠ [])
    (hloop : ∀ e ∈ es, e.isLoop = false) (hj : R.Journey q es g) :
    st.meeting.cost ≤ .finite g := by
  have hTb : (R.side q π .backward).IsLawful := side_isLawful hR hq
  obtain ⟨es₁, es₂, k, id, l, rfl, ht, hr, hend⟩ := exists_reached_of_journey hR hg hq hj
  rcases List.eq_nil_or_concat es₁ with rfl | ⟨es₀, e, rfl⟩
  · exact absurd rfl (hg.ne_nil_of_queued .forward hr (hend.resolve_left hne))
  · have hrev : (es₀.concat e).reverse = e :: es₀.reverse := by
      rw [List.concat_eq_append, List.reverse_concat]
    have hsplit : es₀.concat e ++ es₂ = es₀ ++ e :: es₂ := List.concat_append
    obtain ⟨k₀, c, k', ht₀, hc₀, ht', rfl⟩ := (hsplit ▸ hj).overlap (π := π) hR
    obtain rfl := ht₀.functional (side_isLawful hR hq) (hrev ▸ ht)
    obtain ⟨bs, g', id', l', hsuf, hb, hr', hend'⟩ :=
      (hg.side .backward).explored.reached_of_trail hTb ht'
    -- either the backward search has traveled `e` too, or it still has a label queued beyond `e`
    by_cases hbs : bs = (e :: es₂).map EdgeView.fromEnd
    · subst hbs
      obtain rfl := hb.functional hTb ht'
      have hkey : R.mode.key e.fromEnd .backward = R.mode.key e .forward :=
        Network.Shows.key_fromEnd (d := .forward) hm (hloop e (by simp))
      have hk' : (R.side q π .backward).keyOf (some e.fromEnd) = some (R.mode.key e .forward) :=
        congrArg some hkey
      rw [hrev] at hr
      exact cost_le_of_shared hR hg ht₀.isPlace rfl hk' hr hr' (.edge hm hc₀)
    · have hsuf₂ := (List.suffix_cons_iff.1 hsuf).resolve_left hbs
      exact cost_le_of_queued hR hg hq hc hoffset hfin hj ht hr hend hsuf₂ hb hr'
        (hend'.resolve_left hbs)

end Finished

end Roads

end RoadRouting
