import RoadRouting.Proofs.Bidirectional.Optimality

namespace RoadRouting

open Scalar (Exact)

namespace Roads

open Bidirectional (Query Meeting Method Side State)

variable {Q M : Type} [PriorityQueue Q Exact] [LawfulQueue Q] [BestMap M]
variable {R : Roads} {w : Weighting Exact} {stored : EdgeId → Option (StoredEdge Exact)}
variable {limit : Nat} {h : Estimate Exact} {offset : Exact} {q : Query} {π : NodeId → Rat}
variable {st : State Exact Q M Unit}

variable (R q) in
/-- Every walk with a loop costs more than some walk without loops. -/
def AvoidsLoops : Prop :=
  ∀ {es g e}, R.Journey q es g → e ∈ es → e.isLoop = true →
    ∃ es' g', R.Journey q es' g' ∧ (∀ e ∈ es', e.isLoop = false) ∧ g' < g

theorem avoidsLoops_of_isLoopFree (hf : R.network.IsLoopFree) : R.AvoidsLoops q := by
  intro es g e hj he hloop
  obtain ⟨_, hmem⟩ := hj.1.exists_mem he
  cases (hf hmem).symm.trans hloop

theorem journey_nil_iff {g : Rat} : R.Journey q [] g ↔
    (q.source = q.target ∧ q.firstEdge = none ∧ q.lastEdge = none) ∧ g = 0 := by
  have hfits : ∀ pin, Fits pin none ↔ pin = none := fun pin ↦ by
    cases pin <;> simp [Fits]
  rw [Journey, walk_nil_iff, List.head?_nil, List.getLast?_nil, hfits, hfits]
  tauto

theorem isLoop_of_mem_edgesTo {d : Direction} {f : Frontier Exact Q M} {id : LabelId}
    {l : Label Exact} {e : EdgeView Exact} {pending : LabelId → EdgeView Exact → Prop}
    (hR : R.IsLawful stored) (hm : R.mode = .nodeBased)
    (he : (R.side q π d).Explored f pending) (hl : f.label? id = some l)
    (hmem : e ∈ f.edgesTo id) : e.isLoop = false := by
  obtain ⟨pre, es, hes⟩ := List.mem_iff_append.1 hmem
  have hsuf : e :: es <:+ f.edgesTo id := ⟨pre, hes.symm⟩
  obtain ⟨_, htrail, _⟩ := he.trail_edgesTo hl
  obtain ⟨_, htrail'⟩ := htrail.suffix hsuf
  obtain ⟨_, _, _, ha, _⟩ := Terrain.trail_cons_iff.1 htrail'
  have hedge := (arc_terrain_iff.1 ha).1
  have hkey := he.keyOf_ne_of_suffix_edgesTo hl hsuf
  rw [← Terrain.keyOf_some, side, keyOf_of_nodeBased hm, keyOf_of_nodeBased hm,
    Terrain.node_some, ← hR.shows.base_eq hedge] at hkey
  exact decide_eq_false fun hba ↦ hkey (congrArg some hba)

omit [PriorityQueue Q Exact] [LawfulQueue Q] [BestMap M] in
theorem pathFrom_eq {f : Frontier Exact Q M} {id : LabelId}
    (h : ∀ e ∈ f.edgesTo id, e.isLoop = false) :
    f.pathFrom id = (f.edgesTo id).map EdgeView.fromEnd :=
  List.map_congr_left fun e he ↦ (EdgeView.fromEnd_of_not_isLoop (h e he)).symm

omit [PriorityQueue Q Exact] [LawfulQueue Q] [BestMap M] in
theorem journey_of_crossing (hR : R.IsLawful stored) {own other : Frontier Exact Q M}
    {a b : LabelId} {g τ g' : Rat} (ht : (R.side q π .forward).Trail (own.edgesTo a) g)
    (ht' : (R.side q π .backward).Trail (other.edgesTo b) g')
    (hcross : R.Crossing q .forward (own.edgesTo a).head? (other.edgesTo b).head? τ) :
    R.Journey q (own.pathTo a ++ (other.edgesTo b).map EdgeView.fromEnd) (g + τ + g') := by
  have hmap : ((other.edgesTo b).map EdgeView.fromEnd).map EdgeView.fromEnd =
      other.edgesTo b := by
    simp [Function.comp_def]
  refine (journey_append_iff (π := π) hR).2 ⟨g, τ, g', ?_, ?_, ?_, rfl⟩
  · rwa [Frontier.pathTo, List.reverse_reverse]
  · rw [Frontier.pathTo, List.getLast?_reverse, ← List.head?_map, hmap]
    exact hcross.seam
  · rwa [hmap]

/-- The labels that met give a walk that costs no more than their meeting. -/
theorem IsLeastMeeting.exists_journey (hR : R.IsLawful stored) {own other : Frontier Exact Q M}
    {mt : Meeting Exact} {pending pending' : LabelId → EdgeView Exact → Prop}
    (hj : R.IsLeastMeeting q .forward own other mt) (he : (R.side q π .forward).Explored own pending)
    (he' : (R.side q π .backward).Explored other pending') {labels : LabelId × LabelId}
    (hl : mt.labels = some labels) : ∃ g m,
      R.Journey q (own.pathTo labels.1 ++ (other.edgesTo labels.2).map EdgeView.fromEnd) g ∧
        mt.cost = .finite m ∧ g ≤ m := by
  obtain ⟨a, b, la, lb, τ, m, hlabels, ha, hb, hcross, hm, hle⟩ := hj.met hl
  obtain rfl : labels = (a, b) := hlabels
  obtain ⟨g, ht, hg₁, hhead⟩ := he.trail_edgesTo ha
  obtain ⟨g', ht', hg₂, hhead'⟩ := he'.trail_edgesTo hb
  exact ⟨g + τ + g', m, journey_of_crossing hR ht ht' (hhead ▸ hhead' ▸ hcross), hm, by linarith⟩

section Finished

variable (hR : R.IsLawful stored) (hq : R.mode = .nodeBased → ∀ d, q.pin d = none)
variable (hc : R.IsConsistent π) (hoffset : 0 ≤ offset)
variable (hloop : R.mode ≠ .nodeBased → R.AvoidsLoops q)
variable (hne : R.mode ≠ .nodeBased → ∀ g, ¬R.Journey q [] g)
variable (hg : R.SearchesInOrder q π st) (hfin : st.isFinished offset = true)
include hR hq hc hoffset hloop hne hg hfin

theorem cost_le_of_journey {es : List (EdgeView Exact)} {g : Rat} (hj : R.Journey q es g) :
    st.meeting.cost ≤ .finite g := by
  by_cases hm : R.mode = .nodeBased
  · exact cost_le_of_journey_of_nodeBased hR hg hq hc hoffset hfin hm hj
  · have hle : ∀ {es g}, R.Journey q es g → (∀ e ∈ es, e.isLoop = false) →
        st.meeting.cost ≤ .finite g := fun {es g} hj hes ↦
      cost_le_of_journey_of_ne_nodeBased hR hg hq hc hoffset hfin hm
        (fun hnil ↦ hne hm g (hnil ▸ hj)) hes hj
    by_cases hes : ∀ e ∈ es, e.isLoop = false
    · exact hle hj hes
    · obtain ⟨e, he, hl⟩ : ∃ e ∈ es, e.isLoop = true := by
        simpa only [not_forall, Bool.not_eq_false, exists_prop] using hes
      obtain ⟨es', g', hj', hes', hlt⟩ := hloop hm hj he hl
      exact Exact.le_finite_trans (hle hj' hes') hlt.le

theorem SearchesInOrder.journey {labels : LabelId × LabelId} (hl : st.meeting.labels = some labels) :
    ∃ g, R.Journey q
        (st.forward.frontier.pathTo labels.1 ++ st.backward.frontier.pathFrom labels.2) g ∧
      st.meeting.cost = .finite g := by
  obtain ⟨g, m, hj, hm, hgm⟩ := hg.meeting.exists_journey hR (hg.side .forward).explored
    (hg.side .backward).explored hl
  have hcost := cost_le_of_journey hR hq hc hoffset hloop hne hg hfin hj
  rw [hm, Exact.finite_le_finite] at hcost
  obtain rfl := le_antisymm hgm hcost
  have hno : ∀ e ∈ st.backward.frontier.edgesTo labels.2, e.isLoop = false := fun e he ↦ by
    by_cases hmode : R.mode = .nodeBased
    · obtain ⟨_, _, _, _, _, _, hlabels, _, hb, _⟩ := hg.meeting.met hl
      subst hlabels
      exact isLoop_of_mem_edgesTo hR hmode (hg.side .backward).explored hb he
    · -- with a loop the walk would not be a cheapest one
      rw [← Bool.not_eq_true, ← EdgeView.isLoop_fromEnd]
      intro hloop'
      obtain ⟨es', g', hj', _, hlt⟩ := hloop hmode hj
        (List.mem_append_right _ (List.mem_map_of_mem he)) hloop'
      have hcost' := cost_le_of_journey hR hq hc hoffset hloop hne hg hfin hj'
      rw [hm, Exact.finite_le_finite] at hcost'
      exact absurd hlt (not_lt.2 hcost')
  exact ⟨g, pathFrom_eq hno ▸ hj, hm⟩

end Finished

section Outcome

variable (hR : R.IsPricedBy w stored) (hq : R.mode = .nodeBased → ∀ d, q.pin d = none)
variable (hc : R.IsConsistent π) (hoffset : 0 ≤ offset)
variable (hloop : R.mode ≠ .nodeBased → R.AvoidsLoops q)
include hR hq hc hoffset hloop

variable (limit h) in
theorem isBest_outcome (hne : R.mode ≠ .nodeBased → ∀ g, ¬R.Journey q [] g)
    (hg : R.SearchesInOrder q π st)
    (hend : st.isFinished offset = true ∨ limit < st.visited) :
    (Answer.mk st.visited ((R.method w limit h offset).outcome q st)).IsBest (R.Journey q)
      limit := by
  by_cases hfin : st.isFinished offset = true
  · have hfin' : st.isFinished (R.method w limit h offset).offset = true := hfin
    have hle : ∀ {es g}, R.Journey q es g → st.meeting.cost ≤ .finite g :=
      cost_le_of_journey hR.toIsLawful hq hc hoffset hloop hne hg hfin
    cases hl : st.meeting.labels with
    | none =>
      rw [Answer.IsBest, Method.outcome, if_pos hfin', hl]
      intro es g hj
      have hcost := hle hj
      rw [hg.meeting.unmet hl] at hcost
      exact Exact.not_infinity_le_finite g hcost
    | some labels =>
      obtain ⟨g, hj, hm⟩ := hg.journey hR.toIsLawful hq hc hoffset hloop hne hfin hl
      obtain ⟨r, hr, hedges, hweight⟩ := ofEdges_isOk hR hj.1 q.source st.meeting.cost
      have hroute : (R.method w limit h offset).meetingRoute q st labels = .ok r := hr
      have hresult : (R.method w limit h offset).outcome q st = .ok (.found r) := by
        rw [Method.outcome, if_pos hfin', hl]
        simp only [hm, Exact.isFinite_finite, if_true, hroute]
        rfl
      rw [Answer.IsBest, hresult]
      refine ⟨g, hedges ▸ hj, hweight.trans hm, fun es g' hj' ↦ ?_⟩
      have hcost := hle hj'
      rwa [hm, Exact.finite_le_finite] at hcost
  · have hlimit := hend.resolve_left hfin
    have hfin' : ¬st.isFinished (R.method w limit h offset).offset = true := hfin
    have hexceeded : (R.method w limit h offset).settings.isExceeded st.visited = true :=
      decide_eq_true hlimit
    rw [Answer.IsBest, Method.outcome, if_neg hfin', if_pos hexceeded]
    exact hlimit

end Outcome

end Roads

end RoadRouting
