import RoadRouting.Proofs.Roads.Expansion
import RoadRouting.Proofs.Roads.Seams

namespace RoadRouting

open Scalar (Exact)

namespace Roads

open Bidirectional (Query Meeting Method ordered)

variable {Q M : Type} [PriorityQueue Q Exact] [LawfulQueue Q] [BestMap M]

/-- What holds of a meeting while the search in a direction is advanced. -/
structure IsLeastMeeting (R : Roads) (q : Query) (d : Direction) (own other : Frontier Exact Q M)
    (mt : Meeting Exact) : Prop where
  joined : ∀ {k i j li lj c}, own.best? k = some i → other.best? k = some j →
    own.label? i = some li → other.label? j = some lj → R.Overlap d li.edge c →
    mt.cost ≤ .finite (li.total + lj.total - c)
  met : ∀ {labels}, mt.labels = some labels → ∃ a b la lb τ m, labels = ordered a b d ∧
    own.label? a = some la ∧ other.label? b = some lb ∧ R.Crossing q d la.edge lb.edge τ ∧
    mt.cost = .finite m ∧ la.total + τ + lb.total ≤ m
  unmet : mt.labels = none → mt.cost = .infinity

def method (R : Roads) (w : Weighting Exact) (limit : Nat) (h : Estimate Exact) (offset : Exact) :
    Method Exact Unit where
  settings := R.settings w limit
  estimate := h
  policy := .never
  offset

variable {R : Roads} {w : Weighting Exact} {stored : EdgeId → Option (StoredEdge Exact)}
variable {limit : Nat} {h : Estimate Exact} {offset : Exact} {q : Query} {π : NodeId → Rat}
variable {d : Direction} {own other : Frontier Exact Q M} {mt : Meeting Exact}
variable {pending pending' : LabelId → EdgeView Exact → Prop}

omit [PriorityQueue Q Exact] [LawfulQueue Q] in
theorem IsLeastMeeting.cost_le_of_not_lt (hj : R.IsLeastMeeting q d own other mt) {v : Rat}
    (hlt : ¬.finite v < mt.cost) : mt.cost ≤ .finite v := by
  cases hl : mt.labels with
  | none =>
    rw [hj.unmet hl] at hlt
    exact absurd (Exact.finite_lt_infinity v) hlt
  | some labels =>
    obtain ⟨_, _, _, _, _, m, _, _, _, _, hm, _⟩ := hj.met hl
    rw [hm, Exact.finite_lt_finite] at hlt
    rw [hm, Exact.finite_le_finite]
    exact not_lt.1 hlt

omit [LawfulQueue Q] in
theorem IsLeastMeeting.pop {id : LabelId} {next : Frontier Exact Q M}
    (hj : R.IsLeastMeeting q d own other mt) (hp : own.pop? = some (id, next)) :
    R.IsLeastMeeting q d next other mt := by
  obtain ⟨_, _, rfl⟩ := Frontier.pop?_eq_some_iff.1 hp
  exact ⟨hj.joined, hj.met, hj.unmet⟩

section Lawful

variable (hR : R.IsLawful stored)
include hR

theorem IsLeastMeeting.swap (hj : R.IsLeastMeeting q d own other mt)
    (he : (R.side q π d).Explored own pending)
    (he' : (R.side q π d.opposite).Explored other pending') :
    R.IsLeastMeeting q d.opposite other own mt where
  joined {k i j li lj c} hi hj' hli hlj hc := by
    obtain ⟨_, hli', hki⟩ := he'.best hi
    obtain ⟨_, hlj', hkj⟩ := he.best hj'
    cases hli'.symm.trans hli
    cases hlj'.symm.trans hlj
    rw [add_comm li.total]
    exact hj.joined hj' hi hlj hli (hc.swap hR (he.isPlace hlj) (he'.isPlace hli) hkj hki)
  met hl := by
    obtain ⟨a, b, la, lb, τ, m, rfl, ha, hb, hs, hm, hle⟩ := hj.met hl
    refine ⟨b, a, lb, la, τ, m, ?_, hb, ha, hs.swap, hm, ?_⟩
    · cases d <;> rfl
    · linarith
  unmet := hj.unmet

variable (hq : R.mode = .nodeBased → ∀ d, q.pin d = none)
variable {id : LabelId} {l : Label Exact} {e : EdgeView Exact} {c : Rat}
variable (he : (R.side q π d).Explored own pending)
variable (hi : (R.side q π d).Improves own id l e c)
include hq he hi

theorem exists_label?_follow {a : LabelId} {la : Label Exact} (ha : own.label? a = some la) :
    ∃ la', ((R.side q π d).follow own id l e c).1.label? a = some la' ∧ la'.total ≤ la.total ∧
      ∀ p' τ, R.Crossing q d la.edge p' τ → R.Crossing q d la'.edge p' τ := by
  by_cases hne : a = ((R.side q π d).follow own id l e c).2
  · subst hne
    have hb := Terrain.Explored.best?_of_label?_follow ha
    obtain ⟨_, hla, hk⟩ := he.best hb
    cases hla.symm.trans ha
    refine ⟨_, he.label?_follow_self, (Terrain.Explored.lt_of_label?_follow hi ha).le, ?_⟩
    exact fun p' τ hs ↦
      hs.congr hR hq (he.isPlace ha) (Terrain.isPlace_of_arc hi.arc) hk rfl
  · exact ⟨la, (he.label?_follow_of_ne hne).trans ha, le_rfl, fun _ _ hs ↦ hs⟩

theorem IsLeastMeeting.met_follow (hj : R.IsLeastMeeting q d own other mt)
    {labels : LabelId × LabelId} (hl : mt.labels = some labels) :
    ∃ a b la lb τ m, labels = ordered a b d ∧
      ((R.side q π d).follow own id l e c).1.label? a = some la ∧ other.label? b = some lb ∧
      R.Crossing q d la.edge lb.edge τ ∧ mt.cost = .finite m ∧ la.total + τ + lb.total ≤ m := by
  obtain ⟨a, b, la, lb, τ, m, hab, ha, hb, hs, hm, hle⟩ := hj.met hl
  obtain ⟨la', ha', hle', hs'⟩ := exists_label?_follow hR hq he hi ha
  exact ⟨a, b, la', lb, τ, m, hab, ha', hb, hs' _ _ hs, hm, by linarith⟩

omit hR hq hi in
theorem IsLeastMeeting.joined_follow (hj : R.IsLeastMeeting q d own other mt) {mt' : Meeting Exact}
    (hle : ∀ v, mt.cost ≤ .finite v → mt'.cost ≤ .finite v)
    (hkey : ∀ {j lj c₀}, other.best? ((R.side q π d).key e) = some j → other.label? j = some lj →
      R.Overlap d (some e) c₀ → mt'.cost ≤ .finite (l.total + c + lj.total - c₀))
    {k : StateKey} {i j : LabelId} {li lj : Label Exact} {c₀ : Rat}
    (hbi : ((R.side q π d).follow own id l e c).1.best? k = some i)
    (hbj : other.best? k = some j)
    (hli : ((R.side q π d).follow own id l e c).1.label? i = some li)
    (hlj : other.label? j = some lj) (hc : R.Overlap d li.edge c₀) :
    mt'.cost ≤ .finite (li.total + lj.total - c₀) := by
  rw [Terrain.Explored.best?_follow] at hbi
  split at hbi
  · next hk =>
    cases hbi
    rw [he.label?_follow_self] at hli
    cases hli
    exact hkey (hk ▸ hbj) hlj hc
  · next hk =>
    have hne : i ≠ ((R.side q π d).follow own id l e c).2 := by
      rintro rfl
      obtain ⟨_, hl', _⟩ := he.best hbi
      exact hk (he.isKeyed.best_unique hbi (Terrain.Explored.best?_of_label?_follow hl'))
    rw [he.label?_follow_of_ne hne] at hli
    exact hle _ (hj.joined hbi hbj hli hlj hc)

end Lawful

section Join

variable (hR : R.IsWeighedBy w stored d) (hq : R.mode = .nodeBased → ∀ d, q.pin d = none)
variable {id j : LabelId} {l lj : Label Exact} {e : EdgeView Exact} {c : Rat}
variable (he : (R.side q π d).Explored own pending)
variable (he' : (R.side q π d.opposite).Explored other pending')
variable (hi : (R.side q π d).Improves own id l e c)
include hR hq he he' hi

variable (limit h offset mt) in
theorem join_eq (hb : other.best? ((R.side q π d).key e) = some j)
    (hlj : other.label? j = some lj) :
    ∃ a la τ c₀, (a = ((R.side q π d).follow own id l e c).2 ∨ a = id) ∧
      ((R.side q π d).follow own id l e c).1.label? a = some la ∧
      R.Crossing q d la.edge lj.edge τ ∧ R.Overlap d (some e) c₀ ∧
      la.total + τ + lj.total = l.total + c + lj.total - c₀ ∧
      (R.method w limit h offset).join d e ((R.side q π d).follow own id l e c).1 other
        ((R.side q π d).follow own id l e c).2 mt = .ok
          (if .finite (l.total + c + lj.total - c₀) < mt.cost then
            ⟨.finite (l.total + c + lj.total - c₀), some (ordered a j d)⟩ else mt) := by
  obtain ⟨_, hlj', hkj⟩ := he'.best hb
  cases hlj'.symm.trans hlj
  have hT := side_isLawful (π := π) (d := d) hR.toIsLawful hq
  obtain ⟨hmem, -⟩ := arc_terrain_iff.1 hi.arc
  have hplace := Terrain.isPlace_of_arc hi.arc
  have hkey : other.best? ((R.method w limit h offset).settings.mode.key e d) = some j := hb
  have hlabel : ((R.side q π d).follow own id l e c).1.label _ = _ :=
    Frontier.label_eq he.label?_follow_self
  have hother := Frontier.label_eq hlj
  have hcost : ((R.side q π d).step e (l.total + c) id).cost + lj.cost =
      .finite (l.total + c + lj.total) := by
    rw [he'.cost_eq hlj]
    rfl
  by_cases hm : R.mode = .nodeBased
  · have hmode : (R.method w limit h offset).settings.mode.isEdgeBased = false := by
      simp [method, settings, TraversalMode.isEdgeBased, hm]
    refine ⟨_, _, 0, 0, .inl rfl, he.label?_follow_self, ⟨?_, fun h ↦ absurd hm h⟩, .node hm, ?_,
      ?_⟩
    · rw [seamFrom_of_nodeBased hR.toIsLawful hq hm]
      have hn := node_eq_of_keyOf hm hkj
      have hn' : (R.side q π d).node (some e) = (R.side q π d).key e := node_eq_of_keyOf hm rfl
      rw [node_terrain] at hn
      exact ⟨hn'.trans hn.symm, rfl⟩
    · rw [Terrain.total_step]
      ring
    · rw [Method.join, hkey]
      simp only [hlabel, hother, hcost, hmode, sub_zero]
      rfl
  · have hmode : (R.method w limit h offset).settings.mode.isEdgeBased = true := by
      simp [method, settings, TraversalMode.isEdgeBased, hm]
    obtain ⟨_, he₀, hej, hloop⟩ :=
      eq_fromEnd_of_keyOf hR.toIsLawful hm hplace (he'.isPlace hlj) rfl hkj
    cases he₀
    obtain ⟨c₀, _, hc₀⟩ := hR.price (hR.shows.traveled_mem hmem)
    -- both searches have paid for the edge, so the parent stands in for the new label
    refine ⟨id, l, c - c₀, c₀, .inr rfl, ?_, ⟨?_, fun _ ↦ ⟨_, .inr hej, ?_⟩⟩, .edge hm hc₀, by ring,
      ?_⟩
    · exact (he.label?_follow_of_ne (he.follow_ne hi hT).symm).trans hi.label
    · rw [hej]
      exact seamFrom_of_arc hR.toIsLawful hi.arc hc₀
    · rwa [EdgeView.isLoop_fromEnd]
    · have hweight : (R.method w limit h offset).settings.weighting.weight e d none =
          .ok (.finite c₀) := by
        have hw := hR.weight none hmem
        rw [hc₀, Weighting.turnWeight, Exact.finite_add_zero] at hw
        exact hw
      rw [Method.join, hkey]
      simp only [hlabel, hother, hcost, hmode, hweight, Terrain.parent_step, Option.getD_some,
        ← Exact.finite_sub_finite]
      rfl

variable (limit h offset) in
theorem join_isOk (hj : R.IsLeastMeeting q d own other mt) :
    ∃ mt', (R.method w limit h offset).join d e ((R.side q π d).follow own id l e c).1 other
        ((R.side q π d).follow own id l e c).2 mt = .ok mt' ∧
      R.IsLeastMeeting q d ((R.side q π d).follow own id l e c).1 other mt' := by
  cases hb : other.best? ((R.side q π d).key e) with
  | none =>
    refine ⟨mt, ?_, ?_, hj.met_follow hR.toIsLawful hq he hi, hj.unmet⟩
    · have hkey : other.best? ((R.method w limit h offset).settings.mode.key e d) = none := hb
      rw [Method.join, hkey]
    · exact hj.joined_follow he (fun _ hv ↦ hv) fun hb' ↦ by cases hb.symm.trans hb'
  | some j =>
    obtain ⟨lj, hlj, _⟩ := he'.best hb
    obtain ⟨a, la, τ, c₀, _, ha, hs, hc₀, hv, hjoin⟩ :=
      join_eq limit h offset mt hR hq he he' hi hb hlj
    refine ⟨_, hjoin, ?_⟩
    have hkey : ∀ {i li c₁}, other.best? ((R.side q π d).key e) = some i →
        other.label? i = some li → R.Overlap d (some e) c₁ →
        l.total + c + li.total - c₁ = l.total + c + lj.total - c₀ := fun hbi hli hc₁ ↦ by
      cases hb.symm.trans hbi
      cases hlj.symm.trans hli
      rw [hc₁.functional hc₀]
    split
    · next hlt =>
      refine ⟨?_, ?_, fun hnone ↦ by cases hnone⟩
      · refine hj.joined_follow he (fun v hv ↦ Exact.finite_le_of_lt_of_le hlt hv) ?_
        exact fun hbi hli hc₁ ↦ Exact.finite_le_finite.2 (hkey hbi hli hc₁).ge
      · intro labels hl
        cases hl
        exact ⟨a, j, la, lj, τ, _, rfl, ha, hlj, hs, rfl, hv.le⟩
    · next hlt =>
      refine ⟨?_, hj.met_follow hR.toIsLawful hq he hi, hj.unmet⟩
      refine hj.joined_follow he (fun _ hv ↦ hv) fun hbi hli hc₁ ↦ ?_
      rw [hkey hbi hli hc₁]
      exact hj.cost_le_of_not_lt hlt

end Join

end Roads

end RoadRouting
