import RoadRouting.Proofs.Bidirectional.Joining
import RoadRouting.Proofs.Terrain.Tight

namespace RoadRouting

open Scalar (Exact)

namespace Roads

open Bidirectional (Query Meeting Method ordered)

variable {Q M : Type} [PriorityQueue Q Exact] [LawfulQueue Q] [BestMap M]

/-- Labels of both searches that complete a walk, and what they and the turn between them cost. -/
def Completes (R : Roads) (q : Query) (d : Direction) (own other : Frontier Exact Q M)
    (a b : LabelId) (g : Rat) : Prop :=
  ∃ la lb τ, own.label? a = some la ∧ other.label? b = some lb ∧
    R.Crossing q d la.edge lb.edge τ ∧ g = la.total + τ + lb.total

def Shares (R : Roads) (d : Direction) (own other : Frontier Exact Q M) (i j : LabelId) (g : Rat) :
    Prop :=
  ∃ k li lj c, own.best? k = some i ∧ other.best? k = some j ∧ own.label? i = some li ∧
    other.label? j = some lj ∧ R.Overlap d li.edge c ∧ g = li.total + lj.total - c

/-- Labels that met at a state. Each of them is the label of the state or a settled one, and they
cost no less together than the labels of the state do, even if these have become better. -/
def IsSettledPair (R : Roads) (q : Query) (d : Direction) (own other : Frontier Exact Q M)
    (a b : LabelId) : Prop :=
  ∃ i j g g', R.Completes q d own other a b g ∧ R.Shares d own other i j g' ∧ g' ≤ g ∧
    (a = i ∨ own.priority? a = none) ∧ (b = j ∨ other.priority? b = none)

/-- What holds of a meeting while the search in a direction settles labels in order. -/
structure IsSettledMeeting (R : Roads) (q : Query) (d : Direction) (own other : Frontier Exact Q M)
    (mt : Meeting Exact) : Prop extends R.IsLeastMeeting q d own other mt where
  settledPair : ∀ {labels}, mt.labels = some labels →
    ∃ a b, labels = ordered a b d ∧ R.IsSettledPair q d own other a b

variable {R : Roads} {w : Weighting Exact} {stored : EdgeId → Option (StoredEdge Exact)}
variable {limit : Nat} {h : Estimate Exact} {offset : Exact} {q : Query} {π : NodeId → Rat}
variable {d : Direction} {own other : Frontier Exact Q M} {mt mt' : Meeting Exact}
variable {pending pending' : LabelId → EdgeView Exact → Prop} {a b : LabelId} {g g' k : Rat}

omit [PriorityQueue Q Exact] [LawfulQueue Q] [BestMap M] in
theorem SeamFrom.functional {p p' : Option (EdgeView Exact)} {τ τ' : Rat}
    (h : R.SeamFrom q d p p' τ) (h' : R.SeamFrom q d p p' τ') : τ = τ' := by
  cases d with
  | forward => exact h.joins.functional h'.joins
  | backward => exact h.joins.functional h'.joins

omit [PriorityQueue Q Exact] [LawfulQueue Q] [BestMap M] in
theorem Completes.functional (h : R.Completes q d own other a b g)
    (h' : R.Completes q d own other a b g') : g = g' := by
  obtain ⟨la, lb, τ, ha, hb, hs, rfl⟩ := h
  obtain ⟨_, _, τ', ha', hb', hs', rfl⟩ := h'
  cases ha.symm.trans ha'
  cases hb.symm.trans hb'
  rw [hs.seam.functional hs'.seam]

omit [PriorityQueue Q Exact] [LawfulQueue Q] in
theorem IsLeastMeeting.cost_le_of_shares (hj : R.IsLeastMeeting q d own other mt) {i j : LabelId}
    (hs : R.Shares d own other i j g) : mt.cost ≤ .finite g := by
  obtain ⟨k, li, lj, c, hi, hj', hli, hlj, hc, rfl⟩ := hs
  exact hj.joined hi hj' hli hlj hc

theorem ordered_inj {a' b' : LabelId} (h : ordered a b d = ordered a' b' d) : a = a' ∧ b = b' := by
  cases d with
  | forward => exact Prod.mk.inj h
  | backward => exact (Prod.mk.inj h).symm

theorem IsSettledMeeting.cost_eq (hf : R.IsSettledMeeting q d own other mt)
    {labels : LabelId × LabelId} (hl : mt.labels = some labels) : ∃ a b g, labels = ordered a b d ∧
      R.Completes q d own other a b g ∧ mt.cost = .finite g := by
  obtain ⟨a, b, la, lb, τ, m, rfl, ha, hb, hs, hm, hle⟩ := hf.met hl
  obtain ⟨_, _, hab, i, j, g, g', hg, hshares, hge, _⟩ := hf.settledPair hl
  obtain ⟨rfl, rfl⟩ := ordered_inj hab
  have hcost := hf.cost_le_of_shares hshares
  rw [hm, Exact.finite_le_finite] at hcost
  obtain rfl := hg.functional ⟨la, lb, τ, ha, hb, hs, rfl⟩
  exact ⟨a, b, _, rfl, hg, hm.trans (congrArg Exact.finite (le_antisymm (hcost.trans hge) hle))⟩

theorem IsSettledMeeting.pop {id : LabelId} {next : Frontier Exact Q M}
    (hq : LawfulQueue.IsValid own.queue) (hf : R.IsSettledMeeting q d own other mt)
    (hp : own.pop? = some (id, next)) : R.IsSettledMeeting q d next other mt where
  toIsLeastMeeting := hf.toIsLeastMeeting.pop hp
  settledPair hl := by
    obtain ⟨a, b, rfl, i, j, g, g', hg, hshares, hle, ha, hb⟩ := hf.settledPair hl
    have hprio := Frontier.priority?_pop hq hp a
    obtain ⟨_, _, rfl⟩ := Frontier.pop?_eq_some_iff.1 hp
    refine ⟨a, b, rfl, i, j, g, g', hg, hshares, hle, ha.imp_right fun hnone ↦ ?_, hb⟩
    rw [hprio, hnone, ite_self]

section Lawful

variable (hR : R.IsLawful stored)
include hR

omit [PriorityQueue Q Exact] [LawfulQueue Q] [BestMap M] hR in
theorem Completes.swap (h : R.Completes q d own other a b g) :
    R.Completes q d.opposite other own b a g := by
  obtain ⟨la, lb, τ, ha, hb, hs, rfl⟩ := h
  exact ⟨lb, la, τ, hb, ha, hs.swap, by ring⟩

theorem Shares.swap {i j : LabelId} (h : R.Shares d own other i j g)
    (he : (R.side q π d).Explored own pending)
    (he' : (R.side q π d.opposite).Explored other pending') :
    R.Shares d.opposite other own j i g := by
  obtain ⟨k, li, lj, c, hi, hj, hli, hlj, hc, rfl⟩ := h
  obtain ⟨_, hli', hki⟩ := he.best hi
  obtain ⟨_, hlj', hkj⟩ := he'.best hj
  cases hli'.symm.trans hli
  cases hlj'.symm.trans hlj
  refine ⟨k, lj, li, c, hj, hi, hlj, hli, ?_, by ring⟩
  have hopp : d.opposite.opposite = d := by cases d <;> rfl
  rw [← hopp] at hc he hki
  exact hc.swap hR (he'.isPlace hlj) (he.isPlace hli) hkj hki

theorem IsSettledMeeting.swap (hf : R.IsSettledMeeting q d own other mt)
    (he : (R.side q π d).Explored own pending)
    (he' : (R.side q π d.opposite).Explored other pending') :
    R.IsSettledMeeting q d.opposite other own mt where
  toIsLeastMeeting := hf.toIsLeastMeeting.swap hR he he'
  settledPair hl := by
    obtain ⟨a, b, rfl, i, j, g, g', hg, hshares, hle, ha, hb⟩ := hf.settledPair hl
    refine ⟨b, a, ?_, j, i, g, g', hg.swap, hshares.swap hR he he', hle, hb, ha⟩
    cases d <;> rfl

variable (hq : R.mode = .nodeBased → ∀ d, q.pin d = none) (hc : R.IsConsistent π)
variable {id : LabelId} {l : Label Exact} {e : EdgeView Exact} {c : Rat}
variable (hs : (R.side q π d).Settles own ((R.side q π d).rank l)) (hid : own.priority? id = none)
variable (hi : (R.side q π d).Improves own id l e c)
include hq hc hs hid hi

theorem IsSettledPair.follow (hk : R.IsSettledPair q d own other a b) :
    R.IsSettledPair q d ((R.side q π d).follow own id l e c).1 other a b := by
  have hT := side_isLawful (π := π) (d := d) hR hq
  have hC : (R.side q π d).IsConsistent := side_isConsistent hR hc
  have he := hs.explored
  obtain ⟨i, j, _, _, ⟨la, lb, τ, hla, hlb, hcross, rfl⟩,
    ⟨k, li, lj, c₀, hbi, hbj, hli, hlj, hover, rfl⟩, hle, ha, hb⟩ := hk
  have hbi' : ((R.side q π d).follow own id l e c).1.best? k = some i :=
    Terrain.Explored.best?_follow_of_best? hbi
  have hnew := (hs.follow hT hC hi hid).explored
  obtain ⟨li', hli', hki'⟩ := hnew.best hbi'
  obtain ⟨_, hli₀, hki⟩ := he.best hbi
  cases hli₀.symm.trans hli
  have hover' := hover.congr hR (he.isPlace hli) (hnew.isPlace hli') hki hki'
  by_cases haz : a = ((R.side q π d).follow own id l e c).2
  · -- a settled label is never stored again, so the label that is stored is that of the state
    obtain rfl : a = i := ha.resolve_right fun hnone ↦ hs.ne_follow hT hC hi hla hnone haz
    cases hla.symm.trans hli
    refine ⟨a, j, _, _, ⟨li', lb, τ, hli', hlb, ?_, rfl⟩,
      ⟨k, li', lj, c₀, hbi', hbj, hli', hlj, hover', rfl⟩, by linarith, .inl rfl, hb⟩
    exact hcross.congr hR hq (he.isPlace hla) (hnew.isPlace hli') hki hki'
  · have hla' := (he.label?_follow_of_ne haz).trans hla
    obtain ⟨_, hli₁, htotal, _⟩ := exists_label?_follow hR hq he hi hli
    cases hli₁.symm.trans hli'
    refine ⟨i, j, _, _, ⟨la, lb, τ, hla', hlb, hcross, rfl⟩,
      ⟨k, li', lj, c₀, hbi', hbj, hli', hlj, hover', rfl⟩, by linarith, ?_, hb⟩
    exact ha.imp_right fun hnone ↦ hs.priority?_follow hT hC hi hla hnone

end Lawful

section Join

variable (hR : R.IsWeighedBy w stored d) (hq : R.mode = .nodeBased → ∀ d, q.pin d = none)
variable (hc : R.IsConsistent π)
variable {id : LabelId} {l : Label Exact} {e : EdgeView Exact} {c : Rat}
variable (hs : (R.side q π d).Settles own ((R.side q π d).rank l)) (hid : own.priority? id = none)
variable (he' : (R.side q π d.opposite).Explored other pending')
variable (hi : (R.side q π d).Improves own id l e c)
include hR hq hc hs hid he' hi

variable (limit h offset) in
/-- Following an edge and joining the searches there keeps the meeting right. -/
theorem IsSettledMeeting.join (hf : R.IsSettledMeeting q d own other mt)
    (hjoin : (R.method w limit h offset).join d e ((R.side q π d).follow own id l e c).1 other
      ((R.side q π d).follow own id l e c).2 mt = .ok mt') :
    R.IsSettledMeeting q d ((R.side q π d).follow own id l e c).1 other mt' where
  toIsLeastMeeting := by
    obtain ⟨mt₁, hjoin₁, hmeeting⟩ :=
      join_isOk limit h offset hR hq hs.explored he' hi hf.toIsLeastMeeting
    cases hjoin₁.symm.trans hjoin
    exact hmeeting
  settledPair {labels} hl := by
    have hold : mt.labels = some labels → ∃ a b, labels = ordered a b d ∧
        R.IsSettledPair q d ((R.side q π d).follow own id l e c).1 other a b := fun hl ↦ by
      obtain ⟨a, b, hab, hk⟩ := hf.settledPair hl
      exact ⟨a, b, hab, hk.follow hR.toIsLawful hq hc hs hid hi⟩
    cases hb : other.best? ((R.side q π d).key e) with
    | none =>
      have hkey : other.best? ((R.method w limit h offset).settings.mode.key e d) = none := hb
      rw [Method.join, hkey] at hjoin
      cases hjoin
      exact hold hl
    | some j =>
      obtain ⟨lj, hlj, _⟩ := he'.best hb
      obtain ⟨a, la, τ, c₀, ha, hla, hcross, hover, htotal, hjoin₁⟩ :=
        join_eq limit h offset mt hR hq hs.explored he' hi hb hlj
      cases hjoin.symm.trans hjoin₁
      split at hl
      · cases hl
        have hself : ((R.side q π d).follow own id l e c).1.label? _ = _ :=
          hs.explored.label?_follow_self
        have hbest : ((R.side q π d).follow own id l e c).1.best? _ = _ :=
          (Terrain.Explored.best?_follow _).trans (if_pos rfl)
        refine ⟨a, j, rfl, _, j, _, _, ⟨la, lj, τ, hla, hlj, hcross, rfl⟩,
          ⟨_, _, lj, c₀, hbest, hb, hself, hlj, hover, rfl⟩, htotal.ge, ha.imp_right ?_, .inl rfl⟩
        rintro rfl
        exact hs.priority?_follow (side_isLawful hR.toIsLawful hq)
          (side_isConsistent hR.toIsLawful hc) hi hi.label hid
      · exact hold hl

end Join

end Roads

end RoadRouting
