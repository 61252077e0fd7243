import RoadRouting.Proofs.Search.Courses
import Mathlib.Data.Finset.Union

namespace RoadRouting

open Scalar (Exact IsOrdered)

namespace SearchSettings

variable {K : Type} (s : SearchSettings K) (d : Direction)

def states : Finset StateKey :=
  (Finset.range s.network.nodeCount).biUnion fun u ↦
    ((s.network.edges u d).map fun e ↦ s.mode.key e d).toFinset

def stateCount : Nat :=
  if s.mode = .nodeBased then s.network.nodeCount else (s.states d).card + 1

variable {s d} {stored : EdgeId → Option (StoredEdge K)} {u : NodeId} {e : EdgeView K}

theorem key_mem_states (hn : s.network.Shows stored) (he : e ∈ s.network.edges u d) :
    s.mode.key e d ∈ s.states d := by
  refine Finset.mem_biUnion.2 ⟨u, Finset.mem_range.2 (hn.lt_of_mem he), ?_⟩
  exact List.mem_toFinset.2 (List.mem_map_of_mem he)

end SearchSettings

namespace Frontier.IsGrown

variable {K Q M : Type} [Scalar K] [PriorityQueue Q K] [LawfulQueue Q] [BestMap M]
variable {s : SearchSettings K} {d : Direction} {origin : NodeId} {pin : Option EdgeId}
variable {start l : Label K} {f : Frontier K Q M} {id : LabelId}
variable {stored : EdgeId → Option (StoredEdge K)}
variable (h : f.IsGrown s d origin pin start) (hn : s.network.Shows stored)
include h hn

theorem node_lt (horigin : origin < s.network.nodeCount) (hl : f.label? id = some l) :
    l.node < s.network.nodeCount := by
  by_cases hid : id = 0
  · subst hid
    cases hl.symm.trans h.root
    rwa [h.start_node]
  · obtain ⟨e, _, _, _, hnode, _, _, hfollows⟩ := h.form hl hid
    rw [hnode]
    exact hn.adj_lt_of_mem hfollows.listed

theorem node_eq_adj {p : Option (EdgeView K)} {e : EdgeView K} (hl : f.label? id = some l)
    (hf : s.Follows d origin pin p e) (hk : s.keyOf d origin l.edge = some (s.mode.key e d)) :
    l.node = e.adj := by
  rw [h.node_eq hl]
  refine SearchSettings.adj_eq_of_keyOf hn (fun e₀ he₀ ↦ ?_) hf.listed hk
  obtain ⟨_, hf₀⟩ := h.exists_follows hl e₀ he₀
  exact ⟨_, hf₀.listed⟩

theorem size_le_stateCount (horigin : origin < s.network.nodeCount) :
    f.size ≤ s.stateCount d := by
  rw [SearchSettings.stateCount]
  split
  · next hm =>
    rw [← Finset.card_range s.network.nodeCount]
    refine h.toIsTree.size_le fun {id l} hl ↦ ⟨l.node, ?_, ?_⟩
    · exact Finset.mem_range.2 (h.node_lt hn horigin hl)
    · rw [SearchSettings.keyOf_of_nodeBased hm, h.node_eq hl]
  · refine h.toIsTree.size_le_succ fun {id l} hl hid ↦ ?_
    obtain ⟨e, _, _, hedge, _, _, _, hfollows⟩ := h.form hl hid
    exact ⟨_, SearchSettings.key_mem_states hn hfollows.listed, by rw [hedge]; rfl⟩

end Frontier.IsGrown

namespace Sweep

variable {s : SearchSettings Exact}

/-- The labels of a sweep rank by their costs with an estimate of what remains, which never falls by
more than an edge costs. -/
structure IsGuided (w : Sweep s) (π : NodeId → Rat) : Prop where
  origin_lt : w.origin < s.network.nodeCount
  root : w.root.priority = .finite (π w.origin)
  priority : ∀ {x u id l e g made}, w.explores x → e ∈ s.network.edges u w.direction →
    x.extend id l e (.finite g) = .ok made → made.priority = .finite (g + π e.adj)
  falls : ∀ {x u l e q}, w.explores x → e ∈ s.network.edges u w.direction →
    x.price l e = .ok (.finite q) → π u ≤ q + π e.adj

variable {Q M : Type} [PriorityQueue Q Exact] [LawfulQueue Q] [BestMap M]
variable {w : Sweep s} {π : NodeId → Rat} {taken : List (LabelId × Label Exact)}
variable {f next : Frontier Exact Q M} {id : LabelId} {l : Label Exact}

/-- What has been taken out ranks below what is queued, is settled, and is all that is settled. -/
structure IsOrderly (π : NodeId → Rat) (taken : List (LabelId × Label Exact))
    (f : Frontier Exact Q M) : Prop where
  rank : ∀ {id l}, f.label? id = some l →
    ∃ g, l.cost = .finite g ∧ l.priority = .finite (g + π l.node)
  sorted : taken.Pairwise fun a b ↦ b.2.priority ≤ a.2.priority
  kept : ∀ a ∈ taken, f.label? a.1 = some a.2 ∧ f.priority? a.1 = none
  mem : ∀ {id l}, f.label? id = some l → f.priority? id = none → (id, l) ∈ taken
  above : ∀ {id l}, f.label? id = some l → f.priority? id ≠ none →
    ∀ a ∈ taken, a.2.priority ≤ l.priority
  nodup : (taken.map (·.1)).Nodup

namespace IsOrderly

theorem start (hw : w.IsSound) (hg : w.IsGuided π) :
    IsOrderly π [] (Frontier.empty.addRoot w.root (s.mode.rootKey w.origin) :
      Frontier Exact Q M) where
  rank {id l} hl := by
    rw [Frontier.label?_addRoot] at hl
    split at hl
    · cases hl
      refine ⟨0, hw.root_cost, ?_⟩
      rw [hg.root, hw.root_node, zero_add]
    · cases hl
  sorted := .nil
  kept _ ha := absurd ha List.not_mem_nil
  mem {id l} hl hq := by
    rw [Frontier.label?_addRoot] at hl
    rw [Frontier.priority?_addRoot] at hq
    split at hl
    · next hid => rw [if_pos hid] at hq; cases hq
    · cases hl
  above _ _ _ ha := absurd ha List.not_mem_nil
  nodup := List.nodup_nil

theorem settle {start : Label Exact} {keyOf : Option (EdgeView Exact) → Option StateKey}
    (h : IsOrderly π taken f) (ht : f.IsTree start keyOf) (hp : f.pop? = some (id, next)) :
    IsOrderly π ((id, next.label id) :: taken) next := by
  have hlabel := Frontier.label?_of_pop? hp
  obtain ⟨l, hl, hprio⟩ := ht.label?_of_pop hp
  have hnext : next.label id = l := Frontier.label_eq ((congrFun hlabel id).trans hl)
  have hnew : ∀ a ∈ taken, a.1 ≠ id := by
    rintro a ha rfl
    cases hprio.symm.trans (h.kept a ha).2
  rw [hnext]
  refine ⟨hlabel ▸ h.rank, ?_, fun a ha ↦ ?_, fun {j lj} hj hq ↦ ?_, fun {j lj} hj hq a ha ↦ ?_, ?_⟩
  · exact List.pairwise_cons.2 ⟨fun a ha ↦ h.above hl (by rw [hprio]; nofun) a ha, h.sorted⟩
  · rw [hlabel, Frontier.priority?_pop ht.queue hp]
    rcases List.mem_cons.1 ha with rfl | ha
    · exact ⟨hl, if_pos rfl⟩
    · rw [if_neg (hnew a ha)]
      exact h.kept a ha
  · rw [hlabel] at hj
    rw [Frontier.priority?_pop ht.queue hp] at hq
    split at hq
    · next hji =>
      subst hji
      cases hl.symm.trans hj
      exact List.mem_cons_self
    · exact List.mem_cons_of_mem _ (h.mem hj hq)
  · rw [hlabel] at hj
    rw [Frontier.priority?_pop ht.queue hp] at hq
    split at hq
    · exact absurd rfl hq
    · rcases List.mem_cons.1 ha with rfl | ha
      · obtain ⟨k, hk, hleast⟩ := Frontier.least_of_pop ht.queue hp
        cases hprio.symm.trans hk
        obtain ⟨kj, hkj⟩ := Option.ne_none_iff_exists'.1 hq
        obtain ⟨lj', hlj', rfl⟩ := ht.queued hkj
        cases hlj'.symm.trans hj
        obtain ⟨g, _, hg⟩ := h.rank hl
        obtain ⟨gj, _, hgj⟩ := h.rank hj
        have hle := hleast j _ hkj
        rwa [hg, hgj, Exact.precedes_finite, ← Exact.finite_le_finite, ← hg, ← hgj] at hle
      · exact h.above hj hq a ha
  · rw [List.map_cons, List.nodup_cons]
    refine ⟨fun hmem ↦ ?_, h.nodup⟩
    obtain ⟨a, ha, hid⟩ := List.mem_map.1 hmem
    exact hnew a ha hid

omit [BestMap M] in
theorem priority_le_head (h : IsOrderly π ((id, l) :: taken) f) {a : LabelId × Label Exact}
    (ha : a ∈ (id, l) :: taken) : a.2.priority ≤ l.priority := by
  rcases List.mem_cons.1 ha with rfl | ha
  · obtain ⟨g, _, hg⟩ := h.rank (h.kept _ List.mem_cons_self).1
    dsimp only at hg ⊢
    rw [hg, Exact.finite_le_finite]
  · exact (List.pairwise_cons.1 h.sorted).1 a ha

structure IsOnward (π : NodeId → Rat) (l : Label Exact) (e : EdgeView Exact) (q : Rat)
    (made : Label Exact) : Prop where
  cost : made.cost = l.cost + .finite q
  node : made.node = e.adj
  rank : ∀ {g}, made.cost = .finite g → made.priority = .finite (g + π e.adj)
  falls : π l.node ≤ q + π e.adj

section Store

variable {made : Label Exact} {e : EdgeView Exact} {q : Rat}
variable (h : IsOrderly π ((id, l) :: taken) f) (ho : IsOnward π l e q made)
include h ho

omit [BestMap M] in
theorem rank_made : ∃ g, made.cost = .finite g ∧ made.priority = .finite (g + π e.adj) ∧
    l.priority ≤ made.priority := by
  obtain ⟨g, hl, hg⟩ := h.rank (h.kept _ List.mem_cons_self).1
  dsimp only at hl hg
  have hmade : made.cost = .finite (g + q) := by
    rw [ho.cost, hl, Exact.finite_add_finite]
  have hfalls := ho.falls
  refine ⟨g + q, hmade, ho.rank hmade, ?_⟩
  rw [hg, ho.rank hmade, Exact.finite_le_finite]
  linarith

variable {d : Direction} {origin : NodeId} {start : Label Exact}
variable {stored : EdgeId → Option (StoredEdge Exact)} (hn : s.network.Shows stored)
variable (hgrown : f.IsGrown s d origin none start)
variable (hb : f.IsBranch (s.keyOf d origin) (s.mode.key e d) made id l)
variable (hf : s.Follows d origin none l.edge e)
include hn hgrown hb hf

theorem ne_store {a : LabelId × Label Exact} (ha : a ∈ (id, l) :: taken) :
    a.1 ≠ (f.store (s.mode.key e d) made).2 := by
  intro hstored
  obtain ⟨hlabel, _⟩ := h.kept a ha
  rw [hstored] at hlabel
  have hbest := Frontier.best?_of_label?_store hlabel
  obtain ⟨_, hlabel', hk⟩ := hgrown.best hbest
  cases hlabel.symm.trans hlabel'
  have hsame : a.2.node = e.adj := hgrown.node_eq_adj hn hlabel hf hk
  obtain ⟨g, hga, hra⟩ := h.rank hlabel
  obtain ⟨gl, hgl, hrl⟩ := h.rank (h.kept _ List.mem_cons_self).1
  have hle := h.priority_le_head ha
  have hbetter := hb.better hbest hlabel
  have hfalls := ho.falls
  dsimp only at hgl hrl
  rw [hra, hrl, Exact.finite_le_finite, hsame] at hle
  rw [hga, ho.cost, hgl, Exact.finite_add_finite, Exact.finite_le_finite] at hbetter
  linarith

theorem store : IsOrderly π ((id, l) :: taken) (f.store (s.mode.key e d) made).1 := by
  have hne : ∀ {a}, a ∈ (id, l) :: taken → a.1 ≠ (f.store (s.mode.key e d) made).2 :=
    h.ne_store ho hn hgrown hb hf
  obtain ⟨g, hmade, hrank, hhead⟩ := h.rank_made ho
  refine ⟨fun {j lj} hj ↦ ?_, h.sorted, fun a ha ↦ ?_, fun {j lj} hj hq ↦ ?_,
    fun {j lj} hj hq a ha ↦ ?_, h.nodup⟩
  · rw [hgrown.label?_store] at hj
    split at hj
    · cases hj
      exact ⟨g, hmade, ho.node ▸ hrank⟩
    · exact h.rank hj
  · rw [hgrown.label?_store_of_ne (hne ha), Frontier.priority?_store hgrown.queue,
      if_neg (hne ha)]
    exact h.kept a ha
  · rw [Frontier.priority?_store hgrown.queue] at hq
    split at hq
    · cases hq
    · next hji =>
      rw [hgrown.label?_store_of_ne hji] at hj
      exact h.mem hj hq
  · rw [hgrown.label?_store] at hj
    rw [Frontier.priority?_store hgrown.queue] at hq
    split at hj
    · cases hj
      exact IsOrdered.le_trans (h.priority_le_head ha) hhead
    · next hji =>
      rw [if_neg hji] at hq
      exact h.above hj hq a ha

end Store

end IsOrderly

/-- What has been taken out when a sweep has come to a frontier, the last label first. The priorities
at which labels were queued have not fallen; the labels are still there and no longer queued; no two of
them stand for the same state; and there are no more of them than states. -/
structure IsFinal (w : Sweep s) (taken : List (LabelId × Label Exact)) (f : Frontier Exact Q M) :
    Prop where
  queued : ∀ {id k}, f.priority? id = some k → ∃ l, f.label? id = some l ∧ l.priority = k
  sorted : taken.Pairwise fun a b ↦ b.2.priority ≤ a.2.priority
  kept : ∀ a ∈ taken, f.label? a.1 = some a.2 ∧ f.priority? a.1 = none
  once : taken.Pairwise fun a b ↦ a.1 ≠ b.1 ∧
    ∀ key, s.keyOf w.direction w.origin a.2.edge = some key →
      s.keyOf w.direction w.origin b.2.edge ≠ some key
  length_le : taken.length ≤ s.stateCount w.direction

variable {stored : EdgeId → Option (StoredEdge Exact)}

namespace Course

variable (h : w.Course taken f) (hw : w.IsSound) (hg : w.IsGuided π)
variable (hn : s.network.Shows stored)
include h hw hg hn

theorem isOrderly : IsOrderly π taken f := by
  induction h with
  | start => exact .start hw hg
  | settle h hp ih => exact ih.settle (h.isGrown hw hn).toIsTree hp
  | @explore taken f f' id l x e r h hx he htry ih =>
    have hgrown := h.isGrown hw hn
    have hl := h.label?_of_head hw hn
    have hkeeps := hw.keepsTo hx
    rcases Exploration.tryEdge_cases htry with ⟨rfl, _⟩ | ⟨made, c, hs, rfl, _⟩
    · exact ih
    · have hlisted : e ∈ s.network.edges l.node w.direction := hkeeps.edges l.node ▸ he
      obtain ⟨hb, _, hf, _⟩ := hgrown.of_stores hn (fun _ ↦ rfl) hkeeps hl (fun _ ↦ rfl) he hs
      obtain ⟨_, hnode, _, hcost⟩ := hkeeps.steps hs.extend
      rw [hkeeps.key] at hb ⊢
      rcases Exact.zero_le_iff.1 (hkeeps.nonneg hlisted hs.price) with rfl | ⟨q, _, rfl⟩
      · cases hs.finite
      · refine ih.store ⟨hcost, hnode, fun {g} hmade ↦ ?_, hg.falls hx hlisted hs.price⟩ hn hgrown hb
          hf
        exact hg.priority hx hlisted ((hcost.symm.trans hmade) ▸ hs.extend)

theorem isFinal : w.IsFinal taken f := by
  have ho := h.isOrderly hw hg hn
  have hgrown := h.isGrown hw hn
  have hids := List.pairwise_map.1 ho.nodup
  refine ⟨hgrown.queued, ho.sorted, ho.kept, ?_, ?_⟩
  · refine List.Pairwise.imp_of_mem (fun {a b} ha hb hne ↦ ⟨hne, fun key hka hkb ↦ hne ?_⟩) hids
    exact Option.some.inj ((hgrown.own (ho.kept a ha).1 hka).symm.trans
      (hgrown.own (ho.kept b hb).1 hkb))
  · have hsub : taken.map (·.1) ⊆ List.range f.size := by
      intro id hid
      obtain ⟨a, ha, rfl⟩ := List.mem_map.1 hid
      exact List.mem_range.2 (Frontier.lt_size_of_label? (ho.kept a ha).1)
    calc taken.length = (taken.map (·.1)).length := (List.length_map _).symm
      _ ≤ (List.range f.size).length := (ho.nodup.subperm hsub).length_le
      _ = f.size := List.length_range
      _ ≤ s.stateCount w.direction := hgrown.size_le_stateCount hn hg.origin_lt

end Course

end Sweep

end RoadRouting
