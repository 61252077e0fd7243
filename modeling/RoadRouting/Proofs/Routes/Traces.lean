import RoadRouting.Proofs.Routes.Connection
import RoadRouting.Proofs.Weighting.Nonneg

namespace RoadRouting

variable {K : Type} [Scalar K]

def Obeys (pin : Option EdgeId) (p : Option (EdgeView K)) : Prop :=
  ∀ a, pin = some a → p.map (·.edge) = some a

/-- Edges that are listed one after the other from a root on, the last one first. -/
inductive Network.Chained {K : Type} (n : Network K) (d : Direction) (root : NodeId) :
    List (EdgeView K) → Prop
  | nil : Chained n d root []
  | cons {es : List (EdgeView K)} {e : EdgeView K} : Chained n d root es →
      e ∈ n.edges ((es.head?.map (·.adj)).getD root) d → Chained n d root (e :: es)

section Chained

variable {K : Type} {n : Network K} {stored : EdgeId → Option (StoredEdge K)} (hn : n.Shows stored)
variable {root : NodeId} {es : List (EdgeView K)}
include hn

theorem Network.Chained.leads_reverse (h : n.Chained .forward root es) :
    Leads stored root es.reverse ((es.head?.map (·.adj)).getD root) := by
  induction h with
  | nil => exact leads_nil root
  | @cons es e _ he ih =>
    rw [List.reverse_cons]
    refine ih.append ⟨fun e' he' ↦ ?_, .singleton e, ?_, rfl⟩
    · cases List.mem_singleton.1 he'
      exact hn.spans he
    · rintro _ ⟨⟩
      exact hn.base_eq he

theorem Network.Chained.leads_reversed (h : n.Chained .backward root es) :
    Leads stored ((es.head?.map (·.adj)).getD root) (es.map (·.reversed)) root := by
  induction h with
  | nil => exact leads_nil root
  | @cons es e _ he ih =>
    have hfirst : Leads stored e.adj [e.reversed] ((es.head?.map (·.adj)).getD root) := by
      refine ⟨fun e' he' ↦ ?_, .singleton _, ?_, hn.base_eq he⟩
      · cases List.mem_singleton.1 he'
        obtain ⟨s, hs, hspans⟩ := hn.spans he
        exact ⟨s, hs, hspans.reversed⟩
      · rintro _ ⟨⟩
        rfl
    exact hfirst.append ih

end Chained

namespace SearchSettings

variable (s : SearchSettings K)

/-- What holds of a turn that a search takes: without u-turns no edge follows itself, and where
states are edges no turn is forbidden. -/
structure Permits (a : EdgeId) (v : NodeId) (b : EdgeId) : Prop where
  ne : s.mode = .edgeBased → a ≠ b
  finite : s.mode ≠ .nodeBased → ∀ {inner : Weighting K} {turns : TurnCosts K},
    s.weighting = inner.withTurns turns → inner.IsNonneg s.network → (∀ a v b, 0 ≤ turns a v b) →
    Scalar.isFinite (turns a v b) = true

def Turns : Direction → EdgeId → NodeId → EdgeId → Prop
  | .forward, a, v, b => s.Permits a v b
  | .backward, a, v, b => s.Permits b v a

/-- An edge that can be explored from the root (`none`) or after another edge. -/
structure Follows (d : Direction) (root : NodeId) (pin : Option EdgeId)
    (p : Option (EdgeView K)) (e : EdgeView K) : Prop where
  listed : e ∈ s.network.edges ((p.map (·.adj)).getD root) d
  pinned : p = none → Obeys pin (some e)
  turn : ∀ e₀ ∈ p, s.Turns d e₀.edge e.base e.edge

/-- Edges that have been explored one after the other from the root, the last one first. -/
inductive Trace (d : Direction) (root : NodeId) (pin : Option EdgeId) : List (EdgeView K) → Prop
  | nil : Trace d root pin []
  | cons {es : List (EdgeView K)} {e : EdgeView K} : Trace d root pin es →
      s.Follows d root pin es.head? e → Trace d root pin (e :: es)

variable {s} {d : Direction} {root : NodeId} {pin : Option EdgeId}

theorem turns_of_nodeBased (hm : s.mode = .nodeBased) (d : Direction) (a : EdgeId) (v : NodeId)
    (b : EdgeId) : s.Turns d a v b := by
  have hpermits : ∀ a b, s.Permits a v b := fun a b ↦
    ⟨fun hm' ↦ (by rw [hm] at hm'; cases hm'), fun hne ↦ absurd hm hne⟩
  cases d with
  | forward => exact hpermits a b
  | backward => exact hpermits b a

namespace Trace

variable {stored : EdgeId → Option (StoredEdge K)} (hn : s.network.Shows stored)
variable {es : List (EdgeView K)}

theorem obeys (h : s.Trace d root pin es) (hne : es ≠ []) : Obeys pin es.getLast? := by
  induction h with
  | nil => exact absurd rfl hne
  | @cons es e h hf ih =>
    cases es with
    | nil => exact hf.pinned rfl
    | cons e' es => exact ih (List.cons_ne_nil _ _)

theorem chained (h : s.Trace d root pin es) : s.network.Chained d root es := by
  induction h with
  | nil => exact .nil
  | cons _ hf ih => exact ih.cons hf.listed

include hn

theorem leads_reverse (h : s.Trace .forward root pin es) :
    Leads stored root es.reverse ((es.head?.map (·.adj)).getD root) :=
  h.chained.leads_reverse hn

theorem isChain_reverse (h : s.Trace .forward root pin es) :
    es.reverse.IsChain fun e e' ↦ s.Permits e.edge e.adj e'.edge := by
  induction h with
  | nil => exact .nil
  | @cons es e _ hf ih =>
    rw [List.reverse_cons]
    refine List.isChain_append.2 ⟨ih, .singleton e, ?_⟩
    rintro e₀ he₀ _ ⟨⟩
    rw [List.getLast?_reverse] at he₀
    have hbase := hn.base_eq hf.listed
    rw [Option.mem_def.1 he₀] at hbase
    have hturn := hf.turn e₀ he₀
    rwa [hbase] at hturn

theorem leads_reversed (h : s.Trace .backward root pin es) :
    Leads stored ((es.head?.map (·.adj)).getD root) (es.map (·.reversed)) root :=
  h.chained.leads_reversed hn

omit hn in
theorem isChain_reversed (h : s.Trace .backward root pin es) :
    (es.map (·.reversed)).IsChain fun e e' ↦ s.Permits e.edge e.adj e'.edge := by
  induction h with
  | nil => exact .nil
  | @cons es e _ hf ih =>
    rw [List.map_cons, List.isChain_cons]
    refine ⟨fun e' he' ↦ ?_, ih⟩
    rw [List.head?_map] at he'
    obtain ⟨e₀, he₀, rfl⟩ := Option.map_eq_some_iff.1 he'
    exact hf.turn e₀ he₀

end Trace

end SearchSettings

end RoadRouting
