import RoadRouting.Proofs.Access.Windows
import Mathlib.Data.List.Induction

namespace RoadRouting.AccessRules

inductive Call where
  | closeDuring (edge : EdgeId) (w : Window)
  | openOnlyDuring (edge : EdgeId) (w : Window)
  deriving DecidableEq, Repr

namespace Call

def edge : Call → EdgeId
  | closeDuring edge _ | openOnlyDuring edge _ => edge

def window : Call → Window
  | closeDuring _ w | openOnlyDuring _ w => w

def closes : Call → Bool
  | closeDuring .. => true
  | openOnlyDuring .. => false

def apply (a : AccessRules) : Call → AccessRules
  | closeDuring edge w => a.closeDuring edge w
  | openOnlyDuring edge w => a.openOnlyDuring edge w

theorem apply_eq (a : AccessRules) (c : Call) : c.apply a = a.add c.edge c.closes c.window := by
  cases c <;> rfl

end Call

def afterCalls (calls : List Call) : AccessRules := calls.foldl Call.apply empty

def callsFor (edge : EdgeId) (calls : List Call) : List Call := calls.filter fun c ↦ c.edge = edge

variable {K : Type} {calls : List Call} {edge : EdgeId} {t : Instant}

theorem getElem?_add (a : AccessRules) (edge other : EdgeId) (openByDefault : Bool) (w : Window) :
    (a.add edge openByDefault w).rules[other]? =
      if edge = other then
        some ⟨openByDefault, ((a.rules[edge]?).elim [] AccessRule.windows) ++ [w]⟩
      else a.rules[other]? := by
  rw [add, Std.TreeMap.getElem?_insert]
  simp only [Nat.compare_eq_eq]
  cases a.rules[edge]? <;> rfl

theorem getElem?_afterCalls (calls : List Call) (edge : EdgeId) :
    (afterCalls calls).rules[edge]? = ((callsFor edge calls).getLast?).map fun last ↦
      ⟨last.closes, (callsFor edge calls).map Call.window⟩ := by
  induction calls using List.reverseRecOn with
  | nil => simp [afterCalls, empty, callsFor]
  | append_singleton calls c ih =>
    have hafter : afterCalls (calls ++ [c]) = c.apply (afterCalls calls) := by
      simp only [afterCalls, List.foldl_append, List.foldl_cons, List.foldl_nil]
    rw [hafter, Call.apply_eq, getElem?_add]
    by_cases h : c.edge = edge
    · have hown : callsFor edge (calls ++ [c]) = callsFor edge calls ++ [c] := by
        simp [callsFor, h]
      rw [if_pos h, h, ih, hown, List.getLast?_concat, List.map_append]
      cases hlast : (callsFor edge calls).getLast? with
      | none => simp [List.getLast?_eq_none_iff.1 hlast]
      | some last => rfl
    · have hown : callsFor edge (calls ++ [c]) = callsFor edge calls := by simp [callsFor, h]
      rw [if_neg h, ih, hown]

def ClosedAt (calls : List Call) (edge : EdgeId) (t : Instant) : Prop :=
  ∃ w, .closeDuring edge w ∈ calls ∧ w.Includes t

def IsRestricted (calls : List Call) (edge : EdgeId) : Prop := ∃ w, .openOnlyDuring edge w ∈ calls

def OpenedAt (calls : List Call) (edge : EdgeId) (t : Instant) : Prop :=
  ∃ w, .openOnlyDuring edge w ∈ calls ∧ w.Includes t

/-- Every call for the edge is kept at the instant. -/
def Permits (calls : List Call) (edge : EdgeId) (t : Instant) : Prop :=
  ¬ClosedAt calls edge t ∧ (IsRestricted calls edge → OpenedAt calls edge t)

def EndsClosing (calls : List Call) (edge : EdgeId) : Prop :=
  ∃ w, (callsFor edge calls).getLast? = some (.closeDuring edge w)

theorem mem_callsFor {c : Call} : c ∈ callsFor edge calls ↔ c ∈ calls ∧ c.edge = edge := by
  simp [callsFor]

theorem exists_includes_iff : (∃ w ∈ (callsFor edge calls).map Call.window, w.Includes t) ↔
    ClosedAt calls edge t ∨ OpenedAt calls edge t := by
  simp only [List.mem_map, mem_callsFor]
  constructor
  · rintro ⟨_, ⟨c, ⟨hc, rfl⟩, rfl⟩, hw⟩
    cases c with
    | closeDuring edge w => exact .inl ⟨w, hc, hw⟩
    | openOnlyDuring edge w => exact .inr ⟨w, hc, hw⟩
  · rintro (⟨w, hc, hw⟩ | ⟨w, hc, hw⟩)
    · exact ⟨w, ⟨_, ⟨hc, rfl⟩, rfl⟩, hw⟩
    · exact ⟨w, ⟨_, ⟨hc, rfl⟩, rfl⟩, hw⟩

theorem OpenedAt.isRestricted (h : OpenedAt calls edge t) : IsRestricted calls edge :=
  h.imp fun _ ↦ And.left

theorem allows_afterCalls (e : EdgeView K) : (afterCalls calls).allows e t =
    (callsFor e.edge calls).getLast?.all fun last ↦
      AccessRule.isOpen ⟨last.closes, (callsFor e.edge calls).map Call.window⟩ t := by
  rw [allows, getElem?_afterCalls]
  cases (callsFor e.edge calls).getLast? <;> rfl

theorem allows_iff_of_endsClosing {e : EdgeView K} (h : EndsClosing calls e.edge) :
    (afterCalls calls).allows e t = true ↔
      ¬(ClosedAt calls e.edge t ∨ OpenedAt calls e.edge t) := by
  obtain ⟨w, hlast⟩ := h
  rw [allows_afterCalls, hlast, Option.all_some, AccessRule.isOpen_eq, ← exists_includes_iff]
  split
  next hin => simpa [Call.closes] using hin
  next hin => simpa [Call.closes] using hin

theorem getLast?_of_not_endsClosing (h : ¬EndsClosing calls edge) :
    callsFor edge calls = [] ∨
      ∃ w, (callsFor edge calls).getLast? = some (.openOnlyDuring edge w) := by
  cases hlast : (callsFor edge calls).getLast? with
  | none => exact .inl (List.getLast?_eq_none_iff.1 hlast)
  | some last =>
    obtain ⟨-, hedge⟩ := mem_callsFor.1 (List.mem_of_getLast? hlast)
    cases last with
    | closeDuring _ w =>
      cases hedge
      exact absurd ⟨w, hlast⟩ h
    | openOnlyDuring _ w =>
      cases hedge
      exact .inr ⟨w, rfl⟩

theorem allows_iff_of_not_endsClosing {e : EdgeView K} (h : ¬EndsClosing calls e.edge) :
    (afterCalls calls).allows e t = true ↔
      (IsRestricted calls e.edge → ClosedAt calls e.edge t ∨ OpenedAt calls e.edge t) := by
  rw [allows_afterCalls]
  rcases getLast?_of_not_endsClosing h with hnone | ⟨w, hlast⟩
  · have hfree : ¬IsRestricted calls e.edge := fun ⟨w, hw⟩ ↦
      List.not_mem_nil (hnone ▸ mem_callsFor.2 ⟨hw, rfl⟩)
    simp [hnone, hfree]
  · have hrestricted : IsRestricted calls e.edge :=
      ⟨w, (mem_callsFor.1 (List.mem_of_getLast? hlast)).1⟩
    rw [hlast, Option.all_some, AccessRule.isOpen_eq, ← exists_includes_iff]
    simp [Call.closes, hrestricted]

/-- An edge can be entered exactly when all calls permit it, except where both kinds of calls
concern it. There this holds at an instant if and only if the last call is one that closes and some
window given to such calls includes the instant, or neither. -/
theorem allows_iff_permits (calls : List Call) (e : EdgeView K) (t : Instant) :
    ((afterCalls calls).allows e t = true ↔ Permits calls e.edge t) ↔
      ((∃ w, .closeDuring e.edge w ∈ calls) → IsRestricted calls e.edge →
        (ClosedAt calls e.edge t ↔ EndsClosing calls e.edge)) := by
  have hclosed : ClosedAt calls e.edge t → ∃ w, .closeDuring e.edge w ∈ calls :=
    Exists.imp fun _ ↦ And.left
  by_cases hends : EndsClosing calls e.edge
  · have hcloses : ∃ w, .closeDuring e.edge w ∈ calls :=
      hends.imp fun w hlast ↦ (mem_callsFor.1 (List.mem_of_getLast? hlast)).1
    rw [allows_iff_of_endsClosing hends, Permits]
    simp only [hends, iff_true, hcloses, forall_const]
    constructor
    · intro h hrestricted
      by_contra hnot
      have hout : ¬OpenedAt calls e.edge t := fun ho ↦ h.2 ⟨hnot, fun _ ↦ ho⟩ (.inr ho)
      exact hout ((h.1 (not_or.2 ⟨hnot, hout⟩)).2 hrestricted)
    · intro h
      refine ⟨fun hout ↦ ⟨hout ∘ .inl, fun hr ↦ absurd (.inl (h hr)) hout⟩, fun ⟨hnot, _⟩ ↦ ?_⟩
      exact not_or.2 ⟨hnot, fun ho ↦ hnot (h ho.isRestricted)⟩
  · have hrestricted : (∃ w, .closeDuring e.edge w ∈ calls) → IsRestricted calls e.edge := by
      rintro ⟨w, hw⟩
      rcases getLast?_of_not_endsClosing hends with hnone | ⟨w', hlast⟩
      · exact absurd (hnone ▸ mem_callsFor.2 ⟨hw, rfl⟩) List.not_mem_nil
      · exact ⟨w', (mem_callsFor.1 (List.mem_of_getLast? hlast)).1⟩
    rw [allows_iff_of_not_endsClosing hends, Permits]
    simp only [hends, iff_false]
    constructor
    · intro h _ _ hc
      exact (h.1 fun _ ↦ .inl hc).1 hc
    · intro h
      have hnot : ¬ClosedAt calls e.edge t := fun hc ↦
        h (hclosed hc) (hrestricted (hclosed hc)) hc
      exact ⟨fun hin ↦ ⟨hnot, fun hr ↦ (hin hr).resolve_left hnot⟩, fun hp hr ↦ .inr (hp.2 hr)⟩

/-- A road is closed from seven to nine and open only from ten to eleven. The second call makes both
of them windows in which it is open, so at eight it can be entered. -/
theorem allows_not_permits_mixedCalls :
    let road : EdgeView Nat := ⟨1, 0, 1, 1, ⟨true, true⟩, ⟨36, 36⟩, 1, 1, false⟩
    let calls : List Call :=
      [.closeDuring 1 ⟨[], ⟨25200, 0⟩, ⟨32400, 0⟩⟩, .openOnlyDuring 1 ⟨[], ⟨36000, 0⟩, ⟨39600, 0⟩⟩]
    (afterCalls calls).allows road 28800000 = true ∧ ¬Permits calls road.edge 28800000 := by
  intro road calls
  have hclosed : ClosedAt calls road.edge 28800000 :=
    ⟨_, List.mem_cons_self, ⟨0, 28800, 0⟩, rfl, by decide⟩
  exact ⟨by decide +kernel, fun h ↦ h.1 hclosed⟩

end RoadRouting.AccessRules
