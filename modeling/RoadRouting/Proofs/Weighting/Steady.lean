import RoadRouting.Proofs.Search.Timeless

namespace RoadRouting

open Scalar (Exact)

variable {K : Type}

inductive SpeedSource.IsProvided [Scalar K] : SpeedSource K → Prop
  | stored : IsProvided .stored
  | hourly (h : HourlyFactors K) : IsProvided h.source

theorem SpeedSource.IsProvided.eq_stored [Scalar K] {speeds : SpeedSource K} (h : speeds.IsProvided)
    (hflag : speeds.isTimeDependent = false) : speeds = .stored := by
  cases h with
  | stored => rfl
  | hourly _ => cases hflag

namespace Weighting

def weightWhen (w : Weighting K) (e : EdgeView K) (d : Direction) (neighbour : Option EdgeId) :
    Option Instant → Except (QueryError K) K
  | none => w.weight e d neighbour
  | some t => w.weightAt e d neighbour t

def durationWhen (w : Weighting K) (e : EdgeView K) (d : Direction) (neighbour : Option EdgeId) :
    Option Instant → Except (QueryError K) Duration
  | none => w.duration e d neighbour
  | some t => w.durationAt e d neighbour t

theorem isSteady_iff {w : Weighting K} : w.IsSteady ↔ ∀ e d before at?,
    w.weightWhen e d before at? = w.weight e d before ∧
      w.durationWhen e d before at? = w.duration e d before := by
  constructor
  · intro h e d before at?
    cases at? with
    | none => exact ⟨rfl, rfl⟩
    | some t => exact ⟨h.weightAt_eq e d before t, h.durationAt_eq e d before t⟩
  · intro h
    exact ⟨fun e d before t ↦ (h e d before (some t)).1,
      fun e d before t ↦ (h e d before (some t)).2⟩

variable [Scalar K] {speeds : SpeedSource K} {base w : Weighting K}

/-- Turn costs and access policies, any number of them, around a weighting. -/
inductive Underlies (base : Weighting K) : Weighting K → Prop
  | here : Underlies base base
  | withTurns {w : Weighting K} (turns : TurnCosts K) : Underlies base w →
      Underlies base (w.withTurns turns)
  | withAccess {w : Weighting K} (access : AccessPolicy K) : Underlies base w →
      Underlies base (w.withAccess access)

inductive IsBasic (speeds : SpeedSource K) : Weighting K → Prop
  | fastest (maxSpeed : K) : IsBasic speeds (fastest speeds maxSpeed)
  | shortest : IsBasic speeds (shortest speeds)

theorem weightWhen_withTurns (w : Weighting K) (turns : TurnCosts K) (e : EdgeView K)
    (d : Direction) (before : Option EdgeId) (at? : Option Instant) :
    (w.withTurns turns).weightWhen e d before at? =
      (w.weightWhen e d before at?).map (· + turnWeight turns e d before) := by
  cases at? with
  | none => exact weight_withTurns w turns e d before
  | some t => cases h : w.weightAt e d before t <;> simp [weightWhen, withTurns, h] <;> rfl

theorem durationWhen_withTurns (w : Weighting K) (turns : TurnCosts K) (e : EdgeView K)
    (d : Direction) (before : Option EdgeId) (at? : Option Instant) :
    (w.withTurns turns).durationWhen e d before at? =
      (w.durationWhen e d before at?).map (· + turnDuration turns e d before) := by
  cases at? with
  | none => exact duration_withTurns w turns e d before
  | some t => cases h : w.durationAt e d before t <;> simp [durationWhen, withTurns, h] <;> rfl

theorem map_add_inj {ε : Type} {x y : Except ε Duration} (δ : Duration) :
    x.map (· + δ) = y.map (· + δ) ↔ x = y := by
  cases x <;> cases y <;> simp [Except.map]

theorem IsBasic.durationWhen_eq (h : base.IsBasic speeds) (e : EdgeView K) (d : Direction)
    (before : Option EdgeId) (at? : Option Instant) :
    base.durationWhen e d before at? = millisAt speeds e d at? := by
  cases h with
  | fastest maxSpeed => cases at? <;> rfl
  | shortest => cases at? <;> rfl

theorem IsBasic.weightWhen_eq (h : base.IsBasic speeds) (hs : speeds.IsProvided)
    (hflag : base.isTimeDependent = false) (e : EdgeView K) (d : Direction) (before : Option EdgeId)
    (at? : Option Instant) : base.weightWhen e d before at? = base.weight e d before := by
  cases h with
  | fastest maxSpeed =>
    cases hs.eq_stored hflag
    cases at? <;> rfl
  | shortest => cases at? <;> rfl

theorem Underlies.isTimeDependent_base (h : base.Underlies w) (hflag : w.isTimeDependent = false) :
    base.isTimeDependent = false := by
  induction h with
  | here => exact hflag
  | withTurns turns _ ih => exact ih hflag
  | withAccess access _ _ => cases hflag

theorem Underlies.weightWhen_eq (h : base.Underlies w) (hflag : w.isTimeDependent = false)
    (hbase : ∀ e d before at?, base.weightWhen e d before at? = base.weight e d before)
    (e : EdgeView K) (d : Direction) (before : Option EdgeId) (at? : Option Instant) :
    w.weightWhen e d before at? = w.weight e d before := by
  induction h with
  | here => exact hbase e d before at?
  | withTurns turns _ ih => rw [weightWhen_withTurns, ih hflag, weight_withTurns]
  | withAccess access _ _ => cases hflag

theorem Underlies.durationWhen_eq_iff (h : base.Underlies w) (e : EdgeView K) (d : Direction)
    (before : Option EdgeId) (at? at?' : Option Instant) :
    w.durationWhen e d before at? = w.durationWhen e d before at?' ↔
      base.durationWhen e d before at? = base.durationWhen e d before at?' := by
  induction h with
  | here => rfl
  | withTurns turns _ ih => rw [durationWhen_withTurns, durationWhen_withTurns, map_add_inj, ih]
  | withAccess access _ ih =>
    rw [← ih]
    cases at? <;> cases at?' <;> rfl

/-- If a weighting does not call itself dependent on the time, no weight is, and a duration is
exactly where the speed is that it comes from. So the weighting is steady, unless it rests on the
shortest path with speeds that change by the hour. -/
theorem when_of_not_isTimeDependent (hs : speeds.IsProvided) (hbase : base.IsBasic speeds)
    (hw : base.Underlies w) (hflag : w.isTimeDependent = false) :
    (∀ e d before at?, w.weightWhen e d before at? = w.weight e d before) ∧
      (∀ e d before at? at?', w.durationWhen e d before at? = w.durationWhen e d before at?' ↔
        millisAt speeds e d at? = millisAt speeds e d at?') ∧
      (w.IsSteady ∨ base = shortest speeds ∧ ∃ h : HourlyFactors K, speeds = h.source) := by
  have hflag' := hw.isTimeDependent_base hflag
  have hweight := hw.weightWhen_eq hflag (hbase.weightWhen_eq hs hflag')
  have hduration : ∀ e d before at? at?',
      w.durationWhen e d before at? = w.durationWhen e d before at?' ↔
        millisAt speeds e d at? = millisAt speeds e d at?' := by
    intro e d before at? at?'
    rw [hw.durationWhen_eq_iff, hbase.durationWhen_eq, hbase.durationWhen_eq]
  refine ⟨hweight, hduration, ?_⟩
  have hsteady : speeds = .stored → w.IsSteady := by
    rintro rfl
    exact isSteady_iff.2 fun e d before at? ↦
      ⟨hweight e d before at?, (hduration e d before at? none).2 rfl⟩
  cases hs with
  | stored => exact .inl (hsteady rfl)
  | hourly h =>
    cases hbase with
    | fastest maxSpeed => cases hflag'
    | shortest => exact .inr ⟨rfl, h, rfl⟩

end Weighting

namespace Roads

def rushHour : HourlyFactors Exact :=
  HourlyFactors.empty.set 0 (Vector.ofFn fun hour ↦ if hour.val = 8 then 0.5 else 1.0)

def rushHourRoad : EdgeView Exact := ⟨0, 0, 1, 100.0, ⟨true, true⟩, ⟨36.0, 36.0⟩, 0, 0, false⟩

end Roads

namespace Weighting

theorem when_of_not_isTimeDependent_rushHour :
    let w := (shortest Roads.rushHour.source).withTurns fun _ _ _ ↦ 5.0
    w.isTimeDependent = false ∧
      w.durationAt Roads.rushHourRoad .forward (some 3) 25200000 =
        w.duration Roads.rushHourRoad .forward (some 3) ∧
      w.durationAt Roads.rushHourRoad .forward (some 3) 28800000 ≠
        w.duration Roads.rushHourRoad .forward (some 3) := by
  intro w
  obtain ⟨-, hduration, -⟩ := when_of_not_isTimeDependent
    (SpeedSource.IsProvided.hourly Roads.rushHour) .shortest
    (.withTurns (fun _ _ _ ↦ 5.0) .here) rfl
  have hseven := hduration Roads.rushHourRoad .forward (some 3) (some 25200000) none
  have height := hduration Roads.rushHourRoad .forward (some 3) (some 28800000) none
  exact ⟨rfl, hseven.2 (by decide +kernel), mt height.1 (by decide +kernel)⟩

/-- The shortest path does not call itself dependent on the time, but at eight the road takes twenty
seconds and not ten. -/
theorem durationAt_ne_duration_rushHour :
    (shortest Roads.rushHour.source).isTimeDependent = false ∧
      (shortest Roads.rushHour.source).duration Roads.rushHourRoad .forward none = .ok 10000 ∧
      (shortest Roads.rushHour.source).durationAt Roads.rushHourRoad .forward none 28800000 =
        .ok 20000 :=
  ⟨rfl, by decide +kernel, by decide +kernel⟩

end Weighting

end RoadRouting
