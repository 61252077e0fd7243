import RoadRouting.Access

namespace RoadRouting

namespace Moment

instance : LT Moment := ⟨fun m n ↦ m.day < n.day ∨ m.day = n.day ∧ m.clock < n.clock⟩

instance : LE Moment := ⟨fun m n ↦ m.day < n.day ∨ m.day = n.day ∧ m.clock ≤ n.clock⟩

instance (m n : Moment) : Decidable (m < n) :=
  inferInstanceAs (Decidable (m.day < n.day ∨ m.day = n.day ∧ m.clock < n.clock))

instance (m n : Moment) : Decidable (m ≤ n) :=
  inferInstanceAs (Decidable (m.day < n.day ∨ m.day = n.day ∧ m.clock ≤ n.clock))

variable {m n : Moment} {millis : Int} {t : Instant}

theorem lt_def : m < n ↔ m.day < n.day ∨ m.day = n.day ∧ m.clock < n.clock := Iff.rfl

theorem le_def : m ≤ n ↔ m.day < n.day ∨ m.day = n.day ∧ m.clock ≤ n.clock := Iff.rfl

/-- The whole days before the moment and its time of the day make up the milliseconds. -/
structure IsAt (m : Moment) (millis : Int) : Prop where
  second_lt : m.clock.second < 86400
  nano_lt : m.clock.nano < ClockTime.nanosPerSecond
  nanos_eq : (millisPerDay * m.day + 1000 * m.clock.second) * 1000000 + m.clock.nano =
    millis * 1000000

theorem isAt_ofMillis (millis : Int) : (ofMillis millis).IsAt millis where
  second_lt := by
    simp only [ofMillis, millisPerDay]
    omega
  nano_lt := by
    simp only [ofMillis, ClockTime.nanosPerSecond]
    omega
  nanos_eq := by
    simp only [ofMillis, millisPerDay]
    omega

theorem IsAt.eq_ofMillis (h : m.IsAt millis) : m = ofMillis millis := by
  obtain ⟨day, second, nano⟩ := m
  have hsecond : second < 86400 := h.second_lt
  have hnano : nano < 1000000000 := h.nano_lt
  have hnanos : ((86400000 * day + 1000 * second : Int)) * 1000000 + nano = millis * 1000000 :=
    h.nanos_eq
  have hday : day = millis / 86400000 := by omega
  have hclock : second = (millis % 86400000).toNat / 1000 ∧
      nano = (millis % 86400000).toNat % 1000 * 1000000 := by omega
  simp only [ofMillis, millisPerDay, ← hday, ← hclock.1, ← hclock.2]

theorem isAt_iff : m.IsAt millis ↔ m = ofMillis millis :=
  ⟨IsAt.eq_ofMillis, fun h ↦ h ▸ isAt_ofMillis millis⟩

theorem ofInstant?_eq_some_iff :
    ofInstant? t = some m ↔ firstMillis ≤ t.toInt ∧ t.toInt ≤ lastMillis ∧ m.IsAt t.toInt := by
  simp only [ofInstant?, isAt_iff]
  split
  next h => simp [h.1, h.2, eq_comm]
  next h => simp only [reduceCtorEq, false_iff]; exact fun h' ↦ h ⟨h'.1, h'.2.1⟩

end Moment

namespace Window

variable {w : Window} {m : Moment} {d : Int} {t : Instant}

theorem beginsOn_iff {day : Weekday} : w.beginsOn day = true ↔ w.days = [] ∨ day ∈ w.days := by
  simp [beginsOn]

def lastDay (w : Window) (d : Int) : Int := if w.start ≤ w.finish then d else d + 1

/-- The moment lies in the stretch of the window that begins on day `d`. -/
def Lasts (w : Window) (d : Int) (m : Moment) : Prop :=
  ⟨d, w.start⟩ ≤ m ∧ m < ⟨w.lastDay d, w.finish⟩

theorem lasts_iff_of_le (h : w.start ≤ w.finish) :
    w.Lasts d m ↔ m.day = d ∧ w.start ≤ m.clock ∧ m.clock < w.finish := by
  simp only [Lasts, lastDay, if_pos h, Moment.le_def, Moment.lt_def]
  constructor
  · rintro ⟨hstart | ⟨hstart, hs⟩, hfinish | ⟨hfinish, hf⟩⟩
    · omega
    · omega
    · omega
    · exact ⟨hfinish, hs, hf⟩
  · rintro ⟨rfl, hs, hf⟩
    exact ⟨.inr ⟨rfl, hs⟩, .inr ⟨rfl, hf⟩⟩

theorem lasts_iff_of_not_le (h : ¬w.start ≤ w.finish) :
    w.Lasts d m ↔ m.day = d ∧ w.start ≤ m.clock ∨ m.day - 1 = d ∧ m.clock < w.finish := by
  simp only [Lasts, lastDay, if_neg h, Moment.le_def, Moment.lt_def]
  constructor
  · rintro ⟨hstart | ⟨hstart, hs⟩, hfinish | ⟨hfinish, hf⟩⟩
    · omega
    · exact .inr ⟨by omega, hf⟩
    · exact .inl ⟨hstart.symm, hs⟩
    · omega
  · rintro (⟨rfl, hs⟩ | ⟨rfl, hf⟩)
    · exact ⟨.inr ⟨rfl, hs⟩, .inl (by omega)⟩
    · exact ⟨.inl (by omega), .inr ⟨by omega, hf⟩⟩

/-- A window contains what lies in one of its stretches. After midnight that is the stretch which
began on the day before. -/
theorem contains_iff : w.contains m = true ↔
    ∃ d, (w.days = [] ∨ Weekday.ofDay d ∈ w.days) ∧ w.Lasts d m := by
  simp only [← beginsOn_iff]
  by_cases h : w.start ≤ w.finish
  · simp only [contains, if_pos h, lasts_iff_of_le h, Moment.weekday, Bool.and_eq_true,
      decide_eq_true_eq]
    constructor
    · rintro ⟨⟨hday, hs⟩, hf⟩
      exact ⟨_, hday, rfl, hs, hf⟩
    · rintro ⟨_, hday, rfl, hs, hf⟩
      exact ⟨⟨hday, hs⟩, hf⟩
  · simp only [contains, if_neg h, lasts_iff_of_not_le h, Moment.weekday, Bool.or_eq_true,
      Bool.and_eq_true, decide_eq_true_eq, ← Weekday.ofDay_pred]
    constructor
    · rintro (⟨hs, hday⟩ | ⟨hf, hday⟩)
      · exact ⟨_, hday, .inl ⟨rfl, hs⟩⟩
      · exact ⟨_, hday, .inr ⟨rfl, hf⟩⟩
    · rintro ⟨_, hday, ⟨rfl, hs⟩ | ⟨rfl, hf⟩⟩
      · exact .inl ⟨hs, hday⟩
      · exact .inr ⟨hf, hday⟩

def Includes (w : Window) (t : Instant) : Prop :=
  ∃ m, Moment.ofInstant? t = some m ∧ w.contains m = true

theorem includes_iff (h : Moment.ofInstant? t = some m) : w.Includes t ↔ w.contains m = true := by
  simp [Includes, h]

end Window

namespace AccessRule

variable {r : AccessRule} {t : Instant}

theorem isInside_iff : r.isInside t = true ↔ ∃ w ∈ r.windows, w.Includes t := by
  unfold isInside Window.Includes
  split
  next m hm => simp [hm]
  next hm => simp [hm]

open Classical in
theorem isOpen_eq : r.isOpen t =
    if ∃ w ∈ r.windows, w.Includes t then !r.openByDefault else r.openByDefault := by
  rw [isOpen]
  split
  next h => simp [isInside_iff.2 h]
  next h => simp [Bool.eq_false_iff.2 (mt isInside_iff.1 h)]

end AccessRule

/-- What windows and rules say about an instant of the calendar, told by the day and the clock time
into which it is split. -/
theorem windows_at_instant {t : Instant} (hfirst : Moment.firstMillis ≤ t.toInt)
    (hlast : t.toInt ≤ Moment.lastMillis) :
    ∃ m, Moment.ofInstant? t = some m ∧ m.IsAt t.toInt ∧
      (∀ w : Window, w.contains m = true ↔
        ∃ d, (w.days = [] ∨ Weekday.ofDay d ∈ w.days) ∧ w.Lasts d m) ∧
      ∀ r : AccessRule, r.isOpen t = !r.openByDefault ↔ ∃ w ∈ r.windows, w.contains m = true := by
  have hat := Moment.isAt_ofMillis t.toInt
  have hm := Moment.ofInstant?_eq_some_iff.2 ⟨hfirst, hlast, hat⟩
  refine ⟨_, hm, hat, fun w ↦ Window.contains_iff, fun r ↦ ?_⟩
  simp only [AccessRule.isOpen_eq, Window.includes_iff hm]
  split
  next h => simp [h]
  next h => simp [h]

theorem windows_at_instant_overnight :
    let night : Window := ⟨[.sunday], ⟨79200, 0⟩, ⟨21600, 0⟩⟩
    ∃ m, Moment.ofInstant? (-248400000) = some m ∧ m.weekday = .monday ∧
      (∃ d, Weekday.ofDay d = .sunday ∧ night.Lasts d m) ∧
      AccessRule.isOpen ⟨true, [night]⟩ (-248400000) = false := by
  intro night
  obtain ⟨m, hm, -, hcontains, hopen⟩ :=
    windows_at_instant (t := -248400000) (by decide) (by decide)
  have hmonday : Moment.ofInstant? (-248400000) = some ⟨-3, ⟨10800, 0⟩⟩ := by decide +kernel
  obtain rfl := Option.some.inj (hmonday.symm.trans hm)
  have hnight : night.contains ⟨-3, ⟨10800, 0⟩⟩ = true := by decide
  obtain ⟨d, hday, hlasts⟩ := (hcontains night).1 hnight
  refine ⟨_, hm, by decide, ⟨d, by simpa [night] using hday, hlasts⟩, ?_⟩
  exact (hopen ⟨true, [night]⟩).2 ⟨night, by simp, hnight⟩

end RoadRouting
