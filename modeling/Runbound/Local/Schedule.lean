import Runbound.Local.Interleaving

/-!
# Schedule windows (`store.rs`)

A blacklist entry may carry a window: days of the week and two times of day, in UTC. A window
whose end is before its start runs over midnight and belongs to the day on which it starts.

Results:
* `isActiveNow_iff`: `is_active_now` agrees with this except in the part of a window after
  midnight, where it asks whether the day that has begun is in the list.
* `monday_night_missed`: the night from Monday to Tuesday of a window for Mondays.
-/

namespace Runbound.Local

open Wire (Byte Bytes)

/-! ## Specification -/

/-- The day of the week, 0 for Sunday. Day 0 is that of the epoch, a Thursday. -/
def weekday (d : ℤ) : ℤ := (d + 4) % 7

/-- The window is for this day: the list has it, or is empty. -/
def ScheduleWindow.Allows (w : ScheduleWindow) (d : ℤ) : Prop :=
  w.days = [] ∨ ∃ x ∈ w.days, (x.val : ℤ) = weekday d

instance (w : ScheduleWindow) (d : ℤ) : Decidable (w.Allows d) :=
  inferInstanceAs (Decidable (_ ∨ _))

/-- The second `now` lies in the window of an allowed day, from minute `s` of the day to minute
    `e` of the same day or, if that is earlier, of the next. -/
def ScheduleWindow.Covers (w : ScheduleWindow) (s e now : ℕ) : Prop :=
  ∃ d : ℤ, w.Allows d ∧ d * 86400 + 60 * s ≤ now ∧
    (now : ℤ) < (if s ≤ e then d else d + 1) * 86400 + 60 * e

/-! ## The code -/

variable {w : ScheduleWindow} {s e now : ℕ}

theorem minutesOf_of_valid {t : Bytes} (h : validHhmm t = true) :
    ∃ m, minutesOf t = some m ∧ m < 1440 := by
  simp only [validHhmm, Bool.and_eq_true] at h
  obtain ⟨hour, hhour⟩ := Option.isSome_iff_exists.mp h.1.2
  obtain ⟨minute, hminute⟩ := Option.isSome_iff_exists.mp h.2
  have hle : ∀ {pos max v : ℕ}, timePart t pos max = some v → v ≤ max := by
    intro pos max v hv
    unfold timePart at hv
    split_ifs at hv
    simpa using (Option.filter_eq_some_iff.mp hv).2
  have h23 := hle hhour
  have h59 := hle hminute
  refine ⟨hour * 60 + minute, ?_, by omega⟩
  rw [minutesOf, hhour, hminute]
  rfl

/-- `is_active_now` looks at the day that has begun, and at the time of day. -/
theorem isActiveNow_eq_true_iff (hs : minutesOf w.start = some s) (he : minutesOf w.stop = some e) :
    w.isActiveNow now = true ↔ w.Allows (now / 86400 : ℕ) ∧
      if s ≤ e then 60 * s ≤ now % 86400 ∧ now % 86400 < 60 * e
      else 60 * s ≤ now % 86400 ∨ now % 86400 < 60 * e := by
  have hday : (w.days ≠ [] ∧ ∀ d ∈ w.days, d.val ≠ (now / 86400 + 4) % 7) ↔
      ¬ w.Allows (now / 86400 : ℕ) := by
    have hcast : ∀ x : Byte, (x.val : ℤ) = weekday (now / 86400 : ℕ) ↔
        x.val = (now / 86400 + 4) % 7 := by
      unfold weekday
      omega
    simp only [ScheduleWindow.Allows, hcast]
    push Not
    rfl
  unfold ScheduleWindow.isActiveNow
  simp only [hs, he]
  by_cases hallowed : w.Allows (now / 86400 : ℕ)
  · rw [if_neg (mt hday.mp (not_not.mpr hallowed))]
    split_ifs with hle
    · simp only [Bool.and_eq_true, decide_eq_true_eq, hallowed, true_and]
      omega
    · simp only [Bool.or_eq_true, decide_eq_true_eq, hallowed, true_and]
      omega
  · rw [if_pos (hday.mpr hallowed)]
    simp only [hallowed, false_and, Bool.false_eq_true]

/-- The window of today, or what is left of yesterday's. -/
theorem covers_iff (hs : s < 1440) (he : e < 1440) :
    w.Covers s e now ↔
      if s ≤ e then w.Allows (now / 86400 : ℕ) ∧ 60 * s ≤ now % 86400 ∧ now % 86400 < 60 * e
      else w.Allows (now / 86400 : ℕ) ∧ 60 * s ≤ now % 86400 ∨
        w.Allows ((now / 86400 : ℕ) - 1) ∧ now % 86400 < 60 * e := by
  split_ifs with hle
  · constructor
    · rintro ⟨d, hd, hfrom, hto⟩
      obtain rfl : d = (now / 86400 : ℕ) := by omega
      exact ⟨hd, by omega, by omega⟩
    · rintro ⟨hd, hfrom, hto⟩
      exact ⟨_, hd, by omega, by omega⟩
  · constructor
    · rintro ⟨d, hd, hfrom, hto⟩
      rcases (show d = (now / 86400 : ℕ) ∨ d = (now / 86400 : ℕ) - 1 by omega) with rfl | rfl
      · exact Or.inl ⟨hd, by omega⟩
      · exact Or.inr ⟨hd, by omega⟩
    · rintro (⟨hd, hfrom⟩ | ⟨hd, hto⟩)
      · exact ⟨_, hd, by omega, by omega⟩
      · exact ⟨_, hd, by omega, by omega⟩

/-- A window with valid times is active exactly when it should be, except that in the part of a
    window after midnight the day that has begun and the one before must both be in the list or
    both not. -/
theorem isActiveNow_iff (hstart : validHhmm w.start = true) (hstop : validHhmm w.stop = true)
    (now : ℕ) :
    ∃ s e, minutesOf w.start = some s ∧ minutesOf w.stop = some e ∧
      ((w.isActiveNow now = true ↔ w.Covers s e now) ↔
        (e < s → now % 86400 < 60 * e →
          (w.Allows (now / 86400 : ℕ) ↔ w.Allows ((now / 86400 : ℕ) - 1)))) := by
  obtain ⟨s, hs, hslt⟩ := minutesOf_of_valid hstart
  obtain ⟨e, he, helt⟩ := minutesOf_of_valid hstop
  refine ⟨s, e, hs, he, ?_⟩
  rw [isActiveNow_eq_true_iff hs he, covers_iff hslt helt]
  by_cases hle : s ≤ e
  · simp [hle]
  · rw [if_neg hle, if_neg hle]
    -- after midnight the start is still to come, so that only one side of each window is left
    have hwrap : now % 86400 < 60 * e → ¬ 60 * s ≤ now % 86400 := by omega
    have hlt : e < s := not_le.mp hle
    by_cases hearly : now % 86400 < 60 * e
    · simp [hlt, hwrap hearly]
    · simp [hearly]

/-- `22:00` to `06:00` on Mondays. -/
def mondayNight : ScheduleWindow := ⟨[1], [50, 50, 58, 48, 48], [48, 54, 58, 48, 48]⟩

/-- On the Monday evening itself, 5 January 1970 at 23:00, the two agree. -/
theorem isActiveNow_iff_evening : validHhmm mondayNight.start = true ∧
    validHhmm mondayNight.stop = true ∧ mondayNight.isActiveNow 428400 = true ∧
    ∃ s e, minutesOf mondayNight.start = some s ∧ minutesOf mondayNight.stop = some e ∧
      ((mondayNight.isActiveNow 428400 = true ↔ mondayNight.Covers s e 428400) ↔
        (e < s → 428400 % 86400 < 60 * e → (mondayNight.Allows (428400 / 86400 : ℕ) ↔
          mondayNight.Allows ((428400 / 86400 : ℕ) - 1)))) :=
  ⟨by decide, by decide, by decide +kernel, isActiveNow_iff (by decide) (by decide) 428400⟩

/-- At 01:00 of the night from Monday to Tuesday the window is not active. -/
theorem monday_night_missed : mondayNight.isActiveNow 435600 = false ∧
    mondayNight.Covers 1320 360 435600 :=
  ⟨by decide +kernel, 4, by decide +kernel, by norm_num, by norm_num⟩

end Runbound.Local
