import MyServer.Periods
import Mathlib.Algebra.Group.Nat.Defs

/-!
# Calendar boundaries (`time_helper.cpp`)

`nextDay`, `nextWeek`, `nextHalfHour`, `next2Minute` and `nextHour` take a timestamp apart
with `localTime` and put together the next boundary of the local calendar. They compute with
`unsigned`, and 0 stands for the current time.

The boundaries are said with the civil fields and are grids of the time line, whatever the
zone (`isMidnight_iff` and its companions). Each sum is the next point of its grid
(`daySum_eq` and its companions), except for that of `nextHour`, which leaves the seconds in
(`hourSum_eq`).
-/

namespace MyServer

/-- The fields of `struct tm` that are read. -/
structure Tm : Type where
  /-- `tm_sec` -/
  sec : ℤ
  /-- `tm_min` -/
  min : ℤ
  /-- `tm_hour` -/
  hour : ℤ
  /-- `tm_wday`, 0 for Sunday -/
  wday : ℤ

namespace TimeHelper

/-- What the functions read besides their arguments. -/
structure Clock : Type where
  /-- `timeZone()` -/
  zone : ℤ
  /-- `get_current_time()` -/
  current : UInt32

/-- `timeZone`, of the entry `time_zone` of the configuration. -/
def timeZone (config : Int32) : Int32 := if config = 0 then 8 else config

/-- `localTime`: the civil fields of `now + timeZone() * 3600`. The first of January 1970
was a Thursday. -/
def localTime (zone now : ℤ) : Tm :=
  let t := now + zone * 3600
  ⟨t % 60, t / 60 % 60, t / 3600 % 24, (t / 86400 + 4) % 7⟩

namespace Clock

/-- `if (now == 0) now = get_current_time();` -/
def time (clk : Clock) (now : UInt32) : UInt32 := if now = 0 then clk.current else now

variable (clk : Clock)

/-- `get_day_hour` -/
def getDayHour (offsetHour now : UInt32) : UInt32 :=
  let now := clk.time now
  let tm := localTime clk.zone now.toNat
  now - .ofInt (tm.hour * 3600) - .ofInt (tm.min * 60) - .ofInt tm.sec + offsetHour * 3600

/-- `nextDay` -/
def nextDay (offset : Int32) (now : UInt32) : UInt32 :=
  let now := clk.time now
  let now := now - .ofInt offset.toInt
  let tm := localTime clk.zone now.toNat
  now - .ofInt (tm.hour * 3600) - .ofInt (tm.min * 60) - .ofInt tm.sec + .ofInt (24 * 3600) +
    .ofInt offset.toInt

/-- `nextHalfHour` -/
def nextHalfHour (now : UInt32) : UInt32 :=
  let now := clk.time now
  let tm := localTime clk.zone now.toNat
  now - .ofInt (tm.min * 60) - .ofInt tm.sec + .ofInt ((tm.min / 30 * 30 + 30) * 60)

/-- `nextHour` -/
def nextHour (now : UInt32) : UInt32 :=
  let now := clk.time now
  let tm := localTime clk.zone now.toNat
  now - .ofInt (tm.min * 60) + .ofInt 3600

/-- `nextWeek` -/
def nextWeek (offset : Int32) (now : UInt32) : UInt32 :=
  let now := clk.time now
  let now := now - .ofInt offset.toInt
  let tm := localTime clk.zone now.toNat
  now - .ofInt (tm.wday * 24 * 3600) - .ofInt (tm.hour * 3600) - .ofInt (tm.min * 60) -
    .ofInt tm.sec + .ofInt (7 * 24 * 3600) + .ofInt offset.toInt

/-- `next2Minute` -/
def next2Minute (now : UInt32) : UInt32 :=
  let now := clk.time now
  let tm := localTime clk.zone now.toNat
  now - .ofInt (tm.min * 60) - .ofInt tm.sec + .ofInt ((tm.min / 2 + 1) * 2 * 60)

end Clock

end TimeHelper

/-! ## Boundaries -/

namespace Tm

/-- Midnight -/
def IsMidnight (tm : Tm) : Prop := tm.hour = 0 ∧ tm.min = 0 ∧ tm.sec = 0

/-- The midnight a Sunday begins with -/
def IsSundayMidnight (tm : Tm) : Prop := tm.wday = 0 ∧ tm.IsMidnight

/-- A full hour -/
def IsFullHour (tm : Tm) : Prop := tm.min = 0 ∧ tm.sec = 0

/-- A full hour, or half past one -/
def IsHalfHour (tm : Tm) : Prop := (tm.min = 0 ∨ tm.min = 30) ∧ tm.sec = 0

/-- An even minute -/
def IsEvenMinute (tm : Tm) : Prop := 2 ∣ tm.min ∧ tm.sec = 0

end Tm

namespace TimeHelper

/-- The zone shifts the grid of the days; there is no summer time in `localTime`. -/
theorem isMidnight_iff {zone t : ℤ} :
    (localTime zone t).IsMidnight ↔ t ∈ Grid 86400 (zone * 3600) := by
  simp only [localTime, Tm.IsMidnight, mem_grid]
  omega

/-- The epoch is a Thursday, so the grid of the weeks is shifted by four days more. -/
theorem isSundayMidnight_iff {zone t : ℤ} :
    (localTime zone t).IsSundayMidnight ↔ t ∈ Grid 604800 (zone * 3600 + 345600) := by
  simp only [localTime, Tm.IsSundayMidnight, Tm.IsMidnight, mem_grid]
  omega

theorem isFullHour_iff {zone t : ℤ} :
    (localTime zone t).IsFullHour ↔ t ∈ Grid (2 * 1800) (zone * 3600) := by
  simp only [localTime, Tm.IsFullHour, mem_grid]
  omega

theorem isHalfHour_iff {zone t : ℤ} :
    (localTime zone t).IsHalfHour ↔ t ∈ Grid 1800 (zone * 3600) := by
  simp only [localTime, Tm.IsHalfHour, mem_grid]
  omega

theorem isEvenMinute_iff {zone t : ℤ} :
    (localTime zone t).IsEvenMinute ↔ t ∈ Grid 120 (zone * 3600) := by
  simp only [localTime, Tm.IsEvenMinute, mem_grid]
  omega

/-! ## The sums -/

variable (zone offset now : ℤ)

/-- What `nextDay` adds up, as a number. -/
def daySum : ℤ :=
  let tm := localTime zone (now - offset)
  now - offset - tm.hour * 3600 - tm.min * 60 - tm.sec + 24 * 3600 + offset

/-- What `nextWeek` adds up. -/
def weekSum : ℤ :=
  let tm := localTime zone (now - offset)
  now - offset - tm.wday * 24 * 3600 - tm.hour * 3600 - tm.min * 60 - tm.sec + 7 * 24 * 3600 +
    offset

/-- What `nextHalfHour` adds up. -/
def halfHourSum : ℤ :=
  let tm := localTime zone now
  now - tm.min * 60 - tm.sec + (tm.min / 30 * 30 + 30) * 60

/-- What `next2Minute` adds up. -/
def twoMinuteSum : ℤ :=
  let tm := localTime zone now
  now - tm.min * 60 - tm.sec + (tm.min / 2 + 1) * 2 * 60

/-- What `nextHour` adds up. -/
def hourSum : ℤ := now - (localTime zone now).min * 60 + 3600

/-- The hour, the minute and the second are what the timestamp is past the last point of the
grid. -/
theorem daySum_eq : daySum zone offset now = gridNext 86400 (zone * 3600 - offset) now := by
  simp only [daySum, localTime, gridNext]
  omega

theorem weekSum_eq :
    weekSum zone offset now = gridNext 604800 (zone * 3600 + 345600 - offset) now := by
  simp only [weekSum, localTime, gridNext]
  omega

theorem halfHourSum_eq : halfHourSum zone now = gridNext 1800 (zone * 3600) now := by
  simp only [halfHourSum, localTime, gridNext]
  omega

theorem twoMinuteSum_eq : twoMinuteSum zone now = gridNext 120 (zone * 3600) now := by
  simp only [twoMinuteSum, localTime, gridNext]
  omega

/-- The sum of `nextHour` is late by the seconds. -/
theorem hourSum_eq :
    hourSum zone now = gridNext (2 * 1800) (zone * 3600) now + (localTime zone now).sec := by
  simp only [hourSum, localTime, gridNext]
  omega

/-! ## The functions -/

/-- `unsigned` arithmetic is that of the integers modulo `2^32`, so a sum may be formed first. -/
theorem ofInt_sub (a b : ℤ) : UInt32.ofInt (a - b) = .ofInt a - .ofInt b := by
  rw [Int.sub_eq_add_neg, UInt32.ofInt_add, UInt32.ofInt_neg, UInt32.sub_eq_add_neg]

/-- A sum that is in range is what `unsigned` computes. -/
theorem toNat_ofInt {z : ℤ} (hlo : 0 ≤ z) (hhi : z < 2 ^ 32) :
    ((UInt32.ofInt z).toNat : ℤ) = z := by
  rw [UInt32.ofInt, UInt32.toNat_ofNat', Int.emod_eq_of_lt hlo hhi,
    Nat.mod_eq_of_lt (by omega), Int.toNat_of_nonneg hlo]

theorem ofInt_toNat (n : UInt32) : UInt32.ofInt n.toNat = n := by
  have hlt := n.toNat_lt
  rw [← UInt32.toNat_inj]
  exact_mod_cast toNat_ofInt (Int.natCast_nonneg n.toNat) (by omega)

namespace Clock

variable {clk : Clock} {now : UInt32}

/-- The timestamp 0 stands for the present time; any other for itself. -/
theorem time_of_pos (hnow : 0 < now) : clk.time now = now := by
  refine if_neg fun h => ?_
  rw [h] at hnow
  exact absurd hnow (by decide)

/-- The calendar date is taken of the difference as an `unsigned`, so that has to be in range. -/
theorem toNat_sub_offset {offset : Int32} (hlo : 0 ≤ now.toNat - offset.toInt)
    (hhi : now.toNat - offset.toInt < 2 ^ 32) :
    ((now - .ofInt offset.toInt).toNat : ℤ) = now.toNat - offset.toInt := by
  rw [← toNat_ofInt hlo hhi, ofInt_sub, ofInt_toNat]

/-- The sum is formed in `unsigned`, and the date in it is the one of the integer. -/
theorem nextDay_eq (hnow : 0 < now) {offset : Int32} (hlo : 0 ≤ now.toNat - offset.toInt)
    (hhi : now.toNat - offset.toInt < 2 ^ 32) :
    clk.nextDay offset now = .ofInt (daySum clk.zone offset.toInt now.toNat) := by
  simp only [nextDay, daySum, time_of_pos hnow, toNat_sub_offset hlo hhi, ofInt_sub, ofInt_toNat,
    UInt32.ofInt_add]

theorem nextWeek_eq (hnow : 0 < now) {offset : Int32} (hlo : 0 ≤ now.toNat - offset.toInt)
    (hhi : now.toNat - offset.toInt < 2 ^ 32) :
    clk.nextWeek offset now = .ofInt (weekSum clk.zone offset.toInt now.toNat) := by
  simp only [nextWeek, weekSum, time_of_pos hnow, toNat_sub_offset hlo hhi, ofInt_sub, ofInt_toNat,
    UInt32.ofInt_add]

theorem nextHalfHour_eq (hnow : 0 < now) :
    clk.nextHalfHour now = .ofInt (halfHourSum clk.zone now.toNat) := by
  simp only [nextHalfHour, halfHourSum, time_of_pos hnow, ofInt_sub, ofInt_toNat, UInt32.ofInt_add]

theorem next2Minute_eq (hnow : 0 < now) :
    clk.next2Minute now = .ofInt (twoMinuteSum clk.zone now.toNat) := by
  simp only [next2Minute, twoMinuteSum, time_of_pos hnow, ofInt_sub, ofInt_toNat,
    UInt32.ofInt_add]

theorem nextHour_eq (hnow : 0 < now) :
    clk.nextHour now = .ofInt (hourSum clk.zone now.toNat) := by
  simp only [nextHour, hourSum, time_of_pos hnow, ofInt_sub, ofInt_toNat, UInt32.ofInt_add]

/-- A sum that is the next point of a grid and in range is the next boundary. -/
theorem isLeast_ofInt {p c sum : ℤ} {IsBoundary : ℤ → Prop} (hp : 0 < p)
    (hgrid : ∀ t, IsBoundary t ↔ t ∈ Grid p c) (hsum : sum = gridNext p c now.toNat)
    (hfits : sum < 2 ^ 32) :
    IsLeast {t : ℤ | now.toNat < t ∧ IsBoundary t} (UInt32.ofInt sum).toNat := by
  have hlt := lt_gridNext hp c now.toNat
  rw [toNat_ofInt (by omega) hfits, hsum]
  simp only [hgrid]
  exact isLeast_gridNext hp c now.toNat

/-- **Calendar boundaries.** In every zone and for every timestamp but 0, each function
returns the least timestamp after it that is a midnight plus the offset, a Sunday midnight
plus the offset, a full or half hour, an even minute, if the sum it forms is in the range of
`unsigned` and so is the timestamp less the offset. -/
theorem next_isLeast (clk : Clock) (now : UInt32) (hnow : 0 < now) :
    (∀ offset : Int32, 0 ≤ now.toNat - offset.toInt → now.toNat - offset.toInt < 2 ^ 32 →
      daySum clk.zone offset.toInt now.toNat < 2 ^ 32 →
      IsLeast {t : ℤ | now.toNat < t ∧ (localTime clk.zone (t - offset.toInt)).IsMidnight}
        (clk.nextDay offset now).toNat) ∧
    (∀ offset : Int32, 0 ≤ now.toNat - offset.toInt → now.toNat - offset.toInt < 2 ^ 32 →
      weekSum clk.zone offset.toInt now.toNat < 2 ^ 32 →
      IsLeast {t : ℤ | now.toNat < t ∧ (localTime clk.zone (t - offset.toInt)).IsSundayMidnight}
        (clk.nextWeek offset now).toNat) ∧
    (halfHourSum clk.zone now.toNat < 2 ^ 32 →
      IsLeast {t : ℤ | now.toNat < t ∧ (localTime clk.zone t).IsHalfHour}
        (clk.nextHalfHour now).toNat) ∧
    (twoMinuteSum clk.zone now.toNat < 2 ^ 32 →
      IsLeast {t : ℤ | now.toNat < t ∧ (localTime clk.zone t).IsEvenMinute}
        (clk.next2Minute now).toNat) := by
  refine ⟨fun offset hlo hhi hfits => ?_, fun offset hlo hhi hfits => ?_, fun hfits => ?_,
    fun hfits => ?_⟩
  · rw [nextDay_eq hnow hlo hhi]
    exact isLeast_ofInt (by decide) (fun t => isMidnight_iff.trans sub_mem_grid)
      (daySum_eq ..) hfits
  · rw [nextWeek_eq hnow hlo hhi]
    exact isLeast_ofInt (by decide) (fun t => isSundayMidnight_iff.trans sub_mem_grid)
      (weekSum_eq ..) hfits
  · rw [nextHalfHour_eq hnow]
    exact isLeast_ofInt (by decide) (fun t => isHalfHour_iff) (halfHourSum_eq ..) hfits
  · rw [next2Minute_eq hnow]
    exact isLeast_ofInt (by decide) (fun t => isEvenMinute_iff) (twoMinuteSum_eq ..) hfits

/-- A server without a configured zone. -/
def standard : Clock := ⟨(timeZone 0).toInt, 0⟩

/-- Noon of the second of January 1970, a Friday: six o'clock of the next day and of the next
Sunday, half past twelve and two minutes past twelve. -/
theorem next_isLeast_noon :
    ((standard.nextDay 21600 100800).toNat = 165600 ∧
      (standard.nextWeek 21600 100800).toNat = 252000 ∧
      (standard.nextHalfHour 100800).toNat = 102600 ∧
      (standard.next2Minute 100800).toNat = 100920) ∧
    IsLeast {t : ℤ | (100800 : UInt32).toNat < t ∧
        (localTime standard.zone (t - (21600 : Int32).toInt)).IsMidnight}
      (standard.nextDay 21600 100800).toNat ∧
    IsLeast {t : ℤ | (100800 : UInt32).toNat < t ∧
        (localTime standard.zone (t - (21600 : Int32).toInt)).IsSundayMidnight}
      (standard.nextWeek 21600 100800).toNat ∧
    IsLeast {t : ℤ | (100800 : UInt32).toNat < t ∧ (localTime standard.zone t).IsHalfHour}
      (standard.nextHalfHour 100800).toNat ∧
    IsLeast {t : ℤ | (100800 : UInt32).toNat < t ∧ (localTime standard.zone t).IsEvenMinute}
      (standard.next2Minute 100800).toNat := by
  obtain ⟨hday, hweek, hhalf, hminute⟩ := next_isLeast standard 100800 (by decide)
  refine ⟨⟨by decide, by decide, by decide, by decide⟩, ?_, ?_, ?_, ?_⟩
  · exact hday 21600 (by decide) (by decide) (by decide)
  · exact hweek 21600 (by decide) (by decide) (by decide)
  · exact hhalf (by decide)
  · exact hminute (by decide)

/-! ## The full hour -/

theorem toNat_nextHalfHour (clk : Clock) (hnow : 0 < now) (hfits : now.toNat + 1800 < 2 ^ 32) :
    ((clk.nextHalfHour now).toNat : ℤ) = gridNext 1800 (clk.zone * 3600) now.toNat := by
  have hlt := lt_gridNext (p := 1800) (by decide) (clk.zone * 3600) now.toNat
  have hle := gridNext_le (p := 1800) (by decide) (clk.zone * 3600) now.toNat
  rw [nextHalfHour_eq hnow, halfHourSum_eq, toNat_ofInt (by omega) (by omega)]

/-- The seconds are not taken away, and they do not bring the sum out of range. -/
theorem toNat_nextHour (clk : Clock) (hnow : 0 < now) (hfits : now.toNat + 3600 < 2 ^ 32) :
    ((clk.nextHour now).toNat : ℤ) =
      gridNext (2 * 1800) (clk.zone * 3600) now.toNat + (localTime clk.zone now.toNat).sec := by
  have hlt := lt_gridNext (p := 2 * 1800) (by decide) (clk.zone * 3600) now.toNat
  have hsec : 0 ≤ (localTime clk.zone now.toNat).sec := Int.emod_nonneg _ (by decide)
  have hmin : 0 ≤ (localTime clk.zone now.toNat).min := Int.emod_nonneg _ (by decide)
  have hsum : hourSum clk.zone now.toNat < 2 ^ 32 := by
    rw [hourSum]
    omega
  rw [nextHour_eq hnow, toNat_ofInt _ hsum, hourSum_eq]
  rw [hourSum_eq]
  omega

/-- **The next full hour.** `nextHour` is the least full hour after a timestamp, and it is
the one of the next two half hours that is a full hour, if and only if the timestamp is
at the beginning of a minute. -/
theorem nextHour_isLeast_iff (clk : Clock) (now : UInt32) (hnow : 0 < now)
    (hfits : now.toNat + 3600 < 2 ^ 32) :
    (IsLeast {t : ℤ | now.toNat < t ∧ (localTime clk.zone t).IsFullHour} (clk.nextHour now).toNat ↔
        (localTime clk.zone now.toNat).sec = 0) ∧
      ((∃ t ∈ [clk.nextHalfHour now, clk.nextHalfHour (clk.nextHalfHour now)],
          (localTime clk.zone t.toNat).IsFullHour ∧ clk.nextHour now = t) ↔
        (localTime clk.zone now.toNat).sec = 0) := by
  have hhour := clk.toNat_nextHour hnow hfits
  have hexact : ((clk.nextHour now).toNat : ℤ) =
      gridNext (2 * 1800) (clk.zone * 3600) now.toNat ↔
      (localTime clk.zone now.toNat).sec = 0 := by
    omega
  rw [← hexact]
  refine ⟨?_, ?_⟩
  · have hleast := isLeast_gridNext (p := 2 * 1800) (by decide) (clk.zone * 3600) now.toNat
    simp only [isFullHour_iff]
    refine ⟨fun h => h.unique hleast, fun h => ?_⟩
    rw [h]
    exact hleast
  · -- the two half hours are in range, so they are the next two points of their grid
    have hlt := lt_gridNext (p := 1800) (by decide) (clk.zone * 3600) now.toNat
    have hle := gridNext_le (p := 1800) (by decide) (clk.zone * 3600) now.toNat
    have hfirst := clk.toNat_nextHalfHour hnow (by omega)
    have hpos : 0 < clk.nextHalfHour now := by
      rw [UInt32.lt_iff_toNat_lt, UInt32.toNat_zero]
      omega
    have hsecond := clk.toNat_nextHalfHour hpos (by omega)
    have hpoints : clk.nextHour now ∈ [clk.nextHalfHour now,
        clk.nextHalfHour (clk.nextHalfHour now)] ↔
        ((clk.nextHour now).toNat : ℤ) ∈ [gridNext 1800 (clk.zone * 3600) now.toNat,
          gridNext 1800 (clk.zone * 3600) (gridNext 1800 (clk.zone * 3600) now.toNat)] := by
      rw [← hfirst, ← hsecond]
      simp only [List.mem_cons, List.not_mem_nil, or_false, Int.natCast_inj, UInt32.toNat_inj]
    rw [← eq_gridNext_two_mul_iff (by decide), ← hpoints, ← isFullHour_iff]
    refine ⟨?_, fun h => ⟨_, h.1, h.2, rfl⟩⟩
    rintro ⟨t, hmem, hfull, heq⟩
    rw [heq]
    exact ⟨hmem, hfull⟩

/-- A full minute, half an hour before a full hour. -/
theorem nextHour_isLeast_half_past :
    IsLeast {t : ℤ | (1800 : UInt32).toNat < t ∧ (localTime standard.zone t).IsFullHour}
      (standard.nextHour 1800).toNat :=
  ((nextHour_isLeast_iff standard 1800 (by decide) (by decide)).1).mpr (by decide)

/-- One second after a full hour: the result is a second late, and the half hours are not. -/
theorem nextHour_keeps_seconds :
    standard.nextHour 3601 = 7201 ∧ ¬ (localTime standard.zone 7201).IsFullHour ∧
      standard.nextHalfHour (standard.nextHalfHour 3601) = 7200 ∧
      (localTime standard.zone 7200).IsFullHour ∧
      ¬ IsLeast {t : ℤ | 3601 < t ∧ (localTime standard.zone t).IsFullHour}
        (standard.nextHour 3601).toNat := by
  have hlate : standard.nextHour 3601 = 7201 := by decide
  have hnot : ¬ (localTime standard.zone 7201).IsFullHour := by
    rw [isFullHour_iff, mem_grid]
    decide
  refine ⟨hlate, hnot, by decide, ?_, fun h => hnot ?_⟩
  · rw [isFullHour_iff, mem_grid]
    decide
  · rw [hlate] at h
    exact h.1.2

end Clock

end TimeHelper

end MyServer
