import Mathlib.Tactic.Ring
import VitaMTP.Database.Metadata
import VitaMTP.Library.Calendar
import VitaMTP.Library.Decimal

/-! The timestamps in the metadata, and which instant they denote. -/
namespace VitaMTP
open Calendar Decimal

/-- `struct tm`. Months count from 0 and years from 1900. -/
structure Tm where
  tm_sec : ℕ
  tm_min : ℕ
  tm_hour : ℕ
  tm_mday : ℕ
  tm_mon : ℕ
  tm_year : ℤ
  deriving DecidableEq, Repr

def epoch : ℤ := 719162

def gmtime (time : ℤ) : Tm :=
  let date := dateAt (time / 86400 + epoch)
  let seconds := (time % 86400).toNat
  { tm_sec := seconds % 60
    tm_min := seconds / 60 % 60
    tm_hour := seconds / 3600
    tm_mday := date.day
    tm_mon := date.month
    tm_year := date.year - 1900 }

/-- The Unix time of a broken-down time in UTC. Months behind December are in later years. -/
def Tm.timegm (tm : Tm) : ℤ :=
  (dayNumber (tm.tm_year + 1900 + tm.tm_mon / 12) (tm.tm_mon % 12) tm.tm_mday - epoch) * 86400 +
    tm.tm_hour * 3600 + tm.tm_min * 60 + tm.tm_sec

/-- What `VitaMTP_Data_Make_Timestamp` prints for `time`, from what `mktime` makes of the UTC. -/
def timestampText (time tm1 : ℤ) (tmlocal : Tm) : CString :=
  let diff := (time - tm1).bmod (2 ^ 32)
  let h := (diff.tdiv 3600).natAbs
  let m := (diff.tmod 60).natAbs
  format 4 (tmlocal.tm_year + 1900) ++ '-' :: format 2 tmlocal.tm_mon ++ '-' ::
    format 2 tmlocal.tm_mday ++ 'T' :: format 2 tmlocal.tm_hour ++ ':' ::
    format 2 tmlocal.tm_min ++ ':' :: format 2 tmlocal.tm_sec ++
    (if diff < 0 then '-' else '+') :: format 2 h ++ ':' :: format 2 m

/-- The zone of the host. `localtime` gives `NULL` where the year is no `int`. -/
structure Clock where
  localtime : ℤ → Option Tm
  mktime : Tm → ℤ

/-- A broken-down time, or `NULL` if its year is no `int`. -/
def Tm.orNull (tm : Tm) : Option Tm :=
  if -2 ^ 31 ≤ tm.tm_year ∧ tm.tm_year < 2 ^ 31 then some tm else none

/-- `VitaMTP_Data_Make_Timestamp`. There is no result where it follows `NULL` or writes past the
end of `str`. -/
def Clock.makeTimestamp (clock : Clock) (time : ℤ) : Option CString := do
  let t1 ← (gmtime time).orNull
  let tm1 := clock.mktime t1
  let tmlocal ← clock.localtime time
  let str := timestampText time tm1 tmlocal
  if str.length < "0000-00-00T00:00:00+00:00".length + 2 then some str else none

section zone

/-! The local time is `offset` minutes ahead of UTC, at any time. -/

variable (offset : ℤ)

def localtime (time : ℤ) : Tm := gmtime (time + 60 * offset)

def mktime (tm : Tm) : ℤ := tm.timegm - 60 * offset

def fixedClock : Clock where
  localtime time := (localtime offset time).orNull
  mktime := mktime offset

def makeTimestamp (time : ℤ) : CString :=
  timestampText time (mktime offset (gmtime time)) (localtime offset time)

end zone

/-- The offset at the end of a timestamp, in seconds. -/
def decodeOffset (s : CString) : Option ℤ := do
  let sign ← match s with
    | '+' :: _ => some 1
    | '-' :: _ => some (-1)
    | _ => none
  let (h, s) ← number 2 (s.drop 1)
  let s ← literal ':' s
  let (m, s) ← number 2 s
  if s = [] ∧ h < 24 ∧ m < 60 then some (sign * (h * 3600 + m * 60)) else none

/-- The Unix time of the fields of a timestamp, if they are a date and a time of day. Months count
from 1 and the offset is in seconds. -/
def instant (year month day hour min sec : ℕ) (offset : ℤ) : Option ℤ :=
  if 1 ≤ month ∧ IsDate year (month - 1) day ∧ hour < 24 ∧ min < 60 ∧ sec < 60 then
    some ((dayNumber year (month - 1) day - epoch) * 86400 + hour * 3600 + min * 60 + sec - offset)
  else none

/-- The Unix time of an RFC 3339 `date-time` in whole seconds. -/
def decodeTimestamp (s : CString) : Option ℤ := do
  let (year, s) ← number 4 s
  let s ← literal '-' s
  let (month, s) ← number 2 s
  let s ← literal '-' s
  let (day, s) ← number 2 s
  let s ← literal 'T' s
  let (hour, s) ← number 2 s
  let s ← literal ':' s
  let (min, s) ← number 2 s
  let s ← literal ':' s
  let (sec, s) ← number 2 s
  let offset ← if s = ['Z'] then some 0 else decodeOffset s
  instant year month day hour min sec offset

theorem decodeOffset_format {h m : ℕ} (hh : h < 24) (hm : m < 60) (diff : ℤ) :
    decodeOffset ((if diff < 0 then '-' else '+') :: (pad 2 h ++ ':' :: pad 2 m)) =
      some ((if diff < 0 then -1 else 1 : ℤ) * (h * 3600 + m * 60)) := by
  have hlast : number 2 (pad 2 m) = some (m, []) := by
    have hread : number 2 (pad 2 m ++ []) = some (m, []) := number_pad (by omega) (by omega)
    rwa [List.append_nil] at hread
  unfold decodeOffset
  by_cases hdiff : diff < 0
  · simp [hdiff, number_pad, (by omega : h < 100), hlast, hh, hm]
  · simp [hdiff, number_pad, (by omega : h < 100), hlast, hh, hm]

theorem decodeTimestamp_format {year month day hour min sec : ℕ} (hyear : year < 10000)
    (hmonth : month < 100) (hday : day < 100) (hhour : hour < 100) (hmin : min < 100)
    (hsec : sec < 100) {zone : CString} {offset : ℤ} (hoffset : decodeOffset zone = some offset) :
    decodeTimestamp (pad 4 year ++ '-' :: (pad 2 month ++ '-' :: (pad 2 day ++ 'T' ::
      (pad 2 hour ++ ':' :: (pad 2 min ++ ':' :: (pad 2 sec ++ zone)))))) =
      instant year month day hour min sec offset := by
  have hzone : zone ≠ ['Z'] := by
    intro hz
    rw [hz] at hoffset
    simp [decodeOffset] at hoffset
  simp only [decodeTimestamp, instant, number_pad, Nat.reducePow, Nat.zero_lt_succ, hyear, hmonth,
    hday, hhour, hmin, hsec, literal_cons, if_neg hzone, hoffset, Option.bind_eq_bind,
    Option.bind_some]

theorem timegm_gmtime (time : ℤ) : (gmtime time).timegm = time := by
  have hnumber := number_dateAt (time / 86400 + epoch)
  have hmonth := (dateAt (time / 86400 + epoch)).isDate.month_lt
  have hcarry : ((dateAt (time / 86400 + epoch)).month : ℤ) / 12 = 0 := by omega
  unfold Date.number at hnumber
  unfold Tm.timegm gmtime
  dsimp only
  rw [Nat.mod_eq_of_lt hmonth, hcarry, add_zero, sub_add_cancel, hnumber]
  omega

section zone

variable {offset time : ℤ}

theorem localtime_spec (offset time : ℤ) :
    ∃ tm, localtime offset time = tm ∧ IsDate (tm.tm_year + 1900) tm.tm_mon tm.tm_mday ∧
      tm.tm_hour < 24 ∧ tm.tm_min < 60 ∧ tm.tm_sec < 60 ∧
      (dayNumber (tm.tm_year + 1900) tm.tm_mon tm.tm_mday - epoch) * 86400 + tm.tm_hour * 3600 +
        tm.tm_min * 60 + tm.tm_sec = time + 60 * offset := by
  have hdate := (dateAt ((time + 60 * offset) / 86400 + epoch)).isDate
  have hmonth := hdate.month_lt
  have htime := timegm_gmtime (time + 60 * offset)
  refine ⟨_, rfl, ?_, ?_, ?_, ?_, ?_⟩
  · simpa [localtime, gmtime] using hdate
  · unfold localtime gmtime
    dsimp only
    omega
  · exact Nat.mod_lt _ (by omega)
  · exact Nat.mod_lt _ (by omega)
  · have hlt : (localtime offset time).tm_mon < 12 := hmonth
    have hcarry : ((localtime offset time).tm_mon : ℤ) / 12 = 0 := by omega
    unfold Tm.timegm at htime
    rwa [← localtime, hcarry, add_zero, Nat.mod_eq_of_lt hlt] at htime

theorem makeTimestamp_diff (hoffset : |offset| < 24 * 60) :
    (time - mktime offset (gmtime time)).bmod (2 ^ 32) = 60 * offset := by
  obtain ⟨hlow, hhigh⟩ := abs_lt.mp hoffset
  have hdiff : time - mktime offset (gmtime time) = 60 * offset := by
    rw [mktime, timegm_gmtime]
    omega
  rw [hdiff]
  exact Int.bmod_eq_of_le (by omega) (by omega)

def zoneText (offset : ℤ) : CString :=
  (if offset < 0 then '-' else '+') :: (pad 2 (offset.natAbs / 60) ++ ':' :: pad 2 0)

theorem makeTimestamp_eq (hoffset : |offset| < 24 * 60)
    (hyear : 0 ≤ (localtime offset time).tm_year + 1900) :
    ∃ tm, localtime offset time = tm ∧ makeTimestamp offset time =
      pad 4 (tm.tm_year + 1900).toNat ++ '-' :: (pad 2 tm.tm_mon ++ '-' :: (pad 2 tm.tm_mday ++ 'T' ::
        (pad 2 tm.tm_hour ++ ':' :: (pad 2 tm.tm_min ++ ':' :: (pad 2 tm.tm_sec ++
          zoneText offset))))) := by
  obtain ⟨year, hy⟩ := Int.eq_ofNat_of_zero_le hyear
  have hh : ((60 * offset).tdiv 3600).natAbs = offset.natAbs / 60 := by
    rw [Int.natAbs_tdiv]
    show (60 * offset).natAbs / 3600 = _
    omega
  have hm : ((60 * offset).tmod 60).natAbs = 0 := by
    rw [Int.mul_tmod_right]
    rfl
  have hsign : 60 * offset < 0 ↔ offset < 0 := by omega
  refine ⟨_, rfl, ?_⟩
  simp only [makeTimestamp, timestampText, makeTimestamp_diff hoffset, hh, hm, hsign, hy,
    format_natCast, Int.toNat_natCast, List.append_assoc, List.cons_append, zoneText]

/-- The date in a timestamp is that of the local time in the month before, and its offset leaves
out the minutes. -/
theorem decodeTimestamp_makeTimestamp (hoffset : |offset| < 24 * 60)
    (hyear : 0 ≤ (localtime offset time).tm_year + 1900)
    (hyear' : (localtime offset time).tm_year + 1900 ≤ 9999) :
    ∃ tm, localtime offset time = tm ∧
      decodeTimestamp (makeTimestamp offset time) =
        instant (tm.tm_year + 1900).toNat tm.tm_mon tm.tm_mday tm.tm_hour tm.tm_min tm.tm_sec
          ((if offset < 0 then -1 else 1 : ℤ) * (offset.natAbs / 60 * 3600 : ℕ)) := by
  obtain ⟨tm, htm, hdate, hhour, hmin, hsec, -⟩ := localtime_spec offset time
  have hmonth := hdate.month_lt
  have hday := hdate.day_le
  obtain ⟨hlow, hhigh⟩ := abs_lt.mp hoffset
  obtain ⟨tm', htm', htext⟩ := makeTimestamp_eq hoffset hyear
  obtain rfl : tm = tm' := htm.symm.trans htm'
  rw [htm] at hyear hyear'
  have hzone := decodeOffset_format (h := offset.natAbs / 60) (m := 0) (by omega) (by omega) offset
  have hread := decodeTimestamp_format (by omega : (tm.tm_year + 1900).toNat < 10000)
    (by omega : tm.tm_mon < 100) (by omega : tm.tm_mday < 100) (by omega : tm.tm_hour < 100)
    (by omega : tm.tm_min < 100) (by omega : tm.tm_sec < 100) hzone
  refine ⟨tm, htm, ?_⟩
  rw [htext]
  simpa [zoneText] using hread

theorem Tm.orNull_eq {tm : Tm} (hlow : -1 ≤ tm.tm_year + 1900) (hhigh : tm.tm_year + 1900 ≤ 10000) :
    tm.orNull = some tm := if_pos ⟨by omega, by omega⟩

/-- The UTC is in the year of the local time or in the one before or behind it. -/
theorem gmtime_year (hoffset : |offset| < 24 * 60)
    (hyear : 0 ≤ (localtime offset time).tm_year + 1900)
    (hyear' : (localtime offset time).tm_year + 1900 ≤ 9999) :
    -1 ≤ (gmtime time).tm_year + 1900 ∧ (gmtime time).tm_year + 1900 ≤ 10000 := by
  obtain ⟨hlow, hhigh⟩ := abs_lt.mp hoffset
  have hlocal := yearAt_bounds ((time + 60 * offset) / 86400 + epoch)
  have hutc := yearAt_bounds (time / 86400 + epoch)
  simp only [localtime, gmtime, dateAt, sub_add_cancel] at hyear hyear' ⊢
  unfold yearStart at hlocal hutc
  omega

theorem makeTimestamp_fixedClock (hoffset : |offset| < 24 * 60)
    (hyear : 0 ≤ (localtime offset time).tm_year + 1900)
    (hyear' : (localtime offset time).tm_year + 1900 ≤ 9999) :
    (fixedClock offset).makeTimestamp time = some (makeTimestamp offset time) := by
  obtain ⟨hlow, hhigh⟩ := abs_lt.mp hoffset
  obtain ⟨tm, htm, htext⟩ := makeTimestamp_eq hoffset hyear
  obtain ⟨tm', htm', hdate, hhour, hmin, hsec, -⟩ := localtime_spec offset time
  obtain rfl : tm = tm' := htm.symm.trans htm'
  have hmonth := hdate.month_lt
  have hday := hdate.day_le
  have hutc := gmtime_year hoffset hyear hyear'
  have hlength : (makeTimestamp offset time).length = 25 := by
    rw [htm] at hyear hyear'
    rw [htext]
    simp [zoneText, length_pad, (by omega : (tm.tm_year + 1900).toNat < 10000),
      (by omega : tm.tm_mon < 100), (by omega : tm.tm_mday < 100), (by omega : tm.tm_hour < 100),
      (by omega : tm.tm_min < 100), (by omega : tm.tm_sec < 100),
      (by omega : offset.natAbs / 60 < 100)]
  have hlocal : (fixedClock offset).localtime time = some (localtime offset time) :=
    Tm.orNull_eq (by omega) (by omega)
  rw [Clock.makeTimestamp, Tm.orNull_eq hutc.1 hutc.2, hlocal]
  simp only [Option.bind_eq_bind, Option.bind_some]
  exact if_pos (hlength.trans_lt (by decide))

/-- A year that is no `int`. -/
example : (fixedClock 0).makeTimestamp (2 ^ 62) = none := by decide

/-- In a fixed zone two times of ordinary years have different timestamps. -/
theorem makeTimestamp_injective {time' : ℤ} (hoffset : |offset| < 24 * 60)
    (hyear : 0 ≤ (localtime offset time).tm_year + 1900)
    (hyear' : (localtime offset time).tm_year + 1900 ≤ 9999)
    (hyear₁ : 0 ≤ (localtime offset time').tm_year + 1900)
    (hyear₁' : (localtime offset time').tm_year + 1900 ≤ 9999)
    (h : makeTimestamp offset time = makeTimestamp offset time') : time = time' := by
  obtain ⟨tm, htm, htext⟩ := makeTimestamp_eq hoffset hyear
  obtain ⟨tm₁, htm₁, htext₁⟩ := makeTimestamp_eq hoffset hyear₁
  obtain ⟨tm', htm', hdate, hhour, hmin, hsec, hlocal⟩ := localtime_spec offset time
  obtain ⟨tm₁', htm₁', hdate₁, hhour₁, hmin₁, hsec₁, hlocal₁⟩ := localtime_spec offset time'
  obtain rfl : tm = tm' := htm.symm.trans htm'
  obtain rfl : tm₁ = tm₁' := htm₁.symm.trans htm₁'
  have hmonth := hdate.month_lt
  have hmonth₁ := hdate₁.month_lt
  have hday := hdate.day_le
  have hday₁ := hdate₁.day_le
  rw [htm] at hyear hyear'
  rw [htm₁] at hyear₁ hyear₁'
  rw [htext, htext₁] at h
  obtain ⟨hy, h⟩ := pad_append_inj (by omega) (by omega) (by omega) h
  obtain ⟨hmon, h⟩ := pad_append_inj (by omega) (by omega) (by omega) (List.cons.inj h).2
  obtain ⟨hmday, h⟩ := pad_append_inj (by omega) (by omega) (by omega) (List.cons.inj h).2
  obtain ⟨hh, h⟩ := pad_append_inj (by omega) (by omega) (by omega) (List.cons.inj h).2
  obtain ⟨hm, h⟩ := pad_append_inj (by omega) (by omega) (by omega) (List.cons.inj h).2
  obtain ⟨hs, -⟩ := pad_append_inj (by omega) (by omega) (by omega) (List.cons.inj h).2
  have hyears : tm.tm_year + 1900 = tm₁.tm_year + 1900 := by omega
  rw [hyears, hmon, hmday, hh, hm, hs] at hlocal
  omega

/-- The fields of the local time, with months from 1 on and the offset in full. -/
def localTimestamp (offset time : ℤ) : CString :=
  let tm := localtime offset time
  format 4 (tm.tm_year + 1900) ++ '-' :: format 2 (tm.tm_mon + 1 : ℕ) ++ '-' ::
    format 2 tm.tm_mday ++ 'T' :: format 2 tm.tm_hour ++ ':' :: format 2 tm.tm_min ++ ':' ::
    format 2 tm.tm_sec ++ (if offset < 0 then '-' else '+') ::
    format 2 (offset.natAbs / 60 : ℕ) ++ ':' :: format 2 (offset.natAbs % 60 : ℕ)

theorem decodeTimestamp_localTimestamp (hoffset : |offset| < 24 * 60)
    (hyear : 0 ≤ (localtime offset time).tm_year + 1900)
    (hyear' : (localtime offset time).tm_year + 1900 ≤ 9999) :
    decodeTimestamp (localTimestamp offset time) = some time := by
  obtain ⟨tm, htm, hdate, hhour, hmin, hsec, hlocal⟩ := localtime_spec offset time
  have hmonth := hdate.month_lt
  have hday := hdate.day_le
  obtain ⟨hlow, hhigh⟩ := abs_lt.mp hoffset
  rw [htm] at hyear hyear'
  obtain ⟨year, hy⟩ := Int.eq_ofNat_of_zero_le hyear
  have hzone := decodeOffset_format (h := offset.natAbs / 60) (m := offset.natAbs % 60)
    (by omega) (by omega) offset
  have hread := decodeTimestamp_format (by omega : year < 10000)
    (by omega : tm.tm_mon + 1 < 100) (by omega : tm.tm_mday < 100) (by omega : tm.tm_hour < 100)
    (by omega : tm.tm_min < 100) (by omega : tm.tm_sec < 100) hzone
  simp only [localTimestamp, htm, hy, format_natCast, List.append_assoc, List.cons_append]
  rw [hread, instant, Nat.add_sub_cancel, ← hy, if_pos ⟨by omega, hdate, hhour, hmin, hsec⟩]
  congr 1
  by_cases hsign : offset < 0
  · rw [if_pos hsign]
    omega
  · rw [if_neg hsign]
    omega

/-- No timestamp denotes the instant it is made of. -/
theorem makeTimestamp_other (hoffset : |offset| < 24 * 60)
    (hyear : 0 ≤ (localtime offset time).tm_year + 1900)
    (hyear' : (localtime offset time).tm_year + 1900 ≤ 9999) :
    decodeTimestamp (makeTimestamp offset time) ≠ some time := by
  obtain ⟨tm, htm, hdecode⟩ := decodeTimestamp_makeTimestamp hoffset hyear hyear'
  obtain ⟨tm', htm', hdate, hhour, hmin, hsec, hlocal⟩ := localtime_spec offset time
  obtain rfl : tm = tm' := htm.symm.trans htm'
  rw [htm] at hyear
  rw [hdecode, instant, Int.toNat_of_nonneg hyear]
  by_cases hvalid : 1 ≤ tm.tm_mon ∧ IsDate (tm.tm_year + 1900) (tm.tm_mon - 1) tm.tm_mday ∧
      tm.tm_hour < 24 ∧ tm.tm_min < 60 ∧ tm.tm_sec < 60
  · rw [if_pos hvalid]
    obtain ⟨hmon, hprinted, -⟩ := hvalid
    -- The month before is a day long or longer, and what the offset leaves out is below an hour.
    have hnext := dayNumber_succ (tm.tm_year + 1900) (tm.tm_mon - 1) tm.tm_mday
    rw [Nat.sub_add_cancel hmon] at hnext
    obtain ⟨hpos, hlength⟩ := hprinted
    intro hsame
    have hsame := Option.some.inj hsame
    by_cases hsign : offset < 0
    · rw [if_pos hsign] at hsame
      omega
    · rw [if_neg hsign] at hsame
      omega
  · rw [if_neg hvalid]
    simp

end zone

/-- A quarter past ten in the evening in UTC, in a zone that is half an hour off. -/
theorem makeTimestamp_other_india :
    decodeTimestamp (makeTimestamp 330 1700000000) ≠ some 1700000000 :=
  makeTimestamp_other (abs_lt.mpr ⟨by omega, by omega⟩) (by decide) (by decide)

/-- The first of January has the month 0. -/
theorem makeTimestamp_epoch :
    ¬ ∀ offset time : ℤ, |offset| < 24 * 60 → 0 ≤ (localtime offset time).tm_year + 1900 →
      (localtime offset time).tm_year + 1900 ≤ 9999 →
      decodeTimestamp (makeTimestamp offset time) = some time := by
  intro h
  have hprinted : makeTimestamp 0 0 = "1970-00-01T00:00:00+00:00".toList := by decide
  have hdecode : decodeTimestamp "1970-00-01T00:00:00+00:00".toList = none := by decide
  have hepoch := h 0 0 (abs_lt.mpr ⟨by omega, by omega⟩) (by decide) (by decide)
  rw [hprinted, hdecode] at hepoch
  simp at hepoch

end VitaMTP
