import Silta.Backup
import Silta.Lib.Calendar
import Silta.Lib.Decimals
import Silta.Snapshot

/-!
# Timestamps

The UTC time of an instant as a text, by an algorithm that divides days into eras of 400 years: the
calendar gives the same date, and the texts sort as the instants do.  The names of backups and of
snapshots begin with one.
-/

namespace Silta

namespace Time

open Calendar Decimals

/-! ## Printing an instant -/

/-- An unsigned number with zeros in front. -/
def zeroPadded (width n : ℕ) : String :=
  String.ofList ((Nat.toDigits 10 n).leftpad width '0')

/-- A signed number, whose sign counts for the width. -/
def zeroPaddedInt (width : ℕ) (n : ℤ) : String :=
  if n < 0 then "-" ++ zeroPadded (width - 1) n.natAbs else zeroPadded width n.natAbs

/-- Days since 1970-01-01 to a proleptic Gregorian civil date. -/
def civilFromDays (z : ℤ) : ℤ × ℕ × ℕ :=
  let z := z + 719468
  let era := (if 0 ≤ z then z else z - 146096).tdiv 146097
  let doe := (z - era * 146097).toNat
  let yoe := (doe - doe / 1460 + doe / 36524 - doe / 146096) / 365
  let y := (yoe : ℤ) + era * 400
  let doy := doe - (365 * yoe + yoe / 4 - yoe / 100)
  let mp := (5 * doy + 2) / 153
  let d := doy - (153 * mp + 2) / 5 + 1
  let m := if mp < 10 then mp + 3 else mp - 9
  (if m ≤ 2 then y + 1 else y, m, d)

/-- A Unix timestamp in milliseconds as `YYYY-MM-DDTHH:MM:SSZ`. -/
def rfc3339Utc (unixMillis : ℕ) : String :=
  let secs := unixMillis / 1000
  let days := secs / 86400
  let rem := secs % 86400
  let (year, month, day) := civilFromDays days
  zeroPaddedInt 4 year ++ "-" ++ zeroPadded 2 month ++ "-" ++ zeroPadded 2 day ++ "T" ++
    zeroPadded 2 (rem / 3600) ++ ":" ++ zeroPadded 2 (rem % 3600 / 60) ++ ":" ++
    zeroPadded 2 (rem % 60) ++ "Z"

/-! ## The civil date -/

/-- Truncation towards zero, after a shift of what is below it, rounds down. -/
theorem era_eq (z : ℤ) : (if 0 ≤ z then z else z - 146096).tdiv 146097 = z / 146097 := by
  split
  · next h => exact Int.tdiv_eq_ediv_of_nonneg h
  · next h =>
    have hneg : z - 146096 = -(146096 - z) := by omega
    rw [hneg, Int.neg_tdiv, Int.tdiv_eq_ediv_of_nonneg (by omega)]
    omega

/-- The days of an era that are no leap days, as the algorithm counts them. -/
def plainDays (doe : ℕ) : ℕ := doe - doe / 1460 + doe / 36524 - doe / 146096

theorem plainDays_monotone : Monotone plainDays := by
  apply monotone_nat_of_le_succ
  intro doe
  unfold plainDays
  omega

/-- The days of an era before a year. -/
def daysBefore (yoe : ℕ) : ℕ := 365 * yoe + yoe / 4 - yoe / 100

/-- The first and the last day of each year of an era. -/
theorem plainDays_bounds : ∀ yoe < 400,
    365 * yoe ≤ plainDays (daysBefore yoe) ∧
      plainDays (daysBefore yoe + 364) < 365 * (yoe + 1) ∧
      (IsLeap (yoe + 1 : ℕ) → plainDays (daysBefore yoe + 365) < 365 * (yoe + 1)) := by
  decide +kernel

theorem yearOfEra {yoe doy : ℕ} (hyoe : yoe < 400) (hdoy : doy ≤ 365)
    (hleap : doy = 365 → IsLeap (yoe + 1 : ℕ)) :
    plainDays (daysBefore yoe + doy) / 365 = yoe := by
  obtain ⟨hfirst, hlast, hlong⟩ := plainDays_bounds yoe hyoe
  have hlow := plainDays_monotone (Nat.le_add_right (daysBefore yoe) doy)
  have hhigh : plainDays (daysBefore yoe + doy) < 365 * (yoe + 1) := by
    by_cases heq : doy = 365
    · rw [heq]
      exact hlong (hleap heq)
    · have hle : daysBefore yoe + doy ≤ daysBefore yoe + 364 := by omega
      exact (plainDays_monotone hle).trans_lt hlast
  omega

/-- The day of a year gives the month: its months come in the lengths 31, 30, 31, 30, 31. -/
theorem marchMonth_eq (d : Date) : (5 * d.marchDay + 2) / 153 = d.marchMonth := by
  have hyear := d.marchDay_le.1
  obtain ⟨year, month, day, hone, hmonth, hpos, hday⟩ := d
  simp only [Date.marchDay, Date.marchMonth] at hyear ⊢
  interval_cases month <;> simp [daysIn] at hday hyear ⊢ <;> omega

theorem month_eq (d : Date) :
    (if d.marchMonth < 10 then d.marchMonth + 3 else d.marchMonth - 9) = d.month := by
  have hone := d.month_pos
  have hmonth := d.month_le
  unfold Date.marchMonth
  split_ifs <;> omega

theorem year_eq (d : Date) : (if d.month ≤ 2 then d.marchYear + 1 else d.marchYear) = d.year := by
  unfold Date.marchYear
  split_ifs <;> omega

/-- A number by its era, the year of the era and the day of the year. -/
theorem number_eq (d : Date) : ∃ yoe : ℕ, yoe < 400 ∧ d.marchYear = d.marchYear / 400 * 400 + yoe ∧
    d.number = d.marchYear / 400 * 146097 + (daysBefore yoe + d.marchDay : ℕ) ∧
    daysBefore yoe + d.marchDay < 146097 ∧ (d.marchDay = 365 → IsLeap (yoe + 1 : ℕ)) := by
  obtain ⟨hday, hleap⟩ := d.marchDay_le
  refine ⟨(d.marchYear % 400).toNat, by omega, by omega, ?_⟩
  unfold Date.number daysBefore
  unfold IsLeap at *
  refine ⟨by omega, by omega, fun h ↦ ?_⟩
  have hleap := hleap h
  omega

/-- The algorithm gives back every date, before the epoch as well. -/
theorem civilFromDays_number (d : Date) :
    civilFromDays (d.number - 719468) = (d.year, d.month, d.day) := by
  obtain ⟨yoe, hyoe, hyear, hnumber, hdoe, hleap⟩ := number_eq d
  have hera : d.number / 146097 = d.marchYear / 400 := by omega
  have hrest : (d.number - d.marchYear / 400 * 146097).toNat = daysBefore yoe + d.marchDay := by
    omega
  have hy := yearOfEra hyoe d.marchDay_le.1 hleap
  have hdoy : daysBefore yoe + d.marchDay - (365 * yoe + yoe / 4 - yoe / 100) = d.marchDay :=
    Nat.add_sub_cancel_left ..
  have hday : d.marchDay - (153 * d.marchMonth + 2) / 5 + 1 = d.day := by
    have hpos := d.day_pos
    unfold Date.marchDay
    omega
  unfold plainDays at hy
  have hmarch : (yoe : ℤ) + d.marchYear / 400 * 400 = d.marchYear := by omega
  simp only [civilFromDays, sub_add_cancel, era_eq, hera, hrest, hy, hdoy, marchMonth_eq, month_eq,
    hday, hmarch, year_eq]

theorem civilFromDays_ofDays (days : ℕ) : civilFromDays days =
    ((ofDays days).year, (ofDays days).month, (ofDays days).day) := by
  rw [← civilFromDays_number, number_ofDays, add_sub_cancel_right]

/-! ## The text -/

/-- How the digits of a timestamp are put together. -/
def dated (colon : Char) (year month day hour minute second : List Char) : List Char :=
  year ++ '-' :: (month ++ '-' :: (day ++ 'T' ::
    (hour ++ colon :: (minute ++ colon :: (second ++ ['Z'])))))

/-- The text of a date and a time of day, in four digits and two for each of the others. -/
structure Prints (colon : Char) (date : Date) (hour minute second : ℕ) (text : String) : Prop where
  digits : ∃ y mo d h mi s, text.toList = dated colon y mo d h mi s ∧
    Reads 4 date.year.toNat y ∧ Reads 2 date.month mo ∧ Reads 2 date.day d ∧
    Reads 2 hour h ∧ Reads 2 minute mi ∧ Reads 2 second s
  year_nonneg : 0 ≤ date.year

/-- The time of day that a second falls on. -/
structure Clock (secs hour minute second : ℕ) : Prop where
  hour_lt : hour < 24
  minute_lt : minute < 60
  second_lt : second < 60
  total : hour * 3600 + minute * 60 + second = secs % 86400

/-- The text of a second since the epoch, with its days counted in the calendar. -/
def Timestamp (colon : Char) (secs : ℕ) (text : String) : Prop :=
  ∃ hour minute second, Clock secs hour minute second ∧
    Prints colon (ofDays (secs / 86400)) hour minute second text

theorem Prints.lt_iff {colon : Char} {d e : Date} {hour minute second hour' minute' second' : ℕ}
    {text text' : String} (h : Prints colon d hour minute second text)
    (h' : Prints colon e hour' minute' second' text') :
    text < text' ↔ d.rank < e.rank ∨ d.rank = e.rank ∧
      (hour < hour' ∨ hour = hour' ∧ (minute < minute' ∨ minute = minute' ∧ second < second')) := by
  have hyear := h.year_nonneg
  have hyear' := h'.year_nonneg
  obtain ⟨y, mo, da, ho, mi, se, htext, hy, hmo, hda, hho, hmi, hse⟩ := h.digits
  obtain ⟨y', mo', da', ho', mi', se', htext', hy', hmo', hda', hho', hmi', hse'⟩ := h'.digits
  rw [String.lt_iff_toList_lt, htext, htext', dated, dated,
    append_cons_lt_append_cons_iff (hy.length.trans hy'.length.symm),
    append_cons_lt_append_cons_iff (hmo.length.trans hmo'.length.symm),
    append_cons_lt_append_cons_iff (hda.length.trans hda'.length.symm),
    append_cons_lt_append_cons_iff (hho.length.trans hho'.length.symm),
    append_cons_lt_append_cons_iff (hmi.length.trans hmi'.length.symm),
    append_lt_append_iff (hse.length.trans hse'.length.symm),
    hy.lt_iff hy', hy.eq_iff hy', hmo.lt_iff hmo', hmo.eq_iff hmo', hda.lt_iff hda',
    hda.eq_iff hda', hho.lt_iff hho', hho.eq_iff hho', hmi.lt_iff hmi', hmi.eq_iff hmi',
    hse.lt_iff hse', lt_self_iff_false, and_false, or_false, Date.rank_lt_iff, Date.rank_eq_iff]
  omega

/-- The texts sort by time. -/
theorem Timestamp.lt_iff {colon : Char} {secs secs' : ℕ} {text text' : String}
    (h : Timestamp colon secs text) (h' : Timestamp colon secs' text') :
    text < text' ↔ secs < secs' := by
  obtain ⟨hour, minute, second, hclock, hprints⟩ := h
  obtain ⟨hour', minute', second', hclock', hprints'⟩ := h'
  rw [hprints.lt_iff hprints', rank_ofDays_lt_iff, rank_ofDays_inj]
  have h₁ := hclock.hour_lt
  have h₂ := hclock.minute_lt
  have h₃ := hclock.second_lt
  have h₄ := hclock.total
  have h₁' := hclock'.hour_lt
  have h₂' := hclock'.minute_lt
  have h₃' := hclock'.second_lt
  have h₄' := hclock'.total
  omega

theorem Timestamp.length {colon : Char} {secs : ℕ} {text : String} (h : Timestamp colon secs text) :
    text.toList.length = 20 := by
  obtain ⟨hour, minute, second, -, hprints⟩ := h
  obtain ⟨y, mo, d, h, mi, s, htext, hy, hmo, hd, hh, hmi, hs⟩ := hprints.digits
  rw [htext, dated]
  simp only [List.length_append, List.length_cons, List.length_nil, hy.length, hmo.length,
    hd.length, hh.length, hmi.length, hs.length]

theorem reads_zeroPadded {width n : ℕ} (hwidth : 0 < width) (h : n < 10 ^ width) :
    Reads width n (zeroPadded width n).toList := by
  rw [zeroPadded, String.toList_ofList]
  exact reads_leftpad hwidth h

theorem zeroPaddedInt_of_nonneg (width : ℕ) {n : ℤ} (h : 0 ≤ n) :
    zeroPaddedInt width n = zeroPadded width n.toNat := by
  rw [zeroPaddedInt, if_neg (not_lt.mpr h)]
  congr 1
  omega

/-- Before the year 10000. -/
def FourDigits (unixMillis : ℕ) : Prop := (ofDays (unixMillis / 1000 / 86400)).year < 10000

/-- Until the year has five digits, a timestamp is the date and time of its second. -/
theorem timestamp_rfc3339Utc {unixMillis : ℕ} (h : FourDigits unixMillis) :
    Timestamp ':' (unixMillis / 1000) (rfc3339Utc unixMillis) := by
  unfold FourDigits at h
  have hyear := year_ofDays_le (unixMillis / 1000 / 86400)
  have hmonth := (ofDays (unixMillis / 1000 / 86400)).month_le
  have hday := (ofDays (unixMillis / 1000 / 86400)).day_le.trans (daysIn_le ..)
  simp only [rfc3339Utc, civilFromDays_ofDays]
  generalize unixMillis / 1000 = secs at *
  unfold Timestamp
  generalize ofDays (secs / 86400) = date at *
  refine ⟨secs % 86400 / 3600, secs % 86400 % 3600 / 60, secs % 86400 % 60,
    ⟨by omega, by omega, by omega, by omega⟩, ⟨⟨_, _, _, _, _, _, ?_,
      reads_zeroPadded (by decide) (by omega), reads_zeroPadded (by decide) (by omega),
      reads_zeroPadded (by decide) (by omega), reads_zeroPadded (by decide) (by omega),
      reads_zeroPadded (by decide) (by omega), reads_zeroPadded (by decide) (by omega)⟩,
      by omega⟩⟩
  rw [zeroPaddedInt_of_nonneg 4 (by omega)]
  simp [dated]

theorem number_inj {d e : Date} (h : d.number = e.number) : d = e := by
  have hcivil := civilFromDays_number d
  rw [h, civilFromDays_number e] at hcivil
  ext
  · exact (Prod.mk.inj hcivil).1.symm
  · exact (Prod.mk.inj (Prod.mk.inj hcivil).2).1.symm
  · exact (Prod.mk.inj (Prod.mk.inj hcivil).2).2.symm

theorem year_ofDays_lt_iff (days : ℕ) : (ofDays days).year < 10000 ↔ days < 2932897 := by
  have hday : ofDays 2932897 = newYear 10000 := by
    apply number_inj
    rw [number_ofDays]
    decide
  have hone := (ofDays days).month_pos
  have hpos := (ofDays days).day_pos
  have hyear : (newYear 10000).year = 10000 := rfl
  have hmonth : (newYear 10000).month = 1 := rfl
  have hfirst : (newYear 10000).day = 1 := rfl
  rw [← rank_ofDays_lt_iff, hday, Date.rank_lt_iff]
  omega

theorem fourDigits_iff (unixMillis : ℕ) : FourDigits unixMillis ↔ unixMillis < 253402300800000 := by
  rw [FourDigits, year_ofDays_lt_iff]
  omega

end Time

/-! ## The names of backups and of snapshots -/

namespace Backup

open Decimals Time

def dash (c : Char) : Char := if c = ':' then '-' else c

/-- The copy's directory name: the time with `-` for `:`. -/
def stamp (nowMs : ℕ) : String := String.ofList ((rfc3339Utc nowMs).toList.map dash)

theorem map_dash_of_reads {width n : ℕ} {text : List Char} (h : Reads width n text) :
    text.map dash = text := by
  have hsame : ∀ c ∈ text, dash c = c := by
    intro c hc
    apply if_neg
    intro heq
    have hdigit := h.digits c hc
    rw [heq] at hdigit
    exact absurd hdigit (by decide)
  rw [List.map_congr_left hsame, List.map_id']

theorem timestamp_dash {secs : ℕ} {text : String} (h : Timestamp ':' secs text) :
    Timestamp '-' secs (String.ofList (text.toList.map dash)) := by
  obtain ⟨hour, minute, second, hclock, hprints⟩ := h
  obtain ⟨y, mo, d, h, mi, s, htext, hy, hmo, hd, hh, hmi, hs⟩ := hprints.digits
  refine ⟨hour, minute, second, hclock,
    ⟨y, mo, d, h, mi, s, ?_, hy, hmo, hd, hh, hmi, hs⟩, hprints.year_nonneg⟩
  have hdash : dash '-' = '-' := rfl
  have hcolon : dash ':' = '-' := rfl
  have hT : dash 'T' = 'T' := rfl
  have hZ : dash 'Z' = 'Z' := rfl
  rw [String.toList_ofList, htext, dated, dated]
  simp only [List.map_append, List.map_cons, List.map_nil, map_dash_of_reads hy,
    map_dash_of_reads hmo, map_dash_of_reads hd, map_dash_of_reads hh, map_dash_of_reads hmi,
    map_dash_of_reads hs, hdash, hcolon, hT, hZ]

theorem utf8ByteSize_of_ascii {text : String} (h : ∀ c ∈ text.toList, c.toNat < 128) :
    text.utf8ByteSize = text.toList.length := by
  rw [← String.utf8Len_toList]
  generalize text.toList = cs at *
  induction cs with
  | nil => rfl
  | cons c cs ih =>
    have hc : c.utf8Size = 1 :=
      Char.utf8Size_eq_one_iff.mpr (Nat.le_of_lt_succ (h c (List.mem_cons_self ..)))
    have ih := ih fun d hd ↦ h d (List.mem_cons_of_mem c hd)
    rw [String.utf8Len_cons, hc, ih, List.length_cons]

/-- A timestamp with dashes is a name that a call takes. -/
theorem isStamp_of_timestamp {secs : ℕ} {text : String} (h : Timestamp '-' secs text) :
    isStamp text = true := by
  have hlen := h.length
  obtain ⟨hour, minute, second, -, hprints⟩ := h
  obtain ⟨y, mo, d, h, mi, s, htext, hy, hmo, hd, hh, hmi, hs⟩ := hprints.digits
  have hall : ∀ c ∈ text.toList, c.isDigit = true ∨ c = '-' ∨ c = 'T' ∨ c = 'Z' := by
    have hdigits : ∀ {width n : ℕ} {text : List Char}, Reads width n text →
        ∀ c ∈ text, c.isDigit = true ∨ c = '-' ∨ c = 'T' ∨ c = 'Z' :=
      fun hr c hc ↦ .inl (hr.digits c hc)
    rw [htext, dated]
    simp only [List.forall_mem_append, List.forall_mem_cons]
    exact ⟨hdigits hy, by simp, hdigits hmo, by simp, hdigits hd, by simp, hdigits hh, by simp,
      hdigits hmi, by simp, hdigits hs, by simp⟩
  have hascii : ∀ c ∈ text.toList, c.toNat < 128 := by
    intro c hc
    rcases hall c hc with hdigit | rfl | rfl | rfl
    · have hle : c.toNat ≤ 57 := (Char.isDigit_iff_toNat.mp hdigit).2
      omega
    · decide
    · decide
    · decide
  have hlast : text.toList.getLast? = some 'Z' := by
    rw [htext, dated]
    simp [List.getLast?_append, List.getLast?_cons]
  unfold isStamp
  rw [utf8ByteSize_of_ascii hascii, hlen, hlast, Bool.and_eq_true, List.all_eq_true]
  refine ⟨rfl, fun c hc ↦ ?_⟩
  have hc := hall c hc
  simp only [Bool.or_eq_true, beq_iff_eq]
  tauto

/-- A call that is stamped with a time is not refused for its stamp. -/
theorem isStamp_stamp {nowMs : ℕ} (h : FourDigits nowMs) : isStamp (stamp nowMs) = true :=
  isStamp_of_timestamp (timestamp_dash (timestamp_rfc3339Utc h))

end Backup

namespace Time

open Calendar Decimals

/-- Timestamps are right and sort by time, and so do the names that begin with one. -/
theorem timestamps :
    (∀ ms, FourDigits ms → Timestamp ':' (ms / 1000) (rfc3339Utc ms)) ∧
    ∀ i j, FourDigits i → FourDigits j →
      (rfc3339Utc i < rfc3339Utc j ↔ i / 1000 < j / 1000) ∧
      (Backup.stamp i < Backup.stamp j ↔ i / 1000 < j / 1000) ∧
      ∀ moment moment', i / 1000 < j / 1000 →
        Memory.snapshotName (rfc3339Utc i) moment < Memory.snapshotName (rfc3339Utc j) moment' := by
  refine ⟨fun ms h ↦ timestamp_rfc3339Utc h, fun i j hi hj ↦ ?_⟩
  have hfirst := timestamp_rfc3339Utc hi
  have hsecond := timestamp_rfc3339Utc hj
  have hlt := hfirst.lt_iff hsecond
  refine ⟨hlt, ?_, fun moment moment' h ↦ ?_⟩
  · exact (Backup.timestamp_dash hfirst).lt_iff (Backup.timestamp_dash hsecond)
  · -- the times have the same length, so they decide
    rw [Memory.snapshotName, Memory.snapshotName, String.append_assoc, String.append_assoc]
    exact append_lt_append (hfirst.length.trans hsecond.length.symm) (hlt.mpr h) _ _

theorem timestamps_leapDay :
    Timestamp ':' 951782400 "2000-02-29T00:00:00Z" ∧
      rfc3339Utc 1600000000000 < rfc3339Utc 1788631331999 := by
  have htext : rfc3339Utc 951782400000 = "2000-02-29T00:00:00Z" := by decide +kernel
  have hsecs : 951782400000 / 1000 = 951782400 := by decide
  constructor
  · have hprints := timestamps.1 951782400000 ((fourDigits_iff _).mpr (by decide))
    rwa [htext, hsecs] at hprints
  · have hlt := timestamps.2 1600000000000 1788631331999 ((fourDigits_iff _).mpr (by decide))
      ((fourDigits_iff _).mpr (by decide))
    exact hlt.1.mpr (by decide)

end Time

end Silta
