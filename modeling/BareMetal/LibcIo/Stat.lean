import BareMetal.LibcIo.Descriptors
import BareMetal.Rtc.Setting
import BareMetal.Rtc.WallClock

/-!
# The status of a file

`_stat_r` asks FatFs for what the directory says of a file, `_fstat_r` looks at an open file
object; both fill in a `struct stat`.

FatFs stamps a file with the time `get_fattime` packs into a double word, and stores it in the
directory as two words, the date and the time of day. `_stat_r` gives out the second of them
as the modification time – a comment beside it asks for the unit – so `st_mtime` counts two
seconds as one, minutes as 32 and hours as 2048, and no day at all
(`BareMetal.LibcIo.stMtime_stamp`). It is a number below `2 ^ 16`, and every date of the clock
is long after that: no file has the right time (`BareMetal.LibcIo.not_fileTime`). The stamp
itself is right: the two words together are the Unix time, up to the odd second
(`BareMetal.LibcIo.fatTime_stamp`).
-/

namespace BareMetal

namespace LibcIo

open FatFs Rtc

/-! ### The code -/

/-- `S_IFREG` and `S_IFDIR`. -/
inductive StMode where
  | reg | dir
  deriving DecidableEq, Repr

/-- `struct stat`, as far as it is not left zero. -/
structure Stat where
  stMode : StMode
  stSize : ℕ
  stMtime : ℕ
  stBlksize : ℕ
  stBlocks : ℕ
  deriving DecidableEq, Repr

/-- `FILINFO`, as far as it is not the name. -/
structure StatInfo where
  fsize : BitVec 32
  fdate : BitVec 16
  ftime : BitVec 16
  fattrib : BitVec 8
  deriving DecidableEq, Repr

/-- `get_fileinfo`, of a directory entry with a modification stamp: `DIR_ModTime` is a double
word, read back as two words. -/
def getFileinfo (modTime : BitVec 32) (fsize : BitVec 32) (attr : BitVec 8) : StatInfo where
  fsize := fsize
  ftime := modTime.setWidth 16
  fdate := (modTime >>> 16).setWidth 16
  fattrib := attr

/-- `_stat_r`: what it returns, and the structure if it is written to. -/
def statR (rc : FResult) (fi : StatInfo) : FileResult × Option Stat :=
  if rc ≠ .ok then (⟨-1, rc2errno rc⟩, none)
  else
    (⟨0, none⟩, some
      { stMode := if has fi.fattrib amDir then .dir else .reg
        stSize := fi.fsize.toNat
        stMtime := fi.ftime.toNat
        stBlksize := 0
        stBlocks := 0 })

/-- `_fstat_r`. -/
def fstatR (s : Files) (fd : ℤ) : FileResult × Option Stat :=
  match getDescr fd with
  | none => (⟨-1, some .ebadf⟩, none)
  | some i =>
      (⟨0, none⟩, some
        { stMode := .reg
          stSize := (s.fil i).obj.objsize.toNat
          stMtime := 0
          stBlksize := 512
          stBlocks := (s.fil i).obj.objsize.toNat / 512 })

/-! ### The time of a file -/

/-- The Unix time of a FAT date and time. -/
def fatTime (fdate ftime : BitVec 16) : ℤ :=
  Civil.seconds ((1980 + fdate.toNat / 2 ^ 9) * 12 + (fdate.toNat / 2 ^ 5 % 2 ^ 4 - 1))
    (fdate.toNat % 2 ^ 5) (ftime.toNat / 2 ^ 11) (ftime.toNat / 2 ^ 5 % 2 ^ 6)
    (ftime.toNat % 2 ^ 5 * 2)

/-- A date and time, rounded down to an even second. -/
def evenTime (t : DateTime) : ℤ := unixTime t - t.second % 2

/-- **The time of a file is right**: of a file stamped at a date, `_stat_r` reports that
date. -/
def FileTime (cal : Calendar) (t : ValidDateTime) (fsize : BitVec 32) (attr : BitVec 8) : Prop :=
  ∃ st, (statR .ok (getFileinfo (getFattime cal t.toDateTime .still) fsize attr)).2 = some st ∧
    (st.stMtime : ℤ) = evenTime t.toDateTime

/-! ### The stamp -/

variable (cal : Calendar) (t : DateTime) (fsize : BitVec 32) (attr : BitVec 8)

/-- The word with the time. -/
theorem ftime_stamp :
    (getFileinfo (getFattime cal t .still) fsize attr).ftime.toNat =
      t.hour * 2 ^ 11 + t.minute * 2 ^ 5 + t.second / 2 := by
  have hhour := t.hour_lt
  have hminute := t.minute_lt
  have hsecond := t.second_lt
  simp only [getFileinfo, BitVec.toNat_setWidth, getFattime_still, fattimeOf]
  omega

/-- The two words together are the double word of the stamp, decoded. -/
theorem fatTime_getFileinfo (stamp : BitVec 32) :
    fatTime (getFileinfo stamp fsize attr).fdate (getFileinfo stamp fsize attr).ftime =
      Civil.seconds ((decodeFat stamp).year * 12 + ((decodeFat stamp).month - 1))
        (decodeFat stamp).day (decodeFat stamp).hour (decodeFat stamp).minute
        ((decodeFat stamp).secondPair * 2) := by
  have hlt := stamp.isLt
  simp only [fatTime, getFileinfo, decodeFat, toNat_fieldAt, BitVec.toNat_setWidth,
    BitVec.toNat_ushiftRight, Nat.shiftRight_eq_div_pow]
  generalize stamp.toNat = n at hlt ⊢
  have hdate : n / 2 ^ 16 % 2 ^ 16 / 2 ^ 9 = n / 2 ^ 25 % 2 ^ 7 ∧
      n / 2 ^ 16 % 2 ^ 16 / 2 ^ 5 % 2 ^ 4 = n / 2 ^ 21 % 2 ^ 4 ∧
      n / 2 ^ 16 % 2 ^ 16 % 2 ^ 5 = n / 2 ^ 16 % 2 ^ 5 := by omega
  have htime : n % 2 ^ 16 / 2 ^ 11 = n / 2 ^ 11 % 2 ^ 5 ∧
      n % 2 ^ 16 / 2 ^ 5 % 2 ^ 6 = n / 2 ^ 5 % 2 ^ 6 ∧
      n % 2 ^ 16 % 2 ^ 5 = n / 2 ^ 0 % 2 ^ 5 := by omega
  rw [hdate.1, hdate.2.1, hdate.2.2, htime.1, htime.2.1, htime.2.2]

/-- **The stamp is right**: its two words together are the time, up to the odd second. -/
theorem fatTime_stamp :
    fatTime (getFileinfo (getFattime cal t .still) fsize attr).fdate
      (getFileinfo (getFattime cal t .still) fsize attr).ftime = evenTime t := by
  rw [fatTime_getFileinfo, ← getFattime_eq_still, decodeFat_getFattime, evenTime, unixTime]
  simp only [rtcGetYear_reg, rtcGetMonth_reg, rtcGetDay_reg, rtcGetHour_reg, rtcGetMinute_reg,
    rtcGetSecond_reg]
  rw [Nat.add_comm t.year, Civil.seconds, Civil.seconds]
  omega

/-! ### What is reported -/

/-- **What `st_mtime` is.** -/
theorem stMtime_stamp :
    (statR .ok (getFileinfo (getFattime cal t .still) fsize attr)).2.map Stat.stMtime =
      some (t.hour * 2 ^ 11 + t.minute * 2 ^ 5 + t.second / 2) := by
  rw [statR, if_neg (by decide), Option.map_some, ftime_stamp]

/-- **No file has the right time**, whatever the date it was stamped with. -/
theorem not_fileTime (cal : Calendar) (t : ValidDateTime) (fsize : BitVec 32)
    (attr : BitVec 8) : ¬FileTime cal t fsize attr := by
  rintro ⟨st, hst, htime⟩
  have hmtime := stMtime_stamp cal t.toDateTime fsize attr
  rw [hst, Option.map_some] at hmtime
  have hge := unixTime_ge t
  have hhour := t.hour_lt
  have hminute := t.minute_lt
  have hsecond := t.second_lt
  rw [Option.some.inj hmtime, evenTime] at htime
  omega

/-- A file stamped on the fifteenth of June 2021, one second before eleven, is reported with a
time of the first of January 1970. -/
theorem not_fileTime_june :
    (statR .ok (getFileinfo (getFattime gregorian beforeEleven .still) 0#32 0#8)).2 =
        some ⟨.reg, 0, 22397, 0, 0⟩ ∧
      evenTime beforeEleven = 1623754798 ∧ ¬FileTime gregorian juneFifteenth 0#32 0#8 := by
  refine ⟨by decide, by decide, ?_⟩
  rintro ⟨st, hst, htime⟩
  have hreported : (statR .ok
      (getFileinfo (getFattime gregorian beforeEleven .still) 0#32 0#8)).2 =
        some ⟨.reg, 0, 22397, 0, 0⟩ := by decide
  obtain rfl := Option.some.inj (hreported.symm.trans hst)
  exact absurd htime (by decide)

end LibcIo

end BareMetal
