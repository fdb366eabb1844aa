import Mathlib.Data.Nat.Digits
import Mathlib.Tactic.Ring

/-!
# Datetime — Python `datetime`, `strftime`, and Flink's `TO_TIMESTAMP`

`_range_table_by_time` renders each bound with `strftime("%Y-%m-%d %H:%M:%S")` and hands the
text to Flink, which reads it back with `to_timestamp`. This module defines:

* `Datetime` : a Python `datetime` (also a Flink timestamp), whose fields carry the ranges
  the `datetime` constructor enforces;
* `Datetime.strftime` : the directives `%Y %m %d %H %M %S %f` as CPython prints them on Linux,
  through glibc: the year in as many digits as it has, the other fields zero-padded;
* `toTimestamp` : Flink's parser for its default `yyyy-MM-dd HH:mm:ss` layout;
* the chronological order, read off the fields as one mixed-radix number.

The round trip `toTimestamp_strftime_seconds` says what survives the encoding of a year of
four digits: every field down to the second, and none of the microseconds.
-/

namespace Feathub

/-- `calendar.isleap`. -/
def isLeap (year : Nat) : Bool :=
  year % 4 = 0 && (year % 100 ≠ 0 || year % 400 = 0)

/-- The number of days of a month, as `datetime` checks `day` against it. -/
def daysInMonth (year month : Nat) : Nat :=
  if month = 2 then (if isLeap year then 29 else 28)
  else if month = 4 ∨ month = 6 ∨ month = 9 ∨ month = 11 then 30 else 31

theorem daysInMonth_le (year month : Nat) : daysInMonth year month ≤ 31 := by
  unfold daysInMonth; split_ifs <;> omega

/-- A naive `datetime.datetime`; the constructor rejects fields out of range, so the ranges
are part of the value. -/
structure Datetime where
  year : Nat
  month : Nat
  day : Nat
  hour : Nat
  minute : Nat
  second : Nat
  microsecond : Nat
  year_range : 1 ≤ year ∧ year ≤ 9999
  month_range : 1 ≤ month ∧ month ≤ 12
  day_range : 1 ≤ day ∧ day ≤ daysInMonth year month
  hour_lt : hour < 24
  minute_lt : minute < 60
  second_lt : second < 60
  microsecond_lt : microsecond < 1000000
  deriving DecidableEq

namespace Datetime

/-- `datetime(year, month, day, hour, minute, second, microsecond)`, or `none` where Python
raises `ValueError`. -/
def ofFields? (year month day hour minute second microsecond : Nat) : Option Datetime :=
  if h : (1 ≤ year ∧ year ≤ 9999) ∧ (1 ≤ month ∧ month ≤ 12) ∧
      (1 ≤ day ∧ day ≤ daysInMonth year month) ∧ hour < 24 ∧ minute < 60 ∧ second < 60 ∧
      microsecond < 1000000 then
    some ⟨year, month, day, hour, minute, second, microsecond,
      h.1, h.2.1, h.2.2.1, h.2.2.2.1, h.2.2.2.2.1, h.2.2.2.2.2.1, h.2.2.2.2.2.2⟩
  else none

theorem ofFields?_self (t : Datetime) (us : Nat) (hus : us < 1000000) :
    ofFields? t.year t.month t.day t.hour t.minute t.second us =
      some { t with microsecond := us, microsecond_lt := hus } := by
  simp [ofFields?, t.year_range, t.month_range, t.day_range, t.hour_lt, t.minute_lt,
    t.second_lt, hus]

/-- The fields read as one mixed-radix number. Each field stays below its radix (`day ≤ 31`
under radix 32), so comparing keys compares the fields lexicographically, which is how Python
compares naive datetimes and Flink compares timestamps. -/
def toKey (t : Datetime) : Nat :=
  (((((t.year * 13 + t.month) * 32 + t.day) * 24 + t.hour) * 60 + t.minute) * 60 + t.second)
    * 1000000 + t.microsecond

instance : LE Datetime := ⟨fun a b => a.toKey ≤ b.toKey⟩
instance : LT Datetime := ⟨fun a b => a.toKey < b.toKey⟩
instance (a b : Datetime) : Decidable (a ≤ b) := inferInstanceAs (Decidable (a.toKey ≤ b.toKey))
instance (a b : Datetime) : Decidable (a < b) := inferInstanceAs (Decidable (a.toKey < b.toKey))

theorem le_iff_toKey (a b : Datetime) : a ≤ b ↔ a.toKey ≤ b.toKey := Iff.rfl

theorem lt_iff_toKey (a b : Datetime) : a < b ↔ a.toKey < b.toKey := Iff.rfl

/-- The same instant with the microseconds dropped. -/
def truncateToSecond (t : Datetime) : Datetime :=
  { t with microsecond := 0, microsecond_lt := by decide }

theorem truncateToSecond_toKey (t : Datetime) :
    t.truncateToSecond.toKey + t.microsecond = t.toKey := by
  simp [truncateToSecond, toKey]

theorem truncateToSecond_le (t : Datetime) : t.truncateToSecond ≤ t := by
  rw [le_iff_toKey, ← truncateToSecond_toKey t]; omega

/-! ## strftime -/

/-- `n` printed in `width` decimal digits, zero-padded: `%02d`-style. -/
def pad : Nat → Nat → List Char
  | 0, _ => []
  | width + 1, n => pad width (n / 10) ++ [Nat.digitChar (n % 10)]

/-- The number of decimal digits of a year of `datetime`, which lies in `1..9999`. -/
def yearWidth (year : Nat) : Nat :=
  if year < 10 then 1 else if year < 100 then 2 else if year < 1000 then 3 else 4

theorem yearWidth_of_le {year : Nat} (h : 1000 ≤ year) : yearWidth year = 4 := by
  unfold yearWidth
  split_ifs <;> omega

/-- The text of one `strftime` directive `%c`. glibc prints `%Y` unpadded, so the year 5 is
`5`. -/
def directive (t : Datetime) : Char → List Char
  | 'Y' => pad (yearWidth t.year) t.year
  | 'm' => pad 2 t.month
  | 'd' => pad 2 t.day
  | 'H' => pad 2 t.hour
  | 'M' => pad 2 t.minute
  | 'S' => pad 2 t.second
  | 'f' => pad 6 t.microsecond
  | '%' => ['%']
  | c => ['%', c]

/-- `strftime` over a format's characters: directives expand, other characters are copied. -/
def strftimeChars (t : Datetime) : List Char → List Char
  | '%' :: c :: rest => t.directive c ++ strftimeChars t rest
  | c :: rest => c :: strftimeChars t rest
  | [] => []

/-- `t.strftime(format)`. -/
def strftime (t : Datetime) (format : String) : String :=
  ⟨strftimeChars t format.toList⟩

theorem strftime_seconds_toList (t : Datetime) :
    (t.strftime "%Y-%m-%d %H:%M:%S").toList =
      pad (yearWidth t.year) t.year ++ ('-' :: (pad 2 t.month ++ ('-' :: (pad 2 t.day ++ (' ' :: (pad 2 t.hour ++
        (':' :: (pad 2 t.minute ++ (':' :: pad 2 t.second))))))))) := rfl

end Datetime

/-! ## TO_TIMESTAMP -/

/-- Read exactly `width` decimal digits onto the accumulator `acc`. -/
def readDigits : Nat → Nat → List Char → Option (Nat × List Char)
  | 0, acc, cs => some (acc, cs)
  | _ + 1, _, [] => none
  | width + 1, acc, c :: cs =>
    if c.isDigit then readDigits width (acc * 10 + (c.toNat - '0'.toNat)) cs else none

/-- Flink's default timestamp layout `yyyy-MM-dd HH:mm:ss`: each numeric field's width and
the separator that follows it. -/
def timestampLayout : List (Nat × Option Char) :=
  [(4, some '-'), (2, some '-'), (2, some ' '), (2, some ':'), (2, some ':'), (2, none)]

/-- Read the numeric fields of a layout, each followed by its separator, up to the end of the
text. -/
def readLayout : List (Nat × Option Char) → List Char → Option (List Nat)
  | [], cs => if cs = [] then some [] else none
  | (width, sep) :: layout, cs =>
    match readDigits width 0 cs, sep with
    | none, _ => none
    | some (n, rest), none => (readLayout layout rest).map (n :: ·)
    | some (n, c' :: rest), some c =>
      if c' = c then (readLayout layout rest).map (n :: ·) else none
    | some (_, []), some _ => none

/-- Flink's `TO_TIMESTAMP(text)` under its default layout; `none` stands for the `NULL` Flink
returns on text it cannot read. -/
def toTimestamp (text : String) : Option Datetime :=
  match readLayout timestampLayout text.toList with
  | some [year, month, day, hour, minute, second] =>
    Datetime.ofFields? year month day hour minute second 0
  | _ => none

theorem digitChar_isDigit_toNat :
    ∀ d, d < 10 →
      (Nat.digitChar d).isDigit = true ∧ (Nat.digitChar d).toNat - '0'.toNat = d := by
  decide

theorem readDigits_add (a b acc : Nat) (cs : List Char) :
    readDigits (a + b) acc cs = (readDigits a acc cs).bind fun r => readDigits b r.1 r.2 := by
  induction a generalizing acc cs with
  | zero => simp [readDigits]
  | succ a ih =>
    rw [Nat.add_right_comm]
    cases cs with
    | nil => simp [readDigits]
    | cons c cs => by_cases hc : c.isDigit <;> simp [readDigits, hc, ih]

/-- Reading back `pad width n` yields `n` modulo `10 ^ width`. -/
theorem readDigits_pad (width n acc : Nat) (rest : List Char) :
    readDigits width acc (Datetime.pad width n ++ rest) =
      some (acc * 10 ^ width + n % 10 ^ width, rest) := by
  induction width generalizing n acc rest with
  | zero => simp [readDigits, Datetime.pad, Nat.mod_one]
  | succ w ih =>
    obtain ⟨hdig, hval⟩ := digitChar_isDigit_toNat (n % 10) (Nat.mod_lt _ (by decide))
    rw [readDigits_add, Datetime.pad, List.append_assoc, ih]
    simp only [Option.some_bind, List.singleton_append, readDigits, hdig, if_true, hval]
    rw [pow_succ, Nat.mul_comm (10 ^ w) 10, Nat.mod_mul]
    ring_nf

theorem readDigits_pad_of_lt {width n : Nat} (h : n < 10 ^ width) (rest : List Char) :
    readDigits width 0 (Datetime.pad width n ++ rest) = some (n, rest) := by
  rw [readDigits_pad, Nat.mod_eq_of_lt h]; simp

theorem readLayout_pad_sep {width n : Nat} (h : n < 10 ^ width) (c : Char)
    (layout : List (Nat × Option Char)) (rest : List Char) :
    readLayout ((width, some c) :: layout) (Datetime.pad width n ++ c :: rest) =
      (readLayout layout rest).map (n :: ·) := by
  simp [readLayout, readDigits_pad_of_lt h]

theorem readLayout_pad_last {width n : Nat} (h : n < 10 ^ width) :
    readLayout [(width, none)] (Datetime.pad width n) = some [n] := by
  have hread := readDigits_pad_of_lt h []
  rw [List.append_nil] at hread
  simp [readLayout, hread]

/-- The range filter's encoding: `to_timestamp(t.strftime("%Y-%m-%d %H:%M:%S"))` is `t` with
its microseconds dropped, for every `datetime` `t` whose year has four digits. -/
theorem toTimestamp_strftime_seconds (t : Datetime) (hyear : 1000 ≤ t.year) :
    toTimestamp (t.strftime "%Y-%m-%d %H:%M:%S") = some t.truncateToSecond := by
  have hy : t.year < 10 ^ 4 := by have := t.year_range; norm_num; omega
  have hmo : t.month < 10 ^ 2 := by have := t.month_range; norm_num; omega
  have hd : t.day < 10 ^ 2 := by
    have := t.day_range; have := daysInMonth_le t.year t.month; norm_num; omega
  have hh : t.hour < 10 ^ 2 := by have := t.hour_lt; norm_num; omega
  have hmi : t.minute < 10 ^ 2 := by have := t.minute_lt; norm_num; omega
  have hs : t.second < 10 ^ 2 := by have := t.second_lt; norm_num; omega
  rw [toTimestamp, Datetime.strftime_seconds_toList, Datetime.yearWidth_of_le hyear,
    timestampLayout, readLayout_pad_sep hy, readLayout_pad_sep hmo, readLayout_pad_sep hd,
    readLayout_pad_sep hh, readLayout_pad_sep hmi, readLayout_pad_last hs]
  exact Datetime.ofFields?_self t 0 (by decide)

end Feathub
