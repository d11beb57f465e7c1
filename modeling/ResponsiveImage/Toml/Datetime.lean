/-
ResponsiveImage/Toml/Datetime.lean

Dates and times of TOML, read from text and written as text.

A text may separate date and time by a `T` of either case or by a space, and
write any number of digits behind the seconds, of which nine count.  What is
written has one form: a capital `T` and `Z`, no zero at the end of a fraction,
and `+00:00` for an offset of nothing.

`fixedDigits?_padded` says that a number of no more digits than are asked for
is read back from them.
-/
import ResponsiveImage.Text.Split

namespace ResponsiveImage

/-- A day of the calendar. -/
structure TomlDate where
  year : Nat
  month : Nat
  day : Nat
  deriving DecidableEq

/-- A time of day. -/
structure TomlTime where
  hour : Nat
  minute : Nat
  second : Nat
  nanosecond : Nat
  deriving DecidableEq

/-- How far a time of day is from universal time. -/
inductive TomlOffset where
  /-- It is universal time. -/
  | universal
  /-- It is so many minutes ahead of universal time, less than a day. -/
  | ahead (minutes : Int)
  deriving DecidableEq

/-- A date, a time, or both.  Only both together have an offset. -/
inductive TomlDatetime where
  | date (d : TomlDate)
  | time (t : TomlTime)
  | moment (d : TomlDate) (t : TomlTime) (offset : Option TomlOffset)
  deriving DecidableEq

/-! ### Digits -/

namespace TomlDatetime

/-- Exactly so many decimal digits, as a number. -/
def fixedDigits? (count : Nat) (text : List Char) : Option Nat :=
  if text.length = count && text.all Char.isDigit then some (Nat.ofDigitChars 10 text 0) else none

/-- A number in at least so many decimal digits. -/
def padded (count n : Nat) : List Char :=
  let digits := Nat.toDigits 10 n
  List.replicate (count - digits.length) '0' ++ digits

theorem fixedDigits?_padded {count n : Nat} (hlen : (Nat.toDigits 10 n).length ≤ count) :
    fixedDigits? count (padded count n) = some n := by
  have hdigits : (padded count n).all Char.isDigit = true := by
    simp only [padded, List.all_append, Bool.and_eq_true, List.all_eq_true]
    refine ⟨fun c hc => ?_, fun c hc => Nat.isDigit_of_mem_toDigits (by omega) (by omega) hc⟩
    rw [List.eq_of_mem_replicate hc]
    decide
  have hvalue : Nat.ofDigitChars 10 (padded count n) 0 = n := by
    simp [padded, Nat.ofDigitChars_append, Nat.ofDigitChars_replicate_zero]
  have hwidth : (padded count n).length = count := by
    simp only [padded, List.length_append, List.length_replicate]
    omega
  simp [fixedDigits?, hwidth, hdigits, hvalue]

end TomlDatetime

open TomlDatetime

/-! ### Dates -/

namespace TomlDate

/-- The number of days of a month. -/
def daysOfMonth (year month : Nat) : Nat :=
  if month = 2 then
    if year % 4 = 0 ∧ (year % 100 ≠ 0 ∨ year % 400 = 0) then 29 else 28
  else if month = 4 || month = 6 || month = 9 || month = 11 then 30
  else 31

/-- The date that a text like `2020-01-31` is. -/
def ofText? (text : List Char) : Option TomlDate := do
  match splitEvery '-' text with
  | [y, m, d] =>
    let year ← fixedDigits? 4 y
    let month ← fixedDigits? 2 m
    let day ← fixedDigits? 2 d
    if 1 ≤ month ∧ month ≤ 12 ∧ 1 ≤ day ∧ day ≤ daysOfMonth year month then
      some ⟨year, month, day⟩
    else none
  | _ => none

/-- A date as text. -/
def text (d : TomlDate) : List Char :=
  padded 4 d.year ++ '-' :: padded 2 d.month ++ '-' :: padded 2 d.day

end TomlDate

/-! ### Times -/

namespace TomlTime

/-- Hours and minutes. -/
def hourMinute? (hour minute : List Char) : Option (Nat × Nat) := do
  let h ← fixedDigits? 2 hour
  let m ← fixedDigits? 2 minute
  if h ≤ 23 ∧ m ≤ 59 then some (h, m) else none

/-- The nanoseconds that the text behind the seconds is. -/
def nanoseconds? : List Char → Option Nat
  | [] => some 0
  | '.' :: digits =>
    if digits ≠ [] && digits.all Char.isDigit then
      some (Nat.ofDigitChars 10 (digits.take 9 ++ List.replicate (9 - digits.length) '0') 0)
    else none
  | _ => none

/-- The time that a text like `23:59:59.5` is. -/
def ofText? (text : List Char) : Option TomlTime := do
  match splitEvery ':' text with
  | [h, m, s] =>
    let (hour, minute) ← hourMinute? h m
    let second ← fixedDigits? 2 (s.take 2)
    let nanosecond ← nanoseconds? (s.drop 2)
    -- a leap second is the sixtieth
    if second ≤ 60 then some ⟨hour, minute, second, nanosecond⟩ else none
  | _ => none

/-- The nanoseconds as text. -/
def fractionText (nanosecond : Nat) : List Char :=
  if nanosecond = 0 then []
  else '.' :: ((padded 9 nanosecond).reverse.dropWhile (· = '0')).reverse

/-- A time as text. -/
def text (t : TomlTime) : List Char :=
  padded 2 t.hour ++ ':' :: padded 2 t.minute ++ ':' :: padded 2 t.second ++
    fractionText t.nanosecond

end TomlTime

/-! ### Offsets -/

namespace TomlOffset

/-- The offset that a text like `+01:00` is. -/
def ofText? (text : List Char) : Option TomlOffset := do
  match text with
  | ['Z'] | ['z'] => some .universal
  | sign :: rest =>
    match splitEvery ':' rest with
    | [h, m] =>
      let (hours, minutes) ← TomlTime.hourMinute? h m
      let distance : Int := 60 * hours + minutes
      if sign = '+' then some (.ahead distance)
      else if sign = '-' then some (.ahead (-distance))
      else none
    | _ => none
  | [] => none

/-- An offset as text. -/
def text : TomlOffset → List Char
  | .universal => ['Z']
  | .ahead minutes =>
    let n := minutes.natAbs
    (if minutes < 0 then '-' else '+') :: padded 2 (n / 60) ++ ':' :: padded 2 (n % 60)

end TomlOffset

/-! ### Both -/

namespace TomlDatetime

/-- The date and the time that two texts are, the time with or without an
offset. -/
def momentOfTexts? (date zoned : List Char) : Option TomlDatetime := do
  let d ← TomlDate.ofText? date
  let (clock, offset) := zoned.span fun c => c.isDigit || c = ':' || c = '.'
  let t ← TomlTime.ofText? clock
  if offset = [] then some (.moment d t none)
  else return .moment d t (some (← TomlOffset.ofText? offset))

/-- The date, the time or both that a text is. -/
def ofText? (text : List Char) : Option TomlDatetime :=
  match TomlDate.ofText? text, TomlTime.ofText? text with
  | some d, _ => some (.date d)
  | none, some t => some (.time t)
  | none, none =>
    match text.drop 10 with
    | c :: zoned =>
      if c = 'T' || c = 't' || c = ' ' then momentOfTexts? (text.take 10) zoned else none
    | [] => none

/-- A date, a time or both, as text. -/
def text : TomlDatetime → List Char
  | .date d => d.text
  | .time t => t.text
  | .moment d t offset => d.text ++ 'T' :: t.text ++ (offset.map TomlOffset.text).getD []

end TomlDatetime

end ResponsiveImage
