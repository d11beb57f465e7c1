/-
ResponsiveImage/Sizes/Condition.lean

Media conditions on the viewport width.

A condition is read as two bounds.  Each bound is searched for on its own:
the first place in the text where one of its spellings is followed by digits
counts, whatever stands around it.  The inclusive spellings are `max-width:`
and `width <=`, `min-width:` and `width >=`; the exclusive ones are `width <`
and `width >`, in which the sign may be missing, so that `width 5` excludes
from both sides.  Of an inclusive and an exclusive bound the tighter one
holds.  A number beyond 64 bits is no bound.
-/
import ResponsiveImage.Sizes.Interval
import ResponsiveImage.Text.Blank
import ResponsiveImage.Text.Split

namespace ResponsiveImage

/-! ### Searching for a comparison -/

/-- What `read` finds at the first place of a text where it finds anything. -/
def firstMatch? {α : Type} (read : List Char → Option α) : List Char → Option α
  | [] => read []
  | c :: rest =>
    match read (c :: rest) with
    | some a => some a
    | none => firstMatch? read rest

/-- The digits that a text starts with after white space, if there are any. -/
def digitsAtStart? (text : List Char) : Option (List Char) :=
  let digits := (trimStart text).takeWhile Char.isDigit
  if digits = [] then none else some digits

/-- The word that every comparison with a sign starts with. -/
def widthWord : List Char := ['w', 'i', 'd', 't', 'h']

/-- The digits of an inclusive bound that a text starts with: after `feature`,
or after `width` and a comparison sign. -/
def inclusiveAtStart? (feature sign text : List Char) : Option (List Char) :=
  match afterPrefix? feature text with
  | some rest => digitsAtStart? rest
  | none => do
    let rest ← afterPrefix? widthWord text
    digitsAtStart? (← afterPrefix? sign (trimStart rest))

/-- The digits of an exclusive bound that a text starts with: after `width`
and a comparison sign, which may be missing. -/
def exclusiveAtStart? (sign : Char) (text : List Char) : Option (List Char) := do
  let rest ← afterPrefix? widthWord text
  match trimStart rest with
  | [] => none
  -- without the sign the digits follow at once
  | c :: after => if c = sign then digitsAtStart? after else digitsAtStart? (c :: after)

/-- The number that digits write, if 64 bits hold it. -/
def boundOfDigits? (digits : List Char) : Option Int :=
  let n : Int := Nat.ofDigitChars 10 digits 0
  if n ≤ maxInt64 then some n else none

/-- The bound that the first match of a comparison gives. -/
def firstBound? (read : List Char → Option (List Char)) (query : List Char) : Option Int := do
  boundOfDigits? (← firstMatch? read query)

/-! ### Conditions -/

/-- The bounds that a condition sets, both inclusive. -/
structure Condition where
  min : Option Int
  max : Option Int
  deriving DecidableEq

namespace Condition

/-- The tighter of two bounds, either of which may be missing. -/
def tightest (pick : Int → Int → Int) : Option Int → Option Int → Option Int
  | some a, some b => some (pick a b)
  | none, b => b
  | a, none => a

/-- The condition that a text states. -/
def ofText (query : List Char) : Condition where
  min :=
    tightest Max.max
      (firstBound? (inclusiveAtStart? ['m', 'i', 'n', '-', 'w', 'i', 'd', 't', 'h', ':']
        ['>', '=']) query)
      ((firstBound? (exclusiveAtStart? '>') query).map fun n => clampInt64 (n + 1))
  max :=
    tightest Min.min
      (firstBound? (inclusiveAtStart? ['m', 'a', 'x', '-', 'w', 'i', 'd', 't', 'h', ':']
        ['<', '=']) query)
      ((firstBound? (exclusiveAtStart? '<') query).map fun n => n - 1)

/-- The part of an interval in which the condition holds. -/
def apply (c : Condition) (i : Interval) : Interval where
  min := match c.min with
    | some n => Max.max i.min n
    | none => i.min
  max := match c.max with
    | some n => Min.min i.max n
    | none => i.max

/-- A width meets both bounds. -/
def Holds (c : Condition) (w : Int) : Prop :=
  (∀ n ∈ c.min, n ≤ w) ∧ (∀ n ∈ c.max, w ≤ n)

theorem mem_apply_iff {c : Condition} {i : Interval} {w : Int} :
    w ∈ c.apply i ↔ w ∈ i ∧ c.Holds w := by
  obtain ⟨lo, hi⟩ := c
  cases lo <;> cases hi <;> simp [apply, Holds, Interval.mem_iff] <;> omega

end Condition

end ResponsiveImage
