/-
ResponsiveImage/Calculation/Arithmetic.lean

Arithmetic on written numbers: sums, products, unary minus and parentheses.

The text is read once from left to right.  What has been read is a `State`:
the operations that wait for their right operand, innermost first, and
whether an operand, more digits or an operator may follow.  An operand closes
the waiting product at once, so a division by zero is reported before
anything behind its divisor is looked at; a sum is closed by the next `+`,
`-` or closing parenthesis.  A text is therefore rejected at the first
character after which no continuation is an expression, and every state a
text leads to has such a continuation.

Positions count the characters in front, with ASCII whitespace left out; as
only ASCII characters are ever accepted, they count bytes as well.
-/
import ResponsiveImage.Binary64.Arithmetic
import ResponsiveImage.Decimal.Basic

namespace ResponsiveImage

/-! ### Errors -/

/-- Why a text is no expression. -/
inductive ExpressionFault where
  | trailingInput
  | missingClose
  | unexpectedCharacter
  | unexpectedEnd
  | secondPoint
  | invalidNumber
  deriving DecidableEq

/-- The fault in words. -/
def ExpressionFault.message : ExpressionFault → String
  | .trailingInput => "unexpected trailing input"
  | .missingClose => "missing closing parenthesis"
  | .unexpectedCharacter => "unexpected character"
  | .unexpectedEnd => "unexpected end of input"
  | .secondPoint => "second decimal point"
  | .invalidNumber => "invalid number"

/-- Why an expression has no value; a division is located by its sign. -/
inductive ArithmeticError where
  | divisionByZero (offset : Nat)
  | malformed (offset : Nat) (fault : ExpressionFault)
  deriving DecidableEq

/-- The error in words. -/
def ArithmeticError.message : ArithmeticError → String
  | .divisionByZero offset => s!"division by zero at offset {offset}"
  | .malformed offset fault => s!"malformed expression at offset {offset}: {fault.message}"

namespace Arithmetic

/-! ### Waiting operations -/

/-- A sum that waits for its next term. -/
inductive PendingSum where
  | none
  | plus (left : Binary64)
  | minus (left : Binary64)
  deriving DecidableEq

/-- A product that waits for its next factor; a division remembers where its
sign stands. -/
inductive PendingProduct where
  | none
  | times (left : Binary64)
  | over (left : Binary64) (offset : Nat)
  deriving DecidableEq

/-- The operations that wait for an operand within one pair of parentheses.
`negated` holds after an odd number of minus signs in front of the operand. -/
structure Level where
  sum : PendingSum
  product : PendingProduct
  negated : Bool
  deriving DecidableEq

/-- Nothing waits yet. -/
def Level.start : Level := ⟨.none, .none, false⟩

/-- Closes a sum with its next term. -/
def PendingSum.close : PendingSum → Binary64 → Binary64
  | .none, term => term
  | .plus left, term => left + term
  | .minus left, term => left - term

/-- Closes a product with its next factor. -/
def PendingProduct.close : PendingProduct → Binary64 → Except ArithmeticError Binary64
  | .none, factor => .ok factor
  | .times left, factor => .ok (left * factor)
  | .over left offset, factor =>
    if factor.isZero then .error (.divisionByZero offset) else .ok (left / factor)

/-- Puts an operand into its level: the signs in front of it apply first, then
the waiting product. -/
def Level.close (level : Level) (operand : Binary64) : Except ArithmeticError Binary64 :=
  level.product.close (if level.negated then -operand else operand)

/-! ### Reading -/

/-- What has been read so far.  `outer` lists the levels of the parentheses
that are still open around the present one. -/
inductive State where
  /-- An operand has to follow. -/
  | operand (level : Level) (outer : List Level)
  /-- In a number that starts at `start`; `digits` lists its characters, the
  last one first. -/
  | number (start : Nat) (digits : List Char) (level : Level) (outer : List Level)
  /-- A term of `sum` is complete, unless a further factor follows. -/
  | term (sum : PendingSum) (value : Binary64) (outer : List Level)
  deriving DecidableEq

/-- The value of a complete run of digits and points; `digits` lists it from
its end. -/
def numberValue (start : Nat) (digits : List Char) : Except ArithmeticError Binary64 :=
  match Decimal.plain? digits.reverse with
  | none => .error (.malformed start .invalidNumber)
  | some d => .ok (d.toBinary64 false)

/-- The term that a complete run of digits closes. -/
def Level.closeNumber (level : Level) (start : Nat) (digits : List Char) :
    Except ArithmeticError Binary64 := do
  level.close (← numberValue start digits)

/-- What may stand where an operand has to follow. -/
def stepOperand (offset : Nat) (level : Level) (outer : List Level) (c : Char) :
    Except ArithmeticError State :=
  if c = '-' then .ok (.operand { level with negated := !level.negated } outer)
  else if c = '(' then .ok (.operand .start (level :: outer))
  else if c.isDigit || c = '.' then .ok (.number offset [c] level outer)
  else .error (.malformed offset .unexpectedCharacter)

/-- What may stand after a complete term. -/
def stepTerm (offset : Nat) (sum : PendingSum) (value : Binary64) (outer : List Level) (c : Char) :
    Except ArithmeticError State :=
  if c = '+' then .ok (.operand ⟨.plus (sum.close value), .none, false⟩ outer)
  else if c = '-' then .ok (.operand ⟨.minus (sum.close value), .none, false⟩ outer)
  else if c = '*' then .ok (.operand ⟨sum, .times value, false⟩ outer)
  else if c = '/' then .ok (.operand ⟨sum, .over value offset, false⟩ outer)
  else
    match outer with
    | [] => .error (.malformed offset .trailingInput)
    | level :: rest =>
      -- the level that ends is an operand of the level around it
      if c = ')' then (level.close (sum.close value)).map (.term level.sum · rest)
      else .error (.malformed offset .missingClose)

/-- The state after the character at `offset`.  A character that does not
continue a number ends it. -/
def step (offset : Nat) (state : State) (c : Char) : Except ArithmeticError State :=
  match state with
  | .operand level outer => stepOperand offset level outer c
  | .term sum value outer => stepTerm offset sum value outer c
  | .number start digits level outer =>
    if c = '.' then
      if '.' ∈ digits then .error (.malformed offset .secondPoint)
      else .ok (.number start (c :: digits) level outer)
    else if c.isDigit then .ok (.number start (c :: digits) level outer)
    else do
      -- the number ends here, and the character follows its term
      let value ← level.closeNumber start digits
      stepTerm offset level.sum value outer c

/-- The value at the end of a text of `offset` characters. -/
def finishTerm (offset : Nat) (sum : PendingSum) (value : Binary64) (outer : List Level) :
    Except ArithmeticError Binary64 :=
  match outer with
  | [] => .ok (sum.close value)
  | _ :: _ => .error (.malformed offset .missingClose)

/-- The value of a text that ends in the given state. -/
def finish (offset : Nat) : State → Except ArithmeticError Binary64
  | .operand _ _ => .error (.malformed offset .unexpectedEnd)
  | .term sum value outer => finishTerm offset sum value outer
  | .number start digits level outer => do
    let value ← level.closeNumber start digits
    finishTerm offset level.sum value outer

/-- Reads the rest of a text from the given state. -/
def evaluateFrom (offset : Nat) (state : State) : List Char → Except ArithmeticError Binary64
  | [] => finish offset state
  | c :: rest => do
    let next ← step offset state c
    evaluateFrom (offset + 1) next rest

end Arithmetic

/-! ### Evaluation -/

/-- The ASCII whitespace that an expression ignores: space, tab, line feed,
form feed and carriage return. -/
def isIgnoredBlank (c : Char) : Bool :=
  c = ' ' || c = '\t' || c = '\n' || c = '\x0c' || c = '\r'

/-- The value of an arithmetic expression. -/
def evaluate (text : List Char) : Except ArithmeticError Binary64 :=
  Arithmetic.evaluateFrom 0 (.operand .start []) (text.filter fun c => !isIgnoredBlank c)

end ResponsiveImage
