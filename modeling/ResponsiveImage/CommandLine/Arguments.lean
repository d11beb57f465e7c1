/-
ResponsiveImage/CommandLine/Arguments.lean

The arguments of the command line.

Words are read from left to right: first the options that hold for every
command, then the name of a command, then its own options and operands, among
which the common options may stand again and then win.  An option with a
value takes it behind `=` or from the next word, which then may not start
with a dash.  Behind `--` every word is an operand.  No option is given twice
in one place, except the list of widths, which grows.
-/
import ResponsiveImage.Decimal.Reading
import ResponsiveImage.Settings.Tool
import ResponsiveImage.Text.Split

namespace ResponsiveImage

/-! ### Commands -/

/-- What the program is asked to do. -/
inductive Command where
  | breakpoints (sizes : Option String)
  | plan (width filesize : Nat) (name : String)
  | render (paths : List String) (output : Option String)
  | genConfig
  deriving DecidableEq

/-- A command with the options that every command has. -/
structure Invocation where
  config : Option String
  verbose : Bool
  overrides : Overrides
  command : Command
  deriving DecidableEq

/-- What the arguments say. -/
inductive Request where
  | run (i : Invocation)
  | version
  | help
  /-- The arguments break the rules. -/
  | misuse
  deriving DecidableEq

namespace Arguments

/-! ### Numbers -/

/-- An integer of 64 bits: digits after an optional sign. -/
def readInt? (word : String) : Option Int := do
  let n ← Decimal.integer? word.toList
  if minInt64 ≤ n ∧ n ≤ maxInt64 then some n else none

/-- A natural number of 32 bits. -/
def readNat32? (word : String) : Option Nat := do
  let n ← readInt? word
  if 0 ≤ n ∧ n ≤ maxNat32 then some n.toNat else none

/-- A natural number of 64 bits, without a minus. -/
def readNat64? (word : String) : Option Nat := do
  let digits := match word.toList with
    | '+' :: digits => digits
    | digits => digits
  if digits = [] || !digits.all Char.isDigit then none
  let n := Nat.ofDigitChars 10 digits 0
  if n ≤ maxNat64 then some n else none

/-- Natural numbers of 32 bits between commas. -/
def readList? (word : String) : Option (List Nat) :=
  (splitEvery ',' word.toList).mapM fun part => readNat32? (String.ofList part)

/-! ### Options -/

/-- What follows an option. -/
inductive OptionKind where
  /-- Nothing. -/
  | switch
  /-- A value that passes a test. -/
  | value (accepts : String → Bool)
  /-- A value that passes a test, as often as wanted. -/
  | repeated (accepts : String → Bool)
  | version
  | help

/-- An option by its name and, for some, its letter. -/
structure OptionSpec where
  name : String
  letter : Option Char
  kind : OptionKind

/-- The options that hold for every command, without the `sizes` attribute. -/
def commonOptions : List OptionSpec := [
  ⟨"config", none, .value fun v => !v.isEmpty⟩,
  ⟨"verbose", some 'v', .switch⟩,
  ⟨"max-steps", none, .value fun v => (readInt? v).isSome⟩,
  ⟨"size-diff", none, .value fun v => (readInt? v).isSome⟩,
  ⟨"high-res", none, .value fun v => (readInt? v).isSome⟩,
  ⟨"render-sizes", none, .repeated fun v => (readList? v).isSome⟩,
  ⟨"min-viewport", none, .value fun v => (readNat32? v).isSome⟩,
  ⟨"max-viewport", none, .value fun v => (readNat32? v).isSome⟩,
  ⟨"rem-size", none, .value fun v => (readNat32? v).isSome⟩,
  ⟨"help", some 'h', .help⟩]

/-- The option for the `sizes` attribute. -/
def sizesOption : OptionSpec := ⟨"sizes", none, .value fun _ => true⟩

/-- The names of the commands. -/
inductive CommandName where
  | breakpoints
  | plan
  | render
  | genConfig
  deriving DecidableEq

/-- The command of a name. -/
def CommandName.ofWord? (word : String) : Option CommandName :=
  if word = "breakpoints" then some .breakpoints
  else if word = "plan" then some .plan
  else if word = "render" then some .render
  else if word = "gen-config" then some .genConfig
  else none

/-- A place for options: before the command, or behind a command. -/
inductive OptionPlace where
  | before
  | behind (c : CommandName)

/-- The options of a place.  Behind `breakpoints` the `sizes` attribute is an
operand and no option. -/
def OptionPlace.options : OptionPlace → List OptionSpec
  | .before => sizesOption :: ⟨"version", some 'V', .version⟩ :: commonOptions
  | .behind .breakpoints => commonOptions
  | .behind .plan =>
    [⟨"width", none, .value fun v => (readNat32? v).isSome⟩,
      ⟨"filesize", none, .value fun v => (readNat64? v).isSome⟩,
      ⟨"name", none, .value fun _ => true⟩, sizesOption] ++ commonOptions
  | .behind .render =>
    [⟨"output", none, .value fun v => !v.isEmpty⟩, sizesOption] ++ commonOptions
  | .behind .genConfig => sizesOption :: commonOptions

/-- Whether a word may be an operand of a place, behind `count` others. -/
def OptionPlace.acceptsOperand (place : OptionPlace) (count : Nat) (word : String) : Bool :=
  match place with
  | .behind .breakpoints => count == 0
  | .behind .render => !word.isEmpty
  | _ => false

/-! ### Reading a place -/

/-- The options and operands read so far, in order. -/
structure Found where
  options : List (String × String)
  operands : List String

/-- What reading a place comes to. -/
inductive Scan where
  | done (found : Found) (next : Option (CommandName × List String))
  | version
  | help
  | misuse

/-- The findings with one more option. -/
def Found.add? (f : Found) (o : OptionSpec) (value : String) : Option Found :=
  let given := f.options.any fun e => e.1 == o.name
  let fits := match o.kind with
    | .switch => !given
    | .value accepts => !given && accepts value
    | .repeated accepts => accepts value
    | _ => false
  if fits then some { f with options := f.options ++ [(o.name, value)] } else none

/-- A word that is read as an option where a value is missing. -/
def startsWithDash (word : String) : Bool :=
  match word.toList with
  | '-' :: _ :: _ => true
  | _ => false

/-- The name and the attached value of a word with two dashes. -/
def splitLong (word : List Char) : String × Option String :=
  match splitFirst? '=' word with
  | some (name, value) => (String.ofList name, some (String.ofList value))
  | none => (String.ofList word, none)

/-- Whether an option asks for something else than a run. -/
def OptionKind.scan? : OptionKind → Option Scan
  | .version => some .version
  | .help => some .help
  | _ => none

/-- Whether an option has a value. -/
def OptionKind.takesValue : OptionKind → Bool
  | .value _ | .repeated _ => true
  | _ => false

/-- Reads the letters of a word with one dash. -/
def readLetters (options : List OptionSpec) (f : Found) : List Char → Except Scan Found
  | [] => .ok f
  | c :: rest =>
    match options.find? fun o => o.letter == some c with
    | none => .error .misuse
    | some o =>
      match o.kind.scan? with
      | some outcome => .error outcome
      | none =>
        match f.add? o "" with
        | some f => readLetters options f rest
        | none => .error .misuse

/-- What the word `help` in place of a command comes to: help on a command,
or on the program. -/
def helpScan : List String → Scan
  | [] => .help
  | [word] => if word = "help" || (CommandName.ofWord? word).isSome then .help else .misuse
  | _ => .misuse

/-- Reads the operands behind `--`. -/
def readOperands (place : OptionPlace) (f : Found) : List String → Scan
  | [] => .done f none
  | word :: rest =>
    if place.acceptsOperand f.operands.length word then
      readOperands place { f with operands := f.operands ++ [word] } rest
    else .misuse

/-- Reads the words of a place. -/
def readWords (place : OptionPlace) (f : Found) : List String → Scan
  | [] => .done f none
  | word :: rest =>
    match word.toList with
    | ['-', '-'] => readOperands place f rest
    | '-' :: '-' :: long =>
      let (name, attached) := splitLong long
      match place.options.find? fun o => o.name == name with
      | none => .misuse
      | some o =>
        match attached, o.kind.takesValue with
        | some v, true =>
          match f.add? o v with
          | some f => readWords place f rest
          | none => .misuse
        | none, true =>
          -- the value is the next word
          match rest with
          | [] => .misuse
          | v :: rest =>
            if startsWithDash v then .misuse
            else
              match f.add? o v with
              | some f => readWords place f rest
              | none => .misuse
        | some _, false => .misuse
        -- a switch, or a request for something else than a run
        | none, false =>
          match o.kind.scan? with
          | some outcome => outcome
          | none =>
            match f.add? o "" with
            | some f => readWords place f rest
            | none => .misuse
    | '-' :: c :: letters =>
      match readLetters place.options f (c :: letters) with
      | .ok f => readWords place f rest
      | .error outcome => outcome
    | _ =>
      -- a word without a dash names a command or is an operand
      match place with
      | .before =>
        if word = "help" then helpScan rest
        else
          match CommandName.ofWord? word with
          | some c => .done f (some (c, rest))
          | none => .misuse
      | .behind _ =>
        if place.acceptsOperand f.operands.length word then
          readWords place { f with operands := f.operands ++ [word] } rest
        else .misuse

/-! ### Requests -/

/-- The values of an option. -/
def Found.values (f : Found) (name : String) : List String :=
  (f.options.filter fun e => e.1 == name).map Prod.snd

/-- The values of an option in the place where it wins. -/
def winning (before behind : Found) (name : String) : List String :=
  match behind.values name with
  | [] => before.values name
  | values => values

/-- The overrides that the options of both places make. -/
def overridesOf (before behind : Found) : Overrides :=
  let one := fun name => (winning before behind name).head?
  { sizes := one "sizes"
    maxSteps := (one "max-steps").bind readInt?
    sizeDiff := (one "size-diff").bind readInt?
    highRes := (one "high-res").bind readInt?
    renderSizes :=
      match winning before behind "render-sizes" with
      | [] => none
      | lists => (lists.mapM readList?).map List.flatten
    minViewport := (one "min-viewport").bind readNat32?
    maxViewport := (one "max-viewport").bind readNat32?
    remSize := (one "rem-size").bind readNat32? }

/-- The command with what stands behind its name, if nothing is missing.
The `sizes` attribute of `breakpoints` may also stand before the command. -/
def commandOf? (c : CommandName) (before behind : Found) : Option Command :=
  let one := fun name => (behind.values name).head?
  match c with
  | .breakpoints => some (.breakpoints (behind.operands.head?.or (before.values "sizes").head?))
  | .plan => do
    return .plan (← (one "width").bind readNat32?) (← (one "filesize").bind readNat64?)
      ((one "name").getD "image")
  | .render => if behind.operands = [] then none else some (.render behind.operands (one "output"))
  | .genConfig => some .genConfig

/-- The invocation that the findings of both places make. -/
def requestOf (c : CommandName) (before behind : Found) : Request :=
  match commandOf? c before behind with
  | some command =>
    .run { config := (winning before behind "config").head?
           verbose := !(winning before behind "verbose").isEmpty
           overrides := overridesOf before behind
           command := command }
  | none => .misuse

/-- What the words of the command line ask for. -/
def read (words : List String) : Request :=
  match readWords .before ⟨[], []⟩ words with
  | .version => .version
  | .help => .help
  | .misuse | .done _ none => .misuse
  | .done before (some (c, rest)) =>
    match readWords (.behind c) ⟨[], []⟩ rest with
    | .version => .version
    | .help => .help
    | .misuse | .done _ (some _) => .misuse
    | .done behind none => requestOf c before behind

end Arguments

end ResponsiveImage
