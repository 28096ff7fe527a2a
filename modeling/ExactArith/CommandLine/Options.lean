import ExactArith.Journal.Event

set_option autoImplicit false
set_option relaxedAutoImplicit false

/-!
# Command line options

Arguments are read from left to right. An option takes a value, written `--name=value`,
`--name value`, `-nvalue`, `-n=value` or `-n value`; options may come in any order but each at most
once, and names are not abbreviated. A value that starts with a hyphen has to be attached, except
for the options whose values are numbers and may be negative: these take the next argument whatever
it looks like. There are no other arguments; `--` says that only those would follow.

## Main definitions

* `ExactArith.CommandLine.Options` — what the options set.
* `ExactArith.CommandLine.Options.ofArgs` — the options that arguments set, or the reason to stop.
-/

namespace ExactArith.CommandLine

/-- Something that an option sets. -/
inductive Setting where
  | x
  | y
  | target
  | backend
  | maxPivots
  | logLevel
  deriving DecidableEq

namespace Setting

/-- Every setting, once. -/
def all : List Setting := [.x, .y, .target, .backend, .maxPivots, .logLevel]

/-- The name of an option after its two hyphens. -/
def longName : Setting → String
  | .x => "x"
  | .y => "y"
  | .target => "target"
  | .backend => "backend"
  | .maxPivots => "max-pivots"
  | .logLevel => "log-level"

/-- The letter of an option after a single hyphen, if it has one. -/
def letter? : Setting → Option Char
  | .target => some 't'
  | .backend => some 'b'
  | .logLevel => some 'l'
  | _ => none

/-- Whether the option takes the next argument even if that starts with a hyphen. -/
def takesHyphens : Setting → Bool
  | .x | .y | .target => true
  | _ => false

end Setting

/-- A flag: it takes no value and ends the reading. -/
inductive Flag where
  | version
  | help
  deriving DecidableEq

namespace Flag

/-- Every flag, once. -/
def all : List Flag := [.version, .help]

/-- The name of a flag after its two hyphens. -/
def longName : Flag → String
  | .version => "version"
  | .help => "help"

/-- The letter of a flag after a single hyphen. -/
def letter : Flag → Char
  | .version => 'V'
  | .help => 'h'

end Flag

/-- Why arguments cannot be used. -/
inductive UsageError where
  /-- An argument is no option and no flag. -/
  | unexpected (arg : String)
  /-- An option has no value. -/
  | missingValue (setting : Setting)
  /-- A value is not of the kind that the option takes. -/
  | badValue (setting : Setting) (value : String)
  /-- An option occurs twice. -/
  | repeated (setting : Setting)
  /-- A flag has a value. -/
  | flagValue (flag : Flag) (value : String)
  deriving DecidableEq

/-- The wording of a usage error. -/
def UsageError.message : UsageError → String
  | .unexpected arg => "unexpected argument " ++ Event.quote arg
  | .missingValue setting => "option --" ++ setting.longName ++ " needs a value"
  | .badValue setting value =>
    "invalid value " ++ Event.quote value ++ " for option --" ++ setting.longName
  | .repeated setting => "option --" ++ setting.longName ++ " is given twice"
  | .flagValue flag value =>
    "flag --" ++ flag.longName ++ " takes no value, but has " ++ Event.quote value

/-! ## Single arguments -/

/-- What a single argument is. -/
inductive Token where
  /-- An option, with the value attached to it. -/
  | option (setting : Setting) (value? : Option String)
  /-- A flag. -/
  | flag (flag : Flag)
  /-- The mark after which no options follow. -/
  | endOfOptions
  deriving DecidableEq

namespace Token

/-- The argument `--name` or `--name=value`. -/
def ofLong (arg name : String) (value? : Option String) : Except UsageError Token :=
  match Setting.all.find? (·.longName == name), Flag.all.find? (·.longName == name), value? with
  | some setting, _, _ => .ok (.option setting value?)
  | none, some wanted, none => .ok (.flag wanted)
  | none, some wanted, some value => .error (.flagValue wanted value)
  | none, none, _ => .error (.unexpected arg)

/-- The value attached to a letter: what follows it, without an equals sign in between. -/
def attached? : List Char → Option String
  | [] => none
  | '=' :: value => some (String.ofList value)
  | value => some (String.ofList value)

/-- The argument `-c` with `rest` attached. A flag does not care about what is attached. -/
def ofLetter (arg : String) (c : Char) (rest : List Char) : Except UsageError Token :=
  match Setting.all.find? (·.letter? == some c), Flag.all.find? (·.letter == c) with
  | some setting, _ => .ok (.option setting (attached? rest))
  | none, some wanted => .ok (.flag wanted)
  | none, none => .error (.unexpected arg)

/-- Tells what an argument is. A single hyphen and a text without hyphens are not expected. -/
def ofArg (arg : String) : Except UsageError Token :=
  match arg.toList with
  | ['-', '-'] => .ok .endOfOptions
  | '-' :: '-' :: text =>
    match Numeral.splitAt? '=' text with
    | some (name, value) => ofLong arg (String.ofList name) (some (String.ofList value))
    | none => ofLong arg (String.ofList text) none
  | '-' :: c :: rest => ofLetter arg c rest
  | _ => .error (.unexpected arg)

/-- Whether an argument has the shape of an option: a hyphen with something after it. -/
def looksLikeOption (arg : String) : Bool :=
  match arg.toList with
  | '-' :: _ :: _ => true
  | _ => false

end Token

/-! ## All arguments -/

/-- What the options of the program set. -/
structure Options where
  /-- The numeral bound to `x`. -/
  x : String := "3"
  /-- The numeral bound to `y`. -/
  y : String := "4"
  /-- The numeral that the expression is to equal. -/
  target : String := "10"
  /-- The budget of pivots. -/
  maxPivots : Nat := Solver.defaultBudget
  /-- The level up to which events are shown, if any. -/
  logLevel? : Option Level := some .warn
  deriving DecidableEq

/-- A budget: an optional plus sign and digits, for a number of at most 64 bits. -/
def budget? (text : String) : Option Nat :=
  let digits := match text.toList with
    | '+' :: digits => digits
    | digits => digits
  if digits.isEmpty || !Numeral.allDigits digits then none
  else
    let budget := Nat.ofDigitChars 10 digits 0
    if budget < UInt64.size then some budget else none

/-- A level of events, or `error` for none of them. -/
def levelLimit? (text : String) : Option (Option Level) :=
  if text = "error" then some none else (Level.ofText? text).map some

namespace Options

/-- Sets something to a value. There is a single backend, so naming it changes nothing. -/
def set (options : Options) (setting : Setting) (value : String) : Except UsageError Options :=
  let checked : Option Options := match setting with
    | .x => some { options with x := value }
    | .y => some { options with y := value }
    | .target => some { options with target := value }
    | .backend => if value = "linear" then some options else none
    | .maxPivots => (budget? value).map fun budget => { options with maxPivots := budget }
    | .logLevel => (levelLimit? value).map fun level? => { options with logLevel? := level? }
  match checked with
  | some options => .ok options
  | none => .error (.badValue setting value)

/-- Why the reading of arguments ends without options. -/
inductive Stop where
  /-- A flag asks for something else. -/
  | flag (flag : Flag)
  /-- The arguments cannot be used. -/
  | usage (error : UsageError)
  deriving DecidableEq

/-- Sets something that has not been set before. -/
def setOnce (options : Options) (given : List Setting) (setting : Setting) (value : String) :
    Except Stop Options :=
  if setting ∈ given then .error (.usage (.repeated setting))
  else (options.set setting value).mapError .usage

/-- Reads the arguments after those that have given the settings `given`. -/
def read (options : Options) (given : List Setting) : List String → Except Stop Options
  | [] => .ok options
  | arg :: rest =>
    match Token.ofArg arg with
    | .error error => .error (.usage error)
    | .ok (.flag flag) => .error (.flag flag)
    | .ok .endOfOptions =>
      match rest with
      | [] => .ok options
      | next :: _ => .error (.usage (.unexpected next))
    | .ok (.option setting (some value)) =>
      match options.setOnce given setting value with
      | .error stop => .error stop
      | .ok options => options.read (setting :: given) rest
    | .ok (.option setting none) =>
      match rest with
      | [] => .error (.usage (.missingValue setting))
      | value :: rest =>
        if !setting.takesHyphens && Token.looksLikeOption value then
          .error (.usage (.missingValue setting))
        else
          match options.setOnce given setting value with
          | .error stop => .error stop
          | .ok options => options.read (setting :: given) rest

/-- The options that arguments set, or the reason to stop. -/
def ofArgs (args : List String) : Except Stop Options := ({} : Options).read [] args

end Options

end ExactArith.CommandLine
