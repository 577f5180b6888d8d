/-!
# StackProcessor — command lines

The arguments of a tool are options and operands in any order. An option is written `--name`, or
`-n` if it has a short form; several short forms may share one dash. The value of an option follows
it as the next argument, behind `=`, or directly behind the short form. What begins with a dash
(`looksLikeOption`) is never the value of the option before it, a dash alone apart. After `--` there
are operands only.

A `CommandSpec` says which options there are, each an `OptionSpec` of some `OptionKind`.
`CommandSpec.read` looks at arguments from left to right, and the first that is not understood ends
the reading with a `Refusal`. `count?` reads the numbers in them, which have 64 bits.
-/

namespace StackProcessor.Tools

/-- What an option does with its value. -/
inductive OptionKind where
  /-- The option has a value, which must be acceptable, and occurs at most once. -/
  | value (accepts : String → Bool)
  /-- The option has no value and occurs at most once. -/
  | switch
  /-- The option has no value, and its occurrences are counted. -/
  | counted

/-- An option of a tool. -/
structure OptionSpec where
  name : String
  short : Option Char
  kind : OptionKind

/-- What a tool understands. -/
structure CommandSpec where
  options : List OptionSpec
  /-- At most so many operands. -/
  operands : Nat

/-- Why there is nothing to do. -/
inductive Refusal where
  /-- The arguments are not understood. -/
  | usage (message : String)
  /-- The user asked for help. -/
  | help
  /-- The user asked for the version. -/
  | version
  deriving DecidableEq, Repr

/-- Arguments that have been understood. -/
structure Arguments where
  operands : List String
  /-- Options with their values, in the order of the arguments. An option without a value has the
  empty text. -/
  options : List (String × String)
  deriving DecidableEq, Repr, Inhabited

namespace Arguments

/-- No arguments. -/
def empty : Arguments := ⟨[], []⟩

/-- The value of an option. -/
def value? (a : Arguments) (name : String) : Option String := a.options.lookup name

/-- How often an option occurs. -/
def count (a : Arguments) (name : String) : Nat := a.options.countP fun option => option.1 == name

/-- Adds an operand. -/
def addOperand (spec : CommandSpec) (a : Arguments) (s : String) : Except Refusal Arguments :=
  if a.operands.length < spec.operands then .ok { a with operands := a.operands ++ [s] }
  else .error (.usage s!"unexpected argument '{s}'")

/-- Adds an option. -/
def addOption (o : OptionSpec) (a : Arguments) (value : String) : Except Refusal Arguments :=
  let added : Arguments := { a with options := a.options ++ [(o.name, value)] }
  match o.kind with
  | .counted => .ok added
  | .switch =>
    if a.count o.name = 0 then .ok added
    else .error (.usage s!"the argument '--{o.name}' cannot be used multiple times")
  | .value accepts =>
    if a.count o.name ≠ 0 then
      .error (.usage s!"the argument '--{o.name}' cannot be used multiple times")
    else if accepts value then .ok added
    else .error (.usage s!"invalid value '{value}' for '--{o.name}'")

end Arguments

namespace CommandSpec

/-- Whether an argument is an option, or the mark before the operands. -/
def looksLikeOption (s : String) : Bool :=
  match s.toList with
  | '-' :: _ :: _ => true
  | _ => false

/-- The options that every tool understands. -/
def common : List (String × Char × Refusal) :=
  [("help", 'h', .help), ("version", 'V', .version)]

/-- Adds operands. -/
def addOperands (spec : CommandSpec) (a : Arguments) (ss : List String) :
    Except Refusal Arguments :=
  ss.foldlM (Arguments.addOperand spec) a

/-- What an argument of the form `--name` or `--name=value` leads to. An option that lacks its value
is given back, to take it from the next argument. -/
def readLong (spec : CommandSpec) (a : Arguments) (cs : List Char) :
    Except Refusal (Arguments × Option OptionSpec) :=
  let name := String.ofList (cs.takeWhile (· != '='))
  let value? : Option String :=
    match cs.dropWhile (· != '=') with
    | '=' :: value => some (String.ofList value)
    | _ => none
  match common.lookup name, spec.options.find? (·.name == name), value? with
  | some (_, refusal), _, none => .error refusal
  | none, some o, value? =>
    match o.kind, value? with
    | .value _, some value => (a.addOption o value).map fun a => (a, none)
    | .value _, none => .ok (a, some o)
    | _, none => (a.addOption o "").map fun a => (a, none)
    | _, some _ => .error (.usage s!"unexpected value for '--{name}'")
  | _, _, _ => .error (.usage s!"unexpected argument '--{name}'")

/-- What an argument that consists of short forms leads to. -/
def readShort (spec : CommandSpec) (a : Arguments) :
    List Char → Except Refusal (Arguments × Option OptionSpec)
  | [] => .ok (a, none)
  | c :: rest =>
    match common.find? (·.2.1 == c), spec.options.find? (·.short == some c) with
    | some (_, _, refusal), _ => .error refusal
    | none, some o =>
      match o.kind, rest with
      | .value _, [] => .ok (a, some o)
      -- the rest of the argument is the value, with or without `=`
      | .value _, '=' :: value | .value _, value =>
        (a.addOption o (String.ofList value)).map fun a => (a, none)
      | _, rest => do
        let a ← a.addOption o ""
        readShort spec a rest
    | none, none => .error (.usage s!"unexpected argument '-{c}'")

/-- Reads the arguments that follow those read already. -/
def readFrom (spec : CommandSpec) (a : Arguments) (pending : Option OptionSpec) :
    List String → Except Refusal Arguments
  | [] =>
    match pending with
    | none => .ok a
    | some o => .error (.usage s!"a value is required for '--{o.name}'")
  | arg :: rest =>
    match pending, looksLikeOption arg with
    | some o, true => .error (.usage s!"a value is required for '--{o.name}'")
    | some o, false => do
      let a ← a.addOption o arg
      readFrom spec a none rest
    | none, false => do
      let a ← a.addOperand spec arg
      readFrom spec a none rest
    | none, true =>
      match arg.toList with
      | ['-', '-'] => spec.addOperands a rest
      | '-' :: '-' :: cs => do
        let (a, pending) ← spec.readLong a cs
        readFrom spec a pending rest
      | cs => do
        let (a, pending) ← spec.readShort a (cs.drop 1)
        readFrom spec a pending rest

/-- Reads the arguments of a tool. -/
def read (spec : CommandSpec) (args : List String) : Except Refusal Arguments :=
  if args.isEmpty then .error (.usage "arguments are required")
  else readFrom spec .empty none args

end CommandSpec

/-! ## Values -/

/-- A natural number of 64 bits, which may have a plus sign. -/
def count? (s : String) : Option Nat :=
  let digits :=
    match s.toList with
    | '+' :: rest => rest
    | cs => cs
  if digits.isEmpty || !digits.all Char.isDigit then none
  else
    let n := Nat.ofDigitChars 10 digits 0
    if n < 1 <<< 64 then some n else none

end StackProcessor.Tools
