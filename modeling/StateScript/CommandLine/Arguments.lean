import StateScript.Compilation

/-! # Arguments of the command line

  A command line has one input and settings before, after and around it. A switch stands
  alone; a parameter has a value, which is attached (`--output=x`, `-ox`, `-o=x`) or is the
  next argument. Short switches can be written together, the last of them with a value.
  After `--` nothing is a setting.

  A value in an argument of its own is looked at only when the next thing is accepted, or
  at the end. So of two mistakes the later one wins if it is an unknown name, an input too
  many, or a value for a switch, and the earlier one otherwise.
-/

namespace StateScript.CommandLine

/-- Settings that are on or off. -/
inductive Switch where
  | debug
  | library
  | warningsFatal
  | messagesFatal
  | unoptimized
  | tokens
  | colorless
  | listing
  | decompile
  | pretokenized
  | help
  | version
deriving DecidableEq

/-- Settings that have a value. -/
inductive Parameter where
  | input
  | output
  | define
  | includePath
  | messageFormat
  | emitTokens
deriving DecidableEq

/-- How findings are printed. -/
inductive MessageFormat where
  | human
  | json
deriving DecidableEq

/-- Why a command line is not one to be run. -/
inductive Refusal where
  | missingInput
  | unknown
  | badValue
  | badDefine
  | conflict
  | unwantedValue
  /-- Help was asked for. -/
  | help
  /-- The version was asked for. -/
  | version
deriving DecidableEq

/-- A setting by its name. -/
inductive Setting where
  | switch (s : Switch)
  | parameter (p : Parameter)
deriving DecidableEq

/-- The setting of a name after two dashes. -/
def Setting.ofLong? : String → Option Setting
  | "output" => some (.parameter .output)
  | "message-format" => some (.parameter .messageFormat)
  | "emit-tokens" => some (.parameter .emitTokens)
  | "debug" => some (.switch .debug)
  | "library" => some (.switch .library)
  | "werror" => some (.switch .warningsFatal)
  | "wmessages" => some (.switch .messagesFatal)
  | "no-optimize" => some (.switch .unoptimized)
  | "tokens" => some (.switch .tokens)
  | "no-color" => some (.switch .colorless)
  | "disasm" => some (.switch .listing)
  | "decompile" => some (.switch .decompile)
  | "pretokenized" => some (.switch .pretokenized)
  | "help" => some (.switch .help)
  | "version" => some (.switch .version)
  | _ => none

/-- The setting of a letter after one dash. -/
def Setting.ofShort? : Char → Option Setting
  | 'o' => some (.parameter .output)
  | 'D' => some (.parameter .define)
  | 'I' => some (.parameter .includePath)
  | 'h' => some (.switch .help)
  | 'V' => some (.switch .version)
  | _ => none

/-! ### What was set so far -/

/-- The settings that were accepted. -/
structure Draft where
  input : Option String := none
  output : Option String := none
  defines : List Define := []
  includePaths : List String := []
  format : Option MessageFormat := none
  emitTokens : Option String := none
  switches : List Switch := []

namespace Draft

def has (d : Draft) (s : Switch) : Bool := d.switches.contains s

/-- Turns a switch on, which may be done once. -/
def turnOn (d : Draft) (s : Switch) : Except Refusal Draft :=
  match s with
  | .help => .error .help
  | .version => .error .version
  | s => if d.has s then .error .conflict else .ok { d with switches := d.switches ++ [s] }

/-- A path has at least one character. -/
def path (text : String) : Except Refusal String :=
  if text.isEmpty then .error .badValue else .ok text

/-- Sets what may be set once. -/
def once {α : Type} (now : Option α) (value : Except Refusal α) : Except Refusal (Option α) :=
  if now.isSome then .error .conflict else some <$> value

/-- Gives a parameter a value. -/
def assign (d : Draft) (p : Parameter) (value : String) : Except Refusal Draft :=
  match p with
  | .input => do return { d with input := ← once d.input (path value) }
  | .output => do return { d with output := ← once d.output (path value) }
  | .emitTokens => do return { d with emitTokens := ← once d.emitTokens (path value) }
  | .includePath => do return { d with includePaths := d.includePaths ++ [← path value] }
  | .define =>
    match Define.parse value with
    | .ok define => .ok { d with defines := d.defines ++ [define] }
    | .error _ => .error .badDefine
  | .messageFormat => do
    let format := match value with
      | "human" => .ok .human
      | "json" => .ok .json
      | _ => .error .badValue
    return { d with format := ← once d.format format }

end Draft

/-! ### Reading -/

/-- A command line that is being read. -/
structure Reading where
  draft : Draft := {}
  /-- The parameter that was named last, with its value if there is one already. -/
  pending : Option (Parameter × Option String) := none
  /-- Whether the input was seen. -/
  placed : Bool := false
  /-- Whether `--` was seen. -/
  trailing : Bool := false

namespace Reading

/-- Accepts the parameter that was named last. -/
def settle (r : Reading) : Except Refusal Reading :=
  match r.pending with
  | none => .ok r
  | some (_, none) => .error .badValue
  | some (p, some value) => do
    return { r with draft := ← r.draft.assign p value, pending := none }

/-- A parameter whose value is to come. -/
def announce (r : Reading) (p : Parameter) : Except Refusal Reading := do
  let r ← r.settle
  return { r with pending := some (p, none) }

/-- A parameter with its value. -/
def accept (r : Reading) (p : Parameter) (value : String) : Except Refusal Reading := do
  let r ← r.settle
  return { r with draft := ← r.draft.assign p value }

def turnOn (r : Reading) (s : Switch) : Except Refusal Reading := do
  let r ← r.settle
  return { r with draft := ← r.draft.turnOn s }

/-- The input. There is only one. -/
def place (r : Reading) (text : String) : Except Refusal Reading :=
  if r.placed then .error .unknown
  else do
    let r ← r.settle
    return { r with pending := some (.input, some text), placed := true }

/-- What stands after two dashes. -/
def long (r : Reading) (text : List Char) : Except Refusal Reading :=
  let name := text.takeWhile fun c => c != '='
  match Setting.ofLong? (String.ofList name), text.drop name.length with
  | none, _ => .error .unknown
  | some (.switch s), [] => r.turnOn s
  | some (.switch _), _ :: _ => .error .unwantedValue
  | some (.parameter p), [] => r.announce p
  | some (.parameter p), _ :: value => r.accept p (String.ofList value)

/-- What stands after one dash. -/
def cluster (r : Reading) : List Char → Except Refusal Reading
  | [] => .ok r
  | c :: rest =>
    match Setting.ofShort? c with
    | none => .error .unknown
    | some (.switch s) => do (← r.turnOn s).cluster rest
    | some (.parameter p) =>
      match rest with
      | [] => r.announce p
      | '=' :: value => r.accept p (String.ofList value)
      | value => r.accept p (String.ofList value)

/-- Reads one argument. -/
def step (r : Reading) (text : String) : Except Refusal Reading :=
  if r.trailing then r.place text
  else match text.toList with
    | ['-', '-'] => .ok { r with trailing := true }
    | '-' :: '-' :: rest => r.long rest
    | '-' :: c :: rest => r.cluster (c :: rest)
    | _ =>
      match r.pending with
      | some (p, none) => .ok { r with pending := some (p, some text) }
      | _ => r.place text

end Reading

/-! ### Arguments -/

/-- A command line that can be run. -/
structure Arguments where
  input : String
  /-- Where the object goes. -/
  output : String
  options : Options
  format : MessageFormat
  emitTokens : Option String
  tokens : Bool
  colorless : Bool
  listing : Bool
  decompile : Bool
  pretokenized : Bool

/-- The switches of a compilation. -/
def Draft.flags (d : Draft) : Flags where
  debug := d.has .debug
  library := d.has .library
  warningsFatal := d.has .warningsFatal
  messagesFatal := d.has .messagesFatal
  unoptimized := d.has .unoptimized

/-- The arguments that were set, if they go together and there is an input. An object goes
    next to its input unless another place is given. -/
def Draft.finish (d : Draft) : Except Refusal Arguments :=
  if d.has .decompile && (d.has .tokens || d.has .pretokenized) then .error .conflict
  else match d.input with
    | none => .error .missingInput
    | some input => .ok {
        input
        output := d.output.getD (Text.withExtension input "kof")
        options := { flags := d.flags, defines := d.defines, includePaths := d.includePaths }
        format := d.format.getD .human
        emitTokens := d.emitTokens
        tokens := d.has .tokens
        colorless := d.has .colorless
        listing := d.has .listing
        decompile := d.has .decompile
        pretokenized := d.has .pretokenized }

/-- Reads a command line, without the name of the program. -/
def Arguments.parse (args : List String) : Except Refusal Arguments := do
  let r ← args.foldlM Reading.step {}
  (← r.settle).draft.finish

end StateScript.CommandLine
