import StateScript.CommandLine.Arguments
import StateScript.Files
import StateScript.Object.Listing
import StateScript.Token.Dump
import StateScript.Token.Stream

/-! # The program

  Runs a command line on files. What is printed and the exit code are collected in an
  outcome, so the program is a function as long as its files are.
-/

namespace StateScript.CommandLine

/-- What a run leaves besides files. -/
structure Outcome where
  exit : Nat := 0
  stdout : String := ""
  stderr : String := ""
deriving DecidableEq

namespace Outcome

/-- Gives up with a reason. -/
def fail (o : Outcome) (reason : String) : Outcome :=
  { o with exit := 1, stderr := o.stderr ++ "error: " ++ reason ++ "\n" }

def print (o : Outcome) (text : String) : Outcome := { o with stdout := o.stdout ++ text }

/-- The findings, one on a line, and their count. -/
def report (o : Outcome) (format : MessageFormat) (log : Log) : Outcome :=
  let line (d : Diagnostic) : String := match format with
    | .human => d.render
    | .json => d.renderJson
  { o with stderr := o.stderr ++ String.join (log.items.map fun d => line d ++ "\n") ++
      log.summary ++ "\n" }

/-- The exit code of a run whose log has errors or not. -/
def finish (o : Outcome) (log : Log) : Outcome := { o with exit := if log.hasErrors then 1 else 0 }

/-- Prints the listing of an object. An object that names a function it does not have has
    no listing, and ends the program. -/
def list (o : Outcome) (object : Object) : Outcome :=
  match object.decompile? with
  | some text => o.print text
  | none => { o with exit := 101 }

end Outcome

/-! ### Reasons to give up

  A cause that wraps another one is followed by it. -/

def readFault (input : String) (e : FileFault) : String := s!"Reading {input}: {e.message}"

/-- The reason why an object cannot be opened or read from its file. -/
def objectFault (input : String) (e : FileFault) : String :=
  if e.isLate then s!"Reading object file {input}: i/o error: {e.message}: {e.message}"
  else s!"Opening {input}: {e.message}"

/-- The reason why bytes are no object. -/
def decodeFault (input : String) (e : Object.Error) : String :=
  let cause := match e with
    | .badText fault => ": " ++ fault.message
    | _ => ""
  s!"Reading object file {input}: {e.message}{cause}"

/-- The reason why bytes are no token stream. -/
def streamFault (input : String) (e : TokenStream.Error) : String :=
  let cause := match e with
    | .malformed cause => ": " ++ cause.message
    | .version _ => ""
  s!"Decoding token stream {input}: {e.message}{cause}"

/-- The reason why a script cannot be opened or read. -/
def scriptFault (input : String) (e : FileFault) : String :=
  if e.isLate then readFault input e else s!"cannot open {input}"

/-! ### Modes -/

variable {m : Type → Type} [Monad m]

/-- Prints the listing of an object file. -/
def showObject (files : Files m) (a : Arguments) : m Outcome := do
  match ← files.read a.input with
  | .error e => return ({} : Outcome).fail (objectFault a.input e)
  | .ok bytes =>
    match Object.decode bytes with
    | .error e => return ({} : Outcome).fail (decodeFault a.input e)
    | .ok object => return ({} : Outcome).list object

/-- Splits a script into tokens, and prints them or writes them as a token stream. -/
def showTokens (files : Files m) (a : Arguments) : m Outcome := do
  match ← files.readText a.input with
  | .error e => return ({} : Outcome).fail (readFault a.input e)
  | .ok source =>
    let lexed := lex source a.options.flags a.input
    let dump := if a.tokens then Token.dump { color := !a.colorless } lexed.tokens else ""
    let printed := ({} : Outcome).print dump
    let done := (printed.report a.format lexed.log).finish lexed.log
    match a.emitTokens with
    | none => return done
    | some path =>
      match ← files.write path (TokenStream.encode lexed.tokens a.options.defines) with
      | .ok () => return done
      | .error e => return printed.fail s!"Writing {path}: {e.message}"

/-- Compiles the input: a token stream, which brings its own defines, or a script. -/
def compile (files : Files m) (a : Arguments) : m (Except String Compilation) := do
  if a.pretokenized then
    match ← files.read a.input with
    | .error e => return .error (readFault a.input e)
    | .ok bytes =>
      match TokenStream.decode bytes with
      | .error e => return .error (streamFault a.input e)
      | .ok s => return .ok (Compilation.ofTokens { a.options with defines := s.defines } s.tokens)
  else
    match ← Compilation.ofFile files a.options a.input with
    | .error e => return .error (scriptFault a.input e)
    | .ok c => return .ok c

/-- Compiles the input and writes the object. -/
def build (files : Files m) (a : Arguments) : m Outcome := do
  match ← compile files a with
  | .error reason => return ({} : Outcome).fail reason
  | .ok c =>
    let reported := ({} : Outcome).report a.format c.log
    match c.object with
    | none => return { reported with exit := 1 }
    | some object =>
      match ← object.store files a.output with
      | .error e => return reported.fail s!"Writing {a.output}: {e.message}"
      | .ok false => return reported.fail s!"cannot create {a.output}"
      | .ok true => return if a.listing then reported.list object else reported

/-! ### Running -/

/-- What is printed as help. -/
def usage : String :=
  "Usage: kindle [OPTIONS] <INPUT>\n\n" ++
  "  -o, --output <FILE>             Where the object goes\n" ++
  "      --debug                     Keep breakpoints and source positions\n" ++
  "      --library                   Need no default engine state\n" ++
  "      --werror                    A warning is an error\n" ++
  "      --wmessages                 A message is an error\n" ++
  "      --no-optimize               Leave the instructions as they are\n" ++
  "  -D <NAME[=VALUE]>               Define a name\n" ++
  "  -I <DIR>                        Search a directory for files to include\n" ++
  "      --tokens                    Print the tokens and stop\n" ++
  "      --no-color                  Print the tokens without colours\n" ++
  "      --disasm                    Print the listing of the object\n" ++
  "      --decompile                 Print the listing of an object file\n" ++
  "      --message-format <FORMAT>   human or json\n" ++
  "      --emit-tokens <FILE>        Write the tokens as a token stream and stop\n" ++
  "      --pretokenized              The input is a token stream\n" ++
  "  -h, --help                      Print this\n" ++
  "  -V, --version                   Print the version\n"

/-- A refusal in words. -/
def Refusal.message : Refusal → String
  | .missingInput => "an input is missing"
  | .unknown => "unexpected argument"
  | .badValue => "a value is missing or not a possible one"
  | .badDefine => "not a valid define"
  | .conflict => "settings that cannot be used together or more than once"
  | .unwantedValue => "a value for a switch"
  | .help | .version => ""

/-- A command line that is not run. -/
def refuse : Refusal → Outcome
  | .help => { stdout := usage }
  | .version => { stdout := "kindle 0.1.0\n" }
  | e => { exit := 2, stderr := s!"error: {e.message}\n\n{usage}" }

/-- Runs a command line. -/
def run (files : Files m) (args : List String) : m Outcome :=
  match Arguments.parse args with
  | .error e => return refuse e
  | .ok a =>
    if a.decompile then showObject files a
    else if a.tokens || a.emitTokens.isSome then showTokens files a
    else build files a

end StateScript.CommandLine
