import StateScript.Object.Peephole
import StateScript.Text.Path
import StateScript.Token.Directive
import StateScript.Token.Lexer
import StateScript.Walk.Unit

/-! # Compilations

  From tokens or from the text of a script to an object, with everything that was found
  on the way. There is an object if and only if nothing is an error.
-/

namespace StateScript

/-- How a unit is compiled. -/
structure Options where
  flags : Flags := {}
  defines : List Define := []
  /-- Directories that are searched for files to include. -/
  includePaths : List String := []
deriving DecidableEq

/-- The directories that are searched on behalf of a file: the given ones, and then the
    one that holds the file. -/
def Options.searchPath (options : Options) (file : String) : List String :=
  options.includePaths ++ [Text.directory file]

/-- What comes of a compilation. -/
structure Compilation where
  log : Log
  object : Option Object
  /-- How many pairs of instructions were replaced. -/
  optimizations : Nat

namespace Compilation

def succeeded (c : Compilation) : Bool := c.object.isSome

/-- Shortens the program of an object, unless that is switched off. -/
def shorten (o : Object) : Object × Nat :=
  if o.flags.unoptimized then (o, 0)
  else
    let r := Peephole.optimize o.instructions o.symbols
    ({ o with instructions := r.code, symbols := r.symbols }, r.replaced)

/-- The log of a walk that broke off. -/
def brokenLog (s : Walk.State) : Log :=
  let place := s.location s.pos
  s.log.push
    { code := .internalError, level := .fatal, message := "unexpected failure inside the compiler"
      line := place.line, offset := place.offset, file := place.file }

/-- Compiles tokens. -/
def ofTokens (options : Options) (tokens : List Token) : Compilation :=
  match (Walk.unit options.defines).run (.initial options.flags tokens) with
  | .ok (some o) s =>
    let (object, optimizations) := shorten o
    ⟨s.log, some object, optimizations⟩
  | .ok none s | .error .abandoned s | .error .fatal s => ⟨s.log, none, 0⟩
  | .error .broken s => ⟨brokenLog s, none, 0⟩

/-- Compiles the text of a script. -/
def ofSource (options : Options) (source file : String) : Compilation :=
  let lexed := lex source options.flags file
  let expanded := Token.expand lexed.tokens options.flags options.defines
  let compiled := ofTokens { options with defines := expanded.defines } expanded.tokens
  let log := (({ flags := options.flags } : Log).pushAll lexed.log.items
    |>.pushAll expanded.log.items).pushAll compiled.log.items
  ⟨log, if log.hasErrors then none else compiled.object, compiled.optimizations⟩

end Compilation

end StateScript
