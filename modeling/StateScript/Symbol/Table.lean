import StateScript.Symbol
import StateScript.Symbol.Path

/-! # Symbol tables

  A table holds all symbols of a compilation; the id of a symbol is its position.
  Symbols are only ever added, and a new symbol goes to the end of its owner's list
  of children, so owners have smaller ids than what they own.
-/

namespace StateScript

/-- Symbols by id. -/
structure Table where
  symbols : Array Symbol := #[]
deriving DecidableEq, Inhabited

namespace Table

def empty : Table := {}

def size (t : Table) : Nat := t.symbols.size

def get? (t : Table) (id : Nat) : Option Symbol := t.symbols[id]?

/-- Ids of the declarations that `id` owns. -/
def children (t : Table) (id : Nat) : List Nat :=
  match t.get? id with
  | some s => s.children
  | none => []

/-! ### Changes -/

/-- Changes one symbol in place. -/
def modify (t : Table) (id : Nat) (f : Symbol → Symbol) : Table :=
  { symbols := t.symbols.modify id f }

def modifyKind (t : Table) (id : Nat) (f : SymbolKind → SymbolKind) : Table :=
  t.modify id fun s => { s with kind := f s.kind }

def rename (t : Table) (id : Nat) (identifier : String) : Table :=
  t.modify id fun s => { s with identifier }

/-- Adds a symbol at the end; its id is the size before. -/
def add (t : Table) (scope : Option Nat) (identifier : String) (kind : SymbolKind) : Table :=
  let id := t.size
  match scope with
  | none => { symbols := t.symbols.push { identifier, kind } }
  | some owner =>
    let index := (t.children owner).length
    let t := t.modify owner fun s => { s with children := s.children ++ [id] }
    { symbols := t.symbols.push { index, identifier, scope, kind } }

@[simp] theorem size_modify (t : Table) (id : Nat) (f : Symbol → Symbol) :
    (t.modify id f).size = t.size := by
  simp [modify, size]

@[simp] theorem size_add (t : Table) (scope : Option Nat) (identifier : String)
    (kind : SymbolKind) : (t.add scope identifier kind).size = t.size + 1 := by
  cases scope <;> simp [add, size, modify]

/-! ### Search -/

/-- Whether the symbol `id` has this identifier and passes the filter. -/
def isMatch (t : Table) (identifier : String) (filter : Symbol → Bool) (id : Nat) : Bool :=
  match t.get? id with
  | some s => s.identifier == identifier && filter s
  | none => false

/-- First child of `scope` with this identifier that passes the filter. -/
def find? (t : Table) (scope : Nat) (identifier : String) (filter : Symbol → Bool) : Option Nat :=
  (t.children scope).find? (t.isMatch identifier filter)

/-- All children of `scope` with this identifier that pass the filter. -/
def findAll (t : Table) (scope : Nat) (identifier : String) (filter : Symbol → Bool) : List Nat :=
  (t.children scope).filter (t.isMatch identifier filter)

/-! ### Order and names -/

/-- Visits at most `steps` symbols, each before its children. -/
def visit (t : Table) : Nat → List Nat → List Nat
  | 0, _ => []
  | _ + 1, [] => []
  | steps + 1, id :: rest => id :: t.visit steps (t.children id ++ rest)

/-- The trees below the roots, each symbol before its children. -/
def preorder (t : Table) (roots : List Nat) : List Nat := t.visit (roots.length * t.size) roots

/-- The identifier and the owner of a symbol. -/
def lookup (t : Table) (id : Nat) : Option (String × Option Nat) :=
  (t.get? id).map fun s => (s.identifier, s.scope)

/-- Identifiers from the root down to `id`, joined by dots. -/
def qualifiedName (t : Table) (id : Nat) : String := StateScript.qualifiedName t.lookup t.size id

end Table

end StateScript
