import StateScript.Bytes
import StateScript.Object

/-! # Object files as bytes

  The format is a header, the defines, the symbols, the table of source files and
  the instructions. Numbers are little-endian. A list is its length followed by its
  items, and so is a text, in UTF-8. An absent index is written as -1 and every
  negative index is read as absent. The table of files and the positions of
  instructions are there only in debug builds.

  Fields are read strictly in order, so the first bad field decides the error.
-/

namespace StateScript.Object

open Bytes

/-- The bytes that every object file starts with. -/
def magic : List UInt8 := [0x4B, 0x4F, 0x46]

/-- Fields whose value is one of a fixed list. -/
inductive TagField where
  | opcode
  | register
  | dataType
  | access
  | symbol
  | variableKind
  | storage
  | operand
deriving DecidableEq

def TagField.name : TagField → String
  | .opcode => "opcode"
  | .register => "register"
  | .dataType => "data type"
  | .access => "access modifier"
  | .symbol => "symbol"
  | .variableKind => "variable kind"
  | .storage => "storage"
  | .operand => "operand"

/-- Why an object cannot be read or written. -/
inductive Error where
  | badMagic
  | truncated
  | unknownTag (field : TagField) (tag : Nat)
  | badText (fault : Text.Utf8Fault)
  /-- An instruction holds a placeholder. -/
  | unresolved (index : Nat)
deriving DecidableEq

def Error.message : Error → String
  | .badMagic => "not an object file"
  | .truncated => "object file is truncated"
  | .unknownTag field tag => s!"unknown {field.name} tag {tag}"
  | .badText _ => "string is not valid UTF-8"
  | .unresolved index => s!"instruction {index} still holds an unresolved operand"

/-! ### Writing -/

def writeBool (b : Bool) : List UInt8 := little 1 b.toNat

def writeIndex (i : Option Nat) : List UInt8 :=
  match i with
  | some i => littleInt 4 i
  | none => littleInt 4 (-1)

def writeText (s : String) : List UInt8 :=
  let bytes := Text.utf8 s
  little 4 bytes.length ++ bytes

/-- A length followed by the items. -/
def writeList {α : Type} (item : α → List UInt8) (xs : List α) : List UInt8 :=
  little 4 xs.length ++ xs.flatMap item

def writeType (t : ValueType) : List UInt8 :=
  little 1 t.primitive.tag ++ writeBool t.isArray ++ writeBool t.isReference

def writeDefine (d : Define) : List UInt8 := writeText d.identifier ++ writeText d.value

def writeFunction (f : Function) : List UInt8 :=
  little 4 f.parameterCount ++ writeList writeType f.parameterTypes ++ writeType f.returnType ++
    writeIndex f.entryPoint ++ little 4 f.frameSize ++ little 1 f.flags.toBits ++
    little 1 f.access.tag ++ writeBool f.used

def writeStorage : Storage → List UInt8
  | .stack i => little 1 0 ++ littleInt 4 i
  | .memory i => little 1 1 ++ littleInt 4 i

/-- A literal is stored by its type, not by its kind. -/
def writeLiteral (t : Token) : List UInt8 :=
  little 1 (t.kind.literalPrimitive?.getD .invalid).tag ++ writeText t.text ++ little 4 t.line ++
    little 4 t.offset ++ writeText t.file

def writeVariable (v : Variable) : List UInt8 :=
  little 1 v.kind.tag ++ writeType v.type ++ writeBool v.isConstant ++ writeBool v.isProperty ++
    writeStorage v.storage ++
    (match v.literal with
      | some t => writeBool true ++ writeLiteral t
      | none => writeBool false) ++
    writeBool v.used ++ little 1 v.access.tag

def writeKind : SymbolKind → List UInt8
  | .function f => writeFunction f
  | .var v => writeVariable v
  | .state engine editor => writeBool engine ++ writeBool editor
  | .metadata value => writeText value
  | .target bound => writeIndex bound
  | .enumeration | .space | .text => []

def writeEntry (e : Entry) : List UInt8 :=
  little 1 e.kind.tag ++ littleInt 4 e.index ++ writeText e.identifier ++ writeIndex e.scope ++
    writeList (littleInt 4) e.children ++ writeKind e.kind

/-- What follows the tag of an operand. Placeholders have neither. -/
def writePayload : Operand → List UInt8
  | .bool b => writeBool b
  | .byte n => little 1 n.toNat
  | .short n => littleInt 2 n.toInt
  | .int n => littleInt 4 n.toInt
  | .long n => littleInt 8 n.toInt
  | .float bits => little 4 bits.toNat
  | .double bits => little 8 bits.toNat
  | .text s => writeText s
  | .register r => little 1 r.tag
  | .registers base offset => little 1 base.tag ++ little 1 offset.tag
  | .stack i | .memory i | .instruction i | .symbolIndex i => littleInt 4 i
  | .stackIndexed i r | .memoryIndexed i r => littleInt 4 i ++ little 1 r.tag
  | .symbol _ | .target _ => []

def writeOperand? (x : Operand) : Option (List UInt8) :=
  x.tag?.map fun tag => little 1 tag ++ writePayload x

/-- Nothing if one of the operands is a placeholder. -/
def writeInstruction? (debug : Bool) (i : Instruction) : Option (List UInt8) := do
  let operands ← i.operands.mapM writeOperand?
  let position := if debug then little 4 i.file ++ little 4 i.line ++ little 4 i.offset else []
  return little 2 i.opcode.number ++ little 1 i.operands.length ++ position ++ operands.flatten

/-- Writes instructions of which the first has this index. -/
def writeCode (debug : Bool) : Nat → List Instruction → Except Error (List UInt8)
  | _, [] => .ok []
  | index, i :: rest => do
    match writeInstruction? debug i with
    | none => throw (.unresolved index)
    | some bytes => return bytes ++ (← writeCode debug (index + 1) rest)

def writeHeader (o : Object) : List UInt8 :=
  magic ++ little 4 o.flags.toBits ++ littleInt 4 o.internalVariables ++ littleInt 4 o.memorySize ++
    writeIndex (some o.globalScope) ++ writeIndex (some o.memberScope) ++
    writeIndex o.engineState ++ writeIndex o.editorState

/-- The bytes of an object, unless an instruction holds a placeholder. -/
def encode (o : Object) : Except Error (List UInt8) := do
  let code ← writeCode o.flags.debug 0 o.instructions
  return writeHeader o ++ writeList writeDefine o.defines ++ writeList writeEntry o.symbols ++
    (if o.flags.debug then writeList writeText o.files else []) ++
    little 4 o.instructions.length ++ code

/-! ### Reading -/

abbrev Read := Reader Error

def readNat (bytes : Nat) : Read Nat := natural .truncated bytes

def readInt (bytes : Nat) : Read Int := integer .truncated bytes

/-- Every byte but zero is true. -/
def readBool : Read Bool := return (← readNat 1) != 0

def readIndex : Read (Option Nat) := do
  let i ← readInt 4
  return if i < 0 then none else some i.toNat

def readText : Read String := do
  let length ← readNat 4
  match Text.ofUtf8 (← take .truncated length) with
  | .ok s => return s
  | .error fault => throw (.badText fault)

def readList {α : Type} (item : Read α) : Read (List α) := do many item (← readNat 4)

/-- Reads a number that has to be a tag. -/
def readTag {α : Type} (field : TagField) (bytes : Nat) (of? : Nat → Option α) : Read α := do
  let tag ← readNat bytes
  match of? tag with
  | some x => return x
  | none => throw (.unknownTag field tag)

def readRegister : Read Register := readTag .register 1 Register.ofTag?

def readPrimitive : Read Primitive := readTag .dataType 1 Primitive.ofTag?

def readAccess : Read Access := readTag .access 1 Access.ofTag?

def readType : Read ValueType := do
  let primitive ← readPrimitive
  let isArray ← readBool
  let isReference ← readBool
  return { primitive, isArray, isReference }

def readDefine : Read Define := do
  let identifier ← readText
  let value ← readText
  return { identifier, value }

def readFunction : Read Function := do
  let parameterCount ← readNat 4
  let parameterTypes ← readList readType
  let returnType ← readType
  let entryPoint ← readIndex
  let frameSize ← readNat 4
  let flags := FunctionFlags.ofBits (← readNat 1)
  let access ← readAccess
  let used ← readBool
  return { parameterCount, parameterTypes, returnType, entryPoint, frameSize, flags, access, used }

def readStorage : Read Storage := do
  let tag ← readNat 1
  match tag with
  | 0 => return .stack (← readInt 4)
  | 1 => return .memory (← readInt 4)
  | _ => throw (.unknownTag .storage tag)

/-- The kind of a literal of some type; whatever has no literals reads as an integer. -/
def literalKind : Primitive → Kind
  | .string => .stringLiteral
  | .bool => .booleanLiteral
  | .byte => .byteLiteral
  | .short => .shortLiteral
  | .long => .longLiteral
  | .float => .floatLiteral
  | .double => .doubleLiteral
  | _ => .integerLiteral

def readLiteral : Read Token := do
  let kind := literalKind (← readPrimitive)
  let text ← readText
  let line ← readNat 4
  let offset ← readNat 4
  let file ← readText
  return { kind, text, line, offset, file }

def readVariable : Read Variable := do
  let kind ← readTag .variableKind 1 VariableKind.ofTag?
  let type ← readType
  let isConstant ← readBool
  let isProperty ← readBool
  let storage ← readStorage
  let literal ← if ← readBool then some <$> readLiteral else pure none
  let used ← readBool
  let access ← readAccess
  return { kind, type, isConstant, isProperty, storage, literal, used, access }

/-- Readers of what each symbol tag promises. -/
def kindReader? : Nat → Option (Read SymbolKind)
  | 0 => some (.function <$> readFunction)
  | 1 => some (.var <$> readVariable)
  | 2 => some do return .state (← readBool) (← readBool)
  | 3 => some (return .enumeration)
  | 4 => some (return .space)
  | 5 => some (return .text)
  | 6 => some (.metadata <$> readText)
  | 7 => some (.target <$> readIndex)
  | _ => none

def readEntry : Read Entry := do
  let readKind ← readTag .symbol 1 kindReader?
  let index ← readInt 4
  let identifier ← readText
  let scope ← readIndex
  let children ← readList (readInt 4)
  let kind ← readKind
  return { index, identifier, scope, children, kind }

/-- Readers of what each operand tag promises. -/
def operandReader? : Nat → Option (Read Operand)
  | 0 => some (.bool <$> readBool)
  | 1 => some (return .byte (UInt8.ofNat (← readNat 1)))
  | 2 => some (return .short (Int16.ofInt (← readInt 2)))
  | 3 => some (return .int (Int32.ofInt (← readInt 4)))
  | 4 => some (return .long (Int64.ofInt (← readInt 8)))
  | 5 => some (return .float (UInt32.ofNat (← readNat 4)))
  | 6 => some (return .double (UInt64.ofNat (← readNat 8)))
  | 7 => some (.text <$> readText)
  | 8 => some (.register <$> readRegister)
  | 9 => some (return .registers (← readRegister) (← readRegister))
  | 10 => some (.stack <$> readInt 4)
  | 11 => some (return .stackIndexed (← readInt 4) (← readRegister))
  | 12 => some (.memory <$> readInt 4)
  | 13 => some (return .memoryIndexed (← readInt 4) (← readRegister))
  | 14 => some (.instruction <$> readInt 4)
  | 15 => some (.symbolIndex <$> readInt 4)
  | _ => none

def readOperand : Read Operand := do
  let payload ← readTag .operand 1 operandReader?
  payload

def readInstruction (debug : Bool) : Read Instruction := do
  let opcode ← readTag .opcode 2 Opcode.ofNumber?
  let count ← readNat 1
  if debug then
    let file ← readNat 4
    let line ← readNat 4
    let offset ← readNat 4
    let operands ← many readOperand count
    return { opcode, operands, line, offset, file }
  else
    let operands ← many readOperand count
    return { opcode, operands }

def readMagic : Read Unit := do
  unless (← take .truncated magic.length) = magic do throw .badMagic

def readObject : Read Object := do
  readMagic
  let flags := Flags.ofBits (← readNat 4)
  let internalVariables ← readInt 4
  let memorySize ← readInt 4
  let globalScope := (← readIndex).getD 0
  let memberScope := (← readIndex).getD 0
  let engineState ← readIndex
  let editorState ← readIndex
  let defines ← readList readDefine
  let symbols ← readList readEntry
  let files ← if flags.debug then readList readText else pure []
  let instructions ← readList (readInstruction flags.debug)
  return { flags, internalVariables, memorySize, globalScope, memberScope, engineState,
           editorState, defines, symbols, files, instructions }

/-- Reads an object; bytes after its end are ignored. -/
def decode (bytes : List UInt8) : Except Error Object := Prod.fst <$> readObject bytes

end StateScript.Object
