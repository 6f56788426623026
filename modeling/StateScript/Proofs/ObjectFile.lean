import Mathlib.Tactic.MkIffOfInductiveProp
import StateScript.Object.Encoding
import StateScript.Proofs.Decoding

/-! # Object files are read back

  There is one statement for each field and each record of the format: its reader finds the
  value that was written in front of any bytes, and reports a short file on anything less.

  What a file has no room for is excluded by `Encodable`: numbers and lengths beyond their
  fields, placeholders, code that linking has not taken away, and literals of a kind that
  literals do not have.
-/

namespace StateScript

open Bytes

/-! ### What can be written -/

namespace Object

/-- Integers that `n` bytes can hold in two's complement. -/
def Fits (n : Nat) (v : Int) : Prop := -(range n : Int) ≤ 2 * v ∧ 2 * v < range n

instance (n : Nat) (v : Int) : Decidable (Fits n v) := inferInstanceAs (Decidable (_ ∧ _))

/-- Indices below 2 to the 31; there is room for an absent one. -/
def IndexFits (i : Option Nat) : Prop := ∀ k, i = some k → 2 * k < range 4

def TextFits (s : String) : Prop := (Text.utf8 s).length < range 4

end Object

open Object

@[mk_iff] structure Define.Encodable (d : Define) : Prop where
  identifier : TextFits d.identifier
  value : TextFits d.value

@[mk_iff] structure Function.Encodable (f : Function) : Prop where
  parameterCount : f.parameterCount < range 4
  parameterTypes : f.parameterTypes.length < range 4
  entryPoint : IndexFits f.entryPoint
  frameSize : f.frameSize < range 4
  code : f.code = #[]

/-- A token of one of the eight kinds of literals. -/
@[mk_iff] structure Token.EncodableLiteral (t : Token) : Prop where
  kind : t.kind.isLiteral = true
  text : TextFits t.text
  line : t.line < range 4
  offset : t.offset < range 4
  file : TextFits t.file

def Storage.Encodable : Storage → Prop
  | .stack i | .memory i => Fits 4 i

@[mk_iff] structure Variable.Encodable (v : Variable) : Prop where
  storage : v.storage.Encodable
  literal : ∀ t, v.literal = some t → t.EncodableLiteral

def SymbolKind.Encodable : SymbolKind → Prop
  | .function f => f.Encodable
  | .var v => v.Encodable
  | .metadata value => TextFits value
  | .target bound => IndexFits bound
  | .state _ _ | .enumeration | .space | .text => True

@[mk_iff] structure Entry.Encodable (e : Entry) : Prop where
  index : Fits 4 e.index
  identifier : TextFits e.identifier
  scope : IndexFits e.scope
  childCount : e.children.length < range 4
  children : ∀ c ∈ e.children, Fits 4 c
  kind : e.kind.Encodable

def Operand.Encodable : Operand → Prop
  | .text s => TextFits s
  | .stack i | .stackIndexed i _ | .memory i | .memoryIndexed i _ | .instruction i
  | .symbolIndex i => Fits 4 i
  | .symbol _ | .target _ => False
  | _ => True

@[mk_iff] structure Instruction.Encodable (i : Instruction) : Prop where
  operandCount : i.operands.length ≤ 255
  operands : ∀ x ∈ i.operands, x.Encodable
  line : i.line < range 4
  offset : i.offset < range 4
  file : i.file < range 4

/-- Objects of which every part fits into its field. -/
@[mk_iff] structure Object.Encodable (o : Object) : Prop where
  internalVariables : Fits 4 o.internalVariables
  memorySize : Fits 4 o.memorySize
  globalScope : IndexFits (some o.globalScope)
  memberScope : IndexFits (some o.memberScope)
  engineState : IndexFits o.engineState
  editorState : IndexFits o.editorState
  defineCount : o.defines.length < range 4
  defines : ∀ d ∈ o.defines, d.Encodable
  symbolCount : o.symbols.length < range 4
  symbols : ∀ e ∈ o.symbols, e.Encodable
  fileCount : o.files.length < range 4
  files : ∀ f ∈ o.files, TextFits f
  instructionCount : o.instructions.length < range 4
  instructions : ∀ i ∈ o.instructions, i.Encodable

namespace Object

variable {n : Nat} {α : Type}

/-! ### Readers and writers -/

/-- Reading in an object file, which is short where a field is cut. -/
abbrev Decodes {α : Type} (r : Read α) (bytes : List UInt8) (x : α) : Prop :=
  Bytes.Decodes .truncated r bytes x

/-! ### Numbers -/

theorem decodes_readNat {v : Nat} (h : v < range n) : Decodes (readNat n) (little n v) v := by
  have hall := (decodes_take Error.truncated (little n v)).last value
  rwa [length_little, value_little, Nat.mod_eq_of_lt h] at hall

theorem range_pos (n : Nat) : 0 < range n := by
  induction n with
  | zero => decide
  | succ n ih => simp only [range]; omega

theorem bmod_littleInt {v : Int} (h : Fits n v) :
    Int.bmod (value (littleInt n v)) (range n) = v := by
  have hpos : (0 : Int) < range n := Int.natCast_pos.2 (range_pos n)
  have hnonneg := Int.emod_nonneg v (Int.ne_of_gt hpos)
  have hlt : (v % range n).toNat < range n := by
    have := Int.emod_lt_of_pos v hpos
    omega
  rw [littleInt, value_little, Nat.mod_eq_of_lt hlt, Int.toNat_of_nonneg hnonneg, Int.emod_bmod]
  exact Int.bmod_eq_of_le_mul_two (by have := h.1; omega) (by have := h.2; omega)

theorem decodes_readInt {v : Int} (h : Fits n v) : Decodes (readInt n) (littleInt n v) v := by
  have hall := (decodes_take Error.truncated (littleInt n v)).last fun bytes =>
    Int.bmod (value bytes) (range n)
  rwa [littleInt, length_little, ← littleInt, bmod_littleInt h] at hall

theorem decodes_readBool (b : Bool) : Decodes readBool (writeBool b) b := by
  have hall := (decodes_readNat (n := 1) (v := b.toNat) (by cases b <;> decide)).last (· != 0)
  cases b <;> exact hall

theorem decodes_readIndex {i : Option Nat} (h : IndexFits i) :
    Decodes readIndex (writeIndex i) i := by
  have hread : ∀ v : Int, Fits 4 v →
      Decodes readIndex (littleInt 4 v) (if v < 0 then none else some v.toNat) := fun v hv =>
    (decodes_readInt hv).last fun i => if i < 0 then none else some i.toNat
  cases i with
  | none => exact hread (-1) (by decide)
  | some k =>
    have hk := h k rfl
    have hall := hread k ⟨by omega, by omega⟩
    rwa [if_neg (Int.not_lt.2 (Int.natCast_nonneg k)), Int.toNat_natCast] at hall

/-! ### Texts, lists and tags -/

theorem decodes_readText {s : String} (h : TextFits s) : Decodes readText (writeText s) s := by
  have hall : Decodes readText (little 4 (Text.utf8 s).length ++ (Text.utf8 s ++ [])) s := by
    refine (decodes_readNat h).bind ((decodes_take _ (Text.utf8 s)).bind ?_)
    rw [Text.ofUtf8_utf8]
    exact Decodes.pure s
  rwa [List.append_nil] at hall

theorem decodes_readList {item : Read α} {write : α → List UInt8} {xs : List α}
    (hlength : xs.length < range 4) (h : ∀ x ∈ xs, Decodes item (write x) x) :
    Decodes (readList item) (writeList write xs) xs := by
  have hall := (decodes_readNat hlength).bind (decodes_many (g := id) xs h)
  rwa [List.map_id] at hall

theorem decodes_readTag {field : TagField} {tag : Nat} {of? : Nat → Option α} {x : α}
    (htag : tag < range n) (h : of? tag = some x) :
    Decodes (readTag field n of?) (little n tag) x := by
  have hall : Decodes (readTag field n of?) (little n tag ++ []) x := by
    refine (decodes_readNat htag).bind ?_
    rw [h]
    exact Decodes.pure x
  rwa [List.append_nil] at hall

theorem decodes_readRegister (r : Register) : Decodes readRegister (little 1 r.tag) r :=
  decodes_readTag (by cases r <;> decide) (Register.ofTag?_tag r)

theorem decodes_readPrimitive (p : Primitive) : Decodes readPrimitive (little 1 p.tag) p :=
  decodes_readTag (by cases p <;> decide) (Primitive.ofTag?_tag p)

theorem decodes_readAccess (a : Access) : Decodes readAccess (little 1 a.tag) a :=
  decodes_readTag (by cases a <;> decide) (Access.ofTag?_tag a)

/-! ### Symbols -/

theorem decodes_readType (t : ValueType) : Decodes readType (writeType t) t := by
  rw [writeType, List.append_assoc]
  refine (decodes_readPrimitive t.primitive).bind ?_
  refine (decodes_readBool t.isArray).bind ?_
  exact (decodes_readBool t.isReference).last fun isReference => { t with isReference }

theorem decodes_readDefine {d : Define} (h : d.Encodable) :
    Decodes readDefine (writeDefine d) d := by
  refine (decodes_readText h.identifier).bind ?_
  exact (decodes_readText h.value).last fun value => { d with value }

theorem decodes_readFunction {f : Function} (h : f.Encodable) :
    Decodes readFunction (writeFunction f) f := by
  have hflags : f.flags.toBits < range 1 := by
    rcases f.flags with ⟨a, b, c, d, e, g⟩
    cases a <;> cases b <;> cases c <;> cases d <;> cases e <;> cases g <;> decide
  simp only [writeFunction, List.append_assoc]
  refine (decodes_readNat h.parameterCount).bind ?_
  refine (decodes_readList h.parameterTypes fun t _ => decodes_readType t).bind ?_
  refine (decodes_readType f.returnType).bind ?_
  refine (decodes_readIndex h.entryPoint).bind ?_
  refine (decodes_readNat h.frameSize).bind ?_
  refine (decodes_readNat hflags).bind ?_
  refine (decodes_readAccess f.access).bind ?_
  rw [FunctionFlags.ofBits_toBits]
  -- The code of a function is stored with the program.
  have hsame : ({ f with code := #[] } : Function) = f := by rw [← h.code]
  have hused := (decodes_readBool f.used).last fun used => { f with used, code := #[] }
  exact hsame ▸ hused

theorem decodes_readStorage {s : Storage} (h : s.Encodable) :
    Decodes readStorage (writeStorage s) s := by
  cases s with
  | stack i =>
    refine (decodes_readNat (n := 1) (v := 0) (by decide)).bind ?_
    exact (decodes_readInt h).last Storage.stack
  | memory i =>
    refine (decodes_readNat (n := 1) (v := 1) (by decide)).bind ?_
    exact (decodes_readInt h).last Storage.memory

/-- The type of a literal tells its kind. -/
theorem literalKind_literalPrimitive? {k : Kind} (h : k.isLiteral = true) :
    literalKind (k.literalPrimitive?.getD .invalid) = k := by
  cases k <;> simp_all [Kind.isLiteral, Kind.literalPrimitive?, literalKind]

theorem decodes_readLiteral {t : Token} (h : t.EncodableLiteral) :
    Decodes readLiteral (writeLiteral t) t := by
  simp only [writeLiteral, List.append_assoc]
  refine (decodes_readPrimitive _).bind ?_
  refine (decodes_readText h.text).bind ?_
  refine (decodes_readNat h.line).bind ?_
  refine (decodes_readNat h.offset).bind ?_
  rw [literalKind_literalPrimitive? h.kind]
  exact (decodes_readText h.file).last fun file => { t with file }

theorem decodes_readVariable {v : Variable} (h : v.Encodable) :
    Decodes readVariable (writeVariable v) v := by
  have hkind : Decodes (readTag .variableKind 1 VariableKind.ofTag?) (little 1 v.kind.tag) v.kind :=
    decodes_readTag (by cases v.kind <;> decide) (VariableKind.ofTag?_tag v.kind)
  simp only [writeVariable, List.append_assoc]
  refine hkind.bind ?_
  refine (decodes_readType v.type).bind ?_
  refine (decodes_readBool v.isConstant).bind ?_
  refine (decodes_readBool v.isProperty).bind ?_
  refine (decodes_readStorage h.storage).bind ?_
  cases hliteral : v.literal with
  -- A literal is written behind a flag that tells whether there is one.
  | none =>
    have hsame : ({ v with literal := none } : Variable) = v := by rw [← hliteral]
    refine (decodes_readBool false).bind ?_
    refine (Decodes.pure none).bind ?_
    refine (decodes_readBool v.used).bind ?_
    have haccess := (decodes_readAccess v.access).last fun access =>
      { v with access, literal := none }
    exact hsame ▸ haccess
  | some t =>
    have hsame : ({ v with literal := some t } : Variable) = v := by rw [← hliteral]
    rw [List.append_assoc]
    refine (decodes_readBool true).bind ?_
    refine ((decodes_readLiteral (h.literal t hliteral)).map some).bind ?_
    refine (decodes_readBool v.used).bind ?_
    have haccess := (decodes_readAccess v.access).last fun access =>
      { v with access, literal := some t }
    exact hsame ▸ haccess

/-- Every tag of a symbol has a reader for what follows. -/
theorem decodes_kindReader? {kind : SymbolKind} (h : kind.Encodable) :
    ∃ r, kindReader? kind.tag = some r ∧ Decodes r (writeKind kind) kind := by
  cases kind with
  | function f => exact ⟨_, rfl, (decodes_readFunction h).map SymbolKind.function⟩
  | var v => exact ⟨_, rfl, (decodes_readVariable h).map SymbolKind.var⟩
  | state engine editor =>
    refine ⟨_, rfl, (decodes_readBool engine).bind ?_⟩
    exact (decodes_readBool editor).last (SymbolKind.state engine)
  | enumeration => exact ⟨_, rfl, Decodes.pure _⟩
  | space => exact ⟨_, rfl, Decodes.pure _⟩
  | text => exact ⟨_, rfl, Decodes.pure _⟩
  | metadata value => exact ⟨_, rfl, (decodes_readText h).map SymbolKind.metadata⟩
  | target bound => exact ⟨_, rfl, (decodes_readIndex h).map SymbolKind.target⟩

theorem decodes_readEntry {e : Entry} (h : e.Encodable) : Decodes readEntry (writeEntry e) e := by
  obtain ⟨r, hr, hkind⟩ := decodes_kindReader? h.kind
  have htag : e.kind.tag < range 1 := by cases e.kind <;> simp [SymbolKind.tag, range]
  simp only [writeEntry, List.append_assoc]
  refine (decodes_readTag htag hr).bind ?_
  refine (decodes_readInt h.index).bind ?_
  refine (decodes_readText h.identifier).bind ?_
  refine (decodes_readIndex h.scope).bind ?_
  refine (decodes_readList h.childCount fun c hc => decodes_readInt (h.children c hc)).bind ?_
  exact hkind.last fun kind => { e with kind }

/-! ### Instructions -/

/-- Integers of `n` bytes are read back modulo their range, which is all they have. -/
theorem decodes_short (n : Int16) :
    Decodes (do return Operand.short (Int16.ofInt (← readInt 2))) (littleInt 2 n.toInt)
      (.short n) := by
  have hfits : Fits 2 n.toInt := by
    have := n.le_toInt
    have := n.toInt_lt
    simp only [Fits, range]
    omega
  have hall := (decodes_readInt hfits).last fun v => Operand.short (Int16.ofInt v)
  rwa [Int16.ofInt_toInt] at hall

theorem decodes_int (n : Int32) :
    Decodes (do return Operand.int (Int32.ofInt (← readInt 4))) (littleInt 4 n.toInt)
      (.int n) := by
  have hfits : Fits 4 n.toInt := by
    have := n.le_toInt
    have := n.toInt_lt
    simp only [Fits, range]
    omega
  have hall := (decodes_readInt hfits).last fun v => Operand.int (Int32.ofInt v)
  rwa [Int32.ofInt_toInt] at hall

theorem decodes_long (n : Int64) :
    Decodes (do return Operand.long (Int64.ofInt (← readInt 8))) (littleInt 8 n.toInt)
      (.long n) := by
  have hfits : Fits 8 n.toInt := by
    have := n.le_toInt
    have := n.toInt_lt
    simp only [Fits, range]
    omega
  have hall := (decodes_readInt hfits).last fun v => Operand.long (Int64.ofInt v)
  rwa [Int64.ofInt_toInt] at hall

/-- Every tag of an operand has a reader for what follows. -/
theorem decodes_operandReader? {x : Operand} (h : x.Encodable) :
    ∃ tag r, x.tag? = some tag ∧ tag < range 1 ∧ operandReader? tag = some r ∧
      Decodes r (writePayload x) x := by
  cases x with
  | bool b => exact ⟨_, _, rfl, by decide, rfl, (decodes_readBool b).map Operand.bool⟩
  | byte n =>
    have hn := (decodes_readNat (n := 1) n.toNat_lt).last fun v => Operand.byte (UInt8.ofNat v)
    rw [UInt8.ofNat_toNat] at hn
    exact ⟨_, _, rfl, by decide, rfl, hn⟩
  | short n => exact ⟨_, _, rfl, by decide, rfl, decodes_short n⟩
  | int n => exact ⟨_, _, rfl, by decide, rfl, decodes_int n⟩
  | long n => exact ⟨_, _, rfl, by decide, rfl, decodes_long n⟩
  | float bits =>
    have hbits := (decodes_readNat (n := 4) bits.toNat_lt).last fun v =>
      Operand.float (UInt32.ofNat v)
    rw [UInt32.ofNat_toNat] at hbits
    exact ⟨_, _, rfl, by decide, rfl, hbits⟩
  | double bits =>
    have hbits := (decodes_readNat (n := 8) bits.toNat_lt).last fun v =>
      Operand.double (UInt64.ofNat v)
    rw [UInt64.ofNat_toNat] at hbits
    exact ⟨_, _, rfl, by decide, rfl, hbits⟩
  | text s => exact ⟨_, _, rfl, by decide, rfl, (decodes_readText h).map Operand.text⟩
  | register r => exact ⟨_, _, rfl, by decide, rfl, (decodes_readRegister r).map Operand.register⟩
  | registers base offset =>
    refine ⟨_, _, rfl, by decide, rfl, (decodes_readRegister base).bind ?_⟩
    exact (decodes_readRegister offset).last (Operand.registers base)
  | stack i => exact ⟨_, _, rfl, by decide, rfl, (decodes_readInt h).map Operand.stack⟩
  | stackIndexed i r =>
    refine ⟨_, _, rfl, by decide, rfl, (decodes_readInt h).bind ?_⟩
    exact (decodes_readRegister r).last (Operand.stackIndexed i)
  | memory i => exact ⟨_, _, rfl, by decide, rfl, (decodes_readInt h).map Operand.memory⟩
  | memoryIndexed i r =>
    refine ⟨_, _, rfl, by decide, rfl, (decodes_readInt h).bind ?_⟩
    exact (decodes_readRegister r).last (Operand.memoryIndexed i)
  | instruction i => exact ⟨_, _, rfl, by decide, rfl, (decodes_readInt h).map Operand.instruction⟩
  | symbolIndex i => exact ⟨_, _, rfl, by decide, rfl, (decodes_readInt h).map Operand.symbolIndex⟩
  -- Linking leaves no reference to a symbol or target.
  | symbol id => exact False.elim h
  | target id => exact False.elim h

/-- The bytes of an operand that is no placeholder. -/
theorem decodes_readOperand {x : Operand} (h : x.Encodable) :
    ∃ bytes, writeOperand? x = some bytes ∧ Decodes readOperand bytes x := by
  obtain ⟨tag, r, htag, hlt, hr, hpayload⟩ := decodes_operandReader? h
  exact ⟨little 1 tag ++ writePayload x, by simp [writeOperand?, htag],
    (decodes_readTag hlt hr).bind hpayload⟩

theorem decodes_readOperands {xs : List Operand} (h : ∀ x ∈ xs, x.Encodable) :
    ∃ parts, xs.mapM writeOperand? = some parts ∧
      Decodes (many readOperand xs.length) parts.flatten xs := by
  induction xs with
  | nil => exact ⟨[], rfl, Decodes.pure []⟩
  | cons x rest ih =>
    obtain ⟨bytes, hbytes, hx⟩ := decodes_readOperand (h x List.mem_cons_self)
    obtain ⟨parts, hparts, hrest⟩ := ih fun y hy => h y (List.mem_cons_of_mem x hy)
    refine ⟨bytes :: parts, by simp [List.mapM_cons, hbytes, hparts], ?_⟩
    rw [List.flatten_cons]
    exact hx.bind (hrest.last fun ys => x :: ys)

/-- What a file keeps of an instruction. -/
def kept (debug : Bool) (i : Instruction) : Instruction := if debug then i else i.withoutPosition

theorem decodes_readInstruction {i : Instruction} (debug : Bool) (h : i.Encodable) :
    ∃ bytes, writeInstruction? debug i = some bytes ∧
      Decodes (readInstruction debug) bytes (kept debug i) := by
  obtain ⟨parts, hparts, hoperands⟩ := decodes_readOperands h.operands
  have hopcode : Decodes (readTag .opcode 2 Opcode.ofNumber?) (little 2 i.opcode.number) i.opcode :=
    decodes_readTag (Nat.lt_trans i.opcode.number_lt (by decide +kernel))
      (Opcode.ofNumber?_number i.opcode)
  have hcount := decodes_readNat (n := 1) (v := i.operands.length)
    (Nat.lt_of_le_of_lt h.operandCount (by decide))
  refine ⟨little 2 i.opcode.number ++ little 1 i.operands.length ++
    (if debug then little 4 i.file ++ little 4 i.line ++ little 4 i.offset else []) ++
    parts.flatten, by simp only [writeInstruction?, hparts]; rfl, ?_⟩
  cases debug with
  | false =>
    simp only [Bool.false_eq_true, if_false, List.append_nil, List.append_assoc]
    refine hopcode.bind (hcount.bind ?_)
    exact hoperands.last fun operands => ({ opcode := i.opcode, operands } : Instruction)
  | true =>
    simp only [if_true, List.append_assoc]
    refine hopcode.bind (hcount.bind ?_)
    refine (decodes_readNat h.file).bind ?_
    refine (decodes_readNat h.line).bind ?_
    refine (decodes_readNat h.offset).bind ?_
    exact hoperands.last fun operands => { i with operands }

theorem decodes_code (debug : Bool) (index : Nat) {code : List Instruction}
    (h : ∀ i ∈ code, i.Encodable) :
    ∃ bytes, writeCode debug index code = .ok bytes ∧
      Decodes (many (readInstruction debug) code.length) bytes (code.map (kept debug)) := by
  induction code generalizing index with
  | nil => exact ⟨[], rfl, Decodes.pure []⟩
  | cons i rest ih =>
    obtain ⟨bytes, hbytes, hi⟩ := decodes_readInstruction debug (h i List.mem_cons_self)
    obtain ⟨later, hlater, hrest⟩ :=
      ih (index + 1) fun j hj => h j (List.mem_cons_of_mem i hj)
    refine ⟨bytes ++ later, ?_, hi.bind (hrest.last fun is => kept debug i :: is)⟩
    simp only [writeCode, hbytes, hlater]
    rfl

/-! ### Objects -/

/-- The object without what only debug builds keep. -/
def withoutDebug (o : Object) : Object :=
  { o with files := [], instructions := o.instructions.map Instruction.withoutPosition }

theorem decodes_readMagic : Decodes readMagic magic () := by
  have hall := (decodes_take .truncated magic).bind (f := fun bytes =>
    (do unless bytes = magic do throw .badMagic : Read Unit)) (Decodes.pure ())
  rwa [List.append_nil] at hall

/-- The bytes of an object, and what is read from them. -/
theorem decodes_readObject {o : Object} (h : o.Encodable) :
    ∃ bytes, o.encode = .ok bytes ∧
      Decodes readObject bytes (if o.flags.debug then o else o.withoutDebug) := by
  obtain ⟨code, hcode, hinstructions⟩ := decodes_code o.flags.debug 0 h.instructions
  have hflags := decodes_readNat (n := 4) (v := o.flags.toBits)
    (Nat.lt_trans o.flags.toBits_lt (by decide))
  refine ⟨_, by simp only [encode, hcode]; rfl, ?_⟩
  simp only [writeHeader, List.append_assoc]
  refine decodes_readMagic.bind ?_
  refine hflags.bind ?_
  -- The flags that were read tell whether the files follow, and not those of `o`.
  rw [Flags.ofBits_toBits]
  refine (decodes_readInt h.internalVariables).bind ?_
  refine (decodes_readInt h.memorySize).bind ?_
  refine (decodes_readIndex h.globalScope).bind ?_
  refine (decodes_readIndex h.memberScope).bind ?_
  refine (decodes_readIndex h.engineState).bind ?_
  refine (decodes_readIndex h.editorState).bind ?_
  refine (decodes_readList h.defineCount fun d hd => decodes_readDefine (h.defines d hd)).bind ?_
  refine (decodes_readList h.symbolCount fun e he => decodes_readEntry (h.symbols e he)).bind ?_
  have hcount := (decodes_readNat h.instructionCount).bind hinstructions
  cases hdebug : o.flags.debug with
  -- Without debug information an instruction comes back with no place in a source.
  | false =>
    rw [hdebug] at hcount
    refine (Decodes.pure []).bind ?_
    exact hcount.last fun instructions => { o with files := [], instructions }
  | true =>
    have hsame : o.instructions.map (kept true) = o.instructions := List.map_id o.instructions
    rw [hdebug, hsame] at hcount
    refine (decodes_readList h.fileCount fun f hf => decodes_readText (h.files f hf)).bind ?_
    exact hcount.last fun instructions => { o with instructions }

/-- An object that can be written is read back from its bytes, whatever follows them:
    as it is from a debug build, and otherwise without source files and positions. -/
theorem decode_encode (o : Object) (h : o.Encodable) (rest : List UInt8) :
    ∃ bytes, o.encode = .ok bytes ∧
      decode (bytes ++ rest) = .ok (if o.flags.debug then o else o.withoutDebug) := by
  obtain ⟨bytes, hbytes, hread⟩ := decodes_readObject h
  refine ⟨bytes, hbytes, ?_⟩
  rw [decode, hread.reads rest]
  rfl

/-- A debug build with a function, a constant and an instruction that calls. -/
def sample : Object where
  flags := { debug := true }
  memorySize := 1
  memberScope := 3
  engineState := some 2
  defines := [⟨"MODE", "é"⟩]
  symbols :=
    [{ identifier := "$global", children := [1, 2],
       kind := .function { parameterTypes := [.array .string], entryPoint := some 0,
                           flags := { exported := true } } },
     { index := -1, identifier := "limit", scope := some 0,
       kind := .var { kind := .constant, type := .int, isConstant := true, storage := .memory 0,
                      literal := some ⟨.integerLiteral, "-7", 3, 11, "a.ks"⟩ } },
     { index := 2, identifier := "Idle", scope := some 0, kind := .state true false }]
  files := ["a.ks"]
  instructions :=
    [{ opcode := .mov (.numeric .double),
       operands := [.stackIndexed (-2) .op2, .double 0x7FF8000000000001], line := 4, offset := 9 }]

theorem encodable_sample : sample.Encodable := by
  simp only [sample, Object.encodable_iff, Define.encodable_iff, Entry.encodable_iff,
    Function.encodable_iff, Variable.encodable_iff, Token.encodableLiteral_iff,
    Instruction.encodable_iff, SymbolKind.Encodable, Storage.Encodable, Operand.Encodable,
    IndexFits, TextFits, List.forall_mem_cons, List.not_mem_nil, false_imp_iff, Option.some.injEq,
    forall_eq', forall_const, reduceCtorEq]
  decide

theorem decode_encode_sample :
    sample.Encodable ∧ ∃ bytes, sample.encode = .ok bytes ∧
      decode (bytes ++ [0xFF]) = .ok sample :=
  ⟨encodable_sample, decode_encode sample encodable_sample [0xFF]⟩

/-- Wherever the bytes of an object are cut off, what is left is a short file: it is never taken
    for another object, and no other error is found in it. -/
theorem decode_cut (o : Object) (h : o.Encodable) :
    ∃ bytes, o.encode = .ok bytes ∧
      ∀ front, front <+: bytes → front ≠ bytes → decode front = .error .truncated := by
  obtain ⟨bytes, hbytes, hread⟩ := decodes_readObject h
  refine ⟨bytes, hbytes, fun front hfront hne => ?_⟩
  rw [decode, hread.cut front hfront hne]
  rfl

theorem decode_cut_sample :
    sample.Encodable ∧ ∃ bytes, sample.encode = .ok bytes ∧ bytes.take 100 <+: bytes ∧
      bytes.take 100 ≠ bytes ∧ decode (bytes.take 100) = .error .truncated := by
  obtain ⟨bytes, hbytes, hcut⟩ := decode_cut sample encodable_sample
  have hlong : sample.encode.toOption.any (100 < ·.length) = true := by decide +kernel
  have hshort : bytes.take 100 ≠ bytes := by
    intro heq
    rw [hbytes] at hlong
    have hle := congrArg List.length heq
    rw [List.length_take] at hle
    simp [Except.toOption] at hlong
    omega
  exact ⟨encodable_sample, bytes, hbytes, List.take_prefix 100 bytes, hshort,
    hcut _ (List.take_prefix 100 bytes) hshort⟩

end Object

end StateScript
