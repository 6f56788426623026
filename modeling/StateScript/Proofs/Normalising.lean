import StateScript.Proofs.ObjectFile

/-! # Objects that were read can be written

  The reader takes more than the writer makes: unknown flags, truth values other than zero and
  one, any negative number for an absent index, literals of types that have none, and whatever
  follows the end. What it makes of these can always be written, and in as many bytes as it has
  taken. `Consumes` says what is known of a value and of the number of its bytes, and passes from
  the fields of a record to the record.
-/

namespace StateScript

open Bytes

/-- Bytes that are a text are the bytes of that text. -/
theorem Text.utf8_of_ofUtf8 {bytes : List UInt8} {s : String} (h : ofUtf8 bytes = .ok s) :
    utf8 s = bytes := by
  unfold ofUtf8 String.fromUTF8? at h
  split at h
  · next heq =>
    split at heq
    · cases heq
      cases h
      rfl
    · cases heq
  · cases h

namespace Object

/-! ### Readers -/

/-- Whatever the reader gives, `Q` holds of it and of the number of bytes that it took. -/
structure Consumes {α : Type} (r : Read α) (Q : α → Nat → Prop) : Prop where
  run : ∀ {bytes rest : List UInt8} {x : α}, r bytes = .ok (x, rest) →
    ∃ front, bytes = front ++ rest ∧ Q x front.length

namespace Consumes

variable {α β : Type} {r : Read α} {f : α → Read β} {P : α → Nat → Prop} {Q : β → Nat → Prop}

theorem pure {y : β} (h : Q y 0) : Consumes (Pure.pure y) Q where
  run hread := by
    cases hread
    exact ⟨[], rfl, h⟩

theorem fail (e : Error) : Consumes (throw e) Q where
  run hread := by cases hread

theorem bind (hr : Consumes r P) (hf : ∀ x n, P x n → Consumes (f x) fun y m => Q y (n + m)) :
    Consumes (r >>= f) Q where
  run {bytes rest y} hread := by
    change (r bytes >>= fun p => f p.1 p.2) = _ at hread
    cases hfirst : r bytes with
    | error e =>
      rw [hfirst] at hread
      cases hread
    | ok p =>
      rw [hfirst] at hread
      obtain ⟨front, rfl, hx⟩ := hr.run hfirst
      obtain ⟨front', hrest, hy⟩ := (hf p.1 front.length hx).run hread
      refine ⟨front ++ front', by rw [List.append_assoc, ← hrest], ?_⟩
      rwa [List.length_append]

theorem mono {P' : α → Nat → Prop} (hr : Consumes r P) (h : ∀ x n, P x n → P' x n) :
    Consumes r P' where
  run hread := by
    obtain ⟨front, hbytes, hx⟩ := hr.run hread
    exact ⟨front, hbytes, h _ _ hx⟩

theorem map {g : α → β} (hr : Consumes r P) (hg : ∀ x n, P x n → Q (g x) n) :
    Consumes (g <$> r) Q := by
  rw [map_eq_pure_bind]
  exact hr.bind fun x n hx => .pure (hg x n hx)

/-- A field whose value tells how long it is. -/
theorem field {p : α → Prop} {size : α → Nat} (hr : Consumes r fun x n => p x ∧ n = size x)
    (hf : ∀ x, p x → Consumes (f x) fun y m => Q y (size x + m)) : Consumes (r >>= f) Q :=
  hr.bind fun x _ hx => hx.2 ▸ hf x hx.1

end Consumes

/-! ### Fields -/

@[simp] theorem length_littleInt (n : Nat) (v : Int) : (littleInt n v).length = n :=
  length_little ..

@[simp] theorem length_writeBool (b : Bool) : (writeBool b).length = 1 := length_little ..

@[simp] theorem length_writeIndex (i : Option Nat) : (writeIndex i).length = 4 := by
  cases i <;> exact length_little ..

theorem consumes_take (n : Nat) :
    Consumes (take .truncated n) fun bytes m => bytes.length = n ∧ m = n where
  run {bytes rest x} hread := by
    unfold take at hread
    dsimp only at hread
    split at hread
    · next hlength =>
      cases hread
      exact ⟨bytes.take n, (List.take_append_drop n bytes).symm, hlength, hlength⟩
    · cases hread

theorem value_lt (bytes : List UInt8) : value bytes < range bytes.length := by
  induction bytes with
  | nil => decide
  | cons b bytes ih =>
    have hb := b.toNat_lt
    simp only [value, List.length_cons, range]
    omega

theorem consumes_readNat (n : Nat) : Consumes (readNat n) fun v m => v < range n ∧ m = n := by
  refine (consumes_take n).field fun bytes hlength => .pure ⟨?_, rfl⟩
  exact hlength ▸ value_lt bytes

theorem fits_bmod (v : Int) (n : Nat) : Fits n (Int.bmod v (range n)) := by
  have hlow := Int.le_bmod (x := v) (range_pos n)
  have hhigh := Int.bmod_lt (x := v) (range_pos n)
  constructor <;> omega

theorem consumes_readInt (n : Nat) : Consumes (readInt n) fun v m => Fits n v ∧ m = n :=
  (consumes_take n).field fun _ _ => .pure ⟨fits_bmod _ _, rfl⟩

theorem consumes_readBool : Consumes readBool fun _ m => True ∧ m = 1 :=
  (consumes_readNat 1).field fun _ _ => .pure ⟨trivial, rfl⟩

/-- A negative index is read as absent, and no other is. -/
theorem consumes_readIndex : Consumes readIndex fun i m => IndexFits i ∧ m = 4 := by
  refine (consumes_readInt 4).field fun v hfits => .pure ⟨fun k hk => ?_, rfl⟩
  split at hk
  · cases hk
  · cases hk
    have hhigh := hfits.2
    omega

theorem consumes_readText : Consumes readText fun s m => TextFits s ∧ m = (writeText s).length := by
  refine (consumes_readNat 4).field fun n hn => (consumes_take n).field fun bytes hlength => ?_
  split
  · next s hs =>
    have hbytes := Text.utf8_of_ofUtf8 hs
    refine .pure ⟨?_, by simp [writeText, length_little, hbytes, hlength]⟩
    unfold TextFits
    rwa [hbytes, hlength]
  · exact .fail _

section Lists

variable {α : Type} {item : Read α} {p : α → Prop} {write : α → List UInt8}

theorem consumes_many (h : Consumes item fun x m => p x ∧ m = (write x).length) (count : Nat) :
    Consumes (many item count) fun xs m =>
      (xs.length = count ∧ ∀ x ∈ xs, p x) ∧ m = (xs.flatMap write).length := by
  induction count with
  | zero => exact .pure ⟨⟨rfl, nofun⟩, rfl⟩
  | succ count ih =>
    refine h.field fun x hx => ih.field fun xs hxs => .pure ⟨⟨?_, ?_⟩, by simp⟩
    · rw [List.length_cons, hxs.1]
    · exact List.forall_mem_cons.2 ⟨hx, hxs.2⟩

theorem consumes_readList (h : Consumes item fun x m => p x ∧ m = (write x).length) :
    Consumes (readList item) fun xs m =>
      (xs.length < range 4 ∧ ∀ x ∈ xs, p x) ∧ m = (writeList write xs).length := by
  refine (consumes_readNat 4).field fun count hcount => (consumes_many h count).mono ?_
  rintro xs m ⟨⟨rfl, hxs⟩, rfl⟩
  exact ⟨⟨hcount, hxs⟩, by simp [writeList, length_little]⟩

end Lists

theorem consumes_readTag {α : Type} (field : TagField) (n : Nat) (of? : Nat → Option α) :
    Consumes (readTag field n of?) fun x m => (∃ tag, of? tag = some x) ∧ m = n := by
  refine (consumes_readNat n).field fun tag _ => ?_
  split
  · next x hx => exact .pure ⟨⟨tag, hx⟩, rfl⟩
  · exact .fail _

/-! ### Symbols -/

theorem consumes_readType : Consumes readType fun t m => True ∧ m = (writeType t).length := by
  refine (consumes_readTag ..).field fun primitive _ => ?_
  refine consumes_readBool.field fun isArray _ => consumes_readBool.field fun isReference _ => ?_
  exact .pure ⟨trivial, by simp [writeType, length_little]⟩

theorem consumes_readDefine :
    Consumes readDefine fun d m => d.Encodable ∧ m = (writeDefine d).length := by
  refine consumes_readText.field fun identifier hidentifier =>
    consumes_readText.field fun value hvalue => ?_
  exact .pure ⟨⟨hidentifier, hvalue⟩, by simp [writeDefine]⟩

theorem consumes_readFunction :
    Consumes readFunction fun f m => f.Encodable ∧ m = (writeFunction f).length := by
  refine (consumes_readNat 4).field fun count hcount => ?_
  refine (consumes_readList consumes_readType).field fun types htypes => ?_
  refine consumes_readType.field fun returnType _ => ?_
  refine consumes_readIndex.field fun entryPoint hentry => ?_
  refine (consumes_readNat 4).field fun frameSize hframe => ?_
  refine (consumes_readNat 1).field fun bits _ => (consumes_readTag ..).field fun access _ => ?_
  refine consumes_readBool.field fun used _ => .pure ⟨⟨hcount, htypes.1, hentry, hframe, rfl⟩, ?_⟩
  simp only [writeFunction, List.length_append, length_little, length_writeIndex, length_writeBool]
  omega

theorem consumes_readStorage :
    Consumes readStorage fun s m => s.Encodable ∧ m = (writeStorage s).length := by
  refine (consumes_readNat 1).field fun tag _ => ?_
  split
  · exact (consumes_readInt 4).field fun i hi => .pure ⟨hi, rfl⟩
  · exact (consumes_readInt 4).field fun i hi => .pure ⟨hi, rfl⟩
  · exact .fail _

/-- Whatever type a literal was stored by, what is read is a literal. -/
theorem isLiteral_literalKind (p : Primitive) : (literalKind p).isLiteral = true := by
  cases p <;> rfl

theorem consumes_readLiteral :
    Consumes readLiteral fun t m => t.EncodableLiteral ∧ m = (writeLiteral t).length := by
  refine (consumes_readTag ..).field fun p _ => consumes_readText.field fun text htext => ?_
  refine (consumes_readNat 4).field fun line hline =>
    (consumes_readNat 4).field fun offset hoffset => ?_
  refine consumes_readText.field fun file hfile => ?_
  refine .pure ⟨⟨isLiteral_literalKind p, htext, hline, hoffset, hfile⟩, ?_⟩
  simp only [writeLiteral, List.length_append, length_little]
  omega

theorem consumes_readVariable :
    Consumes readVariable fun v m => v.Encodable ∧ m = (writeVariable v).length := by
  refine (consumes_readTag ..).field fun kind _ => consumes_readType.field fun type _ => ?_
  refine consumes_readBool.field fun isConstant _ => consumes_readBool.field fun isProperty _ => ?_
  refine consumes_readStorage.field fun storage hstorage =>
    consumes_readBool.field fun isThere _ => ?_
  -- What stands behind the literal, if that takes `n` bytes.
  have last : ∀ (literal : Option Token) (n : Nat), (∀ t, literal = some t → t.EncodableLiteral) →
      n = literal.elim 0 (fun t => (writeLiteral t).length) → Consumes (do
        let used ← readBool
        let access ← readAccess
        return ({ kind, type, isConstant, isProperty, storage, literal, used, access } : Variable))
      fun v m => v.Encodable ∧
        1 + ((writeType type).length + (1 + (1 + ((writeStorage storage).length +
        (1 + (n + m)))))) = (writeVariable v).length := by
    rintro literal n hliteral rfl
    refine consumes_readBool.field fun used _ => (consumes_readTag ..).field fun access _ => ?_
    refine .pure ⟨⟨hstorage, hliteral⟩, ?_⟩
    cases literal <;>
      simp only [writeVariable, List.length_append, length_little, length_writeBool,
        Option.elim] <;> omega
  cases isThere with
  | false =>
    refine (Consumes.pure (Q := fun literal n => literal = none ∧ n = 0) ⟨rfl, rfl⟩).field ?_
    rintro literal rfl
    exact last none 0 (fun _ h => by cases h) rfl
  | true =>
    refine (consumes_readLiteral.map
      (Q := fun literal n => ∃ t, literal = some t ∧ t.EncodableLiteral ∧
      n = (writeLiteral t).length) fun t m ht => ⟨t, rfl, ht⟩).bind ?_
    rintro literal n ⟨t, rfl, ht, rfl⟩
    exact last (some t) _ (fun t' h => Option.some.inj h ▸ ht) rfl

/-- What each symbol tag promises can be written. -/
theorem consumes_kindReader? {tag : Nat} {r : Read SymbolKind} (h : kindReader? tag = some r) :
    Consumes r fun kind m => kind.Encodable ∧ m = (writeKind kind).length := by
  unfold kindReader? at h
  split at h <;> cases h
  · exact consumes_readFunction.map fun f m hf => hf
  · exact consumes_readVariable.map fun v m hv => hv
  · exact consumes_readBool.field fun engine _ => consumes_readBool.field fun editor _ =>
      .pure ⟨trivial, rfl⟩
  · exact .pure ⟨trivial, rfl⟩
  · exact .pure ⟨trivial, rfl⟩
  · exact .pure ⟨trivial, rfl⟩
  · exact consumes_readText.map fun s m hs => hs
  · exact consumes_readIndex.map fun i m hi => ⟨hi.1, hi.2.trans (length_writeIndex i).symm⟩

theorem consumes_signed :
    Consumes (readInt 4) fun i m => Fits 4 i ∧ m = (littleInt 4 i).length :=
  (consumes_readInt 4).mono fun i _ hi => ⟨hi.1, hi.2.trans (length_littleInt 4 i).symm⟩

theorem consumes_readEntry :
    Consumes readEntry fun e m => e.Encodable ∧ m = (writeEntry e).length := by
  refine (consumes_readTag ..).field fun r hr => (consumes_readInt 4).field fun index hindex => ?_
  refine consumes_readText.field fun identifier hidentifier =>
    consumes_readIndex.field fun scope hscope => ?_
  refine (consumes_readList consumes_signed).field fun children hchildren => ?_
  obtain ⟨tag, hr⟩ := hr
  refine (consumes_kindReader? hr).field fun kind hkind => ?_
  refine .pure ⟨⟨hindex, hidentifier, hscope, hchildren.1, hchildren.2, hkind⟩, ?_⟩
  simp only [writeEntry, List.length_append, length_little, length_littleInt, length_writeIndex]
  omega

/-! ### Instructions -/

/-- What each operand tag promises can be written. -/
theorem consumes_operandReader? {tag : Nat} {r : Read Operand} (h : operandReader? tag = some r) :
    Consumes r fun x m => x.Encodable ∧ m = (writePayload x).length := by
  unfold operandReader? at h
  split at h <;> cases h
  · exact consumes_readBool.map fun b m hb => ⟨trivial, hb.2⟩
  · exact (consumes_readNat 1).field fun v _ => .pure ⟨trivial, rfl⟩
  · exact (consumes_readInt 2).field fun v _ => .pure ⟨trivial, rfl⟩
  · exact (consumes_readInt 4).field fun v _ => .pure ⟨trivial, rfl⟩
  · exact (consumes_readInt 8).field fun v _ => .pure ⟨trivial, rfl⟩
  · exact (consumes_readNat 4).field fun v _ => .pure ⟨trivial, rfl⟩
  · exact (consumes_readNat 8).field fun v _ => .pure ⟨trivial, rfl⟩
  · exact consumes_readText.map fun s m hs => hs
  · exact (consumes_readTag ..).map fun r m hr => ⟨trivial, hr.2⟩
  · exact (consumes_readTag ..).field fun a _ => (consumes_readTag ..).field fun b _ =>
      .pure ⟨trivial, rfl⟩
  · exact consumes_signed.map fun i m hi => hi
  · exact (consumes_readInt 4).field fun i hi => (consumes_readTag ..).field fun r _ =>
      .pure ⟨hi, rfl⟩
  · exact consumes_signed.map fun i m hi => hi
  · exact (consumes_readInt 4).field fun i hi => (consumes_readTag ..).field fun r _ =>
      .pure ⟨hi, rfl⟩
  · exact consumes_signed.map fun i m hi => hi
  · exact consumes_signed.map fun i m hi => hi

/-- The bytes of an operand; a placeholder has none. -/
def operandBytes (x : Operand) : List UInt8 := (writeOperand? x).getD []

theorem consumes_readOperand :
    Consumes readOperand fun x m => x.Encodable ∧ m = (operandBytes x).length := by
  refine (consumes_readTag ..).field fun r hr => ?_
  obtain ⟨_, hr⟩ := hr
  refine (consumes_operandReader? hr).mono ?_
  rintro x m ⟨hx, rfl⟩
  obtain ⟨tag, -, htag, -⟩ := decodes_operandReader? hx
  exact ⟨hx, by simp [operandBytes, writeOperand?, htag, length_little]⟩

theorem flatten_of_mapM {xs : List Operand} {parts : List (List UInt8)}
    (h : xs.mapM writeOperand? = some parts) : parts.flatten = xs.flatMap operandBytes := by
  induction xs generalizing parts with
  | nil =>
    cases h
    rfl
  | cons x xs ih =>
    rw [List.mapM_cons] at h
    obtain ⟨bytes, hbytes, h⟩ := Option.bind_eq_some_iff.1 h
    obtain ⟨later, hlater, h⟩ := Option.bind_eq_some_iff.1 h
    cases h
    rw [List.flatten_cons, List.flatMap_cons, ih hlater, operandBytes, hbytes, Option.getD_some]

/-- The bytes of an instruction; one with a placeholder has none. -/
def instructionBytes (debug : Bool) (i : Instruction) : List UInt8 :=
  (writeInstruction? debug i).getD []

theorem length_instructionBytes (debug : Bool) {i : Instruction}
    (h : ∀ x ∈ i.operands, x.Encodable) :
    (instructionBytes debug i).length =
      3 + (if debug then 12 else 0) + (i.operands.flatMap operandBytes).length := by
  obtain ⟨parts, hparts, -⟩ := decodes_readOperands h
  unfold instructionBytes writeInstruction?
  rw [hparts, ← flatten_of_mapM hparts]
  cases debug <;> simp [length_little] <;> omega

theorem consumes_readInstruction (debug : Bool) : Consumes (readInstruction debug) fun i m =>
    (i.Encodable ∧ kept debug i = i) ∧ m = (instructionBytes debug i).length := by
  refine (consumes_readTag ..).field fun opcode _ =>
    (consumes_readNat 1).field fun count hcount => ?_
  have hoperands := consumes_many consumes_readOperand count
  cases debug with
  -- Without debug information the places of the source are not stored.
  | false =>
    refine hoperands.field fun xs hxs => .pure ⟨⟨⟨?_, hxs.2, ?_, ?_, ?_⟩, rfl⟩, ?_⟩
    · exact Nat.le_of_lt_succ (hxs.1 ▸ hcount)
    · exact range_pos 4
    · exact range_pos 4
    · exact range_pos 4
    · rw [length_instructionBytes false hxs.2]
      simp only [Bool.false_eq_true, if_false]
      omega
  | true =>
    refine (consumes_readNat 4).field fun file hfile =>
      (consumes_readNat 4).field fun line hline => ?_
    refine (consumes_readNat 4).field fun offset hoffset => hoperands.field fun xs hxs => ?_
    refine .pure ⟨⟨⟨Nat.le_of_lt_succ (hxs.1 ▸ hcount), hxs.2, hline, hoffset, hfile⟩, rfl⟩, ?_⟩
    rw [length_instructionBytes true hxs.2]
    simp only [if_true]
    omega

/-- Code is written one instruction after the other. -/
theorem eq_of_writeCode {debug : Bool} {index : Nat} {code : List Instruction} {bytes : List UInt8}
    (h : writeCode debug index code = .ok bytes) :
    bytes = code.flatMap (instructionBytes debug) := by
  induction code generalizing index bytes with
  | nil =>
    cases h
    rfl
  | cons i code ih =>
    unfold writeCode at h
    cases hi : writeInstruction? debug i with
    | none =>
      rw [hi] at h
      cases h
    | some first =>
      rw [hi] at h
      cases hlater : writeCode debug (index + 1) code with
      | error e =>
        rw [hlater] at h
        cases h
      | ok later =>
        rw [hlater] at h
        cases h
        rw [List.flatMap_cons, ← ih hlater, instructionBytes, hi, Option.getD_some]

/-! ### Objects -/

theorem length_encode {o : Object} {bytes : List UInt8} (h : o.encode = .ok bytes) :
    bytes.length = 31 + (writeList writeDefine o.defines).length +
      (writeList writeEntry o.symbols).length +
      (if o.flags.debug then writeList writeText o.files else []).length +
      (writeList (instructionBytes o.flags.debug) o.instructions).length := by
  unfold encode at h
  cases hcode : writeCode o.flags.debug 0 o.instructions with
  | error e =>
    rw [hcode] at h
    cases h
  | ok code =>
    rw [hcode, eq_of_writeCode hcode] at h
    cases h
    simp only [writeHeader, writeList, List.length_append, length_little, length_littleInt,
      length_writeIndex,
      magic, List.length_cons, List.length_nil]
    omega

/-- An object without source files and positions is the same without them. -/
theorem same_of_kept {o : Object} (hfiles : o.flags.debug = false → o.files = [])
    (hkept : ∀ i ∈ o.instructions, kept o.flags.debug i = i) :
    (if o.flags.debug then o else o.withoutDebug) = o := by
  split
  · rfl
  · next hdebug =>
    rw [Bool.not_eq_true] at hdebug
    rw [hdebug] at hkept
    have hinstructions : o.instructions.map Instruction.withoutPosition = o.instructions :=
      (List.map_congr_left hkept).trans (List.map_id _)
    unfold withoutDebug
    rw [hinstructions, ← hfiles hdebug]

theorem indexFits_getD {i : Option Nat} (h : IndexFits i) : IndexFits (some (i.getD 0)) := by
  rintro j ⟨⟩
  cases i with
  | none => decide
  | some k => exact h k rfl

/-- What is read can be written, has nothing that the file does not keep, and is as long as
    what was taken. -/
theorem consumes_readObject : Consumes readObject fun o m => o.Encodable ∧
    (if o.flags.debug then o else o.withoutDebug) = o ∧ ∀ bytes, o.encode = .ok bytes →
      bytes.length = m := by
  have magic : Consumes readMagic fun _ m => True ∧ m = 3 := by
    refine (consumes_take 3).field fun bytes _ => ?_
    split
    · exact .pure ⟨trivial, rfl⟩
    · exact .fail _
  refine magic.field fun _ _ => (consumes_readNat 4).field fun bits _ => ?_
  refine (consumes_readInt 4).field fun internalVariables hinternal => ?_
  refine (consumes_readInt 4).field fun memorySize hmemory => ?_
  refine consumes_readIndex.field fun globalScope hglobal => ?_
  refine consumes_readIndex.field fun memberScope hmember => ?_
  refine consumes_readIndex.field fun engineState hengine => ?_
  refine consumes_readIndex.field fun editorState heditor => ?_
  refine (consumes_readList consumes_readDefine).field fun defines hdefines => ?_
  refine (consumes_readList consumes_readEntry).field fun symbols hsymbols => ?_
  -- Bits without a meaning are lost here, and what is written again has none of them.
  generalize Flags.ofBits bits = flags
  -- The rest, for files that are there or are left out.
  have last : ∀ files : List String, files.length < range 4 → (∀ f ∈ files, TextFits f) →
      (flags.debug = false → files = []) → Consumes (do
        let instructions ← readList (readInstruction flags.debug)
        return ({ flags, internalVariables, memorySize, globalScope := globalScope.getD 0,
                  memberScope := memberScope.getD 0, engineState, editorState, defines, symbols,
                    files,
                  instructions } : Object))
      fun o m => o.Encodable ∧ (if o.flags.debug then o else o.withoutDebug) = o ∧
        ∀ bytes, o.encode = .ok bytes → bytes.length = 3 + (4 + (4 + (4 + (4 + (4 + (4 + (4 +
          ((writeList writeDefine defines).length + ((writeList writeEntry symbols).length +
            ((if flags.debug then writeList writeText files else []).length + m)))))))))) := by
    intro files hcount hfiles hkept
    refine (consumes_readList (consumes_readInstruction flags.debug)).field
      fun instructions hcode => ?_
    refine .pure ⟨⟨hinternal, hmemory, indexFits_getD hglobal, indexFits_getD hmember, hengine,
      heditor,
      hdefines.1, hdefines.2, hsymbols.1, hsymbols.2, hcount, hfiles, hcode.1, fun i hi =>
        (hcode.2 i hi).1⟩,
      same_of_kept hkept fun i hi => (hcode.2 i hi).2, fun bytes hbytes => ?_⟩
    -- The lengths of all fields add up to what was taken.
    rw [length_encode hbytes]
    dsimp only
    omega
  cases hdebug : flags.debug with
  -- A file without debug information names no sources.
  | false =>
    rw [hdebug] at last
    refine (Consumes.pure (Q := fun files n => files = [] ∧ n = 0) ⟨rfl, rfl⟩).field ?_
    rintro files rfl
    exact last [] (range_pos 4) nofun fun _ => rfl
  | true =>
    rw [hdebug] at last
    exact (consumes_readList consumes_readText).field fun files hfiles =>
      last files hfiles.1 hfiles.2 nofun

/-- What was read from a file can be written, it is read back from what is written, and this has
    as many bytes as were taken from the file. -/
theorem decode_normalises {bytes : List UInt8} {o : Object} (h : decode bytes = .ok o) :
    ∃ front rest bytes', bytes = front ++ rest ∧ readObject bytes = .ok (o, rest) ∧
      o.encode = .ok bytes' ∧ decode bytes' = .ok o ∧ bytes'.length = front.length := by
  unfold decode at h
  cases hread : readObject bytes with
  | error e =>
    rw [hread] at h
    cases h
  | ok p =>
    obtain ⟨x, rest⟩ := p
    rw [hread] at h
    cases h
    obtain ⟨front, hbytes, hencodable, hsame, hlength⟩ := consumes_readObject.run hread
    -- What was read can be written, and is then read again as it is.
    obtain ⟨bytes', hencode, hdecodes⟩ := decodes_readObject hencodable
    refine ⟨front, rest, bytes', hbytes, rfl, hencode, ?_, hlength bytes' hencode⟩
    have hreads := hdecodes.reads []
    rw [List.append_nil, hsame] at hreads
    unfold decode
    rw [hreads]
    rfl

/-- A file with flags that do not exist, truth values of 255 and 2, absent indices other than -1,
    a literal that is stored as one of no type, and a byte behind the end. -/
def looseBytes : List UInt8 :=
  magic ++ [0xE2, 0xFF, 0xFF, 0xFF] ++ little 4 0 ++ little 4 1 ++ littleInt 4 (-3) ++ little 4 0 ++
    littleInt 4 (-2) ++ littleInt 4 (-9) ++ little 4 0 ++ little 4 1 ++
    ([1] ++ littleInt 4 (-7) ++ writeText "n" ++ littleInt 4 (-5) ++ little 4 0 ++
      ([1] ++ writeType .int ++ [255, 2] ++ writeStorage (.memory 0) ++
        ([9] ++ [0] ++ writeText "1" ++ little 4 1 ++ little 4 2 ++ writeText "a.ks") ++ [0, 0])) ++
    little 4 0 ++ [0xAB]

theorem decode_normalises_loose : ∃ o, decode looseBytes = .ok o ∧
    ∃ front rest bytes', looseBytes = front ++ rest ∧ readObject looseBytes = .ok (o, rest) ∧
      o.encode = .ok bytes' ∧ decode bytes' = .ok o ∧ bytes'.length = front.length := by
  have hread : (decode looseBytes).isOk = true := by decide +kernel
  cases h : decode looseBytes with
  | error e =>
    rw [h] at hread
    cases hread
  | ok o => exact ⟨o, rfl, decode_normalises h⟩

end Object

end StateScript
