/-! # Texts as bytes

  A text is stored as UTF-8. Bytes that are not UTF-8 are refused, and the fault
  says how far they were valid and how many bytes the bad sequence has; a sequence
  that the end of the input cuts off has no length.
-/

namespace StateScript.Text

/-- Where and how bytes stop being UTF-8. -/
structure Utf8Fault where
  validUpTo : Nat
  length : Option Nat
deriving DecidableEq

def Utf8Fault.message (f : Utf8Fault) : String :=
  match f.length with
  | some n => s!"invalid utf-8 sequence of {n} bytes from index {f.validUpTo}"
  | none => s!"incomplete utf-8 byte sequence from index {f.validUpTo}"

/-- A byte that may follow the first byte of a sequence. -/
def isContinuation (b : UInt8) : Bool := 0x80 ≤ b && b ≤ 0xBF

/-- Whether `b` may follow the first byte `a` of a sequence of three or four bytes:
    this excludes overlong forms, surrogates and what lies beyond the last code point. -/
def isSecond (a b : UInt8) : Bool :=
  if a = 0xE0 then 0xA0 ≤ b && b ≤ 0xBF
  else if a = 0xED then 0x80 ≤ b && b ≤ 0x9F
  else if a = 0xF0 then 0x90 ≤ b && b ≤ 0xBF
  else if a = 0xF4 then 0x80 ≤ b && b ≤ 0x8F
  else isContinuation b

/-- The first fault of bytes whose first byte has index `i`, if there is one. -/
def utf8FaultFrom (i : Nat) : List UInt8 → Option Utf8Fault
  | [] => none
  | a :: r =>
    if a < 0x80 then utf8FaultFrom (i + 1) r
    else if 0xC2 ≤ a && a ≤ 0xDF then
      match r with
      | [] => some ⟨i, none⟩
      | b :: r => if isContinuation b then utf8FaultFrom (i + 2) r else some ⟨i, some 1⟩
    else if 0xE0 ≤ a && a ≤ 0xEF then
      match r with
      | [] => some ⟨i, none⟩
      | b :: r =>
        if !isSecond a b then some ⟨i, some 1⟩
        else match r with
          | [] => some ⟨i, none⟩
          | c :: r => if isContinuation c then utf8FaultFrom (i + 3) r else some ⟨i, some 2⟩
    else if 0xF0 ≤ a && a ≤ 0xF4 then
      match r with
      | [] => some ⟨i, none⟩
      | b :: r =>
        if !isSecond a b then some ⟨i, some 1⟩
        else match r with
          | [] => some ⟨i, none⟩
          | c :: r =>
            if !isContinuation c then some ⟨i, some 2⟩
            else match r with
              | [] => some ⟨i, none⟩
              | d :: r => if isContinuation d then utf8FaultFrom (i + 4) r else some ⟨i, some 3⟩
    else some ⟨i, some 1⟩

/-- Bytes of a text. -/
def utf8 (s : String) : List UInt8 := s.toByteArray.data.toList

/-- The text of some bytes. -/
def ofUtf8 (bytes : List UInt8) : Except Utf8Fault String :=
  match String.fromUTF8? ⟨bytes.toArray⟩ with
  | some s => .ok s
  | none => .error ((utf8FaultFrom 0 bytes).getD ⟨0, none⟩)

/-- Every text is read back from its bytes. -/
@[simp] theorem ofUtf8_utf8 (s : String) : ofUtf8 (utf8 s) = .ok s := by
  have h : String.fromUTF8? s.toByteArray = some s := by
    simp [String.fromUTF8?, s.isValidUTF8, String.fromUTF8]
  simp [ofUtf8, utf8, h]

end StateScript.Text
