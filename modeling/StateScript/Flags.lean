/-! # Compilation switches

  Five independent switches change how a script is lexed, checked and emitted.
  An object file stores them as one word of bits; a word may carry bits that name
  no switch, so there are two ways back: `Flags.ofBits` ignores such bits, and
  `Flags.ofBits?` refuses them.
-/

namespace StateScript

/-- The switches of one compilation. -/
structure Flags where
  /-- Keep breakpoints, and write source positions into the object file. -/
  debug : Bool := false
  /-- A library needs no default engine state. -/
  library : Bool := false
  /-- A warning stops the compilation. -/
  warningsFatal : Bool := false
  /-- A message stops the compilation. -/
  messagesFatal : Bool := false
  /-- Leave the linked instructions as they were emitted. -/
  unoptimized : Bool := false
deriving DecidableEq, Inhabited

namespace Flags

/-- The word that an object file stores. -/
def toBits (f : Flags) : Nat :=
  f.debug.toNat + 2 * f.library.toNat + 4 * f.warningsFatal.toNat +
    8 * f.messagesFatal.toNat + 16 * f.unoptimized.toNat

/-- Reads the known bits of a word and ignores the others. -/
def ofBits (bits : Nat) : Flags where
  debug := bits.testBit 0
  library := bits.testBit 1
  warningsFatal := bits.testBit 2
  messagesFatal := bits.testBit 3
  unoptimized := bits.testBit 4

/-- Reads a word, which must have no unknown bit. -/
def ofBits? (bits : Nat) : Option Flags :=
  if bits < 32 then some (ofBits bits) else none

theorem toBits_lt (f : Flags) : f.toBits < 32 := by
  rcases f with ⟨a, b, c, d, e⟩
  cases a <;> cases b <;> cases c <;> cases d <;> cases e <;> decide

@[simp] theorem ofBits_toBits (f : Flags) : ofBits f.toBits = f := by
  rcases f with ⟨a, b, c, d, e⟩
  cases a <;> cases b <;> cases c <;> cases d <;> cases e <;> decide

end Flags

end StateScript
