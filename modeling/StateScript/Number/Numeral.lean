import StateScript.Number.Binary
import StateScript.Text.Layout

/-! # Numerals

  The text of a numeric literal denotes both a whole number and a real one, because
  the type that the context asks for decides which is taken. Whole numbers are words
  of 64 bits, read without a sign and then taken as signed: a numeral of `2 ^ 64` or
  more denotes nothing, and one of `2 ^ 63` or more denotes a negative number.

  A numeral may carry a minus sign that was written in front of the literal.
-/

namespace StateScript.Number

/-- What the text of a numeric literal denotes. -/
structure Numeral where
  /-- A signed word of 64 bits. -/
  whole : Int
  /-- Bits of an eight-byte floating point number. -/
  real : Nat
deriving DecidableEq

/-! ### Digits -/

/-- The value of a run of digits in a base, which must not be empty. -/
def digitsValue? (digit? : Char → Option Nat) (base : Nat) : List Char → Option Nat
  | [] => none
  | cs => cs.foldl (fun acc c => do return (← acc) * base + (← digit? c)) (some 0)

/-- An unsigned word of 64 bits, with or without a plus sign in front. -/
def word? (digit? : Char → Option Nat) (base : Nat) (cs : List Char) : Option Nat :=
  let digits :=
    match cs with
    | '+' :: r => r
    | cs => cs
  match digitsValue? digit? base digits with
  | some n => if n < pow2 64 then some n else none
  | none => none

/-- A decimal word. -/
def decimalWord? (cs : List Char) : Option Nat := word? Text.decimalValue? 10 cs

/-- A hexadecimal word. -/
def hexWord? (cs : List Char) : Option Nat := word? Text.hexValue? 16 cs

/-! ### Decimals -/

/-- Sign, digits and exponent: the number `± digits * 10 ^ exponent`. -/
structure Decimal where
  negative : Bool
  digits : Nat
  exponent : Int

namespace Decimal

/-- The exponent part of a decimal, which may be missing. -/
def exponent? : List Char → Option Int
  | [] => some 0
  | e :: r =>
    if e = 'e' ∨ e = 'E' then
      match r with
      | '-' :: r => (digitsValue? Text.decimalValue? 10 r).map fun n => -(n : Int)
      | '+' :: r => (digitsValue? Text.decimalValue? 10 r).map fun n => (n : Int)
      | r => (digitsValue? Text.decimalValue? 10 r).map fun n => (n : Int)
    else none

/-- Digits, a point, digits and an exponent. There is at least one digit, and the
    exponent is optional. -/
def unsigned? (negative : Bool) (cs : List Char) : Option Decimal := do
  let whole := cs.takeWhile Text.isDigit
  let rest := cs.drop whole.length
  let fraction :=
    match rest with
    | '.' :: r => r.takeWhile Text.isDigit
    | _ => []
  let rest := if rest.head? == some '.' then rest.drop (fraction.length + 1) else rest
  let digits ← digitsValue? Text.decimalValue? 10 (whole ++ fraction)
  let e ← exponent? rest
  return ⟨negative, digits, e - fraction.length⟩

/-- Reads a decimal with an optional sign. -/
def ofChars? : List Char → Option Decimal
  | '-' :: r => unsigned? true r
  | '+' :: r => unsigned? false r
  | cs => unsigned? false cs

/-- Bits of the nearest eight-byte number. A number of more than 400 places before
    or after the point is beyond the format on either side. -/
def toDouble (d : Decimal) : Nat :=
  let places : Int := (Nat.toDigits 10 d.digits).length + d.exponent
  let bits :=
    if d.digits = 0 ∨ places < -400 then 0
    else if 400 < places then double.infinity
    else if d.exponent < 0 then double.round d.digits (pow10 (-d.exponent).toNat)
    else double.round (d.digits * pow10 d.exponent.toNat) 1
  double.join d.negative bits

end Decimal

/-! ### Numerals -/

namespace Numeral

/-- A signed word of 64 bits with the same low bits. -/
def wrap (n : Int) : Int := Int.bmod n (pow2 64)

/-- A numeral without a sign: hexadecimal after `0x`, a decimal if it has a point,
    and else a whole number. -/
def unsigned? (cs : List Char) : Option Numeral :=
  match cs with
  | '0' :: 'x' :: r => hex? r
  | '0' :: 'X' :: r => hex? r
  | cs =>
    if cs.contains '.' then
      (Decimal.ofChars? cs).map fun d => ⟨truncate d.toDouble, d.toDouble⟩
    else
      (decimalWord? cs).map fun (n : Nat) => ⟨wrap n, double.ofNat n⟩
where
  hex? (r : List Char) : Option Numeral :=
    (hexWord? r).map fun (n : Nat) => ⟨wrap n, double.ofInt (wrap n)⟩

/-- The opposite number; the least word is its own opposite. -/
def negate (n : Numeral) : Numeral := ⟨wrap (-n.whole), double.negate n.real⟩

/-- What a numeral denotes. -/
def ofChars? : List Char → Option Numeral
  | '-' :: r => (unsigned? r).map negate
  | cs => unsigned? cs

def ofText? (s : String) : Option Numeral := ofChars? s.toList

/-- What a truth value denotes where a number is asked for. -/
def ofBool (b : Bool) : Numeral := ⟨if b then 1 else 0, if b then double.ofNat 1 else 0⟩

/-- A number counts as true unless it is zero. -/
def isTrue (n : Numeral) : Bool := n.whole != 0 || !double.isZero n.real

end Numeral

end StateScript.Number
