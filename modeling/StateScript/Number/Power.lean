/-! # Powers of two and ten

  The two bases that numbers are written in, spelled through `Nat.pow`.
-/

namespace StateScript.Number

def pow2 (n : Nat) : Nat := Nat.pow 2 n

def pow10 (n : Nat) : Nat := Nat.pow 10 n

end StateScript.Number
