import StateScript.ValueType

/-! # Operation codes

  Most instructions come in families: one code per kind of value they work on. An
  operation code is written as such a pair wherever it is one, so that the codes of
  a family are handled together. `Opcode.all` lists every code in the order of the
  numbers that an object file uses.
-/

namespace StateScript

/-- The numeric kinds of values. -/
inductive Numeric where
  | byte
  | short
  | int
  | long
  | float
  | double
deriving DecidableEq, Inhabited

/-- The kinds of values that instructions tell apart. Arrays belong to `object`. -/
inductive Family where
  | bool
  | numeric (n : Numeric)
  | string
  | object
deriving DecidableEq, Inhabited

/-- Instructions on numbers. -/
inductive Arithmetic where
  | add
  | sub
  | mul
  | div
  | mod
  | neg
  | inc
  | dec
deriving DecidableEq, Inhabited

/-- Instructions on the bits of an `int`. -/
inductive Bitwise where
  | and
  | or
  | xor
  | shl
  | shr
  | not
deriving DecidableEq, Inhabited

/-- Outcomes of a comparison that can be asked for. -/
inductive Relation where
  | eq
  | ne
  | lt
  | gt
  | le
  | ge
deriving DecidableEq, Inhabited

/-- What an instruction does. -/
inductive Opcode where
  | nop
  | pushNull
  | movNull
  | popDestroy
  | push (f : Family)
  | pop (f : Family)
  | mov (f : Family)
  | cast (f : Family)
  | arithmetic (op : Arithmetic) (n : Numeric)
  /-- Addition of strings. -/
  | concat
  | bitwise (op : Bitwise)
  | logicalAnd
  | logicalOr
  | logicalNot
  /-- Sets the comparison flag. -/
  | cmp (f : Family)
  | cmpNull
  /-- Reads the comparison flag as a `bool`. -/
  | is (r : Relation)
  | jump
  | jumpIf (r : Relation)
  | call
  | ret
  | gotoState
  | allocate (f : Family)
  | getMember
  | getMemberIndexed
  | setMember
  | setMemberIndexed
  | callMethod
  | enterLock
  | exitLock
  | enterAtom
  | exitAtom
  | breakpoint
deriving DecidableEq, Inhabited

/-! ### Orders and spellings -/

def Numeric.all : List Numeric := [.byte, .short, .int, .long, .float, .double]

def Family.all : List Family :=
  [.bool] ++ Numeric.all.map .numeric ++ [.string, .object]

/-- Place of a family among all. -/
def Family.index : Family → Nat
  | .bool => 0
  | .numeric n => n.ctorIdx + 1
  | .string => 7
  | .object => 8

def Bitwise.all : List Bitwise := [.and, .or, .xor, .shl, .shr, .not]

def Relation.all : List Relation := [.eq, .ne, .lt, .gt, .le, .ge]

def Numeric.mnemonic : Numeric → String
  | .byte => "BYTE"
  | .short => "SHORT"
  | .int => "INT"
  | .long => "LONG"
  | .float => "FLOAT"
  | .double => "DOUBLE"

def Family.mnemonic : Family → String
  | .bool => "BOOL"
  | .numeric n => n.mnemonic
  | .string => "STRING"
  | .object => "OBJECT"

def Arithmetic.mnemonic : Arithmetic → String
  | .add => "ADD"
  | .sub => "SUB"
  | .mul => "MUL"
  | .div => "DIV"
  | .mod => "MOD"
  | .neg => "NEG"
  | .inc => "INC"
  | .dec => "DEC"

def Bitwise.mnemonic : Bitwise → String
  | .and => "BIT_AND"
  | .or => "BIT_OR"
  | .xor => "BIT_XOR"
  | .shl => "BIT_SHL"
  | .shr => "BIT_SHR"
  | .not => "BIT_NOT"

namespace Opcode

/-- Spelling in listings. -/
def mnemonic : Opcode → String
  | .nop => "NOP"
  | .pushNull => "PUSH_NULL"
  | .movNull => "MOV_NULL"
  | .popDestroy => "POP_DESTROY"
  | .push f => "PUSH_" ++ f.mnemonic
  | .pop f => "POP_" ++ f.mnemonic
  | .mov f => "MOV_" ++ f.mnemonic
  | .cast f => "CAST_" ++ f.mnemonic
  | .arithmetic op n => op.mnemonic ++ "_" ++ n.mnemonic
  | .concat => "ADD_STRING"
  | .bitwise op => op.mnemonic
  | .logicalAnd => "LOGICAL_AND"
  | .logicalOr => "LOGICAL_OR"
  | .logicalNot => "LOGICAL_NOT"
  | .cmp f => "CMP_" ++ f.mnemonic
  | .cmpNull => "CMP_NULL"
  | .is .eq => "IS_EQ"
  | .is .ne => "IS_NE"
  | .is .lt => "IS_LT"
  | .is .gt => "IS_GT"
  | .is .le => "IS_LE"
  | .is .ge => "IS_GE"
  | .jump => "JMP"
  | .jumpIf .eq => "JMP_EQ"
  | .jumpIf .ne => "JMP_NE"
  | .jumpIf .lt => "JMP_L"
  | .jumpIf .gt => "JMP_G"
  | .jumpIf .le => "JMP_LE"
  | .jumpIf .ge => "JMP_GE"
  | .call => "CALL"
  | .ret => "RETURN"
  | .gotoState => "GOTO_STATE"
  | .allocate f => "ALLOCATE_HEAP_" ++ f.mnemonic
  | .getMember => "GET_MEMBER"
  | .getMemberIndexed => "GET_MEMBER_INDEXED"
  | .setMember => "SET_MEMBER"
  | .setMemberIndexed => "SET_MEMBER_INDEXED"
  | .callMethod => "CALL_METHOD"
  | .enterLock => "ENTER_LOCK"
  | .exitLock => "EXIT_LOCK"
  | .enterAtom => "ENTER_ATOM"
  | .exitAtom => "EXIT_ATOM"
  | .breakpoint => "BREAKPOINT"

/-- Every code, in the order of the numbers. -/
def all : List Opcode := List.flatten
  [[.nop, .pushNull, .movNull, .popDestroy],
   Family.all.map push, Family.all.map pop, Family.all.map mov, Family.all.map cast,
   Numeric.all.map (arithmetic .add), [.concat], Numeric.all.map (arithmetic .sub),
   Numeric.all.map (arithmetic .mul), Numeric.all.map (arithmetic .div),
   Numeric.all.map (arithmetic .mod), Numeric.all.map (arithmetic .neg),
   Numeric.all.map (arithmetic .inc), Numeric.all.map (arithmetic .dec),
   Bitwise.all.map bitwise, [.logicalAnd, .logicalOr, .logicalNot],
   Family.all.map cmp, [.cmpNull], Relation.all.map is,
   [.jump], Relation.all.map jumpIf, [.call, .ret, .gotoState],
   Family.all.map allocate,
   [.getMember, .getMemberIndexed, .setMember, .setMemberIndexed, .callMethod,
    .enterLock, .exitLock, .enterAtom, .exitAtom, .breakpoint]]

/-- Number of a code in an object file. -/
def number : Opcode → Nat
  | .nop => 0
  | .pushNull => 1
  | .movNull => 2
  | .popDestroy => 3
  | .push f => 4 + f.index
  | .pop f => 13 + f.index
  | .mov f => 22 + f.index
  | .cast f => 31 + f.index
  | .arithmetic .add n => 40 + n.ctorIdx
  | .concat => 46
  | .arithmetic op n => 41 + 6 * op.ctorIdx + n.ctorIdx
  | .bitwise op => 89 + op.ctorIdx
  | .logicalAnd => 95
  | .logicalOr => 96
  | .logicalNot => 97
  | .cmp f => 98 + f.index
  | .cmpNull => 107
  | .is r => 108 + r.ctorIdx
  | .jump => 114
  | .jumpIf r => 115 + r.ctorIdx
  | .call => 121
  | .ret => 122
  | .gotoState => 123
  | .allocate f => 124 + f.index
  | .getMember => 133
  | .getMemberIndexed => 134
  | .setMember => 135
  | .setMemberIndexed => 136
  | .callMethod => 137
  | .enterLock => 138
  | .exitLock => 139
  | .enterAtom => 140
  | .exitAtom => 141
  | .breakpoint => 142

def ofNumber? (n : Nat) : Option Opcode := all[n]?

@[simp] theorem ofNumber?_number (op : Opcode) : ofNumber? op.number = some op := by
  cases op with
  | push f | pop f | mov f | cast f | cmp f | allocate f =>
    cases f with
    | numeric n => cases n <;> decide +kernel
    | bool | string | object => decide +kernel
  | arithmetic a n => cases a <;> cases n <;> decide +kernel
  | bitwise b => cases b <;> decide +kernel
  | is r | jumpIf r => cases r <;> decide +kernel
  | _ => decide +kernel

theorem number_lt (op : Opcode) : op.number < all.length :=
  (List.getElem?_eq_some_iff.1 (ofNumber?_number op)).1

/-! ### Classes -/

/-- Codes whose first operand is an instruction to go to. -/
def isJump : Opcode → Bool
  | .jump | .jumpIf _ => true
  | _ => false

def isPush : Opcode → Bool
  | .pushNull | .push _ => true
  | _ => false

/-- Codes that pop into an operand; `popDestroy` has none. -/
def isPop : Opcode → Bool
  | .pop _ => true
  | _ => false

/-- For a typed push, the pop and the move of the same family. -/
def fusion? : Opcode → Option (Opcode × Opcode)
  | .push f => some (.pop f, .mov f)
  | _ => none

end Opcode

/-! ### Choosing a code by type -/

/-- What can be done with values of a type, apart from which code does it. -/
inductive Operation where
  | push
  | pop
  | mov
  | cast
  | arithmetic (op : Arithmetic)
  | cmp
  | allocate
deriving DecidableEq, Inhabited

namespace Operation

/-- Spelling in diagnostics. -/
def name : Operation → String
  | .push => "push"
  | .pop => "pop"
  | .mov => "mov"
  | .cast => "cast"
  | .arithmetic .add => "add"
  | .arithmetic .sub => "sub"
  | .arithmetic .mul => "mul"
  | .arithmetic .div => "div"
  | .arithmetic .mod => "mod"
  | .arithmetic .neg => "neg"
  | .arithmetic .inc => "inc"
  | .arithmetic .dec => "dec"
  | .cmp => "cmp"
  | .allocate => "allocateheap"

/-- The code of an operation on a family. Only numbers have arithmetic; strings
    can be added. -/
def on : Operation → Family → Option Opcode
  | .push, f => some (.push f)
  | .pop, f => some (.pop f)
  | .mov, f => some (.mov f)
  | .cast, f => some (.cast f)
  | .cmp, f => some (.cmp f)
  | .allocate, f => some (.allocate f)
  | .arithmetic op, .numeric n => some (.arithmetic op n)
  | .arithmetic .add, .string => some .concat
  | .arithmetic _, _ => none

end Operation

/-- The family of values of a primitive; `void`, `null` and `invalid` have none. -/
def Primitive.family? : Primitive → Option Family
  | .object => some .object
  | .string => some .string
  | .bool => some .bool
  | .byte => some (.numeric .byte)
  | .short => some (.numeric .short)
  | .int => some (.numeric .int)
  | .long => some (.numeric .long)
  | .float => some (.numeric .float)
  | .double => some (.numeric .double)
  | .void | .null | .invalid => none

/-- The code of an operation on a type, if there is one. Arrays are references and
    belong to `object`. A `null` is pushed and compared by codes of its own, and is
    popped and moved like an `object`. -/
def ValueType.opcode? (t : ValueType) (op : Operation) : Option Opcode :=
  if t.isArray then op.on .object
  else if t.primitive = .null then
    match op with
    | .push => some .pushNull
    | .cmp => some .cmpNull
    | .pop | .mov => op.on .object
    | _ => none
  else t.primitive.family?.bind op.on

end StateScript
