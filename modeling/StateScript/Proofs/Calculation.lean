import StateScript.Proofs.Machine
import StateScript.Proofs.Table
import StateScript.Walk.Operator

/-! # Calculations

  Trees of operators over `int` and `bool`, and a machine that calculates their values.

  The machine keeps registers, global memory and the slots of a frame, and the outcome of the
  last comparison. A `Calculator` says what its instructions compute. Of these only the
  negation of an `int` is fixed: it has to agree with the literals. All else may be any
  function of the operands, and `Calculator.words` is one such choice.

  A tree carries its type, so that no tree is ill-typed. Its value is defined by recursion on
  it and without any code; code `Computes` a tree if it pushes this value, leaves the stack
  below alone and changes no variable.
-/

namespace StateScript

/-! ### Types -/

/-- The types of the values of a calculation. -/
inductive Ground where
  | int
  | bool
deriving DecidableEq

namespace Ground

def type : Ground → ValueType
  | .int => .int
  | .bool => .bool

def family : Ground → Family
  | .int => .numeric .int
  | .bool => .bool

/-- The literals of a type. -/
abbrev Literal : Ground → Type
  | .int => Int32
  | .bool => Bool

/-- A literal as an operand. -/
def operand : (σ : Ground) → σ.Literal → Operand
  | .int => .int
  | .bool => .bool

end Ground

/-- The operand that stands for a variable. -/
def Storage.operand : Storage → Operand
  | .memory i => .memory i
  | .stack i => .stack i

/-! ### The machine -/

/-- What the instructions of a machine compute. -/
structure Calculator (V F : Type) where
  null : V
  literal : (σ : Ground) → σ.Literal → V
  /-- Instructions on one value. -/
  unary : Opcode → V → V
  /-- Instructions on two values. -/
  binary : Opcode → V → V → V
  /-- What a comparison finds. -/
  compare : Family → V → V → F
  /-- Whether a relation holds after a comparison. -/
  holds : Relation → F → V
  /-- Negation is that of words of 32 bits. -/
  negate_int : ∀ n : Int32, unary (.arithmetic .neg .int) (literal .int n) = literal .int (-n)

namespace Calculator

/-- A truth value as a word. -/
def ofBool (b : Bool) : Int32 :=
  if b then 1 else 0

/-- What a relation says of two words. -/
def related : Relation → Int32 → Int32 → Bool
  | .eq, x, y => x = y
  | .ne, x, y => x ≠ y
  | .lt, x, y => x < y
  | .gt, x, y => x > y
  | .le, x, y => x ≤ y
  | .ge, x, y => x ≥ y

/-- Calculation with words of 32 bits. A `bool` is the word zero or one, and a comparison
    keeps the two words that it has compared. -/
def words : Calculator Int32 (Int32 × Int32) where
  null := 0
  literal
    | .int, n => n
    | .bool, b => ofBool b
  unary
    | .arithmetic .neg _, x => -x
    | .bitwise .not, x => ~~~x
    | .logicalNot, x => ofBool (x == 0)
    | _, x => x
  binary
    | .arithmetic .add _, x, y => x + y
    | .arithmetic .sub _, x, y => x - y
    | .arithmetic .mul _, x, y => x * y
    | .arithmetic .div _, x, y => x / y
    | .arithmetic .mod _, x, y => x % y
    | .bitwise .and, x, y => x &&& y
    | .bitwise .or, x, y => x ||| y
    | .bitwise .xor, x, y => x ^^^ y
    | .bitwise .shl, x, y => x <<< y
    | .bitwise .shr, x, y => x >>> y
    | .logicalAnd, x, y => ofBool (x != 0 && y != 0)
    | .logicalOr, x, y => ofBool (x != 0 || y != 0)
    | _, x, _ => x
  compare _ x y := (x, y)
  holds r compared := ofBool (related r compared.1 compared.2)
  negate_int _ := rfl

end Calculator

/-- Where values are, apart from the stack. -/
structure Store (V F : Type) where
  registers : Register → V
  memory : Int → V
  frame : Int → V
  /-- Outcome of the last comparison. -/
  flag : F

namespace Store

variable {V F : Type}

def setRegister (s : Store V F) (r : Register) (v : V) : Store V F :=
  { s with registers := fun q => if q = r then v else s.registers q }

/-- The value of a variable. -/
def get (s : Store V F) : Storage → V
  | .memory i => s.memory i
  | .stack i => s.frame i

/-- Every variable has the same value in both. -/
structure Same (s s' : Store V F) : Prop where
  memory : s'.memory = s.memory
  frame : s'.frame = s.frame

variable {s s' s'' : Store V F}

theorem Same.refl (s : Store V F) : Same s s := ⟨rfl, rfl⟩

theorem Same.trans (h : Same s s') (h' : Same s' s'') : Same s s'' :=
  ⟨h'.memory.trans h.memory, h'.frame.trans h.frame⟩

theorem Same.setRegister (h : Same s s') (r : Register) (v : V) : Same s (s'.setRegister r v) :=
  ⟨h.memory, h.frame⟩

theorem Same.get (h : Same s s') (place : Storage) : s'.get place = s.get place := by
  cases place with
  | memory i => exact congrFun h.memory i
  | stack i => exact congrFun h.frame i

@[simp] theorem setRegister_self (r : Register) (v : V) : (s.setRegister r v).registers r = v := by
  simp [Store.setRegister]

theorem setRegister_of_ne {r q : Register} (v : V) (h : q ≠ r) :
    (s.setRegister r v).registers q = s.registers q := by
  simp [Store.setRegister, h]

end Store

namespace Calculator

variable {V F : Type} (c : Calculator V F)

/-- The value of an operand. -/
def read (s : Store V F) : Operand → V
  | .int n => c.literal .int n
  | .bool b => c.literal .bool b
  | .register r => s.registers r
  | .memory i => s.memory i
  | .stack i => s.frame i
  | _ => c.null

/-- Puts a value where an operand is. -/
def write (s : Store V F) : Operand → V → Store V F
  | .register r, v => s.setRegister r v
  | .memory i, v => { s with memory := fun j => if j = i then v else s.memory j }
  | .stack i, v => { s with frame := fun j => if j = i then v else s.frame j }
  | _, _ => s

/-- What an instruction that moves no value does to the store. -/
def calculate (s : Store V F) : Opcode → List Operand → Store V F
  | .cmp f, [x, y] => { s with flag := c.compare f (c.read s x) (c.read s y) }
  | .is r, [x] => write s x (c.holds r s.flag)
  | op, [x] => write s x (c.unary op (c.read s x))
  | op, [x, y] => write s x (c.binary op (c.read s x) (c.read s y))
  | _, _ => s

/-- The machine that calculates in this way. -/
def machine : Machine.Semantics V (Store V F) where
  null := c.null
  read := c.read
  write := write
  effect opcode operands stack s := ⟨stack, c.calculate s opcode operands, .next⟩

/-- Control that enters these instructions in any program leaves them at their end, with
    another stack and another store. Source positions do not matter. -/
def Passes (ops : List Op) (stack : List V) (s : Store V F) (stack' : List V) (s' : Store V F) :
    Prop :=
  ∀ before code after, code.map Instruction.op = ops →
    ∃ events, Machine.Runs c.machine (before ++ code ++ after) ⟨before.length, stack, s⟩ events
      ⟨before.length + ops.length, stack', s'⟩

variable {c} {op : Op} {ops ops' : List Op} {stack stack' stack'' : List V} {s s' s'' : Store V F}

theorem Passes.append (h : c.Passes ops stack s stack' s')
    (h' : c.Passes ops' stack' s' stack'' s'') :
    c.Passes (ops ++ ops') stack s stack'' s'' := by
  intro before code after hcode
  obtain ⟨first, last, rfl, hfirst, hlast⟩ := List.map_eq_append_iff.1 hcode
  have hlength : first.length = ops.length := by rw [← hfirst, List.length_map]
  obtain ⟨events, hrun⟩ := h before first (last ++ after) hfirst
  obtain ⟨events', hrun'⟩ := h' (before ++ first) last after hlast
  refine ⟨events ++ events', ?_⟩
  simp only [List.append_assoc, List.length_append, Nat.add_assoc, hlength] at hrun hrun' ⊢
  exact hrun.append hrun'

theorem Passes.cons (h : c.Passes [op] stack s stack' s')
    (h' : c.Passes ops stack' s' stack'' s'') :
    c.Passes (op :: ops) stack s stack'' s'' :=
  h.append h'

/-- An instruction that falls through wherever it stands. -/
theorem Passes.of_perform (h : ∀ program i pc, Instruction.op i = op →
    Machine.perform c.machine program i ⟨pc, stack, s⟩ = some ⟨pc + 1, stack', s'⟩) :
    c.Passes [op] stack s stack' s' := by
  intro before code after hcode
  obtain ⟨i, rfl, hi⟩ := List.map_eq_singleton_iff.1 hcode
  have hget : (before ++ [i] ++ after)[before.length]? = some i := by simp
  refine ⟨_, .head ?_ (.refl _)⟩
  rw [Machine.step, hget]
  exact h _ i _ hi

variable (stack : List V) (s : Store V F)

theorem passes_push (f : Family) (x : Operand) :
    c.Passes [(.push f, [x])] stack s (c.read s x :: stack) s := by
  apply Passes.of_perform
  intro program i pc hi
  cases i
  cases hi
  rfl

theorem passes_pop (f : Family) (r : Register) (x : V) :
    c.Passes [(.pop f, [.register r])] (x :: stack) s stack (s.setRegister r x) := by
  apply Passes.of_perform
  intro program i pc hi
  cases i
  cases hi
  rfl

theorem passes_cmp (f : Family) :
    c.Passes [(.cmp f, [Walk.op1, Walk.op2])] stack s stack
      { s with flag := c.compare f (s.registers .op1) (s.registers .op2) } := by
  apply Passes.of_perform
  intro program i pc hi
  cases i
  cases hi
  rfl

theorem passes_is (r : Relation) :
    c.Passes [(.is r, [Walk.op1])] stack s stack (s.setRegister .op1 (c.holds r s.flag)) := by
  apply Passes.of_perform
  intro program i pc hi
  cases i
  cases hi
  rfl

/-- Pushing what has just been put into the first register. -/
theorem passes_push_op1 (f : Family) (x : V) :
    c.Passes [(.push f, [Walk.op1])] stack (s.setRegister .op1 x) (x :: stack)
      (s.setRegister .op1 x) := by
  have h := passes_push (c := c) stack (s.setRegister .op1 x) f Walk.op1
  have hread : c.read (s.setRegister .op1 x) Walk.op1 = x := Store.setRegister_self _ _
  rwa [hread] at h

end Calculator

/-! ### Operators -/

/-- Operators in front of an operand. -/
inductive UnaryOperator : Ground → Type where
  | negate : UnaryOperator .int
  | complement : UnaryOperator .int
  | not : UnaryOperator .bool

namespace UnaryOperator

variable {σ : Ground}

def kind : UnaryOperator σ → Kind
  | .negate => .minus
  | .complement => .tilde
  | .not => .not

def opcode : UnaryOperator σ → Opcode
  | .negate => .arithmetic .neg .int
  | .complement => .bitwise .not
  | .not => .logicalNot

/-- The code that applies an operator to the value on top of the stack. -/
def code (op : UnaryOperator σ) : List Op :=
  [(.pop σ.family, [Walk.op1]), (op.opcode, [Walk.op1]), (.push σ.family, [Walk.op1])]

variable {V F : Type} {c : Calculator V F}

theorem passes_opcode (op : UnaryOperator σ) (stack : List V) (s : Store V F) :
    c.Passes [(op.opcode, [Walk.op1])] stack s stack
      (s.setRegister .op1 (c.unary op.opcode (s.registers .op1))) := by
  apply Calculator.Passes.of_perform
  intro program i pc hi
  cases i
  cases hi
  cases op <;> rfl

theorem passes_code (op : UnaryOperator σ) (stack : List V) (s : Store V F) (x : V) :
    ∃ s', c.Passes op.code (x :: stack) s (c.unary op.opcode x :: stack) s' ∧ s.Same s' := by
  have hact := op.passes_opcode (c := c) stack (s.setRegister .op1 x)
  rw [Store.setRegister_self] at hact
  have hpop := Calculator.passes_pop (c := c) stack s σ.family .op1 x
  have hpush := Calculator.passes_push_op1 (c := c) stack (s.setRegister .op1 x) σ.family
    (c.unary op.opcode x)
  exact ⟨_, hpop.cons (hact.cons hpush), ((Store.Same.refl s).setRegister _ _).setRegister _ _⟩

end UnaryOperator

/-- Operators between two operands whose result is of their type. -/
inductive Combination : Ground → Type where
  | add : Combination .int
  | sub : Combination .int
  | mul : Combination .int
  | div : Combination .int
  | mod : Combination .int
  | xor : Combination .int
  | or : Combination .int
  | and : Combination .int
  | shl : Combination .int
  | shr : Combination .int
  | both : Combination .bool
  | either : Combination .bool

namespace Combination

variable {σ : Ground}

def kind : Combination σ → Kind
  | .add => .plus
  | .sub => .minus
  | .mul => .star
  | .div => .slash
  | .mod => .percent
  | .xor => .caret
  | .or => .pipe
  | .and => .ampersand
  | .shl => .shiftLeft
  | .shr => .shiftRight
  | .both => .logicalAnd
  | .either => .logicalOr

def opcode : Combination σ → Opcode
  | .add => .arithmetic .add .int
  | .sub => .arithmetic .sub .int
  | .mul => .arithmetic .mul .int
  | .div => .arithmetic .div .int
  | .mod => .arithmetic .mod .int
  | .xor => .bitwise .xor
  | .or => .bitwise .or
  | .and => .bitwise .and
  | .shl => .bitwise .shl
  | .shr => .bitwise .shr
  | .both => .logicalAnd
  | .either => .logicalOr

theorem passes_opcode {V F : Type} {c : Calculator V F} (op : Combination σ) (stack : List V)
    (s : Store V F) :
    c.Passes [(op.opcode, [Walk.op1, Walk.op2])] stack s stack
      (s.setRegister .op1 (c.binary op.opcode (s.registers .op1) (s.registers .op2))) := by
  apply Calculator.Passes.of_perform
  intro program i pc hi
  cases i
  cases hi
  cases op <;> rfl

/-- How loosely an operator binds. -/
def level : Combination σ → Nat
  | .add | .sub => 1
  | .both | .either => 3
  | _ => 0

end Combination

/-- Operators between two operands, with the type of these and of the result. -/
inductive BinaryOperator : Ground → Ground → Type where
  | combine {σ : Ground} (op : Combination σ) : BinaryOperator σ σ
  | compare {σ : Ground} (r : Relation) : BinaryOperator σ .bool

/-- The operator that asks for a relation. -/
def Relation.kind : Relation → Kind
  | .eq => .equal
  | .ne => .notEqual
  | .lt => .less
  | .gt => .greater
  | .le => .lessEqual
  | .ge => .greaterEqual

namespace BinaryOperator

variable {σ τ : Ground}

def kind : BinaryOperator σ τ → Kind
  | .combine op => op.kind
  | .compare r => r.kind

def level : BinaryOperator σ τ → Nat
  | .combine op => op.level
  | .compare _ => 2

/-- The code that applies an operator to the two values on top of the stack, the right one
    above the left. -/
def code : BinaryOperator σ τ → List Op
  | .combine op =>
    [(.pop σ.family, [Walk.op2]), (.pop σ.family, [Walk.op1]), (op.opcode, [Walk.op1, Walk.op2]),
      (.push σ.family, [Walk.op1])]
  | .compare r =>
    [(.pop σ.family, [Walk.op2]), (.pop σ.family, [Walk.op1]),
      (.cmp σ.family, [Walk.op1, Walk.op2]),
      (.is r, [Walk.op1]), (.push .bool, [Walk.op1])]

/-- The result on two values. -/
def apply {V F : Type} (c : Calculator V F) : BinaryOperator σ τ → V → V → V
  | .combine op, x, y => c.binary op.opcode x y
  | .compare r, x, y => c.holds r (c.compare σ.family x y)

theorem passes_code {V F : Type} {c : Calculator V F} (op : BinaryOperator σ τ) (stack : List V)
    (s : Store V F) (x y : V) :
    ∃ s', c.Passes op.code (y :: x :: stack) s (op.apply c x y :: stack) s' ∧ s.Same s' := by
  -- The right operand is on top, so it is popped first.
  have hpop₂ := Calculator.passes_pop (c := c) (x :: stack) s σ.family .op2 y
  have hpop₁ := Calculator.passes_pop (c := c) stack (s.setRegister .op2 y) σ.family .op1 x
  have hop₂ : ((s.setRegister .op2 y).setRegister .op1 x).registers .op2 = y := by
    rw [Store.setRegister_of_ne x (by decide), Store.setRegister_self]
  have hsame : s.Same ((s.setRegister .op2 y).setRegister .op1 x) :=
    ((Store.Same.refl s).setRegister _ _).setRegister _ _
  cases op with
  | combine op =>
    have hact := op.passes_opcode (c := c) stack ((s.setRegister .op2 y).setRegister .op1 x)
    rw [Store.setRegister_self, hop₂] at hact
    have hpush := Calculator.passes_push_op1 (c := c) stack
      ((s.setRegister .op2 y).setRegister .op1 x) σ.family (c.binary op.opcode x y)
    exact ⟨_, hpop₂.cons (hpop₁.cons (hact.cons hpush)), hsame.setRegister _ _⟩
  | compare r =>
    have hcmp := Calculator.passes_cmp (c := c) stack
      ((s.setRegister .op2 y).setRegister .op1 x) σ.family
    rw [Store.setRegister_self, hop₂] at hcmp
    have his := Calculator.passes_is (c := c) stack
      { (s.setRegister .op2 y).setRegister .op1 x with flag := c.compare σ.family x y } r
    have hpush := Calculator.passes_push_op1 (c := c) stack
      { (s.setRegister .op2 y).setRegister .op1 x with flag := c.compare σ.family x y } .bool
      (c.holds r (c.compare σ.family x y))
    exact ⟨_, hpop₂.cons (hpop₁.cons (hcmp.cons (his.cons hpush))), hsame.memory, hsame.frame⟩

end BinaryOperator

/-! ### Trees -/

/-- Expressions over `int` and `bool` by their type. -/
inductive Tree : Ground → Type where
  /-- A number that is written down. -/
  | number (n : Nat) (h : n < Number.pow2 31) : Tree .int
  /-- A truth value that is written down. -/
  | truth (b : Bool) : Tree .bool
  /-- A variable. -/
  | cell {σ : Ground} (place : Storage) : Tree σ
  /-- A name that stands for a literal. -/
  | constant {σ : Ground} (x : σ.Literal) : Tree σ
  | unary {σ : Ground} (op : UnaryOperator σ) (operand : Tree σ) : Tree σ
  | binary {σ τ : Ground} (op : BinaryOperator σ τ) (left right : Tree σ) : Tree τ

namespace Tree

variable {V F : Type} {σ τ : Ground}

/-- The value of a tree. -/
def value (c : Calculator V F) (s : Store V F) : {σ : Ground} → Tree σ → V
  | _, .number n _ => c.literal .int (Int32.ofNat n)
  | _, .truth b => c.literal .bool b
  | _, .cell place => s.get place
  | σ, .constant x => c.literal σ x
  | _, .unary op e => c.unary op.opcode (e.value c s)
  | _, .binary op l r => op.apply c (l.value c s) (r.value c s)

theorem value_same (c : Calculator V F) {s s' : Store V F} (h : s.Same s') (e : Tree σ) :
    e.value c s' = e.value c s := by
  induction e with
  | number => rfl
  | truth => rfl
  | constant => rfl
  | cell place => exact h.get place
  | unary op e ih => simp only [value, ih]
  | binary op l r ihl ihr => simp only [value, ihl, ihr]

/-- On every machine the instructions push the value of the tree and change no variable. -/
def Computes (ops : List Op) (e : Tree σ) : Prop :=
  ∀ (V F : Type) (c : Calculator V F) (stack : List V) (s : Store V F),
    ∃ s', c.Passes ops stack s (e.value c s :: stack) s' ∧ s.Same s'

/-- An operand that has the value of the tree is pushed. -/
theorem computes_push (f : Family) {x : Operand} {e : Tree σ}
    (hx : ∀ (V F : Type) (c : Calculator V F) (s : Store V F), c.read s x = e.value c s) :
    Computes [(.push f, [x])] e := by
  intro V F c stack s
  refine ⟨s, ?_, .refl s⟩
  rw [← hx V F c s]
  exact Calculator.passes_push stack s f x

/-- An operator in front of an operand: its code stands behind that of the operand. -/
theorem Computes.unary {ops : List Op} {e : Tree σ} (h : Computes ops e) (op : UnaryOperator σ) :
    Computes (ops ++ op.code) (.unary op e) := by
  intro V F c stack s
  obtain ⟨s₁, hrun, hsame⟩ := h V F c stack s
  obtain ⟨s₂, hop, hsame'⟩ := op.passes_code (c := c) stack s₁ (e.value c s)
  exact ⟨s₂, hrun.append hop, hsame.trans hsame'⟩

/-- An operator between two operands: its code stands behind that of the left and that of the
    right operand. The value of the left one waits on the stack meanwhile. -/
theorem Computes.binary {left right : List Op} {l r : Tree σ} (hl : Computes left l)
    (hr : Computes right r) (op : BinaryOperator σ τ) :
    Computes (left ++ right ++ op.code) (.binary op l r) := by
  intro V F c stack s
  obtain ⟨s₁, hleft, hsame⟩ := hl V F c stack s
  obtain ⟨s₂, hright, hsame'⟩ := hr V F c (l.value c s :: stack) s₁
  rw [value_same c hsame] at hright
  obtain ⟨s₃, hop, hsame''⟩ := op.passes_code (c := c) stack s₂ (l.value c s) (r.value c s)
  exact ⟨s₃, (hleft.append hright).append hop, (hsame.trans hsame').trans hsame''⟩

end Tree

end StateScript
