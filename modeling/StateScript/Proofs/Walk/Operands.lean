import StateScript.Proofs.Calculation
import StateScript.Proofs.Literals
import StateScript.Proofs.Walk.Outline
import StateScript.Proofs.Walk.Written

/-! # Operators, literals and names in the second walk

  What each of these appends to the current function when its types are right: an operator
  pops its operands and pushes the result, a literal and a variable are pushed. `Appends` says
  how the state changes meanwhile. Tokens are taken, code is appended and variables may be
  marked as used; nothing is reported and nothing else changes.
-/

namespace StateScript.Walk

variable {rest : List Token} {x : Operand} {t : Token}

open Number

variable {α : Type} {s s' s₁ s₂ : State} {σ τ : Ground}

/-! ### The tokens ahead -/

/-- The tokens that have not been taken yet. -/
def State.upcoming (s : State) : List Token := s.tokens.toList.drop s.pos

theorem peekAt_upcoming (s : State) (n : Nat) :
    peekAt n s = .ok (s.upcoming[n]?.map Token.kind) s := by
  simp [peekAt, view, State.upcoming]

theorem peek_upcoming (s : State) : peek s = .ok (s.upcoming.head?.map Token.kind) s := by
  simp [peek, view, State.upcoming, List.head?_drop]

theorem check_upcoming (s : State) (kind : Kind) :
    check kind s = .ok (s.upcoming.head?.map Token.kind == some kind) s := by
  unfold check
  rw [bind_of_ok (peek_upcoming s)]
  rfl

theorem length_upcoming_le (s : State) : s.upcoming.length ≤ s.tokens.size := by
  simp [State.upcoming]

/-- The state after `n` more tokens have been taken. -/
def State.forward (s : State) (n : Nat) : State := { s with pos := s.pos + n }

theorem upcoming_forward (s : State) (n : Nat) : (s.forward n).upcoming = s.upcoming.drop n := by
  simp [State.upcoming, State.forward, List.drop_drop]

theorem forward_forward (s : State) (n m : Nat) : (s.forward n).forward m = s.forward (n + m) := by
  simp [State.forward, Nat.add_assoc]

theorem skip_bind (k : Unit → Walk α) (s : State) : (skip >>= k) s = k () (s.forward 1) := rfl

theorem advance_upcoming (h : s.upcoming = t :: rest) : advance s = .ok t (s.forward 1) := by
  have htoken : s.tokens[s.pos]? = some t := by
    have hhead : s.upcoming[0]? = some t := by rw [h]; rfl
    simpa [State.upcoming] using hhead
  unfold advance tokenAt
  rw [position_bind, view_bind, htoken]
  rfl

theorem expectMark_upcoming (h : s.upcoming = t :: rest) :
    expectMark t.kind s = .ok () (s.forward 1) := by
  have hpeek : peek s = .ok (some t.kind) s := by
    rw [peek_upcoming, h]
    rfl
  unfold expectMark expect
  rw [bind_assoc, bind_of_ok hpeek]
  dsimp only
  rw [if_pos rfl, bind_of_ok (advance_upcoming h)]
  rfl

/-! ### Turns -/

section Turns

variable {β : Type} {turn : α → Walk (Turn α β)} {a a' : α} {b : β} {m : Nat}

theorem loop_eq (a : α) (turn : α → Walk (Turn α β)) (s : State) :
    loop a turn s = iterate turn (s.tokens.size + 1) a s := rfl

theorem iterate_again (h : turn a s = .ok (.again a') s₁) :
    iterate turn (m + 1) a s = iterate turn m a' s₁ := by
  rw [iterate, bind_of_ok h]

theorem iterate_done (h : turn a s = .ok (.done b) s₁) : iterate turn (m + 1) a s = .ok b s₁ := by
  rw [iterate, bind_of_ok h]
  rfl

end Turns

/-! ### Appended code -/

/-- The walk emits into a function. -/
structure State.Emits (s : State) : Prop where
  pass : s.pass = .emit
  function : (s.table.function? s.function).isSome

/-- The walk has taken `n` tokens and has given the current function more instructions.
    Otherwise it has at most marked variables as used. -/
structure Appends (s s' : State) (n : Nat) (ops : List Op) : Prop where
  rest : s' =
    { s with pos := s.pos + n, table := s'.table, files := s'.files, history := s'.history }
  outline : s.table.SameOutline s'.table
  code : ∀ id, s'.table.code id = s.table.code id ++ if id = s.function then ops else []

namespace Appends

variable {n n' : Nat} {ops ops' : List Op}

theorem tokens (h : Appends s s' n ops) : s'.tokens = s.tokens := by rw [h.rest]

theorem pass (h : Appends s s' n ops) : s'.pass = s.pass := by rw [h.rest]

theorem function (h : Appends s s' n ops) : s'.function = s.function := by rw [h.rest]

theorem pos (h : Appends s s' n ops) : s'.pos = s.pos + n := by rw [h.rest]

theorem alike (h : Appends s s' n ops) : s.Alike s' where
  outline := h.outline
  scope := by rw [h.rest]
  blocks := by rw [h.rest]

theorem upcoming (h : Appends s s' n ops) : s'.upcoming = s.upcoming.drop n := by
  rw [State.upcoming, h.tokens, h.pos, State.upcoming, List.drop_drop]

theorem emits (h : Appends s s' n ops) (hs : s.Emits) : s'.Emits where
  pass := h.pass.trans hs.pass
  function := by
    have hsee := h.outline.see (fun x => x.kind.function?.isSome)
      (fun x => by obtain ⟨_, _, _, _, kind⟩ := x; cases kind <;> rfl) s.function
    have hfunction := hs.function
    rw [h.function]
    unfold Table.function? Table.kind? at hfunction ⊢
    cases hx : s.table.get? s.function with
    | none =>
      rw [hx] at hfunction
      cases hfunction
    | some x =>
      obtain ⟨x', hx', -⟩ := h.outline.get? hx
      rw [hx, hx'] at hsee
      rw [hx] at hfunction
      rw [hx']
      exact (Option.some.inj hsee).trans hfunction

theorem refl (s : State) : Appends s s 0 [] where
  rest := rfl
  outline := .refl _
  code id := by simp

theorem forward (s : State) (n : Nat) : Appends s (s.forward n) n [] where
  rest := rfl
  outline := .refl _
  code id := by simp [State.forward]

theorem trans (h : Appends s s₁ n ops) (h' : Appends s₁ s₂ n' ops') :
    Appends s s₂ (n + n') (ops ++ ops') where
  rest := by
    rw [h'.rest, h.rest, Nat.add_assoc]
  outline := h.outline.trans h'.outline
  code id := by
    rw [h'.code, h.code, h.function]
    split
    · rw [List.append_assoc]
    · simp

end Appends

theorem appends_emit (hs : s.Emits) (opcode : Opcode) (operands : List Operand) :
    ∃ s', emit opcode operands s = .ok () s' ∧ Appends s s' 0 [(opcode, operands)] := by
  obtain ⟨f, hf⟩ := Option.isSome_iff_exists.1 hs.function
  have hlt : s.function < s.table.size := by
    obtain ⟨k, hk, -⟩ := Option.bind_eq_some_iff.1 hf
    obtain ⟨x, hx, -⟩ := Table.kind?_eq_some.1 hk
    exact Table.get?_lt hx
  refine ⟨s.emit opcode operands none, ?_, ?_⟩
  · unfold emit
    rw [emitting_bind_emit hs.pass, if_pos rfl]
    rw [bind_of_ok (ensure_of (by simpa [State.knows] using hlt))]
    rfl
  · obtain ⟨i, files, -, heq⟩ := s.emit_eq opcode operands none
    refine ⟨?_, ?_, ?_⟩
    · rw [heq]
      rfl
    · rw [heq]
      exact Table.sameOutline_modifyKind fun k => by cases k <;> rfl
    -- Only the code of the current function is longer.
    · intro id
      by_cases hid : id = s.function
      · obtain ⟨i, hi, hcode⟩ := code_emit opcode operands none hf
        rw [if_pos hid, hid, hcode, code_of_function? hf]
        show (f.code.push i).toList.map Instruction.op = _
        rw [Array.toList_push, List.map_append, List.map_singleton, hi]
      · rw [if_neg hid, code_emit_of_ne opcode operands hid, List.append_nil]

theorem opcodeFor_ground (s : State) (σ : Ground) (op : Operation) {opcode : Opcode}
    (h : op.on σ.family = some opcode) : opcodeFor σ.type op s = .ok opcode s := by
  have hopcode : σ.type.opcode? op = some opcode := by cases σ <;> exact h
  unfold opcodeFor
  rw [hopcode]
  rfl

theorem appends_emitFor (hs : s.Emits) (σ : Ground) (op : Operation) {opcode : Opcode}
    (h : op.on σ.family = some opcode) (operands : List Operand) :
    ∃ s', emitFor σ.type op operands s = .ok () s' ∧ Appends s s' 0 [(opcode, operands)] := by
  unfold emitFor
  rw [bind_of_ok (opcodeFor_ground s σ op h)]
  exact appends_emit hs opcode operands

/-! ### Operators -/

theorem appends_popOperands (hs : s.Emits) (σ : Ground) :
    ∃ s', popOperands σ.type σ.type σ.type s = .ok () s' ∧
      Appends s s' 0 [(.pop σ.family, [op2]), (.pop σ.family, [op1])] := by
  obtain ⟨s₁, hright, h₁⟩ := appends_emit hs (.pop σ.family) [op2]
  obtain ⟨s₂, hleft, h₂⟩ := appends_emit (h₁.emits hs) (.pop σ.family) [op1]
  have hcast : needsCast σ.type σ.type = false := by cases σ <;> rfl
  refine ⟨s₂, ?_, h₁.trans h₂⟩
  unfold popOperands
  rw [bind_of_ok (opcodeFor_ground s σ .pop rfl), bind_of_ok (opcodeFor_ground s σ .pop rfl),
    bind_of_ok hright, bind_of_ok hleft, hcast]
  rfl

theorem checkOperands_ground (s : State) (σ : Ground) {op : Kind} (index : Nat)
    (h : op.appliesTo σ.type = true) :
    checkOperands op σ.type σ.type σ.type index s = .ok () s := by
  have hconverts : σ.type.convertsTo σ.type = true := by cases σ <;> rfl
  unfold checkOperands
  rw [hconverts, h]
  rfl

theorem appends_binary (hs : s.Emits) (op : BinaryOperator σ τ) (index : Nat) :
    ∃ s', binary op.kind σ.type σ.type index s = .ok τ.type s' ∧ Appends s s' 0 op.code := by
  have happlies : op.kind.appliesTo σ.type = true := by
    cases op with
    -- The two operands are popped, combined in a register and pushed.
    | combine op => cases op <;> rfl
    -- A comparison sets a flag, which is made a value of its own.
    | compare r => cases σ <;> cases r <;> rfl
  have hcheck := checkOperands_ground s σ index happlies
  obtain ⟨s₁, hpop, h₁⟩ := appends_popOperands hs σ
  have htype : (if σ.type.isNull then σ.type else σ.type) = σ.type := ite_self _
  unfold binary
  dsimp only
  rw [emitting_bind_emit hs.pass, if_pos rfl, htype]
  cases op with
  | combine op =>
    have hkind : op.kind.isRelational = false := by cases op <;> rfl
    have hopcode : binaryOpcode op.kind σ.type s₁ = .ok op.opcode s₁ := by cases op <;> rfl
    obtain ⟨s₂, hact, h₂⟩ := appends_emit (h₁.emits hs) op.opcode [op1, op2]
    obtain ⟨s₃, hpush, h₃⟩ := appends_emitFor (h₂.emits (h₁.emits hs)) σ .push rfl [op1]
    refine ⟨s₃, ?_, h₁.trans (h₂.trans h₃)⟩
    have hname : (BinaryOperator.combine op).kind = op.kind := rfl
    rw [bind_of_ok hcheck, bind_of_ok hpop, hname, hkind, if_neg (by decide), bind_of_ok hopcode,
      bind_of_ok hact, bind_of_ok hpush]
    rfl
  | compare r =>
    have hkind : r.kind.isRelational = true := by cases r <;> rfl
    have hrelation : relationOf r.kind = r := by cases r <;> rfl
    obtain ⟨s₂, hcmp, h₂⟩ := appends_emitFor (h₁.emits hs) σ .cmp rfl [op1, op2]
    obtain ⟨s₃, his, h₃⟩ := appends_emit (h₂.emits (h₁.emits hs)) (.is r) [op1]
    obtain ⟨s₄, hpush, h₄⟩ := appends_emit (h₃.emits (h₂.emits (h₁.emits hs))) (.push .bool) [op1]
    refine ⟨s₄, ?_, h₁.trans (h₂.trans (h₃.trans h₄))⟩
    have hname : (BinaryOperator.compare r : BinaryOperator σ .bool).kind = r.kind := rfl
    rw [bind_of_ok hcheck, bind_of_ok hpop, hname, hkind, hrelation, if_pos rfl, bind_of_ok hcmp,
      bind_of_ok his, bind_of_ok hpush]
    rfl

theorem appends_unaryOperator (hs : s.Emits) (op : UnaryOperator σ) (index : Nat) :
    ∃ s', unaryOperator op.kind σ.type index s = .ok σ.type s' ∧ Appends s s' 0 op.code := by
  obtain ⟨s₁, hpop, h₁⟩ := appends_emit hs (.pop σ.family) [op1]
  obtain ⟨s₂, hact, h₂⟩ := appends_emit (h₁.emits hs) op.opcode [op1]
  obtain ⟨s₃, hpush, h₃⟩ := appends_emit (h₂.emits (h₁.emits hs)) (.push σ.family) [op1]
  -- Both operators apply to their type and have an opcode of their own.
  have happlies : prefixApplies op.kind σ.type = true := by cases op <;> rfl
  have hplus : (op.kind != .plus) = true := by cases op <;> rfl
  have htype : (if op.kind = .not then .bool else σ.type) = σ.type := by cases op <;> rfl
  have hopcode : prefixOpcode op.kind σ.type s = .ok op.opcode s := by cases op <;> rfl
  refine ⟨s₃, ?_, h₁.trans (h₂.trans h₃)⟩
  unfold unaryOperator
  dsimp only
  rw [emitting_bind_emit hs.pass, if_pos rfl, htype, happlies, hplus]
  simp only [Bool.not_true, Bool.false_eq_true, if_false, if_true]
  rw [bind_of_ok hopcode, bind_of_ok (opcodeFor_ground s σ .pop rfl),
    bind_of_ok (opcodeFor_ground s σ .push rfl), bind_of_ok hpop, bind_of_ok hact, bind_of_ok hpush]
  rfl

/-! ### Literals -/

theorem literalOperand_ground (s : State) (σ : Ground)
    (h : (literalValue? t).bind (numeralOperand? · σ.type) = some x) :
    literalOperand t σ.type s = .ok x s := by
  have hstring : (!σ.type.isArray && σ.type.primitive == .string) = false := by cases σ <;> rfl
  unfold literalOperand
  rw [hstring, if_neg (by decide), h]
  rfl

/-- A literal by itself. -/
theorem appends_literal (hs : s.Emits) (hupcoming : s.upcoming = t :: rest)
    (hminus : t.kind ≠ .minus) (htype : t.kind.literalType = σ.type)
    (hx : (literalValue? t).bind (numeralOperand? · σ.type) = some x) :
    ∃ s', literalExpression s = .ok σ.type s' ∧ Appends s s' 1 [(.push σ.family, [x])] := by
  obtain ⟨s₁, hpush, h₁⟩ := appends_emitFor ((Appends.forward s 1).emits hs) σ .push rfl [x]
  -- A literal without sign starts no negative one.
  have heat : eat .minus s = .ok false s := by
    unfold eat
    rw [bind_of_ok (check_upcoming s .minus), hupcoming]
    simp [hminus]
    rfl
  refine ⟨s₁, ?_, (Appends.forward s 1).trans h₁⟩
  unfold literalExpression
  rw [bind_of_ok heat, bind_of_ok (advance_upcoming hupcoming)]
  simp only [Bool.false_eq_true, if_false, htype]
  rw [bind_of_ok (literalOperand_ground _ σ hx), bind_of_ok hpush]
  rfl

/-- A literal that a minus sign is folded into. -/
theorem appends_negated (hs : s.Emits) {minus : Token} (hupcoming : s.upcoming = minus :: t :: rest)
    (hminus : minus.kind = .minus) (htype : t.kind.literalType = σ.type)
    (hx : (literalValue? (negated t)).bind (numeralOperand? · σ.type) = some x) :
    ∃ s', literalExpression s = .ok σ.type s' ∧ Appends s s' 2 [(.push σ.family, [x])] := by
  have h₁ := Appends.forward s 1
  have h₂ := Appends.forward (s.forward 1) 1
  -- The sign and the literal are both read.
  have hsecond : (s.forward 1).upcoming = t :: rest := by
    rw [h₁.upcoming, hupcoming]
    rfl
  obtain ⟨s₃, hpush, h₃⟩ := appends_emitFor (h₂.emits (h₁.emits hs)) σ .push rfl [x]
  have heat : eat .minus s = .ok true (s.forward 1) := by
    unfold eat
    rw [bind_of_ok (check_upcoming s .minus), hupcoming]
    simp [hminus]
    rfl
  refine ⟨s₃, ?_, h₁.trans (h₂.trans h₃)⟩
  unfold literalExpression
  rw [bind_of_ok heat, bind_of_ok (advance_upcoming hsecond)]
  have hnegated : (negated t).kind.literalType = σ.type := htype
  simp only [if_true, hnegated]
  rw [bind_of_ok (literalOperand_ground _ σ hx), bind_of_ok hpush]
  rfl

/-! ### Names -/

/-- What may stand behind a name or another operand and belong to it. -/
def suffixes : List Kind := [.arrow, .period, .openParen, .openBracket, .increment, .decrement]

/-- Nothing follows that belongs to the operand before. -/
def Detached (rest : List Token) : Prop := ∀ t ∈ rest.head?, t.kind ∉ suffixes

theorem check_suffix (hrest : Detached rest) (hupcoming : s.upcoming = rest) {kind : Kind}
    (hkind : kind ∈ suffixes) : check kind s = .ok false s := by
  rw [check_upcoming, hupcoming]
  cases rest with
  | nil => rfl
  | cons t rest =>
    have hne : t.kind ≠ kind := fun heq => hrest t rfl (heq ▸ hkind)
    simp [hne]

theorem stepAhead_detached (hrest : Detached rest) (hupcoming : s.upcoming = rest) :
    stepAhead s = .ok none s := by
  unfold stepAhead
  rw [bind_of_ok (peek_upcoming s), hupcoming]
  cases rest with
  | nil => rfl
  | cons t rest =>
    have hkind := hrest t rfl
    rw [List.head?_cons, Option.map_some]
    generalize t.kind = kind at hkind
    cases kind with
    | increment => exact absurd (by decide) hkind
    | decrement => exact absurd (by decide) hkind
    | _ => rfl

/-- Names behind the first one of a path, each after a dot. -/
inductive Trail : List Token → List Token → Prop where
  | nil : Trail [] []
  | cons {dot t : Token} {names written : List Token} (hdot : dot.kind = .period)
      (ht : t.kind = .identifier) (h : Trail names written) : Trail (t :: names)
        (dot :: t :: written)

theorem Trail.length_le {names written : List Token} (h : Trail names written) :
    names.length ≤ written.length := by
  induction h with
  | nil => exact Nat.le_refl _
  | cons hdot ht h ih =>
    simp only [List.length_cons]
    omega

/-- One more name of a path, if a dot is ahead. -/
def pathTurn (path : List Token) : Walk (Turn (List Token) (List Token)) := do
  if (← check .period) && (← peekAt 1) == some .identifier then
    skip
    return .again ((← advance) :: path)
  else return .done path.reverse

/-- The names are collected backwards, one in each turn. -/
theorem iterate_trail {names written : List Token} (h : Trail names written) (hrest : Detached rest)
    {m : Nat} (hm : names.length < m) (path : List Token)
    (hupcoming : s.upcoming = written ++ rest) :
    iterate pathTurn m path s =
      .ok (path.reverse ++ names) (s.forward written.length) := by
  induction h generalizing s m path with
  | nil =>
    obtain ⟨m, rfl⟩ : ∃ k, m = k + 1 := Nat.exists_eq_add_one.2 hm
    have hturn : pathTurn path s = .ok (.done path.reverse) s := by
      unfold pathTurn
      rw [bind_of_ok (check_suffix hrest hupcoming (by decide)), bind_of_ok (peekAt_upcoming s 1)]
      rfl
    rw [iterate_done hturn, List.append_nil]
    rfl
  | @cons dot t names written hdot ht h ih =>
    obtain ⟨m, rfl⟩ : ∃ k, m = k + 1 := Nat.exists_eq_add_one.2 (Nat.zero_lt_of_lt hm)
    have hnext : (s.forward 1).upcoming = t :: written ++ rest := by
      rw [upcoming_forward, hupcoming]
      rfl
    -- A turn takes a period and a name.
    have hturn : pathTurn path s = .ok (.again (t :: path)) (s.forward 2) := by
      unfold pathTurn
      rw [bind_of_ok (check_upcoming s .period), bind_of_ok (peekAt_upcoming s 1), hupcoming]
      simp only [List.cons_append, List.head?_cons, Option.map_some, List.getElem?_cons_succ,
        List.getElem?_cons_zero, hdot, ht, BEq.rfl, Bool.and_self, if_true]
      rw [skip_bind, bind_of_ok (advance_upcoming hnext)]
      rfl
    have hlast : (s.forward 2).upcoming = written ++ rest := by
      rw [upcoming_forward, hupcoming]
      rfl
    rw [iterate_again hturn, ih (by simpa using hm) (t :: path) hlast]
    rw [forward_forward, List.reverse_cons, List.append_assoc, Nat.add_comm 2]
    rfl

theorem qualifiedPath_upcoming {first : Token} {names written : List Token}
    (hfirst : first.kind = .identifier) (h : Trail names written) (hrest : Detached rest)
    (hupcoming : s.upcoming = first :: written ++ rest) :
    qualifiedPath s = .ok (first :: names) (s.forward (written.length + 1)) := by
  have hexpect : expectIdentifier s = .ok first (s.forward 1) := by
    unfold expectIdentifier expect
    rw [bind_of_ok (peek_upcoming s), hupcoming]
    simp only [List.cons_append, List.head?_cons, Option.map_some, hfirst, if_true]
    exact advance_upcoming hupcoming
  have hnext : (s.forward 1).upcoming = written ++ rest := by
    rw [upcoming_forward, hupcoming]
    rfl
  -- Every name takes a token, so the loop has turns enough.
  have hnames : names.length < s.tokens.size + 1 := by
    have hle := length_upcoming_le s
    have htrail := h.length_le
    rw [hupcoming] at hle
    simp only [List.length_append, List.length_cons] at hle
    omega
  show (expectIdentifier >>= fun first => loop [first] pathTurn) s = _
  rw [bind_of_ok hexpect]
  show iterate pathTurn (s.tokens.size + 1) [first] (s.forward 1) = _
  rw [iterate_trail h hrest hnames [first] hnext, forward_forward, Nat.add_comm 1]
  rfl

/-- The operand that a variable is read by: its place, or the literal that stands for it. -/
def reading? (v : Variable) : Option Operand :=
  match v.literal with
  | none => some v.storage.operand
  | some t => (literalValue? t).bind (numeralOperand? · v.type)

/-- In this state a path names a variable of a type, which is read by an operand. -/
def State.Finds (s : State) (path : List Token) (σ : Ground) (x : Operand) : Prop :=
  ∃ id v, resolvePath path isVariable s = .ok (some id) s ∧ s.table.var? id = some v ∧
    v.type = σ.type ∧ reading? v = some x

theorem appends_markUsed {id : Nat} {v : Variable} (hv : s.table.var? id = some v) :
    ∃ s', markUsed id s = .ok () s' ∧ Appends s s' 0 [] := by
  obtain ⟨k, hk, hkind⟩ := Option.bind_eq_some_iff.1 hv
  obtain ⟨x, hx, rfl⟩ := Table.kind?_eq_some.1 hk
  refine ⟨_, modifyKind_of_lt SymbolKind.markUsed (Table.get?_lt hx), rfl, ?_, ?_⟩
  · intro j
    dsimp only
    rw [Table.get?_modifyKind]
    split
    · next hj =>
      subst hj
      rw [hx]
      -- The mark is no part of the outline.
      cases hxk : x.kind with
      | var w => simp [Symbol.outline, hxk, SymbolKind.markUsed, SymbolKind.outline]
      | _ =>
        rw [hxk] at hkind
        cases hkind
    · rfl
  · intro j
    dsimp only
    rw [Table.code_modifyKind (by intro k; cases k <;> rfl)]
    simp

theorem State.Finds.appends {path : List Token} (h : s.Finds path σ x) {n : Nat} {ops : List Op}
    (hs : Appends s s' n ops) : s'.Finds path σ x := by
  obtain ⟨id, v, hpath, hv, htype, hx⟩ := h
  obtain ⟨used, hv'⟩ := hs.outline.var? hv
  exact ⟨id, _, ((looks_resolvePath path isVariable_outline).run hs.alike hpath).2, hv', htype, hx⟩

theorem slot_of_symbol {id : Nat} {x : Symbol} {v : Variable} (hx : symbol id s = .ok x s)
    (hv : x.kind.var? = some v) : slot id s = .ok v.storage.operand s := by
  have hstorage : storage? id s = .ok (some v.storage) s := by
    unfold storage?
    rw [bind_of_ok hx, hv]
    rfl
  unfold slot
  rw [bind_of_ok hstorage]
  cases v.storage <;> rfl

/-- A variable is pushed, be it from its place or as the literal that stands for it. -/
theorem appends_name (hs : s.Emits) {first : Token} {names written : List Token}
    (hfirst : first.kind = .identifier) (h : Trail names written) (hrest : Detached rest)
    (hupcoming : s.upcoming = first :: written ++ rest) (hfinds : s.Finds (first :: names) σ x)
    (expression : Walk ValueType) :
    ∃ s', nameExpression expression s = .ok σ.type s' ∧
      Appends s s' (written.length + 1) [(.push σ.family, [x])] := by
  have h₁ := Appends.forward s (written.length + 1)
  have hpath := qualifiedPath_upcoming hfirst h hrest hupcoming
  generalize s.forward (written.length + 1) = s₁ at hpath h₁
  have hnext : s₁.upcoming = rest := by
    rw [h₁.upcoming, hupcoming]
    simp
  obtain ⟨id, v, hresolve, hv, htype, hreading⟩ := hfinds.appends h₁
  obtain ⟨s₂, hmark, h₂⟩ := appends_markUsed hv
  have hnext₂ : s₂.upcoming = rest := by rw [h₂.upcoming, hnext, List.drop_zero]
  -- The variable is marked as used, which neither its type nor its literal shows.
  obtain ⟨used, hv₂⟩ := h₂.outline.var? hv
  obtain ⟨y, hsymbol, hy⟩ : ∃ y, symbol id s₂ = .ok y s₂ ∧ y.kind.var? = some { v with used } := by
    obtain ⟨k, hk, hkind⟩ := Option.bind_eq_some_iff.1 hv₂
    obtain ⟨y, hget, rfl⟩ := Table.kind?_eq_some.1 hk
    refine ⟨y, ?_, hkind⟩
    unfold symbol
    rw [hget]
  -- A constant is pushed as its literal, and a variable as its slot.
  have hoperand : readingOperand id v.literal σ.type s₂ = .ok x s₂ := by
    unfold reading? at hreading
    unfold readingOperand
    cases hliteral : v.literal with
    | none =>
      rw [hliteral] at hreading
      cases hreading
      have hslot := slot_of_symbol hsymbol hy
      exact hslot
    | some t =>
      rw [hliteral, htype] at hreading
      exact literalOperand_ground s₂ σ hreading
  obtain ⟨s₃, hpush, h₃⟩ := appends_emit (h₂.emits (h₁.emits hs)) (.push σ.family) [x]
  have heat : eat .openBracket s₂ = .ok false s₂ := by
    unfold eat
    rw [bind_of_ok (check_suffix hrest hnext₂ (by decide))]
    rfl
  refine ⟨s₃, ?_, h₁.trans (h₂.trans h₃)⟩
  unfold nameExpression
  rw [position_bind, bind_of_ok hpath, bind_of_ok (check_suffix hrest hnext (by decide)),
    if_neg (by decide), bind_of_ok hresolve]
  show knownVariable expression (first :: names) s.pos id s₁ = _
  unfold knownVariable
  rw [bind_of_ok hmark, bind_of_ok hsymbol, hy]
  dsimp only [Option.map_some, Option.getD_some, Option.bind_some]
  rw [htype, bind_of_ok heat, if_neg (by decide), bind_of_ok (stepAhead_detached hrest hnext₂)]
  dsimp only
  rw [bind_of_ok (opcodeFor_ground s₂ σ .push rfl), bind_of_ok hoperand, bind_of_ok hpush]
  rfl

end StateScript.Walk
