import StateScript.Proofs.Walk.Operands

/-! # Evaluation of expressions

  An expression over `int` and `bool` is parsed and compiled in one go. `Writes` is its grammar:
  it says by which tokens a tree is written, with the parentheses that the levels of the
  operators ask for and with any further ones. The walk reads a tree back from these tokens and
  appends code that computes it (`expression_computes`).

  The proof follows how the tree is written. A level that groups to the left is a loop, whose
  first turns read the left operand of the last operator. So what is proved of a tree at a level
  is that the level has got as far as having read it, with enough turns left (`Reached`); where
  no operator of this level follows, the level is done with it (`Reached.close`).
-/

namespace StateScript.Walk

variable {t : Token}

open Number

variable {s s' s₁ s₂ : State} {σ τ : Ground}

/-! ### Levels -/

/-- The operators of a level, from tight to loose. -/
def operators : Nat → List Kind
  | 0 => [.star, .slash, .percent, .caret, .shiftLeft, .shiftRight, .pipe, .ampersand]
  | 1 => [.plus, .minus]
  | 2 => [.equal, .notEqual, .less, .greater, .lessEqual, .greaterEqual]
  | 3 => [.logicalAnd, .logicalOr]
  | _ => []

/-- An operator stands in its level alone. -/
theorem mem_operators (op : BinaryOperator σ τ) (i : Nat) :
    op.kind ∈ operators i ↔ i = op.level := by
  have hcases : ∀ kind level, (∀ j, j < 4 → (kind ∈ operators j ↔ j = level)) → level < 4 →
      (kind ∈ operators i ↔ i = level) := by
    intro kind level h hlevel
    by_cases hi : i < 4
    · exact h i hi
    -- There are four levels of operators.
    · obtain ⟨j, rfl⟩ := Nat.exists_eq_add_of_le (Nat.le_of_not_lt hi)
      have hnone : operators (4 + j) = [] := by rw [Nat.add_comm]; rfl
      rw [hnone]
      constructor
      · exact fun hmem => absurd hmem List.not_mem_nil
      · omega
  cases op with
  | combine op => cases op <;> exact hcases _ _ (by decide) (by decide)
  | compare r =>
    show r.kind ∈ operators i ↔ i = 2
    cases r <;> exact hcases _ 2 (by decide) (by decide)

theorem kind_not_suffix (op : BinaryOperator σ τ) : op.kind ∉ suffixes := by
  cases op with
  | combine op => cases op <;> decide
  | compare r =>
    show r.kind ∉ suffixes
    cases r <;> decide

/-- A token of this kind may go on with an expression. -/
def Prolongs (kind : Kind) : Prop := kind ∈ suffixes ∨ ∃ i < 4, kind ∈ operators i

instance (kind : Kind) : Decidable (Prolongs kind) := inferInstanceAs (Decidable (_ ∨ _))

/-- A tree as it is written where operators up to a level may stand bare. All operators group
    to the left, those of a looser level are in parentheses, and further parentheses may
    stand anywhere. Names mean what they mean in the state. -/
inductive Writes (s : State) : Nat → {σ : Ground} → Tree σ → List Token → Prop where
  | number {k n : Nat} {hn : n < pow2 31} {t : Token} (ht : t.Spells n) :
      Writes s k (.number n hn) [t]
  | truth {k : Nat} {b : Bool} {t : Token} (ht : t.SpellsTruth b) : Writes s k (.truth b) [t]
  | cell {k : Nat} {σ : Ground} {place : Storage} {first : Token} {names written : List Token}
      (hfirst : first.kind = .identifier) (htrail : Trail names written)
      (hfinds : s.Finds (first :: names) σ place.operand) :
      Writes s k (.cell place : Tree σ) (first :: written)
  | constant {k : Nat} {σ : Ground} {x : σ.Literal} {first : Token} {names written : List Token}
      (hfirst : first.kind = .identifier) (htrail : Trail names written)
      (hfinds : s.Finds (first :: names) σ (σ.operand x)) :
      Writes s k (.constant x) (first :: written)
  | unary {k : Nat} {σ : Ground} {op : UnaryOperator σ} {e : Tree σ} {t : Token}
      {written : List Token} (ht : t.kind = op.kind) (h : Writes s 0 e written) :
      Writes s k (.unary op e) (t :: written)
  | binary {k : Nat} {σ τ : Ground} {op : BinaryOperator σ τ} {l r : Tree σ} {t : Token}
      {left right : List Token} (hk : op.level < k) (ht : t.kind = op.kind)
      (hl : Writes s (op.level + 1) l left) (hr : Writes s op.level r right) :
      Writes s k (.binary op l r) (left ++ t :: right)
  | enclosed {k : Nat} {σ : Ground} {e : Tree σ} {opening closing : Token} {written : List Token}
      (hopening : opening.kind = .openParen) (hclosing : closing.kind = .closeParen)
      (h : Writes s 4 e written) : Writes s k e (opening :: written ++ [closing])

/-- Kinds that a tree may start with. -/
def Kind.starters : List Kind :=
  [.integerLiteral, .booleanLiteral, .identifier, .minus, .tilde, .not, .openParen]

theorem Writes.head {k : Nat} {e : Tree σ} {written : List Token} (h : Writes s k e written) :
    ∃ t rest, written = t :: rest ∧ t.kind ∈ Kind.starters := by
  induction h with
  | number ht => exact ⟨_, _, rfl, by simp [ht.1, Kind.starters]⟩
  | truth ht => exact ⟨_, _, rfl, by simp [ht.1, Kind.starters]⟩
  | cell hfirst => exact ⟨_, _, rfl, by simp [hfirst, Kind.starters]⟩
  | constant hfirst => exact ⟨_, _, rfl, by simp [hfirst, Kind.starters]⟩
  | @unary k σ op e t written ht h ih =>
    refine ⟨_, _, rfl, ?_⟩
    rw [ht]
    cases op <;> decide
  | binary hk ht hl hr ihl ihr =>
    obtain ⟨t, rest, rfl, hkind⟩ := ihl
    exact ⟨t, _, rfl, hkind⟩
  | enclosed hopening => exact ⟨_, _, rfl, by simp [hopening, Kind.starters]⟩

/-- Only a number itself starts with a number where no binary operator may stand bare. -/
theorem Writes.number_or {e : Tree .int} {written : List Token} (h : Writes s 0 e written) :
    (∃ n hn t, e = .number n hn ∧ written = [t] ∧ t.Spells n) ∨
      ∃ t rest, written = t :: rest ∧ t.kind.isNumericLiteral = false := by
  cases h with
  | number ht => exact .inl ⟨_, _, _, rfl, rfl, ht⟩
  | cell hfirst => exact .inr ⟨_, _, rfl, by rw [hfirst]; rfl⟩
  | constant hfirst => exact .inr ⟨_, _, rfl, by rw [hfirst]; rfl⟩
  | @unary _ _ op _ _ _ ht =>
    refine .inr ⟨_, _, rfl, ?_⟩
    rw [ht]
    cases op <;> rfl
  | binary hk => exact absurd hk (Nat.not_lt_zero _)
  | enclosed hopening => exact .inr ⟨_, _, rfl, by rw [hopening]; rfl⟩

/-! ### Rungs -/

/-- Expressions up to a level, nested at most `n` deep. -/
def rung (n : Nat) : Nat → Walk ValueType
  | 0 => memberLevel (unaryUpTo n) (expressionUpTo n)
  | k + 1 => binaryLevel (operators k) (rung n k)

theorem expressionUpTo_succ (n : Nat) : expressionUpTo (n + 1) = rung n 4 := rfl

/-- One more operator of a level, if one is ahead. -/
def binaryTurn (operators : List Kind) (operand : Walk ValueType) (left : ValueType) :
    Walk (Turn ValueType ValueType) := do
  match ← peek with
  | some op =>
    if operators.contains op then
      let index ← position
      skip
      let right ← operand
      return .again (← binary op left right index)
    else return .done left
  | none => return .done left

theorem rung_succ (n k : Nat) :
    rung n (k + 1) = (rung n k >>= fun left =>
      loop left (binaryTurn (operators k) (rung n k))) := rfl

/-- A level has been left but for further operators of it. Of the turns of its loop there are
    enough left for all tokens that come after the `length` ones taken. -/
def Reached (n : Nat) (s : State) (type : ValueType) (s' : State) (length : Nat) : Nat → Prop
  | 0 => unaryUpTo n s = .ok type s'
  | k + 1 => ∃ m, s.tokens.size < m + length ∧
      rung n (k + 1) s = iterate (binaryTurn (operators k) (rung n k)) m type s'

/-- No operator of a level below `k` follows, nor anything that belongs to the operand before. -/
structure Stops (k : Nat) (rest : List Token) : Prop where
  detached : Detached rest
  operators : ∀ t ∈ rest.head?, ∀ i, i + 1 < k → t.kind ∉ Walk.operators i

variable {n k : Nat} {type : ValueType} {written rest : List Token} {ops : List Op}

theorem Appends.upcoming_rest (h : Appends s s' written.length ops)
    (hupcoming : s.upcoming = written ++ rest) : s'.upcoming = rest := by
  rw [h.upcoming, hupcoming, List.drop_left]

theorem length_le_of_upcoming (hupcoming : s.upcoming = written ++ rest) :
    written.length ≤ s.tokens.size := by
  have hle := length_upcoming_le s
  rw [hupcoming, List.length_append] at hle
  omega

/-- Where no operator of the level follows, the level is done. -/
theorem Reached.close (h : Reached n s type s' written.length k)
    (happends : Appends s s' written.length ops) (hupcoming : s.upcoming = written ++ rest)
    (hstops : Stops (k + 1) rest) : rung n k s = .ok type s' := by
  have hrest := happends.upcoming_rest hupcoming
  have hlength := length_le_of_upcoming hupcoming
  cases k with
  -- Behind a unary operand only an arrow could go on.
  | zero =>
    show memberLevel (unaryUpTo n) (expressionUpTo n) s = _
    unfold memberLevel
    rw [bind_of_ok h, loop_eq]
    apply iterate_done
    rw [bind_of_ok (check_suffix hstops.detached hrest (by decide))]
    rfl
  | succ k =>
    obtain ⟨m, hm, hrun⟩ := h
    obtain ⟨m, rfl⟩ : ∃ j, m = j + 1 := Nat.exists_eq_add_one.2 (by omega)
    -- The loop over the operators of the level has a turn left and ends in it.
    have hturn : binaryTurn (operators k) (rung n k) type s' = .ok (.done type) s' := by
      unfold binaryTurn
      rw [bind_of_ok (peek_upcoming s'), hrest]
      cases rest with
      | nil => rfl
      | cons t rest =>
        have hnot := hstops.operators t rfl k (by omega)
        simp [hnot]
        rfl
    rw [hrun, iterate_done hturn]

/-- From a level to all looser ones. -/
theorem Reached.climb {j : Nat} (h : Reached n s type s' written.length j) (hjk : j ≤ k)
    (happends : Appends s s' written.length ops) (hupcoming : s.upcoming = written ++ rest)
    (hstops : Stops k rest) (hwritten : written ≠ []) : Reached n s type s' written.length k := by
  induction hjk with
  | refl => exact h
  | @step k hjk ih =>
    have hbelow : Stops k rest :=
      ⟨hstops.detached, fun t ht i hi => hstops.operators t ht i (by omega)⟩
    have hpos := List.length_pos_iff.2 hwritten
    refine ⟨s.tokens.size + 1, by omega, ?_⟩
    rw [rung_succ, bind_of_ok ((ih hbelow).close happends hupcoming hstops), loop_eq,
      happends.tokens]

/-! ### Operands -/

section Operands

variable (unary expression : Walk ValueType) {t next : Token}

theorem unaryWith_literal (hupcoming : s.upcoming = t :: rest)
    (hkind : t.kind = .integerLiteral ∨ t.kind = .booleanLiteral) :
    unaryWith unary expression s = literalExpression s := by
  unfold unaryWith primary
  rw [position_bind, bind_of_ok (peek_upcoming s), hupcoming, List.head?_cons, Option.map_some]
  rcases hkind with hkind | hkind
  all_goals
    rw [hkind]
    dsimp only
    rw [bind_of_ok (peek_upcoming s), hupcoming, List.head?_cons, Option.map_some, hkind]
    rfl

theorem unaryWith_name (hupcoming : s.upcoming = t :: rest) (hkind : t.kind = .identifier) :
    unaryWith unary expression s = nameExpression expression s := by
  unfold unaryWith primary
  rw [position_bind, bind_of_ok (peek_upcoming s), hupcoming, List.head?_cons, Option.map_some,
    hkind]
  dsimp only
  rw [bind_of_ok (peek_upcoming s), hupcoming, List.head?_cons, Option.map_some, hkind]

/-- A minus sign in front of a number belongs to the number. -/
theorem unaryWith_negated (hupcoming : s.upcoming = t :: next :: rest) (hkind : t.kind = .minus)
    (hnext : next.kind = .integerLiteral) :
    unaryWith unary expression s = literalExpression s := by
  unfold unaryWith
  rw [position_bind, bind_of_ok (peek_upcoming s), hupcoming, List.head?_cons, Option.map_some,
    hkind]
  dsimp only
  rw [bind_of_ok (peekAt_upcoming s 1), hupcoming, List.getElem?_cons_succ, List.getElem?_cons_zero,
    Option.map_some, hnext]
  rfl

theorem unaryWith_operator (op : UnaryOperator σ) (hupcoming : s.upcoming = t :: next :: rest)
    (hkind : t.kind = op.kind) (hnext : op.kind = .minus → next.kind.isNumericLiteral = false) :
    unaryWith unary expression s =
      (unary >>= fun type => unaryOperator op.kind type s.pos) (s.forward 1) := by
  unfold unaryWith
  rw [position_bind, bind_of_ok (peek_upcoming s), hupcoming, List.head?_cons, Option.map_some,
    hkind]
  cases op with
  -- A minus in front of a number would be part of it.
  | negate =>
    show (peekAt 1 >>= fun _ => _) s = _
    rw [bind_of_ok (peekAt_upcoming s 1), hupcoming, List.getElem?_cons_succ,
      List.getElem?_cons_zero, Option.map_some, Option.any_some, hnext rfl]
    rfl
  | complement => rfl
  | not => rfl

/-- An opening parenthesis that no type follows is not that of a cast. -/
theorem unaryWith_enclosed (hupcoming : s.upcoming = t :: next :: rest)
    (hkind : t.kind = .openParen) (hnext : next.kind ∈ Kind.starters) :
    unaryWith unary expression s =
      (expression >>= fun type => expectMark .closeParen >>= fun _ => pure type) (s.forward 1) := by
  -- No type stands behind the parenthesis, so this is no cast.
  have hcast : castAhead s = .ok false s := by
    have hprimitive : ∀ kind ∈ Kind.starters, kind.primitive?.isSome = false := by decide
    unfold castAhead
    rw [bind_of_ok (peekAt_upcoming s 1), hupcoming, List.getElem?_cons_succ,
      List.getElem?_cons_zero, Option.map_some, Option.any_some, hprimitive _ hnext]
    rfl
  unfold unaryWith primary
  rw [position_bind, bind_of_ok (peek_upcoming s), hupcoming, List.head?_cons, Option.map_some,
    hkind]
  dsimp only
  rw [bind_of_ok hcast, if_neg (by decide), bind_of_ok (peek_upcoming s), hupcoming,
    List.head?_cons, Option.map_some, hkind]
  rfl

end Operands

/-! ### Trees -/

theorem Stops.mono {j : Nat} (h : Stops k rest) (hjk : j ≤ k) : Stops j rest :=
  ⟨h.detached, fun t ht i hi => h.operators t ht i (by omega)⟩

theorem stops_operator (op : BinaryOperator σ τ) (ht : t.kind = op.kind) (rest : List Token) :
    Stops (op.level + 1) (t :: rest) := by
  constructor
  · rintro t' ⟨⟩
    rw [ht]
    exact kind_not_suffix op
  · rintro t' ⟨⟩ i hi
    rw [ht, mem_operators]
    omega

theorem stops_closing (ht : t.kind = .closeParen) (rest : List Token) : Stops 5 (t :: rest) := by
  constructor
  · rintro t' ⟨⟩
    rw [ht]
    decide
  · rintro t' ⟨⟩ i hi
    rw [ht]
    have hall : ∀ j < 4, Kind.closeParen ∉ operators j := by decide
    exact hall i (by omega)

/-- A tree has been read at a level: its tokens are taken, and the code that is appended
    computes it. -/
def Reads (n k : Nat) (s : State) (e : Tree σ) (written : List Token) : Prop :=
  ∃ s' ops, Reached n s σ.type s' written.length k ∧ Appends s s' written.length ops ∧
    Tree.Computes ops e

section Cases

variable {e : Tree σ} {x : Operand} (hs : s.Emits) (hstops : Stops k rest)
include hstops

/-- A tree that one operand is written for has been read at all levels. -/
theorem Reads.of_unary (hrun : unaryWith (unaryUpTo n) (expressionUpTo n) s = .ok σ.type s')
    (happends : Appends s s' written.length ops) (hcomputes : Tree.Computes ops e)
    (hupcoming : s.upcoming = written ++ rest) (hwritten : written ≠ []) :
    Reads (n + 1) k s e written := by
  have hreached : Reached (n + 1) s σ.type s' written.length 0 := hrun
  refine ⟨s', ops, ?_, happends, hcomputes⟩
  exact hreached.climb (Nat.zero_le _) happends hupcoming hstops hwritten

include hs

theorem reads_literal (hupcoming : s.upcoming = [t] ++ rest)
    (hkind : t.kind = .integerLiteral ∨ t.kind = .booleanLiteral)
    (htype : t.kind.literalType = σ.type)
    (hx : (literalValue? t).bind (numeralOperand? · σ.type) = some x)
    (hcomputes : Tree.Computes [(.push σ.family, [x])] e) : Reads (n + 1) k s e [t] := by
  have hminus : t.kind ≠ .minus := by
    rcases hkind with hkind | hkind <;> rw [hkind] <;> decide
  obtain ⟨s', hrun, happends⟩ := appends_literal hs hupcoming hminus htype hx
  rw [← unaryWith_literal _ _ hupcoming hkind] at hrun
  exact .of_unary hstops hrun happends hcomputes hupcoming (List.cons_ne_nil _ _)

theorem reads_name {first : Token} {names : List Token} (hfirst : first.kind = .identifier)
    (htrail : Trail names written) (hfinds : s.Finds (first :: names) σ x)
    (hupcoming : s.upcoming = first :: written ++ rest)
    (hcomputes : Tree.Computes [(.push σ.family, [x])] e) :
    Reads (n + 1) k s e (first :: written) := by
  obtain ⟨s', hrun, happends⟩ := appends_name hs hfirst htrail hstops.detached hupcoming hfinds
    (expressionUpTo n)
  rw [← unaryWith_name _ _ hupcoming hfirst] at hrun
  exact .of_unary hstops hrun happends hcomputes hupcoming (List.cons_ne_nil _ _)

/-- A minus sign makes the literal of another number out of that of a number. -/
theorem reads_negated {number : Nat} {hlt : number < pow2 31} {t' : Token}
    (ht : t.kind = .minus) (hspells : t'.Spells number)
    (hupcoming : s.upcoming = [t, t'] ++ rest) :
    Reads (n + 1) k s (.unary .negate (.number number hlt)) [t, t'] := by
  obtain ⟨s', hrun, happends⟩ := appends_negated (σ := .int) hs hupcoming ht
    (by rw [hspells.1]; rfl) (hspells.negated hlt)
  rw [← unaryWith_negated _ _ hupcoming ht hspells.1] at hrun
  refine .of_unary hstops hrun happends ?_ hupcoming (List.cons_ne_nil _ _)
  exact Tree.computes_push _ fun _ _ c _ => (c.negate_int _).symm

/-- An operator in front of an operand, where its sign does not belong to a number. -/
theorem reads_unary {op : UnaryOperator σ} {next : Token} {tail : List Token}
    (ht : t.kind = op.kind) (hwritten : written = next :: tail)
    (hnext : op.kind = .minus → next.kind.isNumericLiteral = false)
    (hupcoming : s.upcoming = t :: written ++ rest)
    (hoperand : Reads n 0 (s.forward 1) e written) :
    Reads (n + 1) k s (.unary op e) (t :: written) := by
  have h₁ := Appends.forward s 1
  obtain ⟨s₂, ops₂, hreached, h₂, hcomputes⟩ := hoperand
  obtain ⟨s₃, hop, h₃⟩ := appends_unaryOperator (h₂.emits (h₁.emits hs)) op s.pos
  have happends : Appends s s₃ (t :: written).length (ops₂ ++ op.code) := by
    have htrans := h₁.trans (h₂.trans h₃)
    rwa [Nat.add_zero, Nat.add_comm] at htrans
  refine .of_unary hstops ?_ happends (hcomputes.unary op) hupcoming (List.cons_ne_nil _ _)
  subst hwritten
  rw [unaryWith_operator _ _ op hupcoming ht hnext]
  have hunary : unaryUpTo n (s.forward 1) = .ok σ.type s₂ := hreached
  rw [bind_of_ok hunary]
  exact hop

/-- An operator between operands. It is one more turn of its level, whose earlier turns have
    read the left operand. -/
theorem reads_binary {op : BinaryOperator σ τ} {l r : Tree σ} {left right : List Token}
    (hk : op.level < k) (ht : t.kind = op.kind)
    (hupcoming : s.upcoming = left ++ (t :: right ++ rest))
    (hleft : Reads n (op.level + 1) s l left)
    (hright : ∀ s₁ ops₁, Appends s s₁ left.length ops₁ → Reads n op.level (s₁.forward 1) r right) :
    Reads n k s (.binary op l r) (left ++ t :: right) := by
  obtain ⟨s₁, ops₁, ⟨j, hj, hleft⟩, h₁, hcomputes₁⟩ := hleft
  obtain ⟨s₃, ops₃, hreached, h₃, hcomputes₃⟩ := hright s₁ ops₁ h₁
  have h₂ := Appends.forward s₁ 1
  obtain ⟨s₄, hop, h₄⟩ := appends_binary (h₃.emits (h₂.emits (h₁.emits hs))) op s₁.pos
  have hlength : (left ++ t :: right).length = left.length + (1 + (right.length + 0)) := by
    simp only [List.length_append, List.length_cons]
    omega
  have hwhole : Appends s s₄ (left ++ t :: right).length (ops₁ ++ ops₃ ++ op.code) := by
    have htrans := h₁.trans (h₂.trans (h₃.trans h₄))
    rwa [List.nil_append, ← List.append_assoc, ← hlength] at htrans
  have hnext₁ := h₁.upcoming_rest hupcoming
  have hnext₂ : (s₁.forward 1).upcoming = right ++ rest := by
    rw [upcoming_forward, hnext₁]
    rfl
  have hoperand := hreached.close h₃ hnext₂ (hstops.mono hk)
  -- The turn: the operator is of this level, and its right operand is of a tighter one.
  have hturn : binaryTurn (operators op.level) (rung n op.level) σ.type s₁ =
      .ok (.again τ.type) s₄ := by
    have hmem : (operators op.level).contains op.kind = true :=
      List.contains_iff_mem.2 ((mem_operators op _).2 rfl)
    unfold binaryTurn
    rw [bind_of_ok (peek_upcoming s₁), hnext₁, List.cons_append, List.head?_cons,
      Option.map_some, ht]
    dsimp only
    rw [if_pos hmem, position_bind, skip_bind, bind_of_ok hoperand, bind_of_ok hop]
    rfl
  have hupcoming' : s.upcoming = (left ++ t :: right) ++ rest := by
    rw [hupcoming, List.append_assoc]
  have hfull := length_le_of_upcoming hupcoming'
  obtain ⟨i, rfl⟩ : ∃ i, j = i + 1 := Nat.exists_eq_add_one.2 (by omega)
  have hreached₄ : Reached n s τ.type s₄ (left ++ t :: right).length (op.level + 1) := by
    refine ⟨i, by omega, ?_⟩
    rw [hleft, iterate_again hturn]
  refine ⟨s₄, _, ?_, hwhole, hcomputes₁.binary hcomputes₃ op⟩
  exact hreached₄.climb hk hwhole hupcoming' hstops (by simp)

omit hs in
/-- A tree between parentheses. Its first token tells it from a cast. -/
theorem reads_enclosed {opening closing next : Token} {tail : List Token}
    (hopening : opening.kind = .openParen) (hclosing : closing.kind = .closeParen)
    (hwritten : written = next :: tail) (hstarts : next.kind ∈ Kind.starters)
    (hupcoming : s.upcoming = opening :: written ++ [closing] ++ rest)
    (hinside : Reads n 4 (s.forward 1) e written) :
    Reads (n + 2) k s e (opening :: written ++ [closing]) := by
  have h₁ := Appends.forward s 1
  obtain ⟨s₂, ops₂, hreached, h₂, hcomputes⟩ := hinside
  have hnext₁ : (s.forward 1).upcoming = written ++ (closing :: rest) := by
    rw [upcoming_forward, hupcoming]
    simp
  -- The closing parenthesis ends all levels at once.
  have hexpression := hreached.close h₂ hnext₁ (stops_closing hclosing rest)
  have hlength : (opening :: written ++ [closing]).length = 1 + (written.length + 1) := by
    simp only [List.length_append, List.length_cons, List.length_nil]
    omega
  have hwhole : Appends s (s₂.forward 1) (opening :: written ++ [closing]).length ops₂ := by
    have htrans := h₁.trans (h₂.trans (Appends.forward s₂ 1))
    rwa [List.nil_append, List.append_nil, ← hlength] at htrans
  have hmark := expectMark_upcoming (h₂.upcoming_rest hnext₁)
  rw [hclosing] at hmark
  refine .of_unary hstops ?_ hwhole hcomputes hupcoming (by simp)
  subst hwritten
  rw [unaryWith_enclosed _ _ hupcoming hopening hstarts, expressionUpTo_succ,
    bind_of_ok hexpression, bind_of_ok hmark]
  rfl

end Cases

/-- What is written takes a level of nesting, and leaves enough for what follows its first
    token. -/
theorem exists_budget (hn : 2 * (t :: written).length ≤ n + 1) :
    ∃ j, n = j + 1 ∧ 2 * written.length ≤ j + 1 := by
  rw [List.length_cons] at hn
  exact ⟨n - 1, by omega, by omega⟩

/-- Reading a tree that is written down takes its tokens and appends code that computes it.
    The induction is on how the tree is written. -/
theorem Writes.reads {s₀ : State} {e : Tree σ} (h : Writes s₀ k e written) {m : Nat}
    {ops₀ : List Op} (happends : Appends s₀ s m ops₀) (hs : s.Emits)
    (hupcoming : s.upcoming = written ++ rest) (hstops : Stops k rest)
    (hn : 2 * written.length ≤ n + 1) : Reads n k s e written := by
  induction h generalizing s m ops₀ rest n with
  -- Leaves take one level of the budget and no induction hypothesis.
  | @number k number hlt t ht =>
    obtain ⟨n, rfl, -⟩ := exists_budget hn
    exact reads_literal (σ := .int) hs hstops hupcoming (.inl ht.1) (by rw [ht.1]; rfl)
      (ht.operand hlt) (Tree.computes_push _ fun _ _ _ _ => rfl)
  | @truth k b t ht =>
    obtain ⟨n, rfl, -⟩ := exists_budget hn
    exact reads_literal (σ := .bool) hs hstops hupcoming (.inr ht.1) (by rw [ht.1]; rfl)
      ht.operand (Tree.computes_push _ fun _ _ _ _ => rfl)
  | @cell k σ place first names written hfirst htrail hfinds =>
    obtain ⟨n, rfl, -⟩ := exists_budget hn
    exact reads_name hs hstops hfirst htrail (hfinds.appends happends) hupcoming
      (Tree.computes_push _ fun _ _ _ _ => by cases place <;> rfl)
  | @constant k σ x first names written hfirst htrail hfinds =>
    obtain ⟨n, rfl, -⟩ := exists_budget hn
    exact reads_name hs hstops hfirst htrail (hfinds.appends happends) hupcoming
      (Tree.computes_push _ fun _ _ _ _ => by cases σ <;> rfl)
  | @unary k σ op e t written ht h ih =>
    obtain ⟨n, rfl, hbudget⟩ := exists_budget hn
    have hforward := Appends.forward s 1
    have hnextUp : (s.forward 1).upcoming = written ++ rest := by
      rw [upcoming_forward, hupcoming]
      rfl
    have hoperand := ih (happends.trans hforward) (hforward.emits hs) hnextUp
      (hstops.mono (Nat.zero_le k)) hbudget
    cases op with
    -- A minus sign in front of a number is read as part of the literal.
    | negate =>
      rcases h.number_or with ⟨number, hlt, t', rfl, rfl, hspells⟩ | ⟨next, tail, hwritten, hnext⟩
      · exact reads_negated hs hstops ht hspells hupcoming
      · exact reads_unary hs hstops ht hwritten (fun _ => hnext) hupcoming hoperand
    | complement =>
      obtain ⟨next, tail, hwritten, -⟩ := h.head
      exact reads_unary hs hstops ht hwritten nofun hupcoming hoperand
    | not =>
      obtain ⟨next, tail, hwritten, -⟩ := h.head
      exact reads_unary hs hstops ht hwritten nofun hupcoming hoperand
  | @binary k σ τ op l r t left right hk ht hl hr ihl ihr =>
    rw [List.append_assoc] at hupcoming
    have hbudget : 2 * left.length ≤ n + 1 ∧ 2 * right.length ≤ n + 1 := by
      rw [List.length_append, List.length_cons] at hn
      omega
    -- The operator stops what is on its left, and what follows stops the right operand.
    have hleft := ihl happends hs hupcoming (stops_operator op ht _) hbudget.1
    refine reads_binary hs hstops hk ht hupcoming hleft fun s₁ ops₁ h₁ => ?_
    have h₂ := Appends.forward s₁ 1
    have hnext : (s₁.forward 1).upcoming = right ++ rest := by
      rw [upcoming_forward, h₁.upcoming_rest hupcoming]
      rfl
    exact ihr ((happends.trans h₁).trans h₂) (h₂.emits (h₁.emits hs)) hnext
      (hstops.mono (Nat.le_of_lt hk)) hbudget.2
  | @enclosed k σ e opening closing written hopening hclosing h ih =>
    obtain ⟨next, tail, hwritten, hstarts⟩ := h.head
    rw [List.length_append, List.length_cons, List.length_singleton] at hn
    -- Two tokens are the parentheses, which pay for the level inside them.
    obtain ⟨n, rfl⟩ : ∃ j, n = j + 2 := ⟨n - 2, by omega⟩
    have hforward := Appends.forward s 1
    have hnext : (s.forward 1).upcoming = written ++ (closing :: rest) := by
      rw [upcoming_forward, hupcoming]
      simp
    have hinside := ih (n := n) (happends.trans hforward) (hforward.emits hs) hnext
      ((stops_closing hclosing rest).mono (by omega)) (by omega)
    exact reads_enclosed hstops hopening hclosing hwritten hstarts hupcoming hinside

/-- An expression that is a tree takes the tokens that it is written with, up to a token that
    continues no expression. Nothing is reported, the type is that of the tree, and the code
    that is appended pushes the value of the tree and changes no variable. -/
theorem expression_computes {e : Tree σ} (hs : s.Emits) (hwrites : Writes s 4 e written)
    (hupcoming : s.upcoming = written ++ rest) (hrest : ∀ t ∈ rest.head?, ¬Prolongs t.kind) :
    ∃ s' ops, expression s = .ok σ.type s' ∧ Appends s s' written.length ops ∧
      Tree.Computes ops e := by
  have hstops : Stops 5 rest :=
    ⟨fun t ht hmem => hrest t ht (.inl hmem), fun t ht i hi hmem =>
      hrest t ht (.inr ⟨i, by omega, hmem⟩)⟩
  have hlength := length_le_of_upcoming hupcoming
  have hbudget : 2 * written.length ≤ 2 * s.tokens.size + 1 + 1 := by omega
  obtain ⟨s', ops, hreached, happends, hcomputes⟩ :=
    hwrites.reads (Appends.refl s) hs hupcoming (hstops.mono (by omega)) hbudget
  refine ⟨s', ops, ?_, happends, hcomputes⟩
  exact hreached.close happends hupcoming hstops

/-- `- 3 * (x + 2) < x`, with `x` a global `int`. The sign belongs to the number, and the
    product binds tighter than the comparison. -/
def comparedProduct : Tree .bool :=
  .binary (.compare .lt)
    (.binary (.combine .mul) (.unary .negate (.number 3 (by decide)))
      (.binary (.combine .add) (.cell (.memory 0)) (.number 2 (by decide))))
    (.cell (.memory 0))

def comparedProductTokens : List Token :=
  [⟨.minus, "-", 1, 1, ""⟩, ⟨.integerLiteral, "3", 1, 3, ""⟩] ++ ⟨.star, "*", 1, 5, ""⟩ ::
    (⟨.openParen, "(", 1, 7, ""⟩ :: ([⟨.identifier, "x", 1, 8, ""⟩] ++ ⟨.plus, "+", 1, 10, ""⟩ ::
      [⟨.integerLiteral, "2", 1, 12, ""⟩]) ++ [⟨.closeParen, ")", 1, 13, ""⟩]) ++
  ⟨.less, "<", 1, 15, ""⟩ :: [⟨.identifier, "x", 1, 17, ""⟩]

/-- The second walk stands in front of it, outside of functions, and a semicolon follows. -/
def beforeComparedProduct : State :=
  { State.initial {} (comparedProductTokens ++ [⟨.semicolon, ";", 1, 18, ""⟩]) with
    pass := .emit
    table := initialTable.add (some globalScope) "x"
      (.var { kind := .global, type := .int, storage := .memory 0 }) }

def comparedProductCode : List Op :=
  [(.push (.numeric .int), [.int (-3)]), (.push (.numeric .int), [.memory 0]),
    (.push (.numeric .int), [.int 2]), (.pop (.numeric .int), [op2]),
    (.pop (.numeric .int), [op1]), (.arithmetic .add .int, [op1, op2]),
    (.push (.numeric .int), [op1]), (.pop (.numeric .int), [op2]), (.pop (.numeric .int), [op1]),
    (.arithmetic .mul .int, [op1, op2]), (.push (.numeric .int), [op1]),
    (.push (.numeric .int), [.memory 0]), (.pop (.numeric .int), [op2]),
    (.pop (.numeric .int), [op1]), (.cmp (.numeric .int), [op1, op2]), (.is .lt, [op1]),
    (.push .bool, [op1])]

/-- On words of 32 bits this code pushes whether the product is less. -/
theorem expression_computes_comparedProduct :
    beforeComparedProduct.Emits ∧
      Writes beforeComparedProduct 4 comparedProduct comparedProductTokens ∧
      ∃ s', expression beforeComparedProduct = .ok .bool s' ∧
        Appends beforeComparedProduct s' 10 comparedProductCode ∧
        Tree.Computes comparedProductCode comparedProduct ∧
        ∀ (x : Int32) (stack : List Int32) (store : Store Int32 (Int32 × Int32)),
          store.memory 0 = x → ∃ store', Calculator.words.Passes comparedProductCode stack store
            ((if -3 * (x + 2) < x then 1 else 0) :: stack) store' ∧ store.Same store' := by
  have hs : beforeComparedProduct.Emits := ⟨rfl, rfl⟩
  have hx : ∀ offset k, Writes beforeComparedProduct k (.cell (.memory 0) : Tree .int)
      [⟨.identifier, "x", 1, offset, ""⟩] :=
    fun offset k => .cell rfl .nil ⟨2, _, rfl, rfl, rfl, rfl⟩
  have hnumber : ∀ {offset k n hn text}, digitsValue? Text.decimalValue? 10
      (String.toList text) = some n →
      Writes beforeComparedProduct k (.number n hn) [⟨.integerLiteral, text, 1, offset, ""⟩] :=
    fun h => .number ⟨rfl, .inl h⟩
  have hwrites : Writes beforeComparedProduct 4 comparedProduct comparedProductTokens := by
    refine .binary (by decide) rfl ?_ (hx 17 _)
    refine .binary (by decide) rfl (.unary rfl (hnumber (by decide))) ?_
    exact .enclosed rfl rfl (.binary (by decide) rfl (hx 8 _) (hnumber (by decide)))
  have hrest : ∀ t ∈ [(⟨.semicolon, ";", 1, 18, ""⟩ : Token)].head?, ¬Prolongs t.kind := by
    rintro t ⟨⟩
    decide
  obtain ⟨s', ops, hrun, happends, hcomputes⟩ := expression_computes hs hwrites rfl hrest
  -- The general theorem says that there is code. Running the parser says which.
  have hcode : ops = comparedProductCode := by
    have hfinal : (final (expression beforeComparedProduct)).table.code globalScope =
        comparedProductCode := by
      decide +kernel
    have hadded := happends.code globalScope
    rw [hrun] at hfinal
    rw [← hfinal]
    exact hadded.symm
  subst hcode
  refine ⟨hs, hwrites, s', hrun, happends, hcomputes, ?_⟩
  rintro x stack store rfl
  obtain ⟨store', hpasses, hsame⟩ := hcomputes _ _ Calculator.words stack store
  have hvalue : comparedProduct.value Calculator.words store =
      if -3 * (store.memory 0 + 2) < store.memory 0 then 1 else 0 := by
    have hless : comparedProduct.value Calculator.words store =
        Calculator.ofBool (decide (-3 * (store.memory 0 + 2) < store.memory 0)) := rfl
    rw [hless, Calculator.ofBool]
    simp only [decide_eq_true_eq]
  rw [hvalue] at hpasses
  exact ⟨store', hpasses, hsame⟩

end StateScript.Walk
