import StateScript.Proofs.Walk.Agreement

/-! # Agreement on expressions

  Every rule for expressions, places and simple statements agrees with itself across the
  two walks. A rule that ends with a mark of its own, such as a closing parenthesis, does
  so strictly; the others may leave the second walk stuck in front of a step. The nested
  rules `unary` and `expression` are parameters that agree loosely, and the recursion is
  tied by induction on the budget.
-/

namespace StateScript.Walk

set_option synthInstance.maxSize 1000000000

variable {α : Type} {l : Bool}

/-! ### Literals and calls -/

theorem agrees_literalOperand (t : Token) (type : ValueType) :
    Agrees l (literalOperand t type) (literalOperand t type) := by
  unfold literalOperand
  split
  · exact .still
  · split
    · exact .still
    · exact .never

theorem agrees_literalExpression : Agrees l literalExpression literalExpression := by
  unfold literalExpression
  refine .bind_blind fun isNegative => .bind_blind fun t => ?_
  exact .bind (agrees_literalOperand ..) fun x y _ => .bind_still fun _ _ => .still

section Rules

variable {unary expression : Walk ValueType} [Respects .plain 0 unary]
    [Respects .plain 0 expression]

theorem agrees_argument (he : Agrees true expression expression) :
    Agrees true (argument expression) (argument expression) := by
  unfold argument
  exact .bind_loose he fun _ _ _ => .still

/-- After an item that leaves the second walk stuck there is no comma. -/
theorem agrees_separated {item : Walk α} [Respects .plain 0 item] (h : Agrees true item item) :
    Agrees true (separated item) (separated item) := by
  -- The items that came before do not matter.
  have each : ∀ n items items', Agrees true
      (iterate (fun items => do
        let x ← item
        if ← eat .comma then return .again (x :: items)
        else return .done (x :: items).reverse) n items)
      (iterate (fun items => do
        let x ← item
        if ← eat .comma then return .again (x :: items)
        else return .done (x :: items).reverse) n items') := by
    intro n
    induction n with
    | zero => exact fun _ _ => .never (y := throw .broken)
    | succ n ih =>
      intro items items'
      unfold iterate
      simp only [bind_assoc]
      refine .bind_loose h (fun x x' _ => .bind_blind fun isMore => ?_) (h := fun x' => ?_)
      · cases isMore with
        | true => exact ih _ _
        | false => exact .pure trivial
      -- Stuck, the second walk takes the way without a comma.
      · refine ⟨fun hpass hrunning hstuck => ?_⟩
        rw [bind_of_ok (hstuck.eat_eq .comma)]
        exact .still _ hpass hrunning hstuck
  unfold separated loop
  exact .bind_blind fun n => each _ _ _

theorem agrees_separatedUnless {item : Walk α} [Respects .plain 0 item] (h : Agrees true item item)
    (stop : Kind) : Agrees true (separatedUnless stop item) (separatedUnless stop item) := by
  unfold separatedUnless
  refine .bind_blind fun isOver => ?_
  split
  · exact .pure trivial
  · exact agrees_separated h

theorem agrees_arguments (he : Agrees true expression expression) :
    Agrees l (arguments expression) (arguments expression) := by
  unfold arguments
  refine .bind_blind fun _ => .bind_loose
    (agrees_separatedUnless (agrees_argument he) _) fun _ _ _ => ?_
  exact .bind_blind fun _ => .still

theorem agrees_call (he : Agrees true expression expression) (path : List Token) (index : Nat) :
    Agrees l (call expression path index) (call expression path index) := by
  unfold call
  refine .bind (agrees_arguments he) fun args args' _ => .bind_still fun all all' => .emitting ?_
  cases all with
  | nil => exact .still
  | cons first rest => exact .still

/-! ### Variables -/

theorem agrees_indexExpression (he : Agrees true expression expression) :
    Agrees true (indexExpression expression) (indexExpression expression) := by
  unfold indexExpression
  refine .bind_blind fun index => .bind_loose he fun type type' _ => ?_
  exact .still

theorem agrees_closedIndex (he : Agrees true expression expression) :
    Agrees l (closedIndex expression) (closedIndex expression) := by
  unfold closedIndex
  exact .bind_loose (agrees_indexExpression he) fun _ _ _ => .same

/-- A symbol whose literal, if it has one, suits its type. -/
def Symbol.Fits (x : Symbol) : Prop :=
  ∀ v l, x.kind.var? = some v → v.literal = some l → Denotes l v.type

theorem agrees_symbol (id id' : Nat) :
    AgreesOn l (symbol id) (symbol id') fun x _ => Symbol.Fits x where
  run {s t t' b} hlevel hrun := by
    cases hx : s.table.get? id with
    -- A symbol that is not there ends the first walk.
    | none =>
      refine .inl (.inr ?_)
      unfold symbol
      rw [hx]
      rfl
    | some x =>
      refine .inr (.inr ⟨x, s, ?_, ?_, fun v l hv hl => ?_⟩)
      · unfold symbol
        rw [hx]
      · unfold symbol at hrun
        split at hrun <;> cases hrun
        exact hlevel.pos
      · refine hlevel.fits id v l ?_ hl
        rw [Table.var?, Table.kind?, hx]
        exact hv

/-- The first walk may read a literal that suits its type. -/
theorem still_readingOperand {id : Nat} {literal : Option Token} {type : ValueType}
    (h : ∀ t, literal = some t → Denotes t type) :
    Still .declare (readingOperand id literal type) := by
  unfold readingOperand
  cases literal with
  | none => infer_instance
  | some t =>
    dsimp only
    unfold literalOperand
    -- A literal that denotes a value of its type is no error.
    rcases h t rfl with h | ⟨x, h⟩
    · rw [if_pos h]
      infer_instance
    · rw [h]
      infer_instance

theorem agrees_knownVariable (he : Agrees true expression expression) (path : List Token)
    (index id id' : Nat) :
    Agrees l (knownVariable expression path index id)
    (knownVariable expression path index id') := by
  unfold knownVariable
  refine .bind_still fun _ _ => .bind (agrees_symbol id id') fun x y hfits => ?_
  refine .bind_blind fun isIndexed => ?_
  cases isIndexed with
  | true => exact .bind (agrees_closedIndex he) fun _ _ _ => .still
  | false =>
    refine .bind_blind fun next => ?_
    cases next with
    | some op => exact .bind_blind fun _ => .still
    | none =>
      -- Only the literal of a constant could stop the first walk.
      have hread : Still .declare
          (readingOperand id (x.kind.var?.bind (·.literal))
            ((x.kind.var?.map (·.type)).getD .invalid)) := by
        refine still_readingOperand fun t ht => ?_
        obtain ⟨v, hv, hl⟩ := Option.bind_eq_some_iff.1 ht
        rw [hv]
        exact hfits v t hv hl
      dsimp only
      exact .still

theorem stepAhead_eq (s : State) :
    stepAhead s = .ok none s ∨ ∃ op, stepAhead s = .ok (some op) s ∧ Stuck s := by
  unfold stepAhead
  cases hx : s.tokens[s.pos]? with
  | none => exact .inl (by simp only [peek, view_bind, hx]; rfl)
  | some x =>
    have hpeek : peek s = .ok (some x.kind) s := by
      unfold peek view
      dsimp only
      rw [hx]
      rfl
    rw [bind_of_ok hpeek]
    generalize hk : some x.kind = next
    split
    · exact .inr ⟨_, rfl, x, hx, .inl (Option.some.inj hk)⟩
    · exact .inr ⟨_, rfl, x, hx, .inr (Option.some.inj hk)⟩
    · exact .inl rfl

/-- The first walk takes a step that the second leaves in place. -/
theorem agrees_optionalStep {y : Walk α} [hy : Still .emit y] [hy' : Respects .any 0 y]
    (f : Option Kind → Walk ValueType) (hf : f none = pure .invalid) :
    Agrees true (stepAhead >>= f) y where
  run {s t t' b} hlevel hrun := by
    have hpos := (hy.stays hlevel.second hrun).1
    rcases stepAhead_eq s with hs | ⟨op, -, hstuck⟩
    · refine .inr (.inr ⟨.invalid, s, ?_, hpos.trans hlevel.pos, trivial⟩)
      rw [bind_of_ok hs, hf]
      rfl
    · refine .inr (.inl ⟨rfl, hstuck.of_still (hpos.trans hlevel.pos) ?_⟩)
      rw [(hy'.ok (Nat.zero_le _) hrun).tokens, hlevel.tokens]

/-- A step behind an index is taken by the first walk only. -/
theorem agrees_unknownVariable (he : Agrees true expression expression) (path : List Token)
    (index id : Nat) :
    Agrees true (unknownVariable expression) (knownVariable expression path index id) := by
  unfold unknownVariable knownVariable
  refine .right fun _ => .right fun y => .bind_blind fun isIndexed => ?_
  cases isIndexed with
  | true => exact .bind (agrees_closedIndex he) fun _ _ _ => agrees_optionalStep _ rfl
  | false =>
    refine .bind_blind fun next => ?_
    cases next with
    | some op => exact .bind_blind fun _ => .still
    | none =>
      dsimp only [Option.isSome]
      exact .still

theorem agrees_nameExpression (he : Agrees true expression expression) :
    Agrees true (nameExpression expression) (nameExpression expression) := by
  unfold nameExpression
  refine .bind_blind fun index => .bind_blind fun path => .bind_blind fun isCall => ?_
  cases isCall with
  | true => exact agrees_call he path index
  | false =>
    refine .bind_still fun found found' => ?_
    cases found' with
    -- In the second walk every name has to be known.
    | none => exact .emitting_right (.never (y := undeclared index path))
    | some id' =>
      cases found with
      | some id => exact agrees_knownVariable he path index id id'
      | none => exact .emitting_left (agrees_unknownVariable he path index id')

theorem agrees_prefixStep (op : Kind) : Agrees l (prefixStep op) (prefixStep op) := by
  unfold prefixStep
  refine .bind_blind fun index => .bind_blind fun path => .bind_still fun found found' => ?_
  cases found <;> cases found' <;> exact .still

/-! ### Members -/

/-- What follows an arrow is of the same sort. -/
inductive Accessed.Alike : Accessed → Accessed → Prop
  | pending (m m' : Member) : Accessed.Alike (.pending m) (.pending m')
  | called (type type' : ValueType) : Accessed.Alike (.called type) (.called type')

theorem agrees_methodCall (he : Agrees true expression expression) (name : String)
    (type : ValueType)
    (index : Nat) :
    Agrees l (methodCall expression name type index) (methodCall expression name type index) := by
  unfold methodCall
  refine .bind_still fun method method' => .bind (agrees_arguments he) fun args args' _ => ?_
  exact .still

theorem agrees_access (he : Agrees true expression expression) (name : String) (type : ValueType)
    (index : Nat) :
    AgreesOn l (access expression name type index) (access expression name type index)
      Accessed.Alike := by
  unfold access
  refine .bind_blind fun isCall => ?_
  cases isCall with
  | true => exact .bind (agrees_methodCall he name type index) fun _ _ _ => .pure (.called ..)
  | false =>
    refine .bind_blind fun isIndexed => ?_
    cases isIndexed with
    | true =>
      refine .bind (agrees_closedIndex he) fun _ _ _ => .bind_still fun _ _ => ?_
      exact .pure (.pending ..)
    | false => exact .bind_still fun _ _ => .pure (.pending ..)

theorem agrees_accessor (he : Agrees true expression expression) (object object' : ValueType) :
    AgreesOn l (accessor expression object) (accessor expression object') Accessed.Alike := by
  unfold accessor
  refine .bind_blind fun index => .bind_blind fun _ => .bind_blind fun _ => ?_
  refine .bind_blind fun type => .bind_blind fun _ => .bind_blind fun name => .emitting ?_
  cases hasMembers object' with
  | true => exact agrees_access he name.text type index
  | false =>
    show AgreesOn l _ (errorAt index .invalidOperator _ >>= fun _ => _) _
    exact .never

/-! ### Primary expressions -/

theorem agrees_arrayElement (he : Agrees true expression expression) (element : ValueType) :
    Agrees true (arrayElement expression element) (arrayElement expression element) := by
  unfold arrayElement
  exact .bind_blind fun index => .bind_loose he fun type type' _ => .still

theorem agrees_arrayElements (he : Agrees true expression expression) (element : ValueType) :
    Agrees l (arrayElements expression element) (arrayElements expression element) := by
  unfold arrayElements
  refine .bind_blind fun hasElements => ?_
  cases hasElements with
  | true =>
    refine .bind_loose (agrees_separatedUnless (agrees_arrayElement he element) _) fun _ _ _ => ?_
    exact .bind_blind fun _ => .still
  | false => exact .still

theorem agrees_arraySize (he : Agrees true expression expression) (index count count' : Nat) :
    Agrees l (arraySize expression index count) (arraySize expression index count') := by
  unfold arraySize
  refine .bind_blind fun t => ?_
  split
  · exact .still
  · refine .bind_blind fun next => .bind_blind fun _ => ?_
    exact .bind (agrees_closedIndex he) fun _ _ _ => .same

theorem agrees_newArray (he : Agrees true expression expression) :
    Agrees l (newArray expression) (newArray expression) := by
  unfold newArray
  refine .bind_blind fun _ => .bind_blind fun next => ?_
  split
  · exact .never
  · exact .never
  · next primitive _ _ =>
    unfold arrayOf
    refine .bind_blind fun _ => .bind_blind fun _ => .bind_blind fun index =>
      .bind_blind fun _ => ?_
    refine .bind (agrees_arrayElements he _) fun count count' _ => ?_
    exact .bind (agrees_arraySize he index count count') fun _ _ _ => .still

/-- Both walks are inside a counted loop or neither is. -/
theorem agrees_counter : AgreesOn l (view fun s => s.loops.findSome? (·.counter))
    (view fun s => s.loops.findSome? (·.counter)) fun a b => a.isSome = b.isSome where
  run {s t t' b} hlevel hrun := by
    cases hrun
    exact .inr (.inr ⟨_, s, rfl, hlevel.pos, hlevel.counters⟩)

theorem agrees_indexer : Agrees l indexer indexer := by
  unfold indexer
  refine .bind_blind fun index => .bind_blind fun _ => .bind agrees_counter fun found found' h => ?_
  cases found' with
  | none => exact .never (y := errorAt index .invalidIndexer _)
  | some counter' =>
    cases found with
    | none => cases h
    | some counter => exact .still

theorem agrees_primary (he : Agrees true expression expression) :
    Agrees true (primary expression) (primary expression) := by
  unfold primary
  refine .bind_blind fun next => ?_
  split
  · exact .never
  · exact .bind_blind fun _ => .still
  · exact agrees_newArray he
  · exact agrees_indexer
  · exact .bind_blind fun _ => .bind_loose he fun _ _ _ => .bind_blind fun _ => .still
  · exact agrees_nameExpression he
  · split
    · exact agrees_literalExpression
    · exact .never

/-! ### Levels -/

theorem agrees_unaryWith (hu : Agrees true unary unary) (he : Agrees true expression expression) :
    Agrees true (unaryWith unary expression) (unaryWith unary expression) := by
  have operator : ∀ op index, Agrees true (do skip; unaryOperator op (← unary) index)
      (do skip; unaryOperator op (← unary) index) := fun op index =>
    .bind_blind fun _ => .bind_loose hu fun _ _ _ => .still
  unfold unaryWith
  refine .bind_blind fun index => .bind_blind fun next => ?_
  dsimp only
  split
  · refine .bind_blind fun after => ?_
    split
    · exact agrees_literalExpression
    · exact operator .minus index
  · exact operator .plus index
  · exact operator .not index
  · exact operator .tilde index
  · exact .bind_blind fun _ => agrees_prefixStep _
  · exact .bind_blind fun _ => agrees_prefixStep _
  · refine .bind_blind fun isCast => ?_
    split
    · refine .bind_blind fun _ => .bind_blind fun wanted => .bind_blind fun _ => ?_
      exact .bind_loose hu fun _ _ _ => .still
    · exact agrees_primary he
  · exact agrees_primary he

theorem agrees_memberLevel (hu : Agrees true unary unary) (he : Agrees true expression expression) :
    Agrees true (memberLevel unary expression) (memberLevel unary expression) := by
  unfold memberLevel
  refine .bind_loop hu (fun type => ?_) (fun type => inferInstance) (fun type type' => ?_)
  · refine .seq fun isArrow => ?_
    split
    · refine .seq fun a => ?_
      cases a <;> infer_instance
    · infer_instance
  · refine .bind_blind fun isArrow => ?_
    cases isArrow with
    | true =>
      refine .bind (agrees_accessor he type type') fun a a' h => ?_
      cases h with
      | called => exact .pure (.again ..)
      | pending m m' => exact .bind_still fun _ _ => .pure (.again ..)
    | false => exact .pure (.done ..)

/-- Steps are no binary operators. -/
theorem agrees_binaryLevel {operators : List Kind} {operand : Walk ValueType}
    [Respects .plain 0 operand] (ho : Agrees true operand operand)
    (hi : operators.contains .increment = false) (hd : operators.contains .decrement = false) :
    Agrees true (binaryLevel operators operand) (binaryLevel operators operand) := by
  unfold binaryLevel
  refine .bind_loop ho (fun left => ?_)
    (fun left => ⟨fun hpass hrunning hstuck => ?_⟩) fun left left' => ?_
  · refine .seq fun next => ?_
    split <;> infer_instance
  -- A step is no operator of this level.
  · rcases hstuck.peek_eq with hpeek | hpeek <;> rw [bind_of_ok hpeek] <;> dsimp only
    · rw [hi]
      exact .still _ hpass hrunning hstuck
    · rw [hd]
      exact .still _ hpass hrunning hstuck
  · refine .bind_blind fun next => ?_
    cases next with
    | none => exact .pure (.done ..)
    | some op =>
      dsimp only
      split
      · refine .bind_blind fun index => .bind_blind fun _ => .bind_loose ho fun right right' _ => ?_
        exact .bind_still fun _ _ => .pure (.again ..)
      · exact .pure (.done ..)

theorem agrees_expressionWith (hu : Agrees true unary unary)
    (he : Agrees true expression expression) :
    Agrees true (expressionWith unary expression) (expressionWith unary expression) := by
  unfold expressionWith
  refine agrees_binaryLevel (agrees_binaryLevel (agrees_binaryLevel (agrees_binaryLevel
    (agrees_memberLevel hu he) ?_ ?_) ?_ ?_) ?_ ?_) ?_ ?_ <;> decide

end Rules

theorem agrees_upTo (n : Nat) : Agrees true (unaryUpTo n) (unaryUpTo n) ∧
    Agrees true (expressionUpTo n) (expressionUpTo n) := by
  induction n with
  | zero => exact ⟨.never (y := throw .broken), .never (y := throw .broken)⟩
  | succ n ih =>
    have := (respects_upTo (g := .plain) (b := 0) n).1
    have := (respects_upTo (g := .plain) (b := 0) n).2
    exact ⟨agrees_unaryWith ih.1 ih.2, agrees_expressionWith ih.1 ih.2⟩

theorem agrees_unary : Agrees true unary unary := by
  unfold unary
  exact .bind_blind fun n => (agrees_upTo _).1

theorem agrees_expression : Agrees true expression expression := by
  unfold expression
  exact .bind_blind fun n => (agrees_upTo _).2

/-! ### Places -/

theorem agrees_memberPlace : Agrees l memberPlace memberPlace := by
  unfold memberPlace
  refine .bind_loop agrees_unary (fun type => ?_) (fun type => ?_) fun type type' => ?_
  · refine .seq fun index => .seq fun a => ?_
    cases a <;> infer_instance
  · unfold accessor
    infer_instance
  · refine .bind_blind fun index =>
      .bind (agrees_accessor agrees_expression type type') fun a a' h => ?_
    cases h with
    | pending m m' =>
      refine .bind_blind fun isArrow => ?_
      cases isArrow with
      | true => exact .bind_still fun _ _ => .pure (.again ..)
      | false => exact .pure (.done ..)
    | called type type' =>
      refine .bind_blind fun isArrow => ?_
      cases isArrow with
      | true => exact .pure (.again ..)
      -- A call is no place to assign to.
      | false => exact .never (y := errorAt index .illegalAssignment _)

theorem agrees_variablePlace : Agrees l variablePlace variablePlace := by
  unfold variablePlace
  refine .bind_blind fun index => .bind_blind fun path => .bind_still fun found found' => ?_
  refine .bind_blind fun isIndexed => ?_
  cases isIndexed with
  | true =>
    refine .bind (agrees_closedIndex agrees_expression) fun _ _ _ => ?_
    cases found <;> cases found' <;> exact .still
  | false => cases found <;> cases found' <;> exact .still

theorem agrees_assignmentPlace : Agrees l assignmentPlace assignmentPlace := by
  unfold assignmentPlace
  refine .bind_blind fun pos => .bind_blind fun count => ?_
  split
  · exact .never (y := throw .broken >>= fun _ => _)
  · have ahead : Blind (view fun s => arrowAhead s.tokens pos) := .view fun _ _ h _ => by rw [h]
    refine .bind_blind fun isMember => ?_
    split
    · exact agrees_memberPlace
    · exact agrees_variablePlace

/-! ### Simple statements -/

theorem agrees_compoundValue (place place' : Place) (op : Kind) (index : Nat) :
    Agrees true (compoundValue place op index) (compoundValue place' op index) := by
  unfold compoundValue
  exact .bind_still fun _ _ => .bind_loose agrees_expression fun _ _ _ => .still

theorem agrees_assignedValue (place place' : Place) (kind : Kind) (index : Nat) :
    Agrees true (assignedValue place kind index) (assignedValue place' kind index) := by
  unfold assignedValue
  cases kind.compoundOperator? with
  | some op => exact agrees_compoundValue place place' op index
  | none => exact agrees_expression

theorem agrees_assignment : Agrees true assignment assignment := by
  unfold assignment
  refine .bind agrees_assignmentPlace fun place place' _ => .bind_blind fun index =>
    .bind_blind fun next => ?_
  cases next with
  | none => exact .never
  | some kind =>
    dsimp only
    split
    · refine .bind_blind fun _ => ?_
      exact .bind_loose (agrees_assignedValue place place' kind index) fun _ _ _ => .still
    · exact .never

instance (p : Pass) (place : Place) (op : Kind) : Still p (stepPlace place op) := by
  unfold stepPlace
  cases p <;> cases place <;> infer_instance

theorem agrees_formStatement (form : Form) :
    Agrees true (formStatement form) (formStatement form) := by
  cases form with
  | assignment => exact agrees_assignment
  | step =>
    exact .bind agrees_assignmentPlace fun _ _ _ => .bind_blind fun _ => .still
  | plain => exact .bind_loose agrees_expression fun _ _ _ => .still

theorem agrees_simpleStatement : Agrees true simpleStatement simpleStatement := by
  unfold simpleStatement
  refine .bind_blind fun next => ?_
  cases next with
  | some op => exact .bind_blind fun _ => .bind agrees_assignmentPlace fun _ _ _ => .still
  | none =>
    refine .bind_blind fun pos => .bind_blind fun count => ?_
    split
    · exact .never (y := throw .broken >>= fun _ => _)
    · have form : Blind (view fun s => statementForm s.tokens pos) := .view fun _ _ h _ => by rw [h]
      exact .bind_blind fun form => agrees_formStatement form

theorem agrees_conditionExpression : Agrees true conditionExpression conditionExpression := by
  unfold conditionExpression
  exact .bind_blind fun index => .bind_loose agrees_expression fun _ _ _ => .still

theorem agrees_condition : Agrees l condition condition := by
  unfold condition
  exact .bind_blind fun _ => .bind_loose agrees_conditionExpression fun _ _ _ => .same

theorem agrees_repeatCount (limit limit' : Nat) :
    Agrees l (repeatCount limit) (repeatCount limit') := by
  unfold repeatCount
  refine .bind_blind fun _ => .bind_blind fun index =>
    .bind_loose agrees_expression fun type type' _ => ?_
  refine .emitting ?_
  cases type'.primitive.isNumeric && !type'.isArray && type'.convertsTo .int with
  | true => exact .bind_blind fun _ => .still
  | false =>
    show AgreesOn l _ (errorAt index .invalidCast _ >>= fun _ => _) _
    exact .never

theorem agrees_switchedValue : Agrees l switchedValue switchedValue := by
  unfold switchedValue
  refine .bind_blind fun _ => .bind_blind fun index =>
    .bind_loose agrees_expression fun type type' _ => ?_
  exact .bind_blind fun _ => .still

theorem agrees_returnValue (index : Nat) : Agrees true (returnValue index) (returnValue index) := by
  unfold returnValue
  refine .bind_still fun wanted wanted' => .bind_blind fun isEmpty => ?_
  cases isEmpty with
  | true => exact .still
  | false => exact .bind_loose agrees_expression fun _ _ _ => .still

end StateScript.Walk
