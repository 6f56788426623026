import StateScript.Proofs.Walk.ExpressionSteps
import StateScript.Proofs.Walk.Operands

/-! # The code of calls

  The arguments of a call are compiled before it is known which function is called. What
  converts an argument to the type of its parameter is inserted only then, at the place
  where the code of the argument has ended. `code_calls` says that the code is the same as
  if each argument had been converted in place, whatever the arguments are and however deep
  calls are nested in them.
-/

namespace StateScript.Walk

set_option synthInstance.maxSize 1000000000

variable {α : Type} {expression : Walk ValueType} {f n : Nat} {code left right : List Op}
  {passed : List Passed} {types : List ValueType} {s s' s₁ : State} {x : Walk α} {a : α}

/-! ### What a call should be -/

/-- A value that is passed: what the code of its expression is, and its type. -/
structure Passed where
  code : List Op
  type : ValueType

/-- What converts a value on the stack, through a register. Values of the wanted type and
    null stay as they are. -/
def conversion (value wanted : ValueType) : Option (List Op) :=
  if value = wanted ∨ value.primitive = .null then some []
  else do
    let pop ← value.opcode? .pop
    let cast ← wanted.opcode? .cast
    let push ← wanted.opcode? .push
    return [(pop, [op1]), (cast, [op1]), (push, [op1])]

/-- Each value with its conversion right behind it. -/
def converted : List Passed → List ValueType → Option (List Op)
  | [], [] => some []
  | p :: ps, t :: ts => do return p.code ++ (← conversion p.type t) ++ (← converted ps ts)
  | _, _ => none

/-- What pushes the result of a call. -/
def pushed (type : ValueType) : Option (List Op) :=
  if type.isVoid then some []
  else do return [(← type.opcode? .push, [result])]

/-- A call in one go: the converted values, the instruction that calls, and the result. -/
def callCode (passed : List Passed) (parameters : List ValueType) (call : Op) (type : ValueType) :
    Option (List Op) := do
  return (← converted passed parameters) ++ call :: (← pushed type)

/-! ### How arguments are compiled -/

/-- The walks that compile arguments, nested in others or not. -/
def IsExpression (x : Walk ValueType) : Prop := x = Walk.expression ∨ ∃ n, x = expressionUpTo n

/-- Runs of an expression with commas between them, and the code that each has appended to
    the current function. -/
inductive Passes (expression : Walk ValueType) : State → List Passed → State → Prop
  | nil (s : State) : Passes expression s [] s
  | cons {s s₁ s₂ s₃ : State} {p : Passed} {ps : List Passed}
      (hrun : expression s = .ok p.type s₁)
      (hcode : s₁.table.code s.function = s.table.code s.function ++ p.code)
      (hcomma : eat .comma s₁ = .ok (!ps.isEmpty) s₂) (rest : Passes expression s₂ ps s₃) :
      Passes expression s (p :: ps) s₃

/-- Such runs between parentheses. -/
def Encloses (expression : Walk ValueType) (s : State) (passed : List Passed) (s' : State) : Prop :=
  ∃ s₁ s₂, expectMark .openParen s = .ok () s₁ ∧ Passes expression s₁ passed s₂ ∧
    expectMark .closeParen s₂ = .ok () s'

/-! ### Code of the current function -/

/-- The walk emits into the function `f`, which has this code by now. -/
structure Emitted (f : Nat) (code : List Op) (s : State) : Prop where
  pass : s.pass = .emit
  current : s.function = f
  function : ∃ x, s.table.function? f = some x
  code : s.table.code f = code

theorem Emitted.of_keeps {g : Grade} {b : Nat} {e : Option Stop} {code' : List Op}
    (h : Emitted f code s) (hkeeps : Keeps g b e s s₁) (hcode : s₁.table.code f = code') :
    Emitted f code' s₁ where
  pass := hkeeps.pass.trans h.pass
  current := hkeeps.function.trans h.current
  function := by
    obtain ⟨x, hx⟩ := h.function
    obtain ⟨x', hx', -⟩ := hkeeps.table.function? hx
    exact ⟨x', hx'⟩
  code := hcode

/-- What makes no code. -/
theorem Emitted.idle [hx : Respects .idle 0 x] (h : Emitted f code s) (hrun : x s = .ok a s₁) :
    Emitted f code s₁ :=
  have hkeeps := hx.ok (Nat.zero_le _) hrun
  h.of_keeps hkeeps ((hkeeps.idle (Nat.le_refl _) f).trans h.code)

/-- What makes code at the ends of functions only. -/
theorem Emitted.adding [hx : Respects .adding 0 x] (h : Emitted f code s) (hrun : x s = .ok a s₁) :
    ∃ new, Emitted f (code ++ new) s₁ := by
  have hkeeps := hx.ok (Nat.zero_le _) hrun
  obtain ⟨new, hnew⟩ := hkeeps.code rfl f
  exact ⟨new, h.of_keeps hkeeps (by rw [← hnew, h.code])⟩

theorem Emitted.emit {op : Opcode} {operands : List Operand} {u : Unit} (h : Emitted f code s)
    (hrun : emit op operands s = .ok u s₁) : Emitted f (code ++ [(op, operands)]) s₁ := by
  have adding : Respects .adding 0 (Walk.emit op operands) := inferInstance
  obtain ⟨x, hx⟩ := h.function
  have hemits : s.Emits := ⟨h.pass, by rw [h.current, hx]; rfl⟩
  obtain ⟨s', hrun', happends⟩ := appends_emit hemits op operands
  cases hrun.symm.trans hrun'
  refine h.of_keeps (adding.ok (Nat.zero_le _) hrun) ?_
  rw [happends.code, if_pos h.current.symm, h.code]

theorem Emitted.emitAt {op : Opcode} {operands : List Operand} {u : Unit}
    (h : Emitted f (left ++ right) s) (hrun : emitAt left.length op operands s = .ok u s₁) :
    Emitted f (left ++ (op, operands) :: right) s₁ := by
  have patching : Respects .patching 0 (Walk.emitAt left.length op operands) := inferInstance
  refine h.of_keeps (patching.ok (Nat.zero_le _) hrun) ?_
  obtain ⟨x, hx⟩ := h.function
  rcases emitAt_of_emit left.length op operands h.pass with hrun' | hrun' <;>
    cases hrun.symm.trans hrun'
  have hcode := code_emit_insertAt s op operands left.length
  rw [h.current, h.code, hx, List.take_left, List.drop_left] at hcode
  rcases hcode with ⟨-, hnone⟩ | hcode
  · cases hnone
  · exact hcode

theorem opcode?_of_opcodeFor {t : ValueType} {op : Operation} {opcode : Opcode}
    (hpass : s.pass = .emit) (h : opcodeFor t op s = .ok opcode s₁) :
    t.opcode? op = some opcode := by
  unfold opcodeFor at h
  cases hopcode : t.opcode? op with
  | some found =>
    rw [hopcode] at h
    cases h
    rfl
  | none =>
    rw [hopcode] at h
    dsimp only at h
    rw [emitting_bind_emit hpass, if_pos rfl] at h
    exact absurd h (Never.ne_ok _ _ _)

theorem Emitted.pushResult {type : ValueType} {u : Unit} (h : Emitted f code s)
    (hrun : pushResult type s = .ok u s₁) :
    ∃ new, pushed type = some new ∧ Emitted f (code ++ new) s₁ := by
  unfold pushed
  cases hvoid : type.isVoid with
  | true =>
    rw [Walk.pushResult, hvoid] at hrun
    cases hrun
    exact ⟨[], rfl, by rwa [List.append_nil]⟩
  | false =>
    rw [Walk.pushResult, hvoid] at hrun
    obtain ⟨push, s₂, hpush, hrun⟩ := bind_eq_ok.1 hrun
    refine ⟨[(push, [result])], ?_, (h.idle hpush).emit hrun⟩
    rw [if_neg Bool.false_ne_true, opcode?_of_opcodeFor h.pass hpush]
    rfl

/-! ### Conversions -/

theorem needsCast_eq_true {value wanted : ValueType} :
    needsCast value wanted = true ↔ ¬ (value = wanted ∨ value.primitive = .null) := by
  simp [needsCast]

/-- A conversion goes where the code of the argument ends. -/
theorem Emitted.castArgument {type wanted : ValueType} {u : Unit} (h : Emitted f (left ++ right) s)
    (hrun : castArgument ⟨type, left.length⟩ wanted s = .ok u s₁) :
    ∃ new, conversion type wanted = some new ∧ Emitted f (left ++ new ++ right) s₁ := by
  unfold Walk.castArgument at hrun
  unfold conversion
  split at hrun
  · next hcast =>
    rw [if_neg (needsCast_eq_true.1 hcast)]
    obtain ⟨pop, s₂, hpop, hrun⟩ := bind_eq_ok.1 hrun
    obtain ⟨cast, s₃, hcast, hrun⟩ := bind_eq_ok.1 hrun
    obtain ⟨push, s₄, hpush, hrun⟩ := bind_eq_ok.1 hrun
    obtain ⟨_, s₅, hfirst, hrun⟩ := bind_eq_ok.1 hrun
    obtain ⟨_, s₆, hsecond, hthird⟩ := bind_eq_ok.1 hrun
    have h₂ := h.idle hpop
    have h₃ := h₂.idle hcast
    have h₅ := (h₃.idle hpush).emitAt hfirst
    -- The value is taken off the stack, converted in a register and put back.
    refine ⟨[(pop, [op1]), (cast, [op1]), (push, [op1])], ?_, ?_⟩
    · rw [opcode?_of_opcodeFor h.pass hpop, opcode?_of_opcodeFor h₂.pass hcast,
        opcode?_of_opcodeFor h₃.pass hpush]
      rfl
    · have h₆ : Emitted f ((left ++ [(pop, [op1])]) ++ (cast, [op1]) :: right) s₆ :=
        Emitted.emitAt (by simpa using h₅) (by simpa using hsecond)
      have h₇ : Emitted f ((left ++ [(pop, [op1]), (cast, [op1])]) ++ (push, [op1]) :: right) s₁ :=
        Emitted.emitAt (by simpa using h₆) (by simpa using hthird)
      simpa using h₇
  · next hcast =>
    cases hrun
    rw [needsCast_eq_true, not_not] at hcast
    exact ⟨[], by rw [if_pos hcast], by simpa using h⟩

/-- Where the code of each argument ends if that of the first starts at `n`. -/
def marks (n : Nat) : List Passed → List Argument
  | [] => []
  | p :: ps => ⟨p.type, n + p.code.length⟩ :: marks (n + p.code.length) ps

theorem length_marks (n : Nat) (passed : List Passed) :
    (marks n passed).length = passed.length := by
  induction passed generalizing n with
  | nil => rfl
  | cons p ps ih => simp [marks, ih]

theorem type_marks (n : Nat) (passed : List Passed) :
    (marks n passed).map (·.type) = passed.map (·.type) := by
  induction passed generalizing n with
  | nil => rfl
  | cons p ps ih => simp [marks, ih]

theorem castArguments_cons (arg : Argument) (args : List Argument) (wanted : ValueType)
    (types : List ValueType) :
    castArguments (arg :: args) (wanted :: types) =
      castArguments args types >>= fun _ => castArgument arg wanted := by
  simp [castArguments, List.forM_append]

/-- The conversions go in from the last to the first, so that the ends of the arguments in
    front stay where they were. -/
theorem Emitted.castArguments {u : Unit} (hlength : passed.length = types.length)
    (h : Emitted f (left ++ passed.flatMap (·.code) ++ right) s)
    (hrun : castArguments (marks left.length passed) types s = .ok u s₁) :
    ∃ new, converted passed types = some new ∧ Emitted f (left ++ new ++ right) s₁ := by
  induction passed generalizing left types s₁ u with
  | nil =>
    cases types with
    | nil =>
      cases hrun
      exact ⟨[], rfl, h⟩
    | cons t ts => cases hlength
  | cons p ps ih =>
    cases types with
    | nil => cases hlength
    | cons t ts =>
      rw [marks, castArguments_cons, ← List.length_append] at hrun
      -- The last argument is cast first, so that the places in front of it stay.
      obtain ⟨_, s₂, hrest, hfirst⟩ := bind_eq_ok.1 hrun
      have h₀ : Emitted f ((left ++ p.code) ++ ps.flatMap (·.code) ++ right) s := by simpa using h
      obtain ⟨new, hnew, h₂⟩ := ih (Nat.succ.inj hlength) h₀ hrest
      rw [List.append_assoc] at h₂
      obtain ⟨own, hown, h₁⟩ := h₂.castArgument hfirst
      refine ⟨p.code ++ own ++ new, ?_, by simpa using h₁⟩
      rw [converted, hown, hnew]
      rfl

/-- Arguments of the types of the parameters stay as they are. -/
theorem converted_self (passed : List Passed) :
    converted passed (passed.map (·.type)) = some (passed.flatMap (·.code)) := by
  induction passed with
  | nil => rfl
  | cons p ps ih => simp [converted, ih, conversion]

/-! ### Arguments -/

theorem IsExpression.respects (h : IsExpression expression) : Respects .adding 0 expression := by
  rcases h with rfl | ⟨n, rfl⟩
  · infer_instance
  · exact (respects_upTo n).2

theorem Passes.of_listed [Respects .adding 0 expression] {args : List Argument}
    (h : Listed (argument expression) s args s₁) (hs : Emitted f code s) :
    ∃ passed, args = marks code.length passed ∧ passed.isEmpty = false ∧
      Passes expression s passed s₁ ∧ Emitted f (code ++ passed.flatMap (·.code)) s₁ := by
  induction h generalizing code with
  | @last _ _ _ arg ha hend =>
    obtain ⟨hrun, hstop⟩ := argument_eq_ok ha
    obtain ⟨new, h₁⟩ := hs.adding hrun
    refine ⟨[⟨new, arg.type⟩], ?_, rfl, ?_, by simpa using h₁.idle hend⟩
    -- The mark of an argument is the length of the code behind it.
    · rw [h₁.current, h₁.code, List.length_append] at hstop
      rw [marks, marks, ← hstop]
    · refine .cons hrun ?_ hend (.nil _)
      rw [hs.current, h₁.code, hs.code]
  | @more _ _ _ _ arg _ ha hcomma _ ih =>
    obtain ⟨hrun, hstop⟩ := argument_eq_ok ha
    obtain ⟨new, h₁⟩ := hs.adding hrun
    obtain ⟨passed, hargs, hsome, hpasses, h₃⟩ := ih (h₁.idle hcomma)
    refine ⟨⟨new, arg.type⟩ :: passed, ?_, rfl, ?_, by simpa using h₃⟩
    · rw [h₁.current, h₁.code] at hstop
      rw [marks, ← List.length_append, ← hargs, ← hstop]
    · refine .cons hrun ?_ (by rw [hsome]; exact hcomma) hpasses
      rw [hs.current, h₁.code, hs.code]

theorem Encloses.of_arguments [Respects .adding 0 expression] {args : List Argument}
    (h : arguments expression s = .ok args s₁) (hs : Emitted f code s) :
    ∃ passed, args = marks code.length passed ∧ Encloses expression s passed s₁ ∧
      Emitted f (code ++ passed.flatMap (·.code)) s₁ := by
  obtain ⟨_, s₂, hopen, h⟩ := bind_eq_ok.1 h
  obtain ⟨items, s₃, hitems, h⟩ := bind_eq_ok.1 h
  obtain ⟨_, s₄, hclose, h⟩ := bind_eq_ok.1 h
  cases h
  have h₂ := hs.idle hopen
  unfold separatedUnless at hitems
  obtain ⟨isEmpty, s₅, hcheck, hitems⟩ := bind_eq_ok.1 hitems
  have h₅ := h₂.idle hcheck
  cases hcheck
  split at hitems
  · cases hitems
    exact ⟨[], rfl, ⟨_, _, hopen, .nil _, hclose⟩, by simpa using h₅.idle hclose⟩
  · obtain ⟨passed, hargs, -, hpasses, h₃⟩ := Passes.of_listed (listed_of_separated hitems) h₅
    exact ⟨passed, hargs, ⟨_, _, hopen, hpasses, hclose⟩, h₃.idle hclose⟩

/-! ### Calls -/

theorem length_of_accepts {parameters : List ValueType} (h : accepts parameters types = true) :
    parameters.length = types.length :=
  eq_of_beq (Bool.and_eq_true_iff.1 h).1

theorem length_of_chooseOverload {all : List Signature} {chosen : Signature}
    (h : chooseOverload all types = some chosen) : chosen.parameters.length = types.length := by
  rcases chooseOverload_cases h with h | h
  · have hsame := List.find?_some h
    rw [eq_of_beq hsame]
  · have haccepts := List.find?_some h
    exact length_of_accepts haccepts

/-- The end of a call: the instruction that calls, and the result. -/
theorem Emitted.called {op : Opcode} {callee : Nat} {type : ValueType} {new : List Op}
    {u u' : Unit} {s₂ : State} (hnew : converted passed types = some new)
    (h : Emitted f (code ++ new) s) (hcall : Walk.emit op [.symbol callee] s = .ok u s₁)
    (hpush : Walk.pushResult type s₁ = .ok u' s₂) :
    ∃ ops, callCode passed types (op, [.symbol callee]) type = some ops ∧
      Emitted f (code ++ ops) s₂ := by
  obtain ⟨last, hlast, h₂⟩ := (h.emit hcall).pushResult hpush
  refine ⟨new ++ (op, [.symbol callee]) :: last, ?_, by simpa using h₂⟩
  rw [callCode, hnew, hlast]
  rfl

theorem length_types_marks {parameters : List ValueType}
    (h : parameters.length = ((marks n passed).map (·.type)).length) :
    passed.length = parameters.length := by
  rw [h, List.length_map, length_marks]

/-- Calls by name. -/
theorem Emitted.call [Respects .adding 0 expression] {path : List Token} {index : Nat}
    {type : ValueType} (hs : Emitted f code s) (hrun : call expression path index s = .ok type s') :
    ∃ passed s₁ all s₂ chosen ops, Encloses expression s passed s₁ ∧
      signatures path s₁ = .ok all s₂ ∧ chooseOverload all (passed.map (·.type)) = some chosen ∧
      callCode passed chosen.parameters (.call, [.symbol chosen.id]) chosen.returnType = some ops ∧
      Emitted f (code ++ ops) s' := by
  obtain ⟨args, s₁, hargs, hrun⟩ := bind_eq_ok.1 hrun
  obtain ⟨passed, rfl, hencloses, h₁⟩ := Encloses.of_arguments hargs hs
  obtain ⟨all, s₂, hall, hrun⟩ := bind_eq_ok.1 hrun
  have h₂ := h₁.idle hall
  rw [emitting_bind_emit h₂.pass, if_pos rfl] at hrun
  split at hrun
  · exact absurd hrun (Never.ne_ok _ _ _)
  · unfold chosenCall at hrun
    dsimp only at hrun
    cases hchosen : chooseOverload all ((marks code.length passed).map (·.type)) with
    | none =>
      rw [hchosen] at hrun
      exact absurd hrun (Never.ne_ok _ _ _)
    | some chosen =>
      rw [hchosen] at hrun
      obtain ⟨_, s₃, hcasts, hrun⟩ := bind_eq_ok.1 hrun
      obtain ⟨_, s₄, hused, hrun⟩ := bind_eq_ok.1 hrun
      obtain ⟨_, s₅, hcall, hrun⟩ := bind_eq_ok.1 hrun
      obtain ⟨_, s₆, hpush, hrun⟩ := bind_eq_ok.1 hrun
      cases hrun
      -- Conversions go between the arguments, so the code behind the last one is empty.
      rw [← List.append_nil (_ ++ _)] at h₂
      obtain ⟨new, hnew, h₃⟩ :=
        h₂.castArguments (length_types_marks (length_of_chooseOverload hchosen)) hcasts
      rw [List.append_nil] at h₃
      obtain ⟨ops, hops, h₆⟩ := Emitted.called hnew (h₃.idle hused) hcall hpush
      rw [type_marks] at hchosen
      exact ⟨passed, s₁, all, s₂, chosen, ops, hencloses, hall, hchosen, hops, h₆⟩

/-- The first call of a method fixes the types of its parameters, so that there is nothing to
    convert. Later calls convert to these. -/
theorem Emitted.passToMethod {method index : Nat} {name : String} {x : Function} {u : Unit}
    (hx : s.table.function? method = some x) (h : Emitted f (code ++ passed.flatMap (·.code)) s)
    (hrun : passToMethod method (marks code.length passed) name index s = .ok u s₁) :
    ∃ new, converted passed (if x.used then x.parameterTypes else passed.map (·.type)) = some new ∧
      Emitted f (code ++ new) s₁ := by
  have patching : Respects .patching 0
      (Walk.passToMethod method (marks code.length passed) name index) :=
    inferInstance
  have hkeeps := patching.ok (Nat.zero_le _) hrun
  obtain ⟨y, hy, hkind⟩ := Table.kind?_eq_some.1 (Table.function?_eq_some.1 hx)
  have hlook : symbol method s = .ok y s := by
    unfold symbol
    rw [hy]
  unfold Walk.passToMethod at hrun
  dsimp only at hrun
  rw [bind_of_ok hlook, hkind] at hrun
  dsimp only [SymbolKind.function?] at hrun
  cases hused : x.used with
  -- Its types are known: the arguments are converted to them.
  | true =>
    rw [hused, if_pos rfl] at hrun
    rw [if_pos rfl]
    split at hrun
    · exact absurd hrun (Never.ne_ok _ _ _)
    · next haccepts =>
      have hlength := length_of_accepts (by simpa using haccepts)
      rw [← List.append_nil (_ ++ _)] at h
      obtain ⟨new, hnew, h₁⟩ := h.castArguments (length_types_marks hlength) hrun
      exact ⟨new, hnew, by simpa using h₁⟩
  -- Only the table changes, in which the types are noted.
  | false =>
    rw [hused, if_neg Bool.false_ne_true] at hrun
    rw [if_neg Bool.false_ne_true]
    refine ⟨_, converted_self passed, h.of_keeps hkeeps ?_⟩
    rcases modifyKind_cases method _ s with hrun' | hrun' <;> cases hrun.symm.trans hrun'
    exact (Table.code_modifyKind fun k => by cases k <;> rfl).trans h.code

/-- Calls through an arrow. -/
theorem Emitted.methodCall [Respects .adding 0 expression] {name : String}
    {returnType type : ValueType} {index : Nat} (hs : Emitted f code s)
    (hrun : methodCall expression name returnType index s = .ok type s') :
    ∃ method s₁ passed s₂ x ops, memberFunction name returnType s = .ok method s₁ ∧
      Encloses expression s₁ passed s₂ ∧ s₂.table.function? method = some x ∧
      callCode passed (if x.used then x.parameterTypes else passed.map (·.type))
        (.callMethod, [.symbol method]) returnType = some ops ∧ Emitted f (code ++ ops) s' := by
  obtain ⟨method, s₁, hmethod, hrun⟩ := bind_eq_ok.1 hrun
  have h₁ := hs.idle hmethod
  obtain ⟨args, s₂, hargs, hrun⟩ := bind_eq_ok.1 hrun
  obtain ⟨passed, rfl, hencloses, h₂⟩ := Encloses.of_arguments hargs h₁
  have arguments : Respects .adding 0 (arguments expression) := inferInstance
  -- The arguments leave the method in the table.
  obtain ⟨⟨x, hx⟩, -⟩ := yields_memberFunction name returnType s method s₁ hmethod
    (arguments.ok (Nat.zero_le _) hargs).table
  rw [emitting_bind_emit h₂.pass, if_pos rfl] at hrun
  obtain ⟨_, s₃, hpass, hrun⟩ := bind_eq_ok.1 hrun
  obtain ⟨_, s₄, hcall, hrun⟩ := bind_eq_ok.1 hrun
  obtain ⟨_, s₅, hpush, hrun⟩ := bind_eq_ok.1 hrun
  cases hrun
  obtain ⟨new, hnew, h₃⟩ := Emitted.passToMethod hx h₂ hpass
  obtain ⟨ops, hops, h₅⟩ := Emitted.called hnew h₃ hcall hpush
  exact ⟨method, s₁, passed, s₂, x, ops, hmethod, hencloses, hx, hops, h₅⟩

end StateScript.Walk
