import StateScript.Proofs.Walk.Nesting

/-! # Braces of statements

  A statement closes the braces that it opens, whether the second walk gets through it or
  abandons it without a report; in the latter case the walk goes on where they are closed.
-/

namespace StateScript.Walk

variable {k : Kind} {m : Modifiers} {enumeration id limit n start stop : Nat} {v : Pairs}
  {role : Role} {t t' : State} {u : Unit} {x : Walk Unit}

set_option synthInstance.maxSize 1000000000

variable {α β : Type} {cs : List Kind}

/-! ### Simple statements -/

instance (place : Place) (kind : Kind) (index : Nat) :
    Nests .all none cs cs (assignedValue place kind index) := by
  unfold assignedValue
  split <;> infer_instance

theorem Kind.neutral_of_isAssignment (h : k.isAssignment = true) : Neutral k := by
  cases k <;> first | exact ⟨rfl, rfl⟩ | cases h

instance : Nests .all none cs cs assignment := by
  unfold assignment
  refine .seq fun place => .seq fun index => ?_
  refine .peek ?_ (fun k _ => ?_) fun found => by cases found <;> infer_instance
  · exact .never (x := unexpected _)
  · dsimp only
    split
    · next h =>
      have := Kind.neutral_of_isAssignment h
      infer_instance
    · exact .never

theorem Kind.neutral_of_appliesTo {type : ValueType} (h : k.appliesTo type = true) : Neutral k := by
  unfold Kind.appliesTo at h
  split at h
  · rcases Bool.or_eq_true_iff.1 h with h | h <;> cases eq_of_beq h <;> exact ⟨rfl, rfl⟩
  · split at h <;> first | exact ⟨rfl, rfl⟩ | cases h

/-- What steps a place is an operator. -/
theorem nests_step (place : Place) :
    Nests .all none cs cs (advance >>= fun op => stepPlace place op.kind) := by
  refine .of_loud inferInstance fun {t t' a} hpass _ hrun => ?_
  obtain ⟨op, t₁, h₁, h₂⟩ := bind_eq_ok.1 hrun
  obtain ⟨hop, ht₁⟩ := advance_eq_ok h₁
  have hpass₁ : t₁.pass = .emit := by rw [ht₁, hpass]
  have hpos := (Still.stays hpass₁ h₂).1
  unfold stepPlace at h₂
  rw [emitting_bind_emit hpass₁] at h₂
  cases happlies : op.kind.appliesTo place.type with
  -- The second walk rejects a token that is no step.
  | false =>
    rw [happlies] at h₂
    obtain ⟨_, _, -, h₂⟩ := bind_eq_ok.1 h₂
    obtain ⟨_, _, h, -⟩ := bind_eq_ok.1 h₂
    exact absurd h (Never.ne_ok _ _ _)
  | true =>
    have := Kind.neutral_of_appliesTo happlies
    unfold Reaches
    rw [hpos, ht₁]
    exact .inl (nested_token op.kind hop rfl)

instance (form : Form) : Nests .all none cs cs (formStatement form) := by
  cases form with
  | assignment => exact inferInstanceAs (Nests .all none cs cs assignment)
  | step => exact .seq fun place => nests_step place
  | plain => exact inferInstanceAs (Nests .all none cs cs do
      let type ← expression
      if !type.isVoid then emit .popDestroy [])

instance (index : Nat) : Nests .all none cs cs (returnValue index) := by
  unfold returnValue
  refine .seq fun wanted => .check (Nests.know ?_) ?_
  · infer_instance
  · infer_instance

/-! ### What encloses statements -/

section Enclosing

variable {v : Pairs} {next : Option Kind} {cs' : List Kind}

theorem Nests.enclosed {w x : Walk α} (e : Enclosure w x) (hx : Nests v next cs cs' x)
    (hw : Respects .any 0 w) : Nests v next cs cs' w where
  respects := hw
  ok {t t' a} hpass hfaithful hahead hrun hlog := by
    obtain ⟨t₁, h₁, rfl⟩ := e.eq_ok.1 hrun
    rw [(e.left t t₁).log] at hlog
    have hreach := hx.ok ((e.entered t).pass.trans hpass) ?_ ?_ h₁ hlog
    · unfold Reaches at *
      rwa [(e.left t t₁).pos, ← (e.entered t).tokens, ← (e.entered t).pos]
    · unfold State.Faithful
      rwa [(e.entered t).rejected, (e.entered t).log]
    · exact hahead.still (e.entered t).tokens (e.entered t).pos
  stop {t t'} hpass hfaithful hahead hrun hlog := by
    obtain ⟨t₁, h₁, rfl⟩ := e.eq_error.1 hrun
    rw [(e.left t t₁).log] at hlog
    have hreach := hx.stop ((e.entered t).pass.trans hpass) ?_ ?_ h₁ hlog
    · unfold Reaches at *
      rwa [(e.left t t₁).pos, ← (e.entered t).tokens, ← (e.entered t).pos]
    · unfold State.Faithful
      rwa [(e.entered t).rejected, (e.entered t).log]
    · exact hahead.still (e.entered t).tokens (e.entered t).pos

variable (x : Walk Unit) [hx : Nests v next cs cs' x]

instance : Nests v next cs cs' (inScope id x) :=
  have := hx.respects
  .enclosed (.inScope id x) hx inferInstance

instance : Nests v next cs cs' (inBlock x) :=
  have := hx.respects
  .enclosed (.inBlock x) hx inferInstance

instance (breakTarget : Nat) (continueTarget counter : Option Nat) :
    Nests v next cs cs' (inLoop breakTarget continueTarget counter x) :=
  have := hx.respects
  .enclosed (.inLoop breakTarget continueTarget counter x) hx inferInstance

instance (e : Exclusion) (index : Nat) : Nests v next cs cs' (inRegion e index x) :=
  have := hx.respects
  .enclosed (.inRegion e index x) hx inferInstance

instance [Respects .loud 0 x] : Nests v next cs cs' (inFunctionOf id x) :=
  .enclosed (.inFunctionOf id x) inferInstance inferInstance

end Enclosing

/-! ### Statements -/

instance : Nests .braces none cs cs expression := .braces inferInstance
instance : Nests .braces none cs cs simpleStatement := .braces inferInstance
instance : Nests .braces none cs cs conditionExpression := .braces inferInstance
instance : Nests .braces none cs cs condition := .braces inferInstance
instance : Nests .braces none cs cs switchedValue := .braces inferInstance
instance (index : Nat) : Nests .braces none cs cs (returnValue index) := .braces inferInstance
instance : Nests .braces none cs cs typeSpecifier := .braces inferInstance
instance : Nests .braces none cs cs qualifiedPath := .braces inferInstance
instance (ends : List Kind) : Nests .braces none cs cs (foldedLiteral? ends) :=
  .braces inferInstance

instance : Neutral .kwIf := ⟨rfl, rfl⟩
instance : Neutral .kwElse := ⟨rfl, rfl⟩
instance : Neutral .kwWhile := ⟨rfl, rfl⟩
instance : Neutral .kwDo := ⟨rfl, rfl⟩
instance : Neutral .kwFor := ⟨rfl, rfl⟩
instance : Neutral .kwSwitch := ⟨rfl, rfl⟩
instance : Neutral .kwReturn := ⟨rfl, rfl⟩
instance : Neutral .kwBreak := ⟨rfl, rfl⟩
instance : Neutral .kwContinue := ⟨rfl, rfl⟩
instance : Neutral .kwGoto := ⟨rfl, rfl⟩
instance : Neutral .kwGotoState := ⟨rfl, rfl⟩
instance : Neutral .kwLock := ⟨rfl, rfl⟩
instance : Neutral .kwAtom := ⟨rfl, rfl⟩
instance : Neutral .kwBreakpoint := ⟨rfl, rfl⟩
instance : Neutral .kwState := ⟨rfl, rfl⟩
instance : Neutral .kwEngine := ⟨rfl, rfl⟩
instance : Neutral .kwEditor := ⟨rfl, rfl⟩
instance : Neutral .kwEnum := ⟨rfl, rfl⟩
instance : Neutral .kwNamespace := ⟨rfl, rfl⟩

instance (index : Nat) : Still .emit (retrieve index role) := by
  have found : ∀ id, Still .emit (change fun s : State =>
      { s with recalled := ⟨index, role, id, s.function, s.regions⟩ :: s.recalled }) :=
    fun id => .of_eq fun s => ⟨_, _, rfl, rfl, rfl⟩
  unfold retrieve declared? isRejected
  refine .seq fun id => ?_
  cases id <;> infer_instance

instance (index : Nat) (create : Walk Nat) : Still .emit (keyed index role create) := by
  unfold keyed
  infer_instance

instance (index : Nat) : Still .emit (target index role) := by
  unfold target
  infer_instance

instance : Still .emit (makeVisible id) := by
  refine .of_eq fun s => ⟨_, _, rfl, ?_, ?_⟩ <;> dsimp only <;> split <;> rfl

instance (index : Nat) (name : String) (type : ValueType) :
    Still .emit (internalLocal index role name type) := by
  unfold internalLocal
  infer_instance

instance : Still .emit inFunction := inferInstanceAs (Still .emit (view _))

instance : Still .emit requireToken := by
  unfold requireToken atEnd
  infer_instance

instance {g : Grade} [g.Within .loud] (function : Nat) (all : List Parameter) :
    Respects g 0 (declareParameters function all) :=
  .declareParameters (fun _ _ => Nat.zero_le _) function

/-! ### What the second walk does in place -/

theorem declaring_of_emit (hpass : t.pass = .emit) : declaring x t = .ok () t := by
  unfold declaring
  rw [emitting_bind_emit hpass]
  rfl

instance : Still .emit (declaring x) where
  stays hpass hrun := by
    cases (declaring_of_emit hpass).symm.trans hrun
    exact ⟨rfl, hpass⟩
  lasts := nofun

instance : Still .emit (finishFunction id) := by
  have each : ∀ x : Nat × String, Still .emit (reportAt x.1 .unusedSymbol .warning
      s!"'{x.2}' is never read") := inferInstance
  unfold finishFunction checkUnused
  infer_instance

/-- The last turn of a loop. -/
theorem iterate_eq_ok {turn : α → Walk (Turn α β)} {a : α} {t : State} {b : β}
    (h : iterate turn n a t = .ok b t') : ∃ a₁ t₁, turn a₁ t₁ = .ok (.done b) t' := by
  induction n generalizing a t with
  | zero => cases h
  | succ n ih =>
    obtain ⟨r, t₁, h₁, h₂⟩ := bind_eq_ok.1 h
    cases r with
    | again a => exact ih h₂
    | done b =>
      cases h₂
      exact ⟨a, t, h₁⟩

theorem loop_eq_ok {turn : α → Walk (Turn α β)} {a : α} {b : β} (h : loop a turn t = .ok b t') :
    ∃ a₁ t₁, turn a₁ t₁ = .ok (.done b) t' := by
  obtain ⟨n, t₁, -, h⟩ := bind_eq_ok.1 h
  exact iterate_eq_ok h

/-- Statements stop at a token that stops them. -/
theorem statementsUntil_eq_ok {inner : Walk Unit} {stops : Kind → Bool}
    (h : statementsUntil stops inner t = .ok u t') :
    ∃ x, t'.tokens[t'.pos]? = some x ∧ stops x.kind = true := by
  obtain ⟨_, t₁, h⟩ := loop_eq_ok h
  obtain ⟨found, t₂, h₁, h₂⟩ := bind_eq_ok.1 h
  obtain ⟨rfl, hfound⟩ := peek_eq_ok h₁
  cases found with
  | none => exact absurd h₂ (Never.ne_ok _ _ _)
  | some k =>
    dsimp only at h₂
    split at h₂
    · next hstops =>
      cases h₂
      obtain ⟨x, hx, rfl⟩ := Option.map_eq_some_iff.1 hfound
      exact ⟨x, hx, hstops⟩
    · obtain ⟨_, t₃, -, h₂⟩ := bind_eq_ok.1 h₂
      cases h₂

section Inner

variable (inner : Walk Unit) [Respects .any 0 inner] [Respects .loud 0 inner]
  [hinner : ∀ cs, Nests .braces none cs cs inner]

instance : Nests .braces (some .kwWhile) cs cs (whileStatement inner) := by
  unfold whileStatement
  infer_instance

instance : Nests .braces none (.closeBrace :: cs) cs (blockContents inner) := by
  unfold blockContents
  refine .bind_ahead (k := some .closeBrace) inferInstance (fun h k hk => ?_) fun _ =>
    inferInstance
  obtain ⟨x, hx, hkind⟩ := statementsUntil_eq_ok h
  rw [hx, ← hk]
  exact congrArg some (eq_of_beq hkind)

end Inner

instance (type : ValueType) : Nests .braces none cs cs (caseLabel type) := by
  unfold caseLabel
  refine .seq fun found => ?_
  cases found with
  | some t => infer_instance
  | none =>
    refine .seq fun index => .seq fun path => ?_
    refine .seq fun id => ?_
    cases id with
    | some id =>
      refine .seq fun _ => .seq fun x => ?_
      split <;> infer_instance
    | none => infer_instance

theorem clauseKind_eq_ok (h : clauseKind t = .ok k t') :
    (∃ x, t.tokens[t.pos]? = some x ∧ x.kind = k) ∧ (k = .kwCase ∨ k = .kwDefault) ∧
      t' = { t with pos := t.pos + 1 } := by
  unfold clauseKind at h
  rw [position_bind] at h
  obtain ⟨x, t₁, h₁, h⟩ := bind_eq_ok.1 h
  obtain ⟨hx, ht₁⟩ := advance_eq_ok h₁
  split at h
  · next hk =>
    cases h
    exact ⟨⟨x, hx, rfl⟩, by simpa using hk, ht₁⟩
  · obtain ⟨_, t₂, -, h⟩ := bind_eq_ok.1 h
    exact absurd h (Never.ne_ok _ _ _)

instance : Neutral .kwCase := ⟨rfl, rfl⟩
instance : Neutral .kwDefault := ⟨rfl, rfl⟩

instance : Nests .braces none cs cs clauseKind := by
  refine .of_loud inferInstance fun {t t' k} hpass _ hrun => ?_
  obtain ⟨⟨x, hx, hkind⟩, hk, rfl⟩ := clauseKind_eq_ok hrun
  rcases hk with rfl | rfl <;> exact .inl (nested_token _ hx hkind)

instance (test : Option Nat) (next : Nat) : Still .emit (pendingTest test next) := by
  unfold pendingTest
  cases test <;> infer_instance

instance (start : Option Nat) : Still .emit (defaultJump start) := by
  unfold defaultJump
  cases start <;> infer_instance

section Clauses

variable (inner : Walk Unit) [Respects .any 0 inner] [Respects .loud 0 inner]
  [hinner : ∀ cs, Nests .braces none cs cs inner]

omit [Respects .any 0 inner] [Respects .loud 0 inner] hinner in
theorem clausesUntilBrace_eq_ok {value : Nat} {type : ValueType} {clauses : Clauses}
    (h : clausesUntilBrace inner value type t = .ok clauses t') : t'.Ahead (some .closeBrace) := by
  obtain ⟨_, t₁, h⟩ := loop_eq_ok h
  obtain ⟨isNext, t₂, h₁, h₂⟩ := bind_eq_ok.1 h
  obtain ⟨rfl, hnext⟩ := check_eq_ok h₁
  cases isNext with
  | true =>
    cases h₂
    rintro k ⟨⟩
    exact Option.map_eq_some_iff.2 (hnext.1 rfl)
  | false =>
    obtain ⟨_, t₃, -, h₂⟩ := bind_eq_ok.1 h₂
    cases h₂

instance (value : Nat) (type : ValueType) :
    Nests .braces none (.closeBrace :: cs) cs (switchClauses inner value type stop) := by
  unfold switchClauses
  exact .bind_ahead (k := some .closeBrace) inferInstance (clausesUntilBrace_eq_ok inner) fun _ =>
    inferInstance

/-! ### Jumps and regions -/

end Clauses

/-- A token that is looked at by its place. -/
theorem tokenAt_position_bind (f : Option Token → Walk α) (t : State) :
    (position >>= fun i => tokenAt i >>= f) t = f t.tokens[t.pos]? t := rfl

instance (isParenthesised : Bool) : Nests .braces none cs cs (depthNumber isParenthesised) := by
  refine .of_loud inferInstance fun {t t' n} hpass _ hrun => ?_
  unfold depthNumber at hrun
  rw [tokenAt_position_bind] at hrun
  generalize hx : t.tokens[t.pos]? = x at hrun
  split at hrun
  · next text _ _ _ =>
    generalize Number.decimalWord? text.toList = depth at hrun
    split at hrun
    · cases hrun
      have : Neutral .integerLiteral := ⟨rfl, rfl⟩
      exact .inl (nested_token .integerLiteral hx rfl)
    · exact absurd hrun (Never.ne_ok _ _ _)
  · split at hrun
    · exact absurd hrun (Never.ne_ok _ _ _)
    · cases hrun
      exact .inl (.refl ..)

instance : Nests .braces (some .kwContinue) cs cs continueStatement := by
  unfold continueStatement
  refine .after inferInstance inferInstance fun _ => .after inferInstance inferInstance fun _ => ?_
  refine .seq fun _ => .seq fun _ => .seq fun _ => ?_
  refine .seq fun targets => ?_
  split <;> infer_instance

/-- A label is a name and a colon. -/
theorem labelStatement_eq_ok (hpass : t.pass = .emit) (h : labelStatement t = .ok u t') :
    t'.pos = t.pos + 2 := by
  unfold labelStatement at h
  obtain ⟨_, t₁, h₁, h⟩ := bind_eq_ok.1 h
  obtain ⟨hpos₁, hpass₁⟩ := Still.stays hpass h₁
  rw [position_bind] at h
  obtain ⟨name, t₂, h₂, h⟩ := bind_eq_ok.1 h
  obtain ⟨_, t₃, h₃, h⟩ := bind_eq_ok.1 h
  obtain ⟨-, ht₂⟩ := advance_eq_ok h₂
  have ht₃ : t₃ = { t₂ with pos := t₂.pos + 1 } := by
    cases h₃
    rfl
  have hpass₃ : t₃.pass = .emit := by rw [ht₃, ht₂, hpass₁]
  rw [(Still.stays hpass₃ h).1, ht₃, ht₂, hpos₁]

theorem nests_label : Nests .braces (some .identifier) cs cs (peekAt 1 >>= fun next =>
    if next == some .colon then labelStatement else plainStatement) := by
  have plain : Nests .braces none cs cs plainStatement := inferInstance
  have loud : Respects .loud 0 (peekAt 1 >>= fun next =>
    if next == some .colon then labelStatement else plainStatement) := inferInstance
  refine ⟨loud.weaken, fun {t t' a} hpass hfaithful hahead hrun hlog => ?_,
    fun hpass hfaithful _ hrun hlog => absurd hrun (loud.not_abandoned hpass hfaithful hlog)⟩
  obtain ⟨found, t₁, h₁, h₂⟩ := bind_eq_ok.1 hrun
  obtain ⟨rfl, hfound⟩ := peekAt_eq_ok h₁
  split at h₂
  · next hc =>
    obtain ⟨x, hx, hkind⟩ := State.Ahead.token hahead
    rw [eq_of_beq hc] at hfound
    obtain ⟨y, hy, hkind'⟩ := Option.map_eq_some_iff.1 hfound
    -- The name and the colon open nothing.
    have h : Nested .braces t.tokens cs t.pos cs (t.pos + 2) :=
      (nested_token .identifier hx hkind).trans (nested_token .colon hy hkind')
    unfold Reaches
    rw [labelStatement_eq_ok hpass h₂]
    exact .inl h
  · exact plain.ok hpass hfaithful (.none _) h₂ hlog

section Regions

variable (inner : Walk Unit) [Respects .any 0 inner] [Respects .loud 0 inner]
  [hinner : ∀ cs, Nests .braces none cs cs inner]

/-! ### Variables and functions -/

end Regions

theorem refuse_of_emit {index : Nat} {code : Code} {message : String} (hpass : t.pass = .emit) :
    refuse index code message t = .ok () t := by
  unfold refuse
  rw [emitting_bind_emit hpass]
  rfl

theorem reject_of_emit {index : Nat} {code : Code} {message : String} (hpass : t.pass = .emit) :
    (reject index code message : Walk α) t = .error .abandoned t := by
  unfold reject
  rw [bind_of_ok (refuse_of_emit hpass)]
  rfl

instance {next : Option Kind} (index : Nat) (code : Code) (message : String) [Ordinary code] :
    Nests v next cs cs (reject index code message : Walk α) where
  respects := inferInstance
  ok hpass _ _ hrun _ := by cases (reject_of_emit hpass).symm.trans hrun
  stop hpass _ _ hrun _ := by
    cases (reject_of_emit hpass).symm.trans hrun
    exact ⟨cs, .inl (.refl ..)⟩

theorem Modifiers.neutral_of_add? {r : Modifiers × Bool} (h : m.add? k = some r) : Neutral k := by
  unfold Modifiers.add? at h
  split at h <;> first | exact ⟨rfl, rfl⟩ | cases h

instance : Nests .braces none cs cs modifiers := by
  unfold modifiers
  refine .loop (fun m => .peek inferInstance (fun k _ => ?_) fun found => ?_) _
  · dsimp only
    split
    · infer_instance
    · next h =>
      have := Modifiers.neutral_of_add? h
      infer_instance
  · split
    · infer_instance
    · split <;> infer_instance

instance : Nests .braces none cs cs (globalInitializer id) :=
  .enclosed (.globalInitializer id) inferInstance inferInstance

section Functions

variable (inner : Walk Unit) [Respects .any 0 inner] [Respects .loud 0 inner]
  [hinner : ∀ cs, Nests .braces none cs cs inner]

instance : Nests .braces none cs cs (declaration inner) := by
  unfold declaration
  infer_instance

/-! ### `for` loops -/

/-- The increment of a `for` loop ends where its parenthesis is closed. -/
theorem nested_increment {t₁ : State} {next : Nat} {u' : Unit} (hpass : t.pass = .emit)
    (hfaithful : t.Faithful) (h : simpleUnless .closeParen t = .ok u t₁)
    (h' : expectMark .closeParen t₁ = .ok u' t') (hlog : t₁.log.hasErrors = false)
    (hnext : closing? t.tokens .openParen .closeParen t.pos 1 = some next) :
    Nested .braces t.tokens cs t.pos cs next := by
  obtain ⟨⟨x, hx, hkind⟩, -⟩ := expectMark_eq_ok h'
  have hnests : Nests .all none [] [] (simpleUnless .closeParen) := by
    unfold simpleUnless
    infer_instance
  rw [(hnests.respects.ok (Nat.zero_le _) h).tokens] at hx
  rcases hnests.ok hpass hfaithful (.none _) h hlog with h | ⟨h, -⟩
  · have hdone : closing? t.tokens .openParen .closeParen t₁.pos 1 = some (t₁.pos + 1) :=
      scanFrom_done hx (by rw [hkind]; rfl)
    have hpair : Kind.openParen.closer? = some .closeParen := rfl
    have hclosed := (closing?_nested hpair h Nat.one_pos).trans hdone
    -- The scan ends where the increment does.
    cases hnext.symm.trans hclosed
    exact .trans (h.braces.append cs) (nested_token .closeParen hx hkind)
  · cases h

/-- The rest of a `for` loop behind its body: the increment, and the end. -/
theorem forIncrement_eq_ok {increment : Nat}
    (hpass : t.pass = .emit) (hfaithful : t.Faithful)
    (hrun : (do
      let next ← position
      moveTo increment
      simpleUnless .closeParen
      expectMark .closeParen
      moveTo next
      jump .jump start
      bind stop : Walk Unit) t = .ok u t') (hlog : t'.log.hasErrors = false) {next : Nat}
    (hnext : closing? t.tokens .openParen .closeParen increment 1 = some next) :
    t'.pos = t.pos ∧ Nested .braces t.tokens cs increment cs next := by
  rw [position_bind, moveTo_bind] at hrun
  obtain ⟨_, t₁, h₁, hrun⟩ := bind_eq_ok.1 hrun
  obtain ⟨_, t₂, h₂, hrun⟩ := bind_eq_ok.1 hrun
  rw [moveTo_bind] at hrun
  have simple : Respects .any 0 (simpleUnless .closeParen) := inferInstance
  have mark : Respects .any 0 (expectMark .closeParen) := inferInstance
  have last : Respects .any 0 (jump .jump start >>= fun _ => Walk.bind stop) := inferInstance
  -- An error in the increment would still be in the log.
  have hlog₂ : t₂.log.hasErrors = false :=
    hasErrors_eq_false_mono (last.ok (Nat.zero_le _) hrun).log hlog
  have hlog₁ := hasErrors_eq_false_mono (mark.ok (Nat.zero_le _) h₂).log hlog₂
  have hpass₂ : t₂.pass = .emit :=
    (mark.ok (Nat.zero_le _) h₂).pass.trans ((simple.ok (Nat.zero_le _) h₁).pass.trans hpass)
  refine ⟨?_, nested_increment (t := { t with pos := increment }) hpass hfaithful h₁ h₂ hlog₁ hnext⟩
  exact (Still.stays (s := { t₂ with pos := t.pos }) hpass₂ hrun).1

omit [Respects .any 0 inner] in
/-- What follows the condition of a `for` loop. -/
theorem nests_forRest (start resume stop : Nat) : Nests .braces none cs cs (do
    let increment ← position
    skipBalanced .openParen .closeParen
    inLoop stop (some resume) none (body inner)
    bind resume
    let next ← position
    moveTo increment
    simpleUnless .closeParen
    expectMark .closeParen
    moveTo next
    jump .jump start
    bind stop) := by
  have loud : Respects .loud 0 (do
    let increment ← position
    skipBalanced .openParen .closeParen
    inLoop stop (some resume) none (body inner)
    bind resume
    let next ← position
    moveTo increment
    simpleUnless .closeParen
    expectMark .closeParen
    moveTo next
    jump .jump start
    bind stop) := inferInstance
  refine ⟨loud.weaken, fun {t t' a} hpass hfaithful hahead hrun hlog => ?_,
    fun hpass hfaithful _ hrun hlog => absurd hrun (loud.not_abandoned hpass hfaithful hlog)⟩
  rw [position_bind] at hrun
  obtain ⟨_, t₁, h₁, hrun⟩ := bind_eq_ok.1 hrun
  obtain ⟨next, hnext, ht₁⟩ := skipBalanced_eq_ok h₁
  obtain ⟨_, t₂, h₂, hrun⟩ := bind_eq_ok.1 hrun
  obtain ⟨_, t₃, h₃, hrun⟩ := bind_eq_ok.1 hrun
  have inside : Nests .braces none cs cs (inLoop stop (some resume) none (body inner)) :=
    inferInstance
  have bound : Respects .any 0 (Walk.bind resume) := inferInstance
  have rest : Respects .any 0 (do
      let next ← position
      moveTo t.pos
      simpleUnless .closeParen
      expectMark .closeParen
      moveTo next
      jump .jump start
      bind stop) := inferInstance
  have hkeeps₂ := inside.respects.ok (Nat.zero_le _) h₂
  have hkeeps₃ := bound.ok (Nat.zero_le _) h₃
  have hlog₃ := hasErrors_eq_false_mono (rest.ok (Nat.zero_le _) hrun).log hlog
  have hlog₂ := hasErrors_eq_false_mono hkeeps₃.log hlog₃
  have hpass₁ : t₁.pass = .emit := by rw [ht₁, hpass]
  have hfaithful₁ : t₁.Faithful := by rw [ht₁]; exact hfaithful
  have htokens : t₃.tokens = t.tokens := by rw [hkeeps₃.tokens, hkeeps₂.tokens, ht₁]
  have hpass₂ := hkeeps₂.pass.trans hpass₁
  have hbody := inside.ok hpass₁ hfaithful₁ (.none _) h₂ hlog₂
  obtain ⟨hpos, hincrement⟩ := forIncrement_eq_ok (hkeeps₃.pass.trans hpass₂)
    (hkeeps₃.faithful (hkeeps₂.faithful hfaithful₁)) hrun hlog (htokens.symm ▸ hnext)
  rw [htokens] at hincrement
  -- The increment lies in front of the body and is walked behind it.
  have htaken : Reaches .braces cs t cs t₁ := by rw [ht₁]; exact .inl hincrement
  have h := htaken.trans hbody (by rw [ht₁])
  unfold Reaches at *
  rwa [hpos, (Still.stays hpass₂ h₃).1]

instance (resume : Nat) : Nests .braces none cs cs (forClauses inner start resume stop) := by
  unfold forClauses
  refine .seq fun _ => .seq fun _ => .seq fun _ => ?_
  exact .seq fun _ => nests_forRest inner start resume stop

/-! ### States, enumerations, namespaces and metadata -/

end Functions

section States

variable (inner : Walk Unit) [Respects .any 0 inner] [Respects .loud 0 inner]
  [hinner : ∀ cs, Nests .braces none cs cs inner]

end States

instance : Nests .braces none cs cs namespacePath := by
  unfold namespacePath
  infer_instance

instance (owner : Nat) : Still .emit (attachMetadata owner) := by
  have taken : Still .emit (change fun s : State => { s with metadata := [] }) :=
    .of_eq fun s => ⟨_, _, rfl, rfl, rfl⟩
  unfold attachMetadata
  infer_instance

instance (index : Nat) : Still .emit (requireNamespaceLevel index) := by
  unfold requireNamespaceLevel
  infer_instance

instance (scope : Nat) (name : Token) (index : Nat) :
    Nests .braces none cs cs (namespaceWithin scope name index) := by
  unfold namespaceWithin
  infer_instance

theorem Nests.foldlM {f : β → α → Walk β} (h : ∀ b a, Nests v none cs cs (f b a)) (b : β)
    (items : List α) : Nests v none cs cs (items.foldlM f b) := by
  induction items generalizing b with
  | nil => exact inferInstanceAs (Nests v none cs cs (pure b))
  | cons a items ih => exact .bind (h b a) fun b => ih b

instance (path : List Token) (index : Nat) : Nests .braces none cs cs (namespaceOf path index) := by
  unfold namespaceOf
  exact .seq fun scope => .foldlM (fun scope name => inferInstance) scope path

section All

instance : Nests .braces none cs cs metadataEntry := by
  unfold metadataEntry
  refine .seq fun key => .seq fun _ => ?_
  refine .of_loud ?_ fun {t t' a} hpass _ hrun => ?_
  · refine .seq fun i => .seq fun t => ?_
    split <;> infer_instance
  · rw [tokenAt_position_bind] at hrun
    cases hvalue : t.tokens[t.pos]? with
    | none =>
      rw [hvalue] at hrun
      exact absurd hrun (Never.ne_ok _ _ _)
    | some value =>
      rw [hvalue] at hrun
      dsimp only at hrun
      split at hrun
      · next hkind =>
        cases hrun
        -- A value is a literal or a name.
        have : Neutral value.kind := by
          rcases Bool.or_eq_true_iff.1 hkind with h | h
          · exact Kind.neutral_of_isLiteral h
          · rw [eq_of_beq h]
            infer_instance
        exact .inl (nested_token value.kind hvalue rfl)
      · exact absurd hrun (Never.ne_ok _ _ _)

variable (inner : Walk Unit) [Respects .adding 0 inner] [Respects .loud 0 inner]
  [hinner : ∀ cs, Nests .braces none cs cs inner]

/-! ### All statements -/

instance (priority := high) {f : Bool → Walk Unit} [∀ isDebug, Respects .any 0 (f isDebug)]
    [h : ∀ isDebug, Nests v (some k) cs cs (expectMark .kwBreakpoint >>= fun _ => f isDebug)] :
    Nests v (some k) cs cs
      (view (·.flags.debug) >>= fun isDebug => expectMark .kwBreakpoint >>= fun _ =>
        f isDebug) where
  respects := inferInstance
  ok {t} := (h t.flags.debug).ok
  stop {t} := (h t.flags.debug).stop

instance : Nests .braces none cs cs (statementWith inner) := by
  unfold statementWith
  refine .peek inferInstance (fun k _ => ?_) fun found => ?_
  · split <;> rename_i h <;> first
      | (cases h; infer_instance)
      | (cases h; exact nests_label)
      | cases h
  · split <;> infer_instance

end All

/-- Where a walk goes on after it has abandoned a statement without a report. -/
theorem nested_resumption {tokens : Array Token} {p q : Nat} (h : Nested .braces tokens [] p cs q)
    (hstart : ∀ t, tokens[p]? = some t → t.kind = .closeBrace → q ≠ p) :
    Nested .braces tokens [] p [] (resumption tokens p q) ∨
      tokens.size ≤ resumption tokens p q := by
  have hbalance : (braceBalance (tokens.extract p q).toList).toNat = cs.length := by
    rw [braceBalance_nested h]
    simp
  have hend : Nested .braces tokens cs q [] (statementEnd tokens q cs.length) ∨
      tokens.size ≤ statementEnd tokens q cs.length :=
    nested_statementEnd (Nested.all_braces h nofun)
  have hle := le_statementEnd tokens q cs.length
  unfold resumption
  dsimp only
  rw [hbalance]
  split
  · next hstays =>
    -- The statement would have to start with a closing brace.
    simp only [Bool.and_eq_true, decide_eq_true_eq] at hstays
    obtain ⟨hstop, hsize⟩ := hstays
    have hq : q = p := by have := h.le; omega
    subst hq
    have hlength : cs.length = 0 := by
      have := braceBalance_nested h
      simp [braceBalance] at this
      omega
    rw [hlength] at hstop hsize
    obtain ⟨t, ht, hkind⟩ := closeBrace_of_statementEnd hstop (by rwa [hstop] at hsize)
    exact absurd rfl (hstart t ht hkind)
  · exact hend.imp_left h.trans

/-- A statement that nests braces does so if it may be abandoned. -/
theorem nests_guarded [Respects .adding 0 x] (hx : ∀ cs, Nests .braces none cs cs x)
    (hbrace : ∀ {t t' : State}, t.pass = .emit → t.Faithful → t.Ahead (some .closeBrace) →
      x t = .error .abandoned t' → t'.log.hasErrors = true) :
    Nests .braces none cs cs (guarded x) := by
  have loud : Respects .loud 0 (guarded x) := inferInstance
  refine ⟨loud.weaken, fun {t t' a} hpass hfaithful hahead hrun hlog => ?_,
    fun hpass hfaithful _ hrun hlog => absurd hrun (loud.not_abandoned hpass hfaithful hlog)⟩
  cases hrun' : x t with
  | ok a t₁ =>
    cases (guarded_of_ok hrun').symm.trans hrun
    exact (hx cs).ok hpass hfaithful hahead hrun' hlog
  | error e t₁ =>
    by_cases he : e = .abandoned
    · subst he
      rw [guarded_of_abandoned hrun'] at hrun
      split at hrun
      -- The tokens up to where the walk resumes nest as well.
      · have hkeeps := (hx []).respects.error (Nat.zero_le _) hrun'
        obtain ⟨blocks, hrecover⟩ := State.recover_eq hkeeps
        rw [hrecover, hkeeps.tokens] at hrun
        injection hrun with _ ht'
        rw [← ht'] at hlog ⊢
        obtain ⟨cs'', h | ⟨-, h⟩⟩ := (hx []).stop hpass hfaithful (.none _) hrun' hlog
        · refine (nested_resumption h fun u hu hkind hq => ?_).imp (fun h => h.append cs) (⟨rfl, ·⟩)
          -- A closing brace is not skipped without an error.
          have hahead' : t.Ahead (some .closeBrace) := by
            rintro k ⟨⟩
            rw [hu, Option.map_some, hkind]
          cases (hbrace hpass hfaithful hahead' hrun').symm.trans hlog
        · exact .inr ⟨rfl, Nat.le_trans h (le_resumption ..)⟩
      · cases hrun
    · rw [guarded_of_error hrun' he] at hrun
      cases hrun

/-- No statement starts with a closing brace. -/
theorem loud_of_closeBrace {inner : Walk Unit} (hpass : t.pass = .emit) (hfaithful : t.Faithful)
    (hahead : t.Ahead (some .closeBrace)) (hrun : statementWith inner t = .error .abandoned t') :
    t'.log.hasErrors = true := by
  obtain ⟨x, hx, hkind⟩ := State.Ahead.token hahead
  have loud : Respects .loud 0 plainStatement := inferInstance
  have hpeek : peek t = .ok (some .closeBrace) t := by
    show EStateM.Result.ok (t.tokens[t.pos]?.map (·.kind)) t = _
    rw [hx, Option.map_some, hkind]
  have hplain : statementWith inner t = plainStatement t := bind_of_ok hpeek
  rw [hplain] at hrun
  cases hlog : t'.log.hasErrors with
  | true => rfl
  | false => exact absurd hrun (loud.not_abandoned hpass hfaithful hlog)

theorem loud_statementUpTo (hpass : t.pass = .emit) (hfaithful : t.Faithful)
    (hahead : t.Ahead (some .closeBrace)) (hrun : statementUpTo n t = .error .abandoned t') :
    t'.log.hasErrors = true := by
  cases n with
  | zero => cases hrun
  | succ n => exact loud_of_closeBrace hpass hfaithful hahead hrun

instance nests_statementUpTo (n : Nat) : ∀ cs, Nests .braces none cs cs (statementUpTo n) := by
  induction n with
  | zero => exact fun cs => .broken
  | succ n ih =>
    have nests : ∀ cs, Nests .braces none cs cs (guarded (statementUpTo n)) := fun cs =>
      nests_guarded ih loud_statementUpTo
    have loud : Respects .loud 0 (guarded (statementUpTo n)) := inferInstance
    have adding : Respects .adding 0 (guarded (statementUpTo n)) := loud.weaken
    exact fun cs => inferInstanceAs
      (Nests .braces none cs cs (statementWith (guarded (statementUpTo n))))

instance : Nests .braces none cs cs (guarded (statementUpTo n)) :=
  nests_guarded (nests_statementUpTo n) loud_statementUpTo

end StateScript.Walk
