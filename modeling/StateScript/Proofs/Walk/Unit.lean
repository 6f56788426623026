import StateScript.Compilation
import StateScript.Proofs.Walk.ScriptLockstep

/-! # Compiled units

  A compilation that gives an object has gone through both walks, the return behind the
  code outside of functions, the check of the default state, and the linking, all without
  an error.
-/

namespace StateScript.Walk

variable {o : Object} {s' : State}

/-- The state that is linked: the code outside of functions ends with a return. -/
def State.closed (t : State) : State := t.emit .ret [] none

/-- The object that linking makes of a state and its relocated code. -/
def State.object (t : State) (defines : List Define) (instructions : List Instruction) : Object :=
  { flags := t.flags
    internalVariables := t.internalVariables
    memorySize := t.memorySize
    globalScope := (layout t.table).number globalScope
    memberScope := (layout t.table).number memberScope
    engineState := t.engineState.map (layout t.table).number
    editorState := t.editorState.map (layout t.table).number
    defines
    symbols := (layout t.table).symbols t.table
    files := t.files
    instructions }

/-- Both walks have gone through without an error; `s` and `t` are the states after them. -/
structure Walked (flags : Flags) (tokens : List Token) (s t : State) : Prop where
  declares : walkOver .declare (.initial flags tokens) = .ok () s
  emits : walkOver .emit s = .ok () t
  quiet : t.log.hasErrors = false

/-- A compilation that gives an object. -/
structure Compiled (defines : List Define) (flags : Flags) (tokens : List Token) (s t : State)
    (o : Object) : Prop extends Walked flags tokens s t where
  linked : ∃ instructions, (layout t.closed.table).relocateCode t.closed.table = .ok instructions ∧
    o = t.closed.object defines instructions

theorem checkDefaultState_eq_ok {s : State} {u : Unit} (h : checkDefaultState s = .ok u s')
    (hlog : s'.log.hasErrors = false) : s' = s := by
  unfold checkDefaultState at h
  rw [view_bind, view_bind] at h
  split at h
  · obtain ⟨count, s₁, hcount, h⟩ := bind_eq_ok.1 h
    cases hcount
    unfold reportAt at h
    dsimp only at h
    split at h
    · cases h
    · cases h
      dsimp only at hlog
      -- A report would be an error in the log.
      rw [hasErrors_push_error s.log rfl] at hlog
      cases hlog
  · cases h
    rfl

theorem link_eq_ok {defines : List Define} {s : State} (h : link defines s = .ok o s') :
    ∃ instructions,
      (layout s.table).relocateCode s.table = .ok instructions ∧
        o = s.object defines instructions := by
  unfold link at h
  rw [view_bind] at h
  obtain ⟨-, h⟩ := ensure_bind_eq_ok h
  cases hcode : (layout s.table).relocateCode s.table with
  | error id =>
    rw [hcode] at h
    exact absurd h (Never.ne_ok _ _ _)
  | ok instructions =>
    rw [hcode] at h
    cases h
    exact ⟨instructions, rfl, rfl⟩

theorem compiled_of_unit {defines : List Define} {flags : Flags} {tokens : List Token}
    (h : unit defines (.initial flags tokens) = .ok (some o) s') :
    ∃ s t, Compiled defines flags tokens s t o := by
  unfold unit at h
  obtain ⟨_, s, hs, h⟩ := bind_eq_ok.1 h
  obtain ⟨_, t, ht, h⟩ := bind_eq_ok.1 h
  have hpass : t.pass = .emit := (keeps_second ht).pass
  obtain ⟨_, t₁, hret, h⟩ := bind_eq_ok.1 h
  obtain rfl : t₁ = t.closed := state_of_emit _ _ hpass hret
  obtain ⟨_, t₂, hcheck, h⟩ := bind_eq_ok.1 h
  rw [view_bind] at h
  split at h
  · cases h
  · next hlog =>
    rw [Bool.not_eq_true] at hlog
    -- Without errors the check has changed nothing.
    cases checkDefaultState_eq_ok hcheck hlog
    obtain ⟨o', t₃, hlink, h⟩ := bind_eq_ok.1 h
    cases h
    exact ⟨s, t, ⟨hs, ht, hlog⟩, link_eq_ok hlink⟩

/-- An object is what linking has made, with its program shortened or not. -/
theorem compiled_of_ofTokens {options : Options} {tokens : List Token}
    (h : (Compilation.ofTokens options tokens).object = some o) :
    ∃ s t o', Compiled options.defines options.flags tokens s t o' ∧
      o = (Compilation.shorten o').1 := by
  unfold Compilation.ofTokens at h
  split at h
  · next o' s' hunit =>
    obtain ⟨s, t, hcompiled⟩ := compiled_of_unit hunit
    exact ⟨s, t, o', hcompiled, (Option.some.inj h).symm⟩
  all_goals cases h

/-- A token at no particular place. -/
def wordOf (kind : Kind) (text : String) : Token :=
  { kind, text, line := 1, offset := 1, file := "" }

/-- A token whose kind tells its text. -/
def mark (kind : Kind) : Token := wordOf kind (kind.symbol?.getD "")

end StateScript.Walk
