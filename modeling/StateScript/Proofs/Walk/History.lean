import StateScript.Proofs.Walk.Runs

/-! # The history of code

  The events of a walk tell how the code of every function came about: replaying them
  gives that code (`Tells`). A history is `Undisturbed` if no instruction is ever put in
  front of a place that a target is bound to. Then what stood in front of that place when
  the target was bound stands there at every later moment.

  A run adds events to those that there are. `Carries` says what is true of the events that
  it adds, whatever there was before.
-/

namespace StateScript

/-- The code of a function so far, with its source positions. -/
def SymbolKind.instructions : SymbolKind → Array Instruction
  | .function f => f.code
  | _ => #[]

theorem SymbolKind.code_eq (k : SymbolKind) :
    k.code = k.instructions.toList.map Instruction.op := by
  cases k <;> rfl

namespace Table

variable {t : Table} {id j owner : Nat}

def instructions (t : Table) (id : Nat) : Array Instruction :=
  ((t.kind? id).map SymbolKind.instructions).getD #[]

theorem code_eq (t : Table) (id : Nat) :
    t.code id = (t.instructions id).toList.map Instruction.op := by
  unfold code instructions
  cases t.kind? id with
  | none => rfl
  | some k => exact k.code_eq

theorem instructions_modifyKind {g : SymbolKind → SymbolKind}
    (hg : ∀ k, (g k).instructions = k.instructions) :
    (t.modifyKind id g).instructions j = t.instructions j := by
  unfold instructions
  rw [kind?_modifyKind]
  split
  · cases t.kind? j with
    | none => rfl
    | some k => exact hg k
  · rfl

theorem instructions_add (name : String) {kind : SymbolKind} (hkind : kind.instructions = #[]) :
    (t.add (some owner) name kind).instructions j = t.instructions j := by
  unfold instructions
  rw [kind?_add]
  split
  · next hj =>
    rw [hj, kind?, get?_eq_none (Nat.le_refl _)]
    exact hkind
  · rfl

end Table

namespace Walk

variable {t t' t₁ : Table} {new new₁ old later earlier : List CodeEvent}
  {id target function place : Nat} {binds : Bool} {p p₁ : List CodeEvent → Prop} {s : State}

/-! ### Replaying -/

/-- The code that the events, newest first, have given a function. -/
def codeAfter (id : Nat) : List CodeEvent → Array Instruction
  | [] => #[]
  | .put function place i :: earlier =>
    if function = id then putAt (codeAfter id earlier) place i else codeAfter id earlier
  | .bind .. :: earlier => codeAfter id earlier

/-- The events tell how the code of all functions and the places of all targets came about. -/
structure Tells (history : List CodeEvent) (t : Table) : Prop where
  code : ∀ id, codeAfter id history = t.instructions id
  bound : ∀ id place, t.bound? id = some place → ∃ function, .bind id function place ∈ history

/-- No instruction is put in front of a place that a target is bound to, and a target is
    bound to the end of the code that there is. -/
def Undisturbed : List CodeEvent → Prop
  | [] => True
  | .put function place _ :: earlier =>
    (∀ p, place = some p → ∀ target bound, .bind target function bound ∈ earlier → bound ≤ p) ∧
      Undisturbed earlier
  | .bind _ function place :: earlier =>
    place = (codeAfter function earlier).size ∧ Undisturbed earlier

theorem size_putAt (code : Array Instruction) (place : Option Nat) (i : Instruction) :
    (putAt code place i).size = code.size + 1 := by
  cases place with
  | none => exact Array.size_push ..
  | some place =>
    unfold putAt insertAt
    dsimp only
    split <;> simp

theorem take_putAt {code : Array Instruction} {n : Nat} {place : Option Nat} (hn : n ≤ code.size)
    (hplace : ∀ p, place = some p → n ≤ p) (i : Instruction) :
    (putAt code place i).take n = code.take n := by
  cases place with
  | none => simp [putAt, hn]
  | some p =>
    have hp := hplace p rfl
    unfold putAt insertAt
    dsimp only
    split
    · apply Array.ext
      · simp
        omega
      · intro j _ hj
        simp only [Array.take_eq_extract, Array.size_extract] at hj
        simp only [Array.take_eq_extract, Array.getElem_extract, Nat.zero_add]
        rw [Array.getElem_insertIdx_of_lt]
        omega
    · simp [hn]

/-- Events make no code shorter. -/
theorem size_codeAfter_le (later earlier : List CodeEvent) (id : Nat) :
    (codeAfter id earlier).size ≤ (codeAfter id (later ++ earlier)).size := by
  induction later with
  | nil => exact Nat.le_refl _
  | cons e later ih =>
    cases e with
    | put function place i =>
      rw [List.cons_append, codeAfter]
      split
      · rw [size_putAt]
        omega
      · exact ih
    | bind => exact ih

/-- In this function no target is bound behind the first `n` instructions. -/
def BoundWithin (function n : Nat) (history : List CodeEvent) : Prop :=
  ∀ target place, .bind target function place ∈ history → place ≤ n

theorem Undisturbed.of_append (h : Undisturbed (later ++ earlier)) : Undisturbed earlier := by
  induction later with
  | nil => exact h
  | cons e later ih => cases e <;> exact ih h.2

/-- No target is bound behind the end of the code. -/
theorem Undisturbed.le_size (h : Undisturbed old) (hbind : .bind target id place ∈ old) :
    place ≤ (codeAfter id old).size := by
  obtain ⟨later, earlier, rfl⟩ := List.append_of_mem hbind
  obtain ⟨rfl, -⟩ := h.of_append
  exact size_codeAfter_le later (.bind target id _ :: earlier) id

/-- What stood in front of a place when a target was bound to it stays there. -/
theorem Undisturbed.take_codeAfter
    (h : Undisturbed (later ++ .bind target function place :: earlier)) :
    (codeAfter function (later ++ .bind target function place :: earlier)).take place =
      codeAfter function earlier := by
  induction later with
  | nil =>
    obtain ⟨rfl, -⟩ := h
    exact Array.extract_size
  | cons e later ih =>
    cases e with
    | put function' place' i =>
      rw [List.cons_append, codeAfter]
      split
      · next heq =>
        subst heq
        obtain ⟨hplace, h⟩ : _ ∧ Undisturbed (later ++ .bind target function' place :: earlier) := h
        have hbind := List.mem_append_right later
          (List.mem_cons_self (a := .bind target function' place) (l := earlier))
        -- What is put later goes behind the bound place.
        rw [take_putAt (h.le_size hbind) fun p hp => hplace p hp _ _ hbind]
        exact ih h
      · exact ih h.2
    | bind => exact ih h.2

/-! ### What runs add -/

/-- The events `new` carry on from the code in `t` to that in `t'`. They leave a history
    undisturbed of which `p` is true. -/
structure Carries (binds : Bool) (p : List CodeEvent → Prop) (t t' : Table)
    (new : List CodeEvent) : Prop where
  tells : ∀ old, Tells old t → Tells (new ++ old) t'
  binds : binds = false → ∀ target function place, .bind target function place ∉ new
  undisturbed : ∀ old, p old → Tells old t → Undisturbed old → Undisturbed (new ++ old)

theorem Carries.trans (h : Carries binds p t t₁ new) (h₁ : Carries binds p₁ t₁ t' new₁)
    (hp : ∀ old, Tells old t → Undisturbed old → p old → p₁ (new ++ old)) :
    Carries binds p t t' (new₁ ++ new) where
  tells old hold := by
    rw [List.append_assoc]
    exact h₁.tells _ (h.tells old hold)
  binds hbinds target function place hmem := by
    rcases List.mem_append.1 hmem with hmem | hmem
    · exact h₁.binds hbinds _ _ _ hmem
    · exact h.binds hbinds _ _ _ hmem
  undisturbed old hpre htells hold := by
    rw [List.append_assoc]
    exact h₁.undisturbed _ (hp old htells hold hpre) (h.tells old htells)
      (h.undisturbed old hpre htells hold)

theorem Carries.weaken {binds' : Bool} {p' : List CodeEvent → Prop} (h : Carries binds p t t' new)
    (hbinds : binds' = false → binds = false) (hp : ∀ old, p' old → p old) :
    Carries binds' p' t t' new :=
  ⟨h.tells, fun hb => h.binds (hbinds hb), fun old hpre => h.undisturbed old (hp old hpre)⟩

/-- Events without bindings. -/
theorem Carries.boundWithin {n : Nat} (h : Carries false p t t' new)
    (hold : BoundWithin function n old) :
    BoundWithin function n (new ++ old) := fun target place hbind =>
  (List.mem_append.1 hbind).elim (fun hnew => absurd hnew (h.binds rfl _ _ _)) (hold target place)

theorem Carries.none (hcode : ∀ id, t'.instructions id = t.instructions id)
    (hbound : ∀ id, t'.bound? id = t.bound? id) : Carries binds p t t' [] where
  tells _ h := ⟨fun id => (h.code id).trans (hcode id).symm, fun id place hid =>
    h.bound id place (hbound id ▸ hid)⟩
  binds _ _ _ _ hmem := nomatch hmem
  undisturbed _ _ _ h := h

theorem Carries.modifyKind {g : SymbolKind → SymbolKind}
    (hcode : ∀ k, (g k).instructions = k.instructions)
    (hbound : ∀ k, (g k).bound? = k.bound?) : Carries binds p t (t.modifyKind id g) [] :=
  .none (fun _ => Table.instructions_modifyKind hcode) fun _ => Table.bound?_modifyKind hbound

/-- What the source position of an instruction is does not matter here. -/
theorem State.emit_eq (s : State) (opcode : Opcode) (operands : List Operand) (place : Option Nat) :
    ∃ i files, i.op = (opcode, operands) ∧ s.emit opcode operands place =
      { s with
        files
        history := if s.current?.isSome then .put s.function place i :: s.history else s.history
        table := s.table.modifyKind s.function
          (·.mapFunction fun f => { f with code := putAt f.code place i }) } :=
  ⟨_, _, rfl, rfl⟩

theorem State.current?_eq (s : State) : s.current? = s.table.function? s.function := by
  unfold State.current? Table.function? Table.kind?
  cases s.table.get? s.function <;> rfl

/-- Where the next instruction goes, be it into a function or nowhere. -/
theorem here_eq_size (s : State) : s.here = (s.table.instructions s.function).size := by
  unfold State.here Table.instructions
  rw [s.current?_eq, Table.function?]
  cases s.table.kind? s.function with
  | none => rfl
  | some k => cases k <;> rfl

/-- An instruction at the end or behind all places of targets. -/
theorem carries_emit (binds : Bool) (s : State) (opcode : Opcode) (operands : List Operand)
    (place : Option Nat)
    (hp : ∀ old, p old → ∀ q, place = some q →
      ∀ target bound, .bind target s.function bound ∈ old → bound ≤ q) :
    ∃ new, (s.emit opcode operands place).history = new ++ s.history ∧
      Carries binds p s.table (s.emit opcode operands place).table new := by
  obtain ⟨i, files, -, hemit⟩ := s.emit_eq opcode operands place
  have hbound : ∀ id, (s.emit opcode operands place).table.bound? id = s.table.bound? id :=
    fun id => by
    rw [hemit]
    exact Table.bound?_modifyKind fun k => by cases k <;> rfl
  have hothers : ∀ id, id ≠ s.function →
      (s.emit opcode operands place).table.instructions id = s.table.instructions id := by
    intro id hid
    rw [hemit]
    unfold Table.instructions
    rw [Table.kind?_modifyKind, if_neg (Ne.symm hid)]
  have hcurrent : (s.emit opcode operands place).table.instructions s.function =
      if s.current?.isSome then putAt (s.table.instructions s.function) place i
      else s.table.instructions s.function := by
    rw [hemit, s.current?_eq]
    unfold Table.instructions Table.function?
    rw [Table.kind?_modifyKind, if_pos rfl]
    cases s.table.kind? s.function with
    | none => rfl
    | some k => cases k <;> rfl
  cases hfunction : s.current?.isSome with
  -- Outside of functions, nothing is emitted and nothing is told.
  | false =>
    rw [hfunction] at hcurrent
    refine ⟨[], by rw [hemit, hfunction]; rfl, .none (fun id => ?_) hbound⟩
    by_cases hid : id = s.function
    · rw [hid, hcurrent]
      rfl
    · exact hothers id hid
  -- One event, of the current function.
  | true =>
    rw [hfunction] at hcurrent
    refine ⟨[.put s.function place i], by rw [hemit, hfunction]; rfl,
      fun old h => ⟨fun id => ?_, ?_⟩, ?_, ?_⟩
    · rw [List.singleton_append, codeAfter]
      split
      · next hid =>
        subst hid
        rw [hcurrent, h.code]
        rfl
      · next hid => rw [hothers id (Ne.symm hid), h.code]
    · intro id place hid
      obtain ⟨function, hmem⟩ := h.bound id place (hbound id ▸ hid)
      exact ⟨function, List.mem_cons_of_mem _ hmem⟩
    · simp
    · exact fun old hpre _ h => ⟨hp old hpre, h⟩

/-- A target that is bound just now, or has been before. -/
theorem bound?_bind {s : State} (h : (s.bind target).table.bound? id = some place) :
    id = target ∧ place = s.here ∨ s.table.bound? id = some place := by
  unfold State.bind Table.bound? at h
  dsimp only at h
  rw [Table.kind?_modifyKind] at h
  split at h
  · next heq =>
    cases hk : s.table.kind? id with
    | none =>
      rw [hk] at h
      cases h
    | some k =>
      rw [hk] at h
      cases k <;> cases h
      exact .inl ⟨heq.symm, rfl⟩
  · exact .inr h

theorem carries_bind (s : State) (target : Nat) :
    Carries true p s.table (s.bind target).table [.bind target s.function s.here] where
  tells old h := by
    refine ⟨fun id => (h.code id).trans ?_, fun id place hid => ?_⟩
    · exact (Table.instructions_modifyKind fun k => by cases k <;> rfl).symm
    · rcases bound?_bind hid with ⟨rfl, rfl⟩ | hid
      · exact ⟨s.function, List.mem_cons_self⟩
      · obtain ⟨function, hmem⟩ := h.bound id place hid
        exact ⟨function, List.mem_cons_of_mem _ hmem⟩
  binds h := by cases h
  undisturbed old _ h hold := ⟨(here_eq_size s).trans (congrArg Array.size (h.code _).symm), hold⟩

end Walk

end StateScript
