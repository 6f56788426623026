import StateScript.Proofs.Walk.StatementNesting

/-! # What the second walk comes across

  Where the second walk finds anything again, it comes across what it finds first: a
  statement finds its own targets or symbols before it goes into other statements.

  `Advances` says so of a walk. `Finds` is about the rest of a statement, behind the token
  that its records are kept under.
-/

namespace StateScript.Walk

variable {id index : Nat} {t t' : State}

set_option synthInstance.maxSize 1000000000

variable {α β : Type}

/-- The second walk at a token in a role: it finds the newest record and remembers that,
    or it goes no further. -/
theorem keyed_of_emit {index : Nat} {role : Role} {create : Walk Nat} {t : State}
    (hpass : t.pass = .emit) :
    (∃ d, t.declared.find? (fun d => d.token == index && d.role == role) = some d ∧
      keyed index role create t = .ok d.symbol { t with
        recalled := ⟨index, role, d.symbol, t.function, t.regions⟩ :: t.recalled }) ∨
    keyed index role create t = .error .abandoned t ∧ t.rejected ≠ [] ∨
    ending (keyed index role create t) = some .fatal ∧
      t.declared.find? (fun d => d.token == index && d.role == role) = none := by
  unfold Walk.keyed
  rw [emitting_bind_emit hpass, if_pos rfl, retrieve, declared?, view_bind]
  cases hfind : t.declared.find? fun d => d.token == index && d.role == role with
  | some d => exact .inl ⟨d, rfl, rfl⟩
  | none =>
    refine .inr ?_
    show (view _ >>= _ : Walk Nat) t = _ ∧ _ ∨ ending ((view _ >>= _ : Walk Nat) t) = _ ∧ _
    rw [view_bind]
    -- A declaration was turned down, or the compiler has failed.
    split
    · next hrejected =>
      refine .inl ⟨rfl, fun hnil => ?_⟩
      rw [hnil] at hrejected
      cases hrejected
    · exact .inr ⟨rfl, rfl⟩

/-- The record that the second walk has found. -/
theorem found_of_keyed {index : Nat} {role : Role} {create : Walk Nat} (hpass : t.pass = .emit)
    (h : keyed index role create t = .ok id t') :
    ∃ d, t.declared.find? (fun d => d.token == index && d.role == role) = some d ∧ id = d.symbol ∧
      t' = { t with recalled := ⟨index, role, d.symbol, t.function, t.regions⟩ :: t.recalled } := by
  rcases keyed_of_emit hpass with ⟨d, hd, hrun⟩ | ⟨hrun, -⟩ | ⟨hfatal, -⟩
  · cases h.symm.trans hrun
    exact ⟨d, hd, rfl, rfl⟩
  · cases h.symm.trans hrun
  · rw [h] at hfatal
    cases hfatal

theorem expect_eq_ok {k : Kind} {x : Token} (h : expect k t = .ok x t') :
    t.tokens[t.pos]? = some x ∧ x.kind = k ∧ t' = { t with pos := t.pos + 1 } := by
  unfold expect at h
  obtain ⟨found, t₁, h₁, h₂⟩ := bind_eq_ok.1 h
  obtain ⟨rfl, hfound⟩ := peek_eq_ok h₁
  cases found with
  | none => exact absurd h₂ (Never.ne_ok _ _ _)
  | some found =>
    dsimp only at h₂
    split at h₂
    · next hkind =>
      obtain ⟨hx, ht'⟩ := advance_eq_ok h₂
      rw [hx, hkind] at hfound
      exact ⟨hx, Option.some.inj hfound, ht'⟩
    · exact absurd h₂ (Never.ne_ok _ _ _)

/-! ### Runs that find something -/

/-- If anything has been found again, something is that stands between the two states. -/
def Across (t t' : State) : Prop :=
  t'.recalled = t.recalled ∨ ∃ r ∈ t'.recalled, t.pos ≤ r.token ∧ r.token ≤ t'.pos

/-- If the second walk finds anything again, it finds something at the token `index`. -/
class Finds (index : Nat) (x : Walk α) : Prop where
  respects : Respects .any 0 x
  run : ∀ t, t.pass = .emit → Continues (x t) → (final (x t)).recalled = t.recalled ∨
    ∃ r ∈ (final (x t)).recalled, r.token = index

/-- The second walk comes across what it finds first, unless it ends the compilation. -/
class Advances (x : Walk α) : Prop where
  respects : ∀ b, Respects .any b x
  run : ∀ t, t.pass = .emit → Continues (x t) → Across t (final (x t))

theorem Advances.ok {x : Walk α} [hx : Advances x] {a : α} (hpass : t.pass = .emit)
    (h : x t = .ok a t') : Across t t' := by
  have hrun := hx.run t hpass
  rw [h] at hrun
  exact hrun (.inl rfl)

/-! ### Composition -/

instance (priority := low) (x : Walk α) [hx : Respects .patching 0 x] : Finds index x where
  respects := hx.weaken
  run t _ _ := .inl ((hx.run t (Nat.zero_le _)).plain (Nat.le_refl _)).2.1

instance (priority := low) (x : Walk α) [hx : ∀ b, Respects .patching b x] : Advances x where
  respects b := (hx b).weaken
  run t _ _ := .inl (((hx 0).run t (Nat.zero_le _)).plain (Nat.le_refl _)).2.1

theorem Finds.seq {x : Walk α} {f : α → Walk β} [hx : Finds index x]
    (hf : ∀ a, Finds index (f a)) : Finds index (x >>= f) where
  respects := .bind hx.respects fun a => (hf a).respects
  run t hpass hends := by
    have h := hx.run t hpass
    cases hrun : x t with
    | ok a t₁ =>
      rw [hrun] at h
      rw [bind_of_ok hrun] at hends ⊢
      have hkeeps := hx.respects.ok (Nat.zero_le _) hrun
      rcases (hf a).run t₁ (hkeeps.pass.trans hpass) hends with hsame | hfound
      -- The rest finds nothing more.
      · rw [hsame]
        exact h (.inl rfl)
      · exact .inr hfound
    | error e t₁ =>
      rw [hrun] at h
      rw [bind_of_error hrun] at hends ⊢
      exact h hends

instance (p : Prop) [Decidable p] (x y : Walk α) [hx : Finds index x] [hy : Finds index y] :
    Finds index (if p then x else y) := by
  split
  · exact hx
  · exact hy

/-- Nothing is missed behind a record that has been found. -/
instance Finds.found {role : Role} {create : Walk Nat} {f : Nat → Walk α}
    [Respects .any 0 (keyed index role create)] [hf : ∀ a, Respects .any 0 (f a)] :
    Finds index (keyed index role create >>= f) where
  respects := .seq hf
  run t hpass hends := by
    rcases keyed_of_emit hpass with ⟨d, -, hrun⟩ | ⟨hrun, -⟩ | ⟨hfatal, -⟩
    · rw [bind_of_ok hrun]
      obtain ⟨new, hnew, -⟩ := ((hf d.symbol).run _ (Nat.zero_le _)).recalls
      rw [hnew]
      exact .inr ⟨_, List.mem_append_right _ List.mem_cons_self, rfl⟩
    · rw [bind_of_error hrun]
      exact .inl rfl
    · cases hrun : keyed index role create t with
      | ok a t₁ =>
        rw [hrun] at hfatal
        cases hfatal
      | error e t₁ =>
        rw [hrun] at hfatal
        cases hfatal
        rw [bind_of_error hrun] at hends
        exact nomatch hends

theorem Finds.target {role : Role} {f : Nat → Walk α} [hf : ∀ a, Respects .any 0 (f a)] :
    Finds index (target index role >>= f) := by
  unfold Walk.target
  rw [bind_assoc]
  exact .seq fun _ => .found

theorem Advances.bind {x : Walk α} {f : α → Walk β} (hx : Advances x) (hf : ∀ a, Advances (f a)) :
    Advances (x >>= f) where
  respects b := .bind (hx.respects b) fun a => (hf a).respects b
  run t hpass hends := by
    have h := hx.run t hpass
    cases hrun : x t with
    | ok a t₁ =>
      rw [hrun] at h
      rw [bind_of_ok hrun] at hends ⊢
      have hkeeps := (hx.respects t.pos).ok (Nat.le_refl _) hrun
      -- The rest goes on to later tokens.
      have hle := (((hf a).respects t₁.pos).run t₁ (Nat.le_refl _)).onward hends
      rcases (hf a).run t₁ (hkeeps.pass.trans hpass) hends with hsame | ⟨r, hr, hfrom, hbefore⟩
      · unfold Across
        rw [hsame]
        exact (h (.inl rfl)).imp_right fun ⟨r, hr, hfrom, hbefore⟩ =>
          ⟨r, hr, hfrom, Nat.le_trans hbefore hle⟩
      · exact .inr ⟨r, hr, Nat.le_trans (hkeeps.onward (.inl rfl)) hfrom, hbefore⟩
    | error e t₁ =>
      rw [hrun] at h
      rw [bind_of_error hrun] at hends ⊢
      exact h hends

theorem Advances.seq {x : Walk α} {f : α → Walk β} [hx : Advances x] (hf : ∀ a, Advances (f a)) :
    Advances (x >>= f) :=
  .bind hx hf

instance (x : Walk α) (f : α → Walk β) [hx : Advances x] [hf : ∀ a, Advances (f a)] :
    Advances (x >>= f) :=
  .bind hx hf

instance (priority := low) (x : Walk (Option α)) (f : Option α → Walk β) [hx : Advances x]
    [hnone : Advances (f none)] [hsome : ∀ a, Advances (f (some a))] : Advances (x >>= f) :=
  .bind hx (Option.forall.2 ⟨hnone, hsome⟩)

instance (p : Prop) [Decidable p] (x y : Walk α) [hx : Advances x] [hy : Advances y] :
    Advances (if p then x else y) := by
  split
  · exact hx
  · exact hy

/-- The token that records are kept under is come across. -/
theorem Advances.at {f : Nat → Walk α} [rx : ∀ b, Respects .any b (position >>= f)]
    [rf : ∀ index, Respects .any index (f index)] (hf : ∀ index, Finds index (f index)) :
    Advances (position >>= f) where
  respects := rx
  run t hpass hends := by
    rw [position_bind] at hends ⊢
    have hle := ((rf t.pos).run t (Nat.le_refl _)).onward hends
    exact ((hf t.pos).run t hpass hends).imp_right fun ⟨r, hr, htoken⟩ =>
      ⟨r, hr, Nat.le_of_eq htoken.symm, htoken ▸ hle⟩

theorem Advances.loop {turn : α → Walk (Turn α β)} (h : ∀ a, Advances (turn a)) (a : α) :
    Advances (loop a turn) :=
  loop_induction (P := Advances) (fun _ => .seq) ⟨fun _ => .broken, fun _ _ hends => nomatch hends⟩
    (fun _ => inferInstance) (fun a _ => (h a).bind) a

instance (a : α) (turn : α → Walk (Turn α β)) [h : ∀ a, Advances (turn a)] :
    Advances (loop a turn) :=
  .loop h a

/-- Entering and leaving, around a run. -/
theorem Advances.enclosed {w x : Walk α} (e : Enclosure w x) (hx : Advances x)
    (hw : ∀ b, Respects .any b w) : Advances w where
  respects := hw
  run t hpass hends := by
    have enter := e.entered t
    have leave := e.left t (final (x (e.enter t)))
    unfold Continues at hends
    rw [e.ending_eq] at hends
    have h := hx.run (e.enter t) (enter.pass.trans hpass) hends
    unfold Across at h ⊢
    rwa [e.final_eq, leave.recalled, leave.pos, ← enter.recalled, ← enter.pos]

section Enclosing

variable (x : Walk Unit) [hx : Advances x] [∀ b, Respects .any b x]

instance : Advances (inScope id x) := .enclosed (.inScope id x) hx inferInstance

instance : Advances (inBlock x) := .enclosed (.inBlock x) hx inferInstance

instance (e : Exclusion) : Advances (inRegion e index x) :=
  .enclosed (.inRegion e index x) hx inferInstance

end Enclosing

/-! ### Statements -/

/-- What is only checked in the first pass. -/
instance (x : Walk Unit) [hx : ∀ b, Respects .any b (declaring x)] : Advances (declaring x) where
  respects := hx
  run t hpass _ := by
    rw [declaring_of_emit hpass]
    exact .inl rfl

instance (x : Walk Unit) [hx : Respects .any 0 (declaring x)] : Finds index (declaring x) where
  respects := hx
  run t hpass _ := by
    rw [declaring_of_emit hpass]
    exact .inl rfl

instance (token : Nat) (code : Code) (message : String) [Ordinary code] :
    Finds index (reject token code message : Walk α) where
  respects := inferInstance
  run t hpass _ := by
    rw [reject_of_emit hpass]
    exact .inl rfl

instance (token : Nat) (code : Code) (message : String) [Ordinary code] :
    Advances (reject token code message : Walk α) where
  respects _ := inferInstance
  run t hpass _ := by
    rw [reject_of_emit hpass]
    exact .inl rfl

instance (token : Nat) (code : Code) (message : String) [Ordinary code] :
    Finds index (refuse token code message) where
  respects := inferInstance
  run t hpass _ := by
    rw [refuse_of_emit hpass]
    exact .inl rfl

instance : Advances modifiers := by
  unfold modifiers
  refine .loop (fun m => .seq fun next => ?_) _
  split
  · infer_instance
  · split <;> infer_instance

section Inner

variable (inner : Walk Unit) [hinner : Advances inner] [∀ b, Respects .any b inner]
  [∀ b, Respects .loud b inner]

instance : Advances (ifStatement inner) := by
  unfold ifStatement
  exact .seq fun _ => .at fun index => .seq fun _ => .target

instance : Advances (whileStatement inner) := by
  unfold whileStatement
  exact .seq fun _ => .at fun index => .seq fun _ => .target

instance : Advances (forStatement inner) := by
  unfold forStatement
  exact .seq fun _ => .at fun index => .seq fun _ => .target

instance : Advances (doStatement inner) := by
  unfold doStatement
  refine .seq fun _ => .at fun index => .seq fun _ => .seq fun isCounted => ?_
  split
  · unfold repeatStatement internalLocal
    simp only [bind_assoc]
    exact .seq fun _ => .found
  · exact .target

instance : Advances (switchStatement inner) := by
  unfold switchStatement
  exact .seq fun _ => .at fun index => .seq fun _ => .target

instance (value : Nat) (type : ValueType) (clauses : Clauses) :
    Advances (switchClause inner value type clauses) := by
  unfold switchClause
  exact .at fun index => .seq fun kind => .target

theorem Finds.variableDeclaration {f : Unit → Walk α} [hf : ∀ a, Respects .any 0 (f a)]
    (m : Modifiers) (type : ValueType) (name : Token) :
    Finds index (variableDeclaration m type name index >>= f) := by
  unfold Walk.variableDeclaration declareVariable
  simp only [bind_assoc]
  exact .seq fun isInner => .seq fun _ => .seq fun owner => .found

instance : Advances (declaration inner) := by
  unfold declaration
  refine .seq fun m => .seq fun type => .at fun index => .seq fun name => .seq fun isFunction => ?_
  split
  · unfold functionDeclaration declareFunction
    refine .seq fun all => ?_
    have each : ∀ id, Respects .any 0 (declareParameters id all) :=
      fun id => .declareParameters (fun _ _ => Nat.zero_le _) id
    rw [bind_assoc]
    refine .seq fun _ => ?_
    rw [bind_assoc]
    exact .seq fun scope => .found
  · unfold variableDeclarations
    exact .seq fun _ => .variableDeclaration m type name

instance : Advances (stateDeclaration inner) := by
  unfold stateDeclaration declareState
  simp only [bind_assoc]
  exact .seq fun _ => .seq fun words => .at fun index => .seq fun name => .seq fun _ =>
    .seq fun scope => .found

instance : Advances enumerationDeclaration := by
  unfold enumerationDeclaration declareEnumeration
  simp only [bind_assoc]
  exact .seq fun _ => .at fun index => .seq fun name => .seq fun _ => .seq fun scope => .found

instance (scope : Nat) (name : Token) : Advances (namespaceWithin scope name index) := by
  unfold namespaceWithin
  infer_instance

instance (path : List Token) : Advances (namespaceOf path index) := by
  unfold namespaceOf
  refine .seq fun scope => ?_
  induction path generalizing scope with
  | nil => exact inferInstanceAs (Advances (pure scope))
  | cons name path ih => exact .seq fun scope => ih scope

instance : Advances labelStatement := by
  unfold labelStatement placeLabel defineLabel
  refine .seq fun _ => .at fun index => .seq fun name => .seq fun _ => .seq fun function => ?_
  refine .seq fun isEmitting => ?_
  split
  · exact .seq fun isRefused => inferInstance
  · exact .seq fun found => inferInstance

instance : Advances (statementWith inner) := by
  unfold statementWith
  refine .seq fun found => ?_
  split <;> infer_instance

end Inner

/-- A statement that is abandoned is gone on after. -/
theorem Advances.guarded {x : Walk Unit} [rx : ∀ b, Respects .adding b x] (hx : Advances x) :
    Advances (guarded x) where
  respects b := (inferInstance : Respects .loud b (Walk.guarded x)).weaken
  run t hpass hends := by
    have h := hx.run t hpass
    cases hrun : x t with
    | ok a t₁ =>
      rw [hrun] at h
      rw [guarded_of_ok hrun] at hends ⊢
      exact h hends
    | error e t₁ =>
      rw [hrun] at h
      by_cases he : e = .abandoned
      · subst he
        rw [guarded_of_abandoned hrun] at hends ⊢
        split at hends
        · next hle =>
          rw [if_pos hle]
          obtain ⟨blocks, hrecover⟩ := State.recover_eq ((rx 0).error (Nat.zero_le _) hrun)
          rw [hrecover]
          -- It goes on no earlier than where it was abandoned.
          exact (h (.inr rfl)).imp_right fun ⟨r, hr, hfrom, hbefore⟩ =>
            ⟨r, hr, hfrom, Nat.le_trans hbefore (le_resumption ..)⟩
        · exact nomatch hends
      · rw [guarded_of_error hrun he] at hends ⊢
        exact h hends

instance advances_statementUpTo (n : Nat) : Advances (statementUpTo n) := by
  induction n with
  | zero => exact ⟨fun _ => .broken, fun _ _ hends => nomatch hends⟩
  | succ n ih =>
    have inner := ih.guarded
    have any := inner.respects
    exact inferInstanceAs (Advances (statementWith (guarded (statementUpTo n))))

instance (n : Nat) : Advances (guarded (statementUpTo n)) := (advances_statementUpTo n).guarded

end StateScript.Walk
