import StateScript.Proofs.Walk.Edits
import StateScript.Proofs.Walk.Unit

/-! # The courses of a compilation

  Each record of the first walk refers to a symbol that is what its role says, and every
  function with a body has one. With that the second walk, which finds all records again,
  takes a course as well; and since a function is found again only where its body stands,
  every function with a body has one in the script.
-/

namespace StateScript

theorem Declared.Sound.grows {t t' : Table} {d : Declared} (h : d.Sound t) (hgrows : t.Grows t') :
    d.Sound t' := by
  have hlt : d.symbol < t.size := by
    apply Decidable.byContradiction
    intro hge
    exact h.owned (Table.scope?_eq_none_of_size_le (Nat.le_of_not_lt hge))
  have hscope := hgrows.scope? hlt
  refine ⟨hscope ▸ h.owned, fun hrole => hgrows.isVar (h.isVar hrole),
    fun hrole => hgrows.isLocal (h.isLocal hrole),
    fun hrole => hgrows.isEnumeration (h.enumeration hrole), fun hrole => ?_, fun hrole => ?_⟩
  · exact hgrows.isTargetOf (h.target hrole)
  · obtain ⟨hfunction, hdefined⟩ := h.function hrole
    exact ⟨hfunction, hgrows.isDefined hdefined⟩

namespace Walk

variable {T : Table} {s s' : State} {id owner : Nat}

/-! ### Records are sound -/

def State.Sound (s : State) : Prop := ∀ d ∈ s.declared, d.Sound s.table

theorem State.Sound.of_grows (h : s.Sound) (hgrows : s.table.Grows s'.table)
    (hdeclared : s'.declared = s.declared) : s'.Sound := by
  intro d hd
  rw [hdeclared] at hd
  exact (h d hd).grows hgrows

/-- A new symbol that is what its role says. -/
structure Fitting (s : State) (role : Role) (owner : Nat) (kind : SymbolKind) : Prop where
  var : role.isVariable = true → ∃ v, kind = .var v
  isLocal : role.isInternal = true → ∃ v, kind = .var v ∧ v.kind = .local
  enumeration : role = .enumeration → kind = .enumeration
  target : role.isTarget = true → owner = s.function ∧ kind = .target none
  function : role = .function → s.function = globalScope ∧ ∃ f, kind = .function f ∧
    hasBody f = true

theorem State.Sound.declare (h : s.Sound) {token : Nat} {role : Role} {owner : Nat} {name : String}
    {kind : SymbolKind} (hnew : Fitting s role owner kind) :
    (s.declare token role owner name kind).Sound := by
  have hkind : (s.table.add (some owner) name kind).kind? s.table.size = some kind := by
    rw [Table.kind?_add, if_pos rfl]
  have hscope : (s.table.add (some owner) name kind).scope? s.table.size = some owner := by
    rw [Table.scope?_add, if_pos rfl]
  intro d hd
  -- The new record fits its symbol, and older ones only gain symbols.
  rcases List.mem_cons.1 hd with rfl | hd
  · refine ⟨?_, fun hrole => ?_, fun hrole => ?_, fun hrole => ?_, fun hrole => ?_, fun hrole => ?_⟩
    · exact fun hnone => by cases hscope.symm.trans hnone
    · obtain ⟨v, rfl⟩ := hnew.var hrole
      exact ⟨v, Table.var?_eq_some.2 hkind⟩
    · obtain ⟨v, rfl, hv⟩ := hnew.isLocal hrole
      exact ⟨v, Table.var?_eq_some.2 hkind, hv⟩
    · exact hkind.trans (congrArg some (hnew.enumeration hrole))
    · obtain ⟨rfl, rfl⟩ := hnew.target hrole
      exact ⟨hscope, none, hkind⟩
    · obtain ⟨hfunction, f, rfl, hbody⟩ := hnew.function hrole
      exact ⟨hfunction, f, Table.function?_eq_some.2 hkind, hbody⟩
  · exact (h d hd).grows (Table.grows_add owner name kind)

theorem State.Sound.parametrise (h : s.Sound) (function : Nat) (all : List (Parameter × Nat)) :
    (s.parametrise function all).Sound := by
  unfold State.parametrise
  induction all generalizing s with
  | nil => exact h
  | cons p all ih =>
    refine ih (h.declare ⟨fun _ => ⟨_, rfl⟩, fun hrole => ?_, fun hrole => ?_,
      fun hrole => ?_, fun hrole => ?_⟩)
      <;> cases hrole

theorem State.Admits.fitting {h : Head} (admits : s.Admits h) :
    Fitting s (functionRole h.modifiers) s.scope (.function h.function) := by
  refine ⟨fun hrole => ?_, fun hrole => ?_, fun hrole => ?_, fun hrole => ?_, fun hrole => ?_⟩
  iterate 4
    · unfold functionRole at hrole
      split at hrole <;> cases hrole
  · have himported : h.modifiers.flags.imported = false := by
      unfold functionRole at hrole
      split at hrole
      · cases hrole
      · next himported => simpa using himported
    refine ⟨checkFunction_eq_ok admits.checked, h.function, rfl, ?_⟩
    show (!h.modifiers.flags.imported && !h.modifiers.flags.method) = true
    rw [himported, admits.method]
    rfl

theorem State.Sound.introduce (hsound : s.Sound) {h : Head} (admits : s.Admits h) :
    (s.introduce h).Sound := by
  have hmade : (s.declare h.token (functionRole h.modifiers) s.scope h.name
      (.function h.function)).Sound := hsound.declare admits.fitting
  have hsize : s.table.size < (s.declare h.token (functionRole h.modifiers) s.scope h.name
      (.function h.function)).table.size := by simp [State.declare]
  have hmetadata := edits_annotate (p := fun _ _ => True) (q := fun _ _ => True)
    (fun _ => trivial) hsize
  exact (hmade.of_grows hmetadata.grows rfl).parametrise _ _

theorem Declares.fitting {role : Role} {name : String} {kind : SymbolKind} {s₁ : State}
    (h : Declares s role owner name kind s₁) : Fitting s₁ role owner kind := by
  cases h with
  | memory hrole =>
    refine ⟨fun _ => ⟨_, rfl⟩, fun h => ?_, fun h => ?_, fun h => ?_, fun h => ?_⟩ <;>
      rcases hrole with ⟨rfl, -⟩ | ⟨rfl, -⟩ <;> cases h
  | inFrame _ hrole hkind =>
    refine ⟨fun _ => ⟨_, rfl⟩, fun _ => ⟨_, rfl, hkind⟩, fun h => ?_, fun h => ?_, fun h => ?_⟩ <;>
      rcases hrole with rfl | rfl | rfl | rfl <;> cases h
  | @target role name _ hrole =>
    refine ⟨fun hvar => ?_, fun hvar => ?_, fun henumeration => ?_, fun _ => ⟨rfl, rfl⟩,
      fun hfunction => ?_⟩
    · cases role <;> cases hrole <;> cases hvar
    · cases role <;> cases hrole <;> cases hvar
    · subst henumeration
      cases hrole
    · exact absurd hfunction (Role.ne_function_of_isTarget hrole)
  | state => refine ⟨fun h => ?_, fun h => ?_, fun h => ?_, fun h => ?_, fun h => ?_⟩ <;> cases h
  | enumeration =>
    refine ⟨fun h => ?_, fun h => ?_, fun _ => rfl, fun h => ?_, fun h => ?_⟩ <;> cases h

theorem Steps.declared (h : Steps T s s') : s'.declared = s.declared := by
  induction h with
  | refl => rfl
  | tail _ hstep ih => exact hstep.calm.declared.trans ih

theorem invariant_sound (T : Table) : Invariant T State.Sound where
  moved hs := hs
  calm h hs := hs.of_grows h.edits.grows h.declared
  declare _ _ new hs := by
    refine State.Sound.declare ?_ new.fitting
    cases new <;> exact hs
  introduce admits hs := hs.introduce admits
  frame _ _ hs := hs.of_grows (keeps_layFrame ..).table rfl

/-! ### Functions with a body have a record -/

/-- Whether a function has a body. -/
def bodied? (k : SymbolKind) : Option Bool := k.function?.map hasBody

theorem isDefined_iff {t : Table} : t.IsDefined id ↔ t.see bodied? id = some true := by
  unfold Table.see Table.IsDefined Table.function?
  cases t.kind? id with
  | none => simp
  | some k => simp [bodied?]

theorem bodied?_alters {g : SymbolKind → SymbolKind} (h : Alters T s id g) (k : SymbolKind) :
    bodied? (g k) = bodied? k := by
  cases h <;> cases k <;> rfl

def State.Listed (s : State) : Prop :=
  ∀ id, s.table.IsDefined id → id = globalScope ∨ ∃ d ∈ s.declared, d.role = .function ∧
    d.symbol = id

/-- Where no function with a body is new, the records cover them all. -/
theorem State.Listed.of_edits {p : Nat → SymbolKind → Prop}
    {q : Nat → (SymbolKind → SymbolKind) → Prop}
    (h : s.Listed) (hedits : Table.Edits p q s.table s'.table)
    (hp : ∀ owner kind, p owner kind → bodied? kind ≠ some true)
    (hq : ∀ id g, q id g → ∀ k, bodied? (g k) = bodied? k)
    (hdeclared : ∀ d ∈ s.declared, d ∈ s'.declared) : s'.Listed := by
  intro id hid
  rcases hedits.see_eq_some hq (isDefined_iff.1 hid) with hold | ⟨owner, kind, hnew, hbody, -⟩
  · rcases h id (isDefined_iff.2 hold) with hglobal | ⟨d, hd, hrole, hsymbol⟩
    · exact .inl hglobal
    · exact .inr ⟨d, hdeclared d hd, hrole, hsymbol⟩
  · exact absurd hbody (hp owner kind hnew)

theorem Discovers.bodied? {t : Table} {name : String} {kind : SymbolKind}
    (h : Discovers t owner name kind) : bodied? kind ≠ some true := by
  cases h <;> exact nofun

theorem Declares.bodied? {role : Role} {name : String} {kind : SymbolKind} {s₁ : State}
    (h : Declares s role owner name kind s₁) : bodied? kind ≠ some true := by
  cases h <;> exact nofun

theorem Gains.bodied? {kind : SymbolKind} (h : Gains s owner kind) : bodied? kind ≠ some true := by
  cases h with
  | discovered new => exact new.bodied?
  | _ => exact nofun

theorem declared_parametrise (function : Nat) (all : List (Parameter × Nat)) (s : State) :
    ∃ new : List Declared, (s.parametrise function all).declared = new ++ s.declared ∧
      ∀ d ∈ new, d.role = .parameter := by
  unfold State.parametrise
  induction all generalizing s with
  | nil => exact ⟨[], rfl, nofun⟩
  | cons p all ih =>
    obtain ⟨new, hnew, hroles⟩ := ih (s.declare p.1.index .parameter function p.1.name.text
      (.var (p.1.variable p.2)))
    refine ⟨new ++ [_], hnew.trans (List.append_assoc new [_] s.declared).symm, fun d hd => ?_⟩
    rcases List.mem_append.1 hd with hd | hd
    · exact hroles d hd
    · rw [List.mem_singleton.1 hd]

/-- The records of a new function and its parameters. -/
theorem declared_introduce (h : Head) (s : State) : ∃ new : List Declared,
    (s.introduce h).declared = new ++ ⟨h.token, functionRole h.modifiers, s.table.size, s.function,
      s.regions⟩ :: s.declared ∧ ∀ d ∈ new, d.role = .parameter :=
  declared_parametrise ..

theorem State.Listed.introduce (hlisted : s.Listed) (h : Head) : (s.introduce h).Listed := by
  obtain ⟨new, hnew, -⟩ := declared_introduce h s
  intro id hid
  rcases (edits_attached (q := fun _ _ => False) h s).see_eq_some nofun (isDefined_iff.1 hid) with
    hold | ⟨owner, kind, ⟨-, hkind⟩, hbody, -⟩
  · rw [Table.see_add] at hold
    rw [hnew]
    split at hold
    · next hsize =>
      refine .inr ⟨_, List.mem_append_right _ List.mem_cons_self, ?_, hsize.symm⟩
      -- Imported functions have no body, so this one has its record.
      have himported : h.modifiers.flags.imported = false := by
        cases himported : h.modifiers.flags.imported with
        | false => rfl
        | true =>
          simp [bodied?, SymbolKind.function?, hasBody, Head.function, himported] at hold
      exact if_neg (by rw [himported]; exact Bool.false_ne_true)
    · rcases hlisted id (isDefined_iff.2 hold) with hglobal | ⟨d, hd, hrole, hsymbol⟩
      · exact .inl hglobal
      · exact .inr ⟨d, List.mem_append_right _ (List.mem_cons_of_mem _ hd), hrole, hsymbol⟩
  · cases hkind <;> cases hbody

/-- Every function with a body has a record, apart from the code outside of functions. -/
theorem invariant_listed (T : Table) : Invariant T State.Listed where
  moved hs := hs
  calm h hs :=
    hs.of_edits h.edits (fun _ _ hnew => hnew.bodied?) (fun _ _ => bodied?_alters)
      fun d hd => h.declared ▸ hd
  declare {s s₁ token owner role name kind} howner _ new hs := by
    have hlisted₁ : s₁.Listed := by cases new <;> exact hs
    refine hlisted₁.of_edits (p := fun _ k => k = kind) (q := fun _ _ => False)
      (.single (.add name (new.table ▸ howner) new.counts rfl)) ?_ (fun _ _ h => h.elim)
      fun _ => List.mem_cons_of_mem _
    rintro _ _ rfl
    exact new.bodied?
  introduce {_ h} _ hs := hs.introduce h
  frame {s} function _ hs := by
    -- A frame adds no function.
    intro id hid
    have hlt : id < s.table.size := by
      obtain ⟨f, hf, -⟩ := hid
      have hsize := Table.kind?_lt (Table.function?_eq_some.1 hf)
      rwa [Table.size_layFrame] at hsize
    exact hs id ((keeps_layFrame s function).table.isDefined_of_lt hid hlt)

/-! ### Functions are found again at their bodies -/

def State.Opened (s : State) : Prop :=
  ∀ d ∈ s.recalled, d.role = .function → Opens s.tokens d.token

theorem Step.recalled (h : Step T s s') : s'.recalled = s.recalled := by
  cases h <;> rfl

theorem Steps.recalled (h : Steps T s s') : s'.recalled = s.recalled := by
  induction h with
  | refl => rfl
  | tail _ hstep ih => exact hstep.recalled.trans ih

theorem recalled_introduce (h : Head) (s : State) : (s.introduce h).recalled = s.recalled := by
  obtain ⟨table, declared, hintroduce⟩ := introduce_eq h s
  rw [hintroduce]

theorem State.Opened.of_eq (h : s.Opened) (hrecalled : s'.recalled = s.recalled)
    (htokens : s'.tokens = s.tokens) : s'.Opened := by
  intro d hd hrole
  rw [hrecalled] at hd
  rw [htokens]
  exact h d hd hrole

theorem Move.opened (h : Move T s s') (hopened : s.Opened) : s'.Opened := by
  have htokens := h.steady.tokens
  cases h with
  | step h => exact hopened.of_eq h.recalled htokens
  | declare token hpass howner houter new => exact hopened.of_eq (by cases new <;> rfl) htokens
  | introduce => exact hopened.of_eq (recalled_introduce ..) htokens
  | retrieve _ hrole =>
    intro d hd hfunction
    rcases List.mem_cons.1 hd with rfl | hd
    · exact absurd hfunction hrole
    · exact hopened d hd hfunction
  | _ => exact hopened.of_eq rfl rfl

/-- A function is found again only where its body opens. -/
theorem Course.opened (h : Course T s s') (hopened : s.Opened) : s'.Opened := by
  induction h with
  | refl => exact hopened
  | move h => exact h.opened hopened
  | trans _ _ ih ih₁ => exact ih₁ (ih hopened)
  | outside h => exact hopened.of_eq h.recalled h.steady.tokens
  | @framed s s₁ h hpass admits _ body ih =>
    have hintroduced : (s.introduce h).Opened :=
      hopened.of_eq (recalled_introduce h s) (steady_introduce h s).tokens
    exact (ih hintroduced).of_eq rfl rfl
  | @filled s s₀ s₁ token id _ _ _ opens parameters body ih ih₁ =>
    -- Only here a function is recalled, and its body is ahead.
    have hrecalled : (s.retrieve token .function id).Opened := by
      intro d hd hrole
      rcases List.mem_cons.1 hd with rfl | hd
      · exact opens
      · exact hopened d hd hrole
    exact (ih₁ (ih hrecalled)).of_eq rfl rfl

/-! ### Both walks -/

section Walked

variable {flags : Flags} {tokens : List Token} {s t : State}

theorem Walked.grows_initial (h : Walked flags tokens s t) : initialTable.Grows t.table :=
  (keeps_first h.declares).table.trans (keeps_second h.emits).table

theorem globalScope_lt : globalScope < initialTable.size := by decide

theorem memberScope_lt : memberScope < initialTable.size := by decide

/-- What both walks come to, with the records that the second has found again so far. -/
def Walked.prospect (h : Walked flags tokens s t) (recalled : List Declared)
    (hsound : ∀ d ∈ recalled, d.Sound t.table) : Prospect where
  table := t.table
  member := by
    have hmember : initialTable.kind? memberScope = some .space := rfl
    obtain ⟨k, hk, hgrows⟩ := h.grows_initial.kind? hmember
    have htag := hgrows.tag
    cases k with
    | space => exact hk
    | _ => cases htag
  root := (h.grows_initial.scope? memberScope_lt).trans (scope?_initialTable memberScope)
  recalled
  sound := hsound

/-- The first walk finds nothing again. -/
theorem Walked.recalled_first (h : Walked flags tokens s t) : s.recalled = [] := by
  obtain ⟨new, hnew, hfound⟩ := (keeps_first h.declares).recalls
  cases new with
  | nil => exact hnew
  | cons r new => cases (hfound r List.mem_cons_self).1

/-- The first walk takes a course. -/
theorem Walked.first (h : Walked flags tokens s t) :
    Course t.table (.initial flags tokens) s := by
  have hkeeps := keeps_second h.emits
  have hheads : Heads (h.prospect [] nofun) s := by
    refine ⟨hkeeps.table, fun r hr => ?_, hasErrors_eq_false_mono hkeeps.log h.quiet⟩
    rw [h.recalled_first] at hr
    cases hr
  exact course_walkOver h.declares hheads memberScope_lt
    (fun h => absurd rfl h) wellFormed_initialTable

theorem Walked.sound_first (h : Walked flags tokens s t) : s.Sound :=
  (invariant_sound t.table).course h.first wellFormed_initialTable nofun

theorem Walked.sound (h : Walked flags tokens s t) (d : Declared) (hd : d ∈ s.declared) :
    d.Sound t.table :=
  (h.sound_first d hd).grows (keeps_second h.emits).table

theorem Walked.recalled (h : Walked flags tokens s t) : t.recalled = s.declared :=
  (recalled_eq_declared h.declares h.emits h.quiet).trans ((keeps_second h.emits).emit rfl).1

/-- So does the second. -/
theorem Walked.second (h : Walked flags tokens s t) :
    Course t.table (s.begin .emit) t := by
  have hkeeps := keeps_first h.declares
  have hheads : Heads (h.prospect s.declared h.sound) t :=
    ⟨.refl _, fun r hr => by rwa [h.recalled] at hr, h.quiet⟩
  refine course_walkOver h.emits hheads ?_ (hkeeps.faithful fun h => absurd rfl h)
    (hkeeps.wellFormed wellFormed_initialTable)
  exact Nat.lt_of_lt_of_le memberScope_lt hkeeps.table.size_le

theorem Walked.wellFormed (h : Walked flags tokens s t) : t.table.WellFormed :=
  (keeps_second h.emits).wellFormed ((keeps_first h.declares).wellFormed wellFormed_initialTable)

/-- What every move keeps, both walks keep. -/
theorem Invariant.walked {P : State → Prop} (invariant : Invariant t.table P)
    (h : Walked flags tokens s t) (hinitial : P (.initial flags tokens)) : P t := by
  have hs : P s := invariant.course h.first wellFormed_initialTable hinitial
  have hbegin : P (s.begin .emit) :=
    invariant.calm (s := { s with localCount := 0 }) ⟨.refl, rfl, rfl, rfl, rfl, rfl⟩
      (invariant.moved hs)
  exact invariant.course h.second ((keeps_first h.declares).wellFormed wellFormed_initialTable)
    hbegin

/-- Every function with a body is declared where its body opens. -/
theorem Walked.exists_body (h : Walked flags tokens s t) (hid : t.table.IsDefined id) :
    id = globalScope ∨
      ∃ d ∈ s.declared, d.role = .function ∧ d.symbol = id ∧ Opens s.tokens d.token := by
  have hinitial : (State.initial flags tokens).Listed := by
    intro id hid
    obtain ⟨f, hf, -⟩ := hid
    rcases kind?_initialTable (Table.function?_eq_some.1 hf) with ⟨rfl, -⟩ | ⟨-, hk⟩
    · exact .inl rfl
    · cases hk
  have hlisted : t.Listed := (invariant_listed t.table).walked h hinitial
  have hbegin : (s.begin .emit).Opened := by
    intro d hd
    rw [show (s.begin .emit).recalled = [] from h.recalled_first] at hd
    cases hd
  have hopened : t.Opened := h.second.opened hbegin
  rcases hlisted id hid with hglobal | ⟨d, hd, hrole, hsymbol⟩
  · exact .inl hglobal
  -- What the second walk recalls is what the first declared.
  · rw [((keeps_second h.emits).emit rfl).1] at hd
    refine .inr ⟨d, hd, hrole, hsymbol, ?_⟩
    have hbody := hopened d (by rwa [h.recalled]) hrole
    rwa [h.second.steady.tokens] at hbody

end Walked

end Walk

end StateScript
