import Mathlib.Logic.Relation
import StateScript.Proofs.Walk.Statements

/-! # The steps of an expression

  What an expression does to the state is a sequence of steps. It moves the cursor and adds
  to the log, marks symbols as used, makes the texts, members and methods that it comes
  across, fixes the parameters of a method with its first call, and gives the current
  function instructions. `Step` lists them with what is known where they are taken;
  whatever all steps keep, all expressions keep.

  Instructions refer to symbols, and which symbols may stand behind an opcode is part of a
  step. It is stated about the table `T` that both walks end with: symbols keep their sort
  and their scope, so that what is known of one at any time is known of it there. A walk is
  `Paced` if its runs are made of steps, and it `Yields` what is known of its outcome.
-/

namespace StateScript

/-- Operands that stand for a symbol or a place in the code. -/
def Operand.isReference : Operand → Bool
  | .symbol _ | .target _ | .symbolIndex _ | .instruction _ => true
  | _ => false

/-! ### Sorts of symbols -/

namespace Table

variable {t t' : Table} {id : Nat}

def IsVar (t : Table) (id : Nat) : Prop := ∃ v, t.var? id = some v

/-- A variable that is reached through `->`. -/
def IsMember (t : Table) (id : Nat) : Prop := t.IsVar id ∧ id ∈ t.children Walk.memberScope

/-- A function that is reached through `->`. -/
def IsMethod (t : Table) (id : Nat) : Prop :=
  (∃ f, t.function? id = some f) ∧ id ∈ t.children Walk.memberScope

/-- A function that is called by its name. -/
def IsCallable (t : Table) (id : Nat) : Prop :=
  ∃ f, t.function? id = some f ∧ f.flags.method = false

def IsState (t : Table) (id : Nat) : Prop :=
  ∃ engine editor, t.kind? id = some (.state engine editor)

def IsText (t : Table) (id : Nat) : Prop := t.kind? id = some .text

theorem kind?_lt {k : SymbolKind} (h : t.kind? id = some k) : id < t.size := by
  obtain ⟨x, hx, -⟩ := kind?_eq_some.1 h
  exact get?_lt hx

theorem Grows.kind? {k : SymbolKind} (h : t.Grows t') (hk : t.kind? id = some k) :
    ∃ k', t'.kind? id = some k' ∧ k.Grows k' := by
  obtain ⟨x, hx, rfl⟩ := kind?_eq_some.1 hk
  obtain ⟨x', hx', g⟩ := h id x hx
  exact ⟨x'.kind, kind?_eq_some.2 ⟨x', hx', rfl⟩, g.kind⟩

theorem Grows.isVar (h : t.Grows t') (hid : t.IsVar id) : t'.IsVar id := by
  obtain ⟨v, hv⟩ := hid
  obtain ⟨k', hk', g⟩ := h.kind? (var?_eq_some.1 hv)
  obtain ⟨v', rfl, -⟩ := g.var v rfl
  exact ⟨v', var?_eq_some.2 hk'⟩

/-- What is a variable in the end was one before. -/
theorem Grows.isVar_of_lt (h : t.Grows t') (hid : t'.IsVar id) (hlt : id < t.size) :
    t.IsVar id := by
  obtain ⟨v', hv'⟩ := hid
  obtain ⟨x, hx⟩ := exists_get? hlt
  have hk : t.kind? id = some x.kind := kind?_eq_some.2 ⟨x, hx, rfl⟩
  obtain ⟨k', hk', g⟩ := h.kind? hk
  cases (var?_eq_some.1 hv').symm.trans hk'
  have htag := g.tag
  cases hkind : x.kind with
  | var v => exact ⟨v, var?_eq_some.2 (hk.trans (congrArg some hkind))⟩
  | _ =>
    rw [hkind] at htag
    cases htag

theorem Grows.mem_children {owner : Nat} (h : t.Grows t') (hid : id ∈ t.children owner) :
    id ∈ t'.children owner := by
  cases hx : t.get? owner with
  | none =>
    rw [children, hx] at hid
    cases hid
  | some x =>
    obtain ⟨x', hx', g⟩ := h owner x hx
    rw [children_of_get? hx] at hid
    rw [children_of_get? hx']
    exact g.children.subset hid

theorem Grows.isMember (h : t.Grows t') (hid : t.IsMember id) : t'.IsMember id :=
  ⟨h.isVar hid.1, h.mem_children hid.2⟩

theorem Grows.isMethod (h : t.Grows t') (hid : t.IsMethod id) : t'.IsMethod id := by
  obtain ⟨⟨f, hf⟩, hmem⟩ := hid
  obtain ⟨f', hf', -⟩ := h.function? hf
  exact ⟨⟨f', hf'⟩, h.mem_children hmem⟩

theorem Grows.isCallable (h : t.Grows t') (hid : t.IsCallable id) : t'.IsCallable id := by
  obtain ⟨f, hf, hmethod⟩ := hid
  obtain ⟨f', hf', hflags⟩ := h.function? hf
  exact ⟨f', hf', by rw [hflags, hmethod]⟩

theorem Grows.isState (h : t.Grows t') (hid : t.IsState id) : t'.IsState id := by
  obtain ⟨engine, editor, hk⟩ := hid
  obtain ⟨k', hk', g⟩ := h.kind? hk
  exact ⟨engine, editor, hk'.trans (congrArg some (g.state engine editor rfl))⟩

theorem Grows.isText (h : t.Grows t') (hid : t.IsText id) : t'.IsText id := by
  obtain ⟨k', hk', g⟩ := h.kind? hid
  have htag := g.tag
  cases k' with
  | text => exact hk'
  | _ => cases htag

/-- What a search finds is a child of the scope and passes the filter. -/
theorem find?_eq_some {scope : Nat} {name : String} {filter : Symbol → Bool}
    (h : t.find? scope name filter = some id) :
    id ∈ t.children scope ∧ ∃ x, t.get? id = some x ∧ x.identifier = name ∧ filter x = true := by
  refine ⟨List.mem_of_find?_eq_some h, ?_⟩
  have hmatch := List.find?_some h
  unfold isMatch at hmatch
  cases hx : t.get? id with
  | none =>
    rw [hx] at hmatch
    cases hmatch
  | some x =>
    rw [hx] at hmatch
    have hboth : x.identifier = name ∧ filter x = true := by simpa using hmatch
    exact ⟨x, rfl, hboth⟩

theorem isVar_of_get? {x : Symbol} (hx : t.get? id = some x) (h : x.kind.var?.isSome = true) :
    t.IsVar id := by
  obtain ⟨v, hv⟩ := Option.isSome_iff_exists.1 h
  refine ⟨v, ?_⟩
  rw [var?, kind?_eq_some.2 ⟨x, hx, rfl⟩]
  exact hv

theorem function?_of_get? {x : Symbol} {f : Function} (hx : t.get? id = some x)
    (h : x.kind.function? = some f) : t.function? id = some f := by
  rw [function?, kind?_eq_some.2 ⟨x, hx, rfl⟩]
  exact h

end Table

namespace Walk

variable {α β : Type} {T : Table} {operands : List Operand} {id scope : Nat} {s s' : State}
  {filter : Symbol → Bool} {t : ValueType} {x : Walk α} {turn : α → Walk (Turn α β)}
  {f : α → Walk β}

/-! ### What operands stand for -/

/-- The sort of symbol that an opcode refers to; most opcodes may only refer to a text. -/
def Names (T : Table) (op : Opcode) (id : Nat) : Prop :=
  match op with
  | .call => T.IsCallable id
  | .callMethod => T.IsMethod id
  | .getMember | .getMemberIndexed | .setMember | .setMemberIndexed => T.IsMember id
  | .gotoState => T.IsState id
  | _ => T.IsText id

/-- An operand that an expression may put behind an opcode. -/
def Suits (T : Table) (op : Opcode) : Operand → Prop
  | .symbol id => Names T op id
  | .target _ | .symbolIndex _ | .instruction _ => False
  | _ => True

/-- An operand that stands for a value: a symbol among them is a text. -/
def IsValue (T : Table) : Operand → Prop
  | .symbol id => T.IsText id
  | .target _ | .symbolIndex _ | .instruction _ => False
  | _ => True

/-- Opcodes of which a symbol is an operand like any other. -/
def isOrdinary : Opcode → Bool
  | .call | .callMethod | .gotoState => false
  | .getMember | .getMemberIndexed | .setMember | .setMemberIndexed => false
  | _ => true

theorem IsValue.suits {op : Opcode} {x : Operand} (h : IsValue T x) (hop : isOrdinary op = true) :
    Suits T op x := by
  cases x with
  | symbol id =>
    cases op
    case call | callMethod | gotoState => cases hop
    case getMember | getMemberIndexed | setMember | setMemberIndexed => cases hop
    all_goals exact h
  | target | symbolIndex | instruction => exact h.elim
  | _ => trivial

theorem isOrdinary_on {op : Operation} {family : Family} {opcode : Opcode}
    (h : op.on family = some opcode) : isOrdinary opcode = true := by
  unfold Operation.on at h
  split at h <;> cases h <;> rfl

theorem isOrdinary_of_opcode? {op : Operation} {opcode : Opcode} (h : t.opcode? op = some opcode) :
    isOrdinary opcode = true := by
  unfold ValueType.opcode? at h
  split at h
  · exact isOrdinary_on h
  · split at h
    · split at h
      · cases h
        rfl
      · cases h
        rfl
      · exact isOrdinary_on h
      · exact isOrdinary_on h
      · cases h
    · obtain ⟨family, -, h⟩ := Option.bind_eq_some_iff.1 h
      exact isOrdinary_on h

/-! ### Steps -/

/-- A symbol that is made where a walk comes across it for the first time. -/
inductive Discovers (t : Table) : Nat → String → SymbolKind → Prop
  | text {name : String} (new : t.find? globalScope name (·.kind.isText) = none) :
      Discovers t globalScope name .text
  | member {name : String} {type : ValueType}
      (new : t.find? memberScope name (fun x => x.kind.var?.any (·.type == type)) = none) :
      Discovers t memberScope name (.var { kind := .member, type, storage := .stack 0 })
  | method {name : String} {returnType : ValueType}
      (new : t.find? memberScope name
        (fun x => x.kind.function?.any (·.returnType == returnType)) = none) :
      Discovers t memberScope name (.function { returnType, flags := { method := true } })

/-- What the first call of a method with arguments of some types makes of it. -/
def Function.fixed (types : List ValueType) (f : Function) : Function :=
  { f with parameterCount := types.length, parameterTypes := types, used := true }

/-- One step of an expression. -/
inductive Step (T : Table) (s : State) : State → Prop
  /-- Neither the table nor what is counted changes. -/
  | aside (pos : Nat) (log : Log) (rejected : List Nat) (blocks : List (List Nat))
      (metadata : List (String × String)) (internalVariables : Nat) :
      Step T s { s with pos, log, rejected, blocks, metadata, internalVariables }
  | use (id : Nat) : Step T s { s with table := s.table.modifyKind id SymbolKind.markUsed }
  | discover {scope : Nat} {name : String} {kind : SymbolKind} (hscope : scope < s.table.size)
      (new : Discovers s.table scope name kind) :
      Step T s { s with table := s.table.add (some scope) name kind }
  /-- The first call of a method. -/
  | fix {id : Nat} {f : Function} (types : List ValueType) (hmethod : T.IsMethod id)
      (hf : s.table.function? id = some f) (hused : f.used = false) :
      Step T s { s with table := s.table.modifyKind id (·.mapFunction (Function.fixed types)) }
  | emit {op : Opcode} {operands : List Operand}
      {place : Option Nat} (hpass : s.pass = .emit)
      (suits : ∀ x ∈ operands, Suits T op x) :
      Step T s (s.emit op operands place)

/-- Any number of steps. -/
abbrev Steps (T : Table) : State → State → Prop := Relation.ReflTransGen (Step T)

theorem Steps.aside (s : State) (pos : Nat) (log : Log) (rejected : List Nat)
    (blocks : List (List Nat)) (metadata : List (String × String)) (internalVariables : Nat) :
    Steps T s { s with pos, log, rejected, blocks, metadata, internalVariables } :=
  .single (.aside ..)

/-! ### Walks made of steps -/

/-- What counts the turns of the loops around is a variable. -/
def Counts (T : Table) (s : State) : Prop :=
  ∀ frame ∈ s.loops, ∀ counter, frame.counter = some counter → T.IsVar counter

/-- The runs of the walk that lead on to the table `T` are made of steps. -/
class Paced (T : Table) (x : Walk α) : Prop where
  respects : Respects .any 0 x
  run : ∀ s, Counts T s → Continues (x s) → (final (x s)).table.Grows T → Steps T s (final (x s))

/-- What is known of the outcome of a walk where it leads on to the table `T`. -/
def Yields (T : Table) (x : Walk α) (q : α → Prop) : Prop :=
  ∀ s a s', x s = .ok a s' → s'.table.Grows T → q a

theorem Respects.grows {g : Grade} (hx : Respects g 0 x) (s : State) :
    s.table.Grows (final (x s)).table :=
  (hx.run s (Nat.zero_le _)).table

theorem Counts.keeps {g : Grade} {b : Nat} {e : Option Stop} (h : Counts T s)
    (hkeeps : Keeps g b e s s') : Counts T s' := by
  unfold Counts
  rw [hkeeps.loops]
  exact h

/-- A walk whose outcome the rest relies on. -/
theorem Paced.bind_yields {q : α → Prop} (hx : Paced T x)
    (hq : Yields T x q) (hf : ∀ a, q a → Paced T (f a))
    (hr : ∀ a, Respects .any 0 (f a) := by
      intro a
      repeat' first
        | infer_instance
        | split
        | refine Respects.seq fun _ => ?_) : Paced T (x >>= f) where
  respects := .bind hx.respects hr
  run s hcounts hcontinues hgrows := by
    have hrun := hx.run s hcounts
    cases h : x s with
    | ok a s₁ =>
      rw [bind_of_ok h] at hcontinues hgrows ⊢
      rw [h] at hrun
      have hgrows₁ : s₁.table.Grows T := ((hr a).grows s₁).trans hgrows
      have hcounts₁ := hcounts.keeps (hx.respects.ok (Nat.zero_le _) h)
      have hfirst := hrun (continues_ok a s₁) hgrows₁
      exact hfirst.trans ((hf a (hq s a s₁ h hgrows₁)).run s₁ hcounts₁ hcontinues hgrows)
    | error e s₁ =>
      rw [bind_of_error h] at hcontinues hgrows ⊢
      rw [h] at hrun
      exact hrun hcontinues hgrows

theorem Yields.trivial (x : Walk α) : Yields T x fun _ => True := fun _ _ _ _ _ => True.intro

theorem Paced.bind (hx : Paced T x) (hf : ∀ a, Paced T (f a)) : Paced T (x >>= f) :=
  hx.bind_yields (.trivial x) (fun a _ => hf a) fun a => (hf a).respects

theorem Paced.seq [hx : Paced T x] (hf : ∀ a, Paced T (f a)) : Paced T (x >>= f) :=
  hx.bind hf

instance [hx : Paced T x] [hf : ∀ a, Paced T (f a)] : Paced T (x >>= f) :=
  hx.bind hf

instance (priority := low) {x : Walk (Option γ)} {f : Option γ → Walk β} [hx : Paced T x]
    [hnone : Paced T (f none)] [hsome : ∀ a, Paced T (f (some a))] : Paced T (x >>= f) :=
  hx.bind (Option.forall.2 ⟨hnone, hsome⟩)

instance (c : Prop) [Decidable c] (y : Walk α) [hx : Paced T x] [hy : Paced T y] :
    Paced T (if c then x else y) := by
  split
  · exact hx
  · exact hy

/-- A walk that changes the state aside, or not at all. -/
instance (priority := low) [hx : Respects .still 0 x] : Paced T x where
  respects := hx.weaken
  run s _ _ _ := by
    obtain ⟨_, _, _, _, _, _, hfinal⟩ := (hx.run s (Nat.zero_le _)).still (Nat.le_refl _)
    rw [hfinal]
    exact .aside ..

instance Paced.broken : Paced T (throw .broken : Walk α) where
  respects := .broken
  run s _ hcontinues _ := by
    rcases hcontinues with h | h <;> cases h

theorem Paced.loop (h : ∀ a, Paced T (turn a)) (a : α) : Paced T (loop a turn) :=
  loop_induction (P := Paced T) (fun _ => .seq) .broken (fun _ => inferInstance)
    (fun a _ => (h a).bind) a

instance (a : α) [h : ∀ a, Paced T (turn a)] : Paced T (loop a turn) :=
  .loop h a

theorem Paced.forM {xs : List α} {f : α → Walk Unit} (h : ∀ a ∈ xs, Paced T (f a)) :
    Paced T (xs.forM f) := by
  induction xs with
  | nil => exact inferInstanceAs (Paced T (pure ()))
  | cons a xs ih =>
    exact Paced.bind (h a List.mem_cons_self) fun _ => ih fun a ha =>
      h a (List.mem_cons_of_mem _ ha)

instance (xs : List α) (f : α → Walk Unit) [h : ∀ a, Paced T (f a)] : Paced T (xs.forM f) :=
  .forM fun a _ => h a

/-! ### Outcomes -/

namespace Yields

variable {x : Walk α} {f : α → Walk β} {p : α → Prop} {q : β → Prop}

theorem bind (hx : Yields T x p) (hf : ∀ a, p a → Yields T (f a) q)
    (hr : ∀ a, Respects .any 0 (f a) := by
      intro a
      repeat' first
        | infer_instance
        | split
        | refine Respects.seq fun _ => ?_) : Yields T (x >>= f) q := by
  intro s b s' hrun hgrows
  obtain ⟨a, s₁, h₁, h₂⟩ := bind_eq_ok.1 hrun
  have hgrows₁ : s₁.table.Grows T := by
    have h := (hr a).grows s₁
    rw [h₂] at h
    exact h.trans hgrows
  exact hf a (hx s a s₁ h₁ hgrows₁) s₁ b s' h₂ hgrows

/-- The outcome is settled by the second of two walks. -/
theorem after (hf : ∀ a, Yields T (f a) q)
    (hr : ∀ a, Respects .any 0 (f a) := by
      intro a
      repeat' first
        | infer_instance
        | split
        | refine Respects.seq fun _ => ?_) : Yields T (x >>= f) q :=
  bind (.trivial x) (fun a _ => hf a) hr

theorem pure {a : α} (h : p a) : Yields T (pure a : Walk α) p := by
  intro s b s' hrun _
  cases hrun
  exact h

theorem ite {c : Prop} [Decidable c] {y : Walk α} (hx : c → Yields T x p)
    (hy : ¬ c → Yields T y p) : Yields T (if c then x else y) p := by
  split
  · next h => exact hx h
  · next h => exact hy h

theorem of_ne_ok (h : ∀ s a s', x s ≠ .ok a s') : Yields T x p :=
  fun s a s' hrun _ => absurd hrun (h s a s')

end Yields

/-! ### Reports and the cursor -/

instance (index : Nat) (code : Code) (message : String) [Ordinary code] :
    Paced T (reject index code message : Walk α) := by
  have abandon : Paced T (throw .abandoned : Walk α) :=
    ⟨Respects.abandon.weaken, fun _ _ _ _ => .refl⟩
  unfold reject
  infer_instance

/-! ### Symbols -/

theorem symbol_eq_ok {x : Symbol} (h : symbol id s = .ok x s') :
    s' = s ∧ s.table.get? id = some x := by
  unfold symbol at h
  split at h
  · next hx =>
    cases h
    exact ⟨rfl, hx⟩
  · cases h

instance : Paced T (markUsed id) where
  respects := inferInstance
  run s _ _ _ := by
    unfold markUsed
    rcases modifyKind_cases id SymbolKind.markUsed s with hrun | hrun <;> rw [hrun]
    · exact .single (.use id)
    · exact .refl

/-- A variable has a place. -/
theorem yields_storage? (hid : T.IsVar id) :
    Yields T (storage? id) fun storage => storage.isSome = true := by
  intro s storage s' hrun hgrows
  unfold storage? at hrun
  obtain ⟨x, s₁, hsymbol, hrest⟩ := bind_eq_ok.1 hrun
  obtain ⟨rfl, hx⟩ := symbol_eq_ok hsymbol
  cases hrest
  obtain ⟨v, hv⟩ := hgrows.isVar_of_lt hid (Table.get?_lt hx)
  rw [Table.var?, Table.kind?_eq_some.2 ⟨x, hx, rfl⟩, Option.bind_some] at hv
  rw [hv]
  rfl

theorem yields_slot (hid : T.IsVar id) : Yields T (slot id) (IsValue T) := by
  unfold slot
  refine .bind (yields_storage? hid) fun storage hstorage => ?_
  cases storage with
  | none => cases hstorage
  | some storage => cases storage <;> exact .pure True.intro

theorem yields_indexedSlot (hid : T.IsVar id) (index : Register) :
    Yields T (indexedSlot id index) (IsValue T) := by
  unfold indexedSlot
  refine .bind (yields_storage? hid) fun storage hstorage => ?_
  cases storage with
  | none => cases hstorage
  | some storage => cases storage <;> exact .pure True.intro

/-- A symbol that is found if it is there, and made if it is not. -/
theorem paced_discover {name : String} {kind : SymbolKind} [NewKind kind]
    (hnone : s.table.find? scope name filter = none)
    (new : ∀ t : Table, t.find? scope name filter = none → Discovers t scope name kind)
    (hcontinues : Continues (addSymbol scope name kind s)) :
    Steps T s (final (addSymbol scope name kind s)) := by
  unfold addSymbol at hcontinues ⊢
  dsimp only at hcontinues ⊢
  split
  · next hscope => exact .single (.discover hscope (new s.table hnone))
  · next hscope =>
    rw [if_neg hscope] at hcontinues
    rcases hcontinues with h | h <;> cases h

instance (text : String) : Paced T (intern text) where
  respects := inferInstance
  run s _ hcontinues _ := by
    unfold intern at hcontinues ⊢
    rw [view_bind] at hcontinues ⊢
    cases hfind : s.table.find? globalScope text (·.kind.isText) with
    | some id => exact .refl
    | none =>
      simp only [hfind] at hcontinues
      exact paced_discover hfind (fun t h => .text h) hcontinues

theorem yields_intern (text : String) : Yields T (intern text) T.IsText := by
  intro s id s' hrun hgrows
  unfold intern at hrun
  rw [view_bind] at hrun
  cases hfind : s.table.find? globalScope text (·.kind.isText) with
  | some found =>
    simp only [hfind] at hrun
    cases hrun
    obtain ⟨-, x, hx, -, htext⟩ := Table.find?_eq_some hfind
    refine hgrows.isText (Table.kind?_eq_some.2 ⟨x, hx, ?_⟩)
    cases hkind : x.kind with
    | text => rfl
    | _ =>
      rw [hkind] at htext
      cases htext
  -- A text that is new is the symbol just added.
  | none =>
    simp only [hfind] at hrun
    obtain ⟨-, rfl, rfl⟩ := addSymbol_eq_ok hrun
    refine hgrows.isText ?_
    rw [Table.IsText, Table.kind?_add, if_pos rfl]

theorem findChild_eq_ok {name : String} {found : Option Nat}
    (h : findChild scope name filter s = .ok found s') :
    s' = s ∧ found = s.table.find? scope name filter := by
  rcases findChild_cases scope name filter s with hrun | hrun
  · cases h.symm.trans hrun
    exact ⟨rfl, rfl⟩
  · cases h.symm.trans hrun

/-- What is known of a symbol that a name leads to. -/
def Leads (filter : Symbol → Bool) (T : Table) (found : Option Nat) : Prop :=
  ∀ id, found = some id → ∃ t : Table, t.Grows T ∧ ∃ x, t.get? id = some x ∧ filter x = true

theorem leads_find? {t : Table} {name : String} {filter' : Symbol → Bool} (h : t.Grows T)
    (himp : ∀ x, filter' x = true → filter x = true) :
    Leads filter T (t.find? scope name filter') := by
  intro id hid
  obtain ⟨-, x, hx, -, hfilter⟩ := Table.find?_eq_some hid
  exact ⟨t, h, x, hx, himp x hfilter⟩

theorem yields_resolve (name : String) (filter : Symbol → Bool) :
    Yields T (resolve name filter) (Leads filter T) := by
  intro s found s' hrun hgrows
  unfold resolve at hrun
  obtain ⟨ids, s₁, hids, hrun⟩ := bind_eq_ok.1 hrun
  obtain ⟨-, hrun⟩ := ensure_bind_eq_ok hrun
  cases hrun
  intro id hid
  obtain ⟨scope, -, hfind⟩ := List.exists_of_findSome?_eq_some hid
  have himp : ∀ x, (isFoundIn s'.table scope x && filter x) = true → filter x = true := by
    intro x hx
    rw [Bool.and_eq_true] at hx
    exact hx.2
  exact leads_find? hgrows himp id hfind

theorem yields_findChild (scope : Nat) (name : String) (filter : Symbol → Bool) :
    Yields T (findChild scope name filter) (Leads filter T) := by
  intro s found s' hrun hgrows
  obtain ⟨rfl, rfl⟩ := findChild_eq_ok hrun
  exact leads_find? hgrows fun _ h => h

theorem yields_resolvePath (path : List Token) (filter : Symbol → Bool) :
    Yields T (resolvePath path filter) (Leads filter T) := by
  unfold resolvePath
  split
  · exact .pure fun _ h => by cases h
  · refine .after fun found => ?_
    split
    -- A local variable has to pass the filter as well.
    · next id =>
      intro s found s' hrun hgrows
      obtain ⟨x, s₁, hsymbol, hrest⟩ := bind_eq_ok.1 hrun
      obtain ⟨rfl, hx⟩ := symbol_eq_ok hsymbol
      split at hrest
      · next hfilter =>
        cases hrest
        intro id' hid
        cases hid
        exact ⟨_, hgrows, x, hx, hfilter⟩
      · exact yields_resolve _ filter _ _ _ hrest hgrows
    · exact yields_resolve _ _
  · refine .after fun found => ?_
    split
    · exact yields_findChild _ _ _
    · exact .pure fun _ h => by cases h

theorem Leads.isVar {found : Option Nat} (h : Leads filter T found)
    (hvar : ∀ x, filter x = true → x.kind.var?.isSome = true) (hid : found = some id) :
    T.IsVar id := by
  obtain ⟨t, hgrows, x, hx, hfilter⟩ := h id hid
  exact hgrows.isVar (Table.isVar_of_get? hx (hvar x hfilter))

/-! ### Code -/

theorem paced_emit {op : Opcode} (h : ∀ x ∈ operands, Suits T op x) :
    Paced T (emit op operands) where
  respects := inferInstance
  run s _ _ _ := by
    rcases s.pass_cases with hpass | hpass
    · rw [emit_of_declare op operands hpass]
      exact .refl
    · rcases emit_of_emit op operands hpass with hrun | hrun <;> rw [hrun]
      · exact .single (.emit hpass h)
      · exact .refl

theorem paced_emitAt {place : Nat} {op : Opcode} (h : ∀ x ∈ operands, Suits T op x) :
    Paced T (emitAt place op operands) where
  respects := inferInstance
  run s _ _ _ := by
    rcases s.pass_cases with hpass | hpass
    · rw [emitAt_of_declare place op operands hpass]
      exact .refl
    · rcases emitAt_of_emit place op operands hpass with hrun | hrun <;> rw [hrun]
      · exact .single (.emit hpass h)
      · exact .refl

/-- Operands that refer to nothing. -/
class Literal (operands : List Operand) : Prop where
  isReference : ∀ x ∈ operands, x.isReference = false

instance : Literal [] := ⟨by simp⟩

/-- An operand that refers to nothing. -/
class LiteralOperand (x : Operand) : Prop where
  isReference : x.isReference = false

instance (r : Register) : LiteralOperand (.register r) := ⟨rfl⟩
instance : LiteralOperand op1 := ⟨rfl⟩
instance : LiteralOperand op2 := ⟨rfl⟩
instance : LiteralOperand reserved1 := ⟨rfl⟩
instance : LiteralOperand reserved2 := ⟨rfl⟩
instance : LiteralOperand result := ⟨rfl⟩
instance (n : Int32) : LiteralOperand (.int n) := ⟨rfl⟩
instance (isTrue : Bool) : LiteralOperand (.bool isTrue) := ⟨rfl⟩

instance (x : Operand) [hx : LiteralOperand x] [h : Literal operands] :
    Literal (x :: operands) := by
  refine ⟨fun y hy => ?_⟩
  rcases List.mem_cons.1 hy with rfl | hy
  · exact hx.isReference
  · exact h.isReference y hy

theorem suits_of_literal {op : Opcode} {x : Operand} (h : x.isReference = false) :
    Suits T op x := by
  cases x with
  | symbol | target | symbolIndex | instruction => cases h
  | _ => trivial

theorem isValue_of_literal {x : Operand} (h : x.isReference = false) : IsValue T x := by
  cases x with
  | symbol | target | symbolIndex | instruction => cases h
  | _ => trivial

instance (op : Opcode) [h : Literal operands] : Paced T (emit op operands) :=
  paced_emit fun x hx => suits_of_literal (h.isReference x hx)

instance (place : Nat) (op : Opcode) [h : Literal operands] : Paced T (emitAt place op operands) :=
  paced_emitAt fun x hx => suits_of_literal (h.isReference x hx)

theorem yields_opcodeFor (t : ValueType) (op : Operation) :
    Yields T (opcodeFor t op) (isOrdinary · = true) := by
  unfold opcodeFor
  split
  · next opcode h => exact .pure (isOrdinary_of_opcode? h)
  · refine .after fun isEmitting => .ite (fun _ => .of_ne_ok fun s a s' h => ?_) fun _ => .pure rfl
    unfold errorHere at h
    rw [position_bind] at h
    obtain ⟨log, -, -, -, -, hrun⟩ :=
      errorAt_eq (α := Opcode) s.pos .invalidOperator
        s!"no {op.name} instruction exists for {t.render}" s
    rw [hrun] at h
    cases h

theorem paced_emitOrdinary {op : Opcode} (hop : isOrdinary op = true)
    (h : ∀ x ∈ operands, IsValue T x) : Paced T (emit op operands) :=
  paced_emit fun x hx => (h x hx).suits hop

theorem paced_emitFor (h : ∀ x ∈ operands, IsValue T x) (t : ValueType) (op : Operation) :
    Paced T (emitFor t op operands) := by
  unfold emitFor
  exact .bind_yields inferInstance (yields_opcodeFor t op) fun opcode hop =>
    paced_emitOrdinary hop h

instance (op : Operation) [h : Literal operands] : Paced T (emitFor t op operands) :=
  paced_emitFor (fun x hx => isValue_of_literal (h.isReference x hx)) t op

end Walk

end StateScript
