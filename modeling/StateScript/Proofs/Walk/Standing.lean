import StateScript.Proofs.Walk.Records

/-! # Symbols that stand out

  Two facts about the table hold over both walks. Whatever variable or function the member
  scope owns was made where a script came across it behind `->`, and is marked so. And
  of the states at most one is the default of the engine and at most one that of the editor:
  the state remembers which, and rejects a second one.
-/

namespace StateScript

/-- What sets a symbol apart. -/
structure Stamp where
  /-- Of a variable or a function, whether it is reached through `->`. -/
  reached : Option Bool := none
  engine : Bool := false
  editor : Bool := false

def SymbolKind.stamp : SymbolKind → Stamp
  | .var v => { reached := some (v.kind == .member) }
  | .function f => { reached := some f.flags.method }
  | .state engine editor => { engine, editor }
  | _ => {}

namespace Table

variable {p : Nat → SymbolKind → Prop} {q : Nat → (SymbolKind → SymbolKind) → Prop} {t t' : Table}
  {test : Stamp → Bool} {chosen : Option Nat}

/-- Whether the stamp of a symbol passes a test. -/
abbrev passes? (t : Table) (test : Stamp → Bool) (id : Nat) : Option Bool :=
  t.see (fun k => some (test k.stamp)) id

/-- The one symbol whose stamp passes a test, if there is any. -/
def Singles (t : Table) (test : Stamp → Bool) (chosen : Option Nat) : Prop :=
  ∀ id, chosen = some id ↔ t.passes? test id = some true

/-- What the member scope owns is reached through `->`. -/
def Reached (t : Table) : Prop :=
  ∀ id, t.scope? id = some Walk.memberScope → t.see (fun k => k.stamp.reached) id ≠ some false

theorem Edits.singles (h : Edits p q t t')
    (hp : ∀ owner kind, p owner kind → test kind.stamp = false)
    (hq : ∀ id g, q id g → ∀ k, (g k).stamp = k.stamp) (hsingles : t.Singles test chosen) :
    t'.Singles test chosen := by
  have hview : ∀ id g, q id g → ∀ k, some (test (g k).stamp) = some (test k.stamp) := by
    intro id g hown k
    rw [hq id g hown k]
  intro id
  constructor
  · intro hid
    have hold := (hsingles id).1 hid
    exact (h.see hview (lt_of_see hold)).trans hold
  · intro hpasses
    -- New symbols do not pass the test, and old ones keep their stamp.
    rcases h.see_eq_some hview hpasses with hold | ⟨owner, kind, hown, htest, -⟩
    · exact (hsingles id).2 hold
    · rw [hp owner kind hown] at htest
      cases htest

/-- A new symbol that passes is the only one. -/
theorem Singles.add (h : t.Singles test chosen) {kind : SymbolKind}
    (hnew : test kind.stamp = true → chosen = none) (owner : Nat) (name : String) :
    (t.add (some owner) name kind).Singles test
      (if test kind.stamp then some t.size else chosen) := by
  -- The one chosen so far is older than the new symbol.
  have hfresh : chosen ≠ some t.size := fun hchosen =>
    Nat.lt_irrefl _ (lt_of_see ((h t.size).1 hchosen))
  intro id
  unfold passes?
  rw [see_add]
  cases htest : test kind.stamp with
  | true =>
    rw [if_pos rfl]
    by_cases hid : id = t.size
    · simp [hid]
    · have hnone : t.passes? test id ≠ some true := by
        intro hpasses
        cases (hnew htest).symm.trans ((h id).2 hpasses)
      simp [hid, hnone, eq_comm]
  | false =>
    rw [if_neg Bool.false_ne_true]
    by_cases hid : id = t.size
    · subst hid
      simp [hfresh]
    · rw [if_neg hid]
      exact h id

theorem Edits.reached (h : Edits p q t t')
    (hp : ∀ kind, p Walk.memberScope kind → kind.stamp.reached ≠ some false)
    (hq : ∀ id g, q id g → ∀ k, (g k).stamp = k.stamp) (hreached : t.Reached) : t'.Reached := by
  intro id hscope hfalse
  rcases h.see_eq_some (fun id g hown k => congrArg Stamp.reached (hq id g hown k)) hfalse with
    hold | ⟨owner, kind, hown, hkind, howner⟩
  · rw [h.grows.scope? (lt_of_see hold)] at hscope
    exact hreached id hscope hold
  · cases howner.symm.trans hscope
    exact hp kind hown hkind

theorem stamp_placedIn (t : Table) (function locals id : Nat) (k : SymbolKind) :
    (t.placedIn function locals id k).stamp = k.stamp := by
  cases k <;> rfl

theorem stamp_sized (locals : Nat) (k : SymbolKind) : (sized locals k).stamp = k.stamp := by
  cases k <;> rfl

/-- Stamps are not changed where a frame is laid out. -/
theorem see_stamp_layFrame {α : Type} (h : t.WellFormed) (view : Stamp → Option α)
    (function locals id : Nat) :
    (Walk.layFrame t function locals).see (fun k => view k.stamp) id =
      t.see (fun k => view k.stamp) id :=
  see_layFrame h (fun _ k => congrArg view (stamp_sized locals k))
    fun _ k => congrArg view (stamp_placedIn t function locals id k)

end Table

namespace Walk

variable {T : Table} {s s' : State} {owner : Nat}

theorem stamp_alters {id : Nat} {g : SymbolKind → SymbolKind} (h : Alters T s id g)
    (k : SymbolKind) :
    (g k).stamp = k.stamp := by
  cases h with
  | @settle _ f hf =>
    cases k with
    | var v =>
      show ({ reached := some ((f v).kind == .member) } : Stamp) = _
      rw [hf.kind]
      rfl
    | _ => rfl
  | _ => cases k <;> rfl

/-- A symbol that may come to an owner without being a default state. -/
structure Modest (owner : Nat) (kind : SymbolKind) : Prop where
  reached : owner = memberScope → kind.stamp.reached ≠ some false
  engine : kind.stamp.engine = false
  editor : kind.stamp.editor = false

theorem Gains.modest {kind : SymbolKind} (h : Gains s owner kind) : Modest owner kind := by
  cases h with
  | discovered new => cases new <;> exact ⟨fun _ => nofun, rfl, rfl⟩
  | metadata | space => exact ⟨fun _ => nofun, rfl, rfl⟩

theorem Attaches.modest {kind : SymbolKind} (h : Attaches kind) (howner : owner ≠ memberScope) :
    Modest owner kind := by
  cases h <;> exact ⟨fun hmember => absurd hmember howner, rfl, rfl⟩

/-- Members are stamped so, and the default states are the ones that are remembered. -/
structure State.Standing (s : State) : Prop where
  size : memberScope < s.table.size
  reached : s.table.Reached
  engine : s.table.Singles Stamp.engine s.engineState
  editor : s.table.Singles Stamp.editor s.editorState

theorem State.Standing.of_edits {p : Nat → SymbolKind → Prop}
    {q : Nat → (SymbolKind → SymbolKind) → Prop}
    (h : s.Standing) (hedits : Table.Edits p q s.table s'.table)
    (hp : ∀ owner kind, p owner kind → Modest owner kind)
    (hq : ∀ id g, q id g → ∀ k, (g k).stamp = k.stamp)
    (hengine : s'.engineState = s.engineState) (heditor : s'.editorState = s.editorState) :
    s'.Standing where
  size := Nat.lt_of_lt_of_le h.size hedits.grows.size_le
  reached := hedits.reached (fun kind hown => (hp memberScope kind hown).reached rfl) hq h.reached
  engine := by
    rw [hengine]
    exact hedits.singles (fun owner kind hown => (hp owner kind hown).engine) hq h.engine
  editor := by
    rw [heditor]
    exact hedits.singles (fun owner kind hown => (hp owner kind hown).editor) hq h.editor

theorem Calm.standing (h : Calm T s s') (hs : s.Standing) : s'.Standing :=
  hs.of_edits h.edits (fun _ _ hnew => hnew.modest)
    (fun _ _ => stamp_alters) h.engineState h.editorState

theorem State.Standing.introduce (hs : s.Standing) {h : Head} (admits : s.Admits h) :
    (s.introduce h).Standing := by
  obtain ⟨table, declared, hintroduce⟩ := introduce_eq h s
  refine hs.of_edits (edits_introduce (q := fun _ _ => False) admits) ?_ (fun _ _ h => h.elim) ?_ ?_
  · rintro owner kind (⟨rfl, rfl⟩ | ⟨rfl, hkind⟩)
    · exact ⟨fun hmember => absurd hmember admits.outer, rfl, rfl⟩
    · exact hkind.modest (Nat.ne_of_gt hs.size)
  · rw [hintroduce]
  · rw [hintroduce]

/-- Only the declaration of a state changes which ones are the defaults. -/
theorem Declares.defaults {role : Role} {name : String} {kind : SymbolKind} {s₁ : State}
    (h : Declares s role owner name kind s₁) :
    s₁.engineState = (if kind.stamp.engine then some s.table.size else s.engineState) ∧
      s₁.editorState = (if kind.stamp.editor then some s.table.size else s.editorState) ∧
      (kind.stamp.engine = true → s.engineState = none) ∧
      (kind.stamp.editor = true → s.editorState = none) := by
  cases h with
  | state _ new hengine heditor => exact ⟨rfl, rfl, hengine, heditor⟩
  | _ => exact ⟨rfl, rfl, nofun, nofun⟩

theorem Declares.standing {token : Nat} {role : Role} {name : String} {kind : SymbolKind}
    {s₁ : State} (new : Declares s role owner name kind s₁) (howner : owner < s.table.size)
    (houter : owner ≠ memberScope) (hs : s.Standing) :
    (s₁.declare token role owner name kind).Standing := by
  obtain ⟨hengine, heditor, hnoEngine, hnoEditor⟩ := new.defaults
  have hadd : Table.Edits (fun o k => o = owner ∧ k = kind) (fun _ _ => False) s.table
      (s.table.add (some owner) name kind) := .single (.add name howner new.counts ⟨rfl, rfl⟩)
  have htable : (s₁.declare token role owner name kind).table = s.table.add
      (some owner) name kind :=
    congrArg (Table.add · (some owner) name kind) new.table
  constructor
  · rw [htable]
    exact Nat.lt_of_lt_of_le hs.size hadd.grows.size_le
  · rw [htable]
    refine hadd.reached ?_ (fun _ _ h => h.elim) hs.reached
    -- Nothing is declared among the members by itself.
    rintro _ ⟨hmember, -⟩
    exact absurd hmember.symm houter
  · rw [htable, show (s₁.declare token role owner name kind).engineState = _ from hengine]
    exact hs.engine.add hnoEngine owner name
  · rw [htable, show (s₁.declare token role owner name kind).editorState = _ from heditor]
    exact hs.editor.add hnoEditor owner name

/-- Laying out a frame changes no stamp. -/
theorem State.Standing.layFrame (hs : s.Standing) (hform : s.table.WellFormed) (function : Nat) :
    State.Standing { s with table := layFrame s.table function s.localCount } where
  size := by
    show memberScope < (Walk.layFrame s.table function s.localCount).size
    rw [Table.size_layFrame]
    exact hs.size
  reached := by
    intro id hscope hfalse
    have hsee := (Table.see_stamp_layFrame hform Stamp.reached function s.localCount id).symm.trans
      hfalse
    rw [(keeps_layFrame s function).table.scope? (Table.lt_of_see hsee)] at hscope
    exact hs.reached id hscope hsee
  engine id := by
    rw [Table.passes?, Table.see_stamp_layFrame hform fun m => some m.engine]
    exact hs.engine id
  editor id := by
    rw [Table.passes?, Table.see_stamp_layFrame hform fun m => some m.editor]
    exact hs.editor id

/-- Both walks keep the stamps in order. -/
theorem invariant_standing (T : Table) : Invariant T State.Standing where
  moved hs := ⟨hs.size, hs.reached, hs.engine, hs.editor⟩
  calm h hs := h.standing hs
  declare howner houter new hs := new.standing howner houter hs
  introduce admits hs := hs.introduce admits
  frame function hform hs := hs.layFrame hform function

section Walked

variable {flags : Flags} {tokens : List Token} {s t : State}

theorem Walked.standing (h : Walked flags tokens s t) : t.closed.Standing := by
  have hinitial : (State.initial flags tokens).Standing := by
    have hstamp : ∀ id k, initialTable.kind? id = some k → k.stamp.engine = false ∧
        k.stamp.editor = false := by
      intro id k hk
      rcases kind?_initialTable hk with ⟨-, rfl⟩ | ⟨-, rfl⟩ <;> exact ⟨rfl, rfl⟩
    refine ⟨memberScope_lt, fun id hscope => ?_, fun id => ⟨nofun, fun hsee => ?_⟩,
      fun id => ⟨nofun, fun hsee => ?_⟩⟩
    · cases (scope?_initialTable id).symm.trans hscope
    · obtain ⟨k, hk, htest⟩ := Option.bind_eq_some_iff.1 hsee
      cases (hstamp id k hk).1.symm.trans (Option.some.inj htest)
    · obtain ⟨k, hk, htest⟩ := Option.bind_eq_some_iff.1 hsee
      cases (hstamp id k hk).2.symm.trans (Option.some.inj htest)
  have hsecond : t.Standing := (invariant_standing t.table).walked h hinitial
  -- The last return only adds code.
  have hcloses := edits_emit (T := t.table) (p := fun _ _ => False) h.second.steady.pass .ret
    [] none
  exact hsecond.of_edits hcloses (fun _ _ h => h.elim) (fun _ _ => stamp_alters) rfl rfl

end Walked

end Walk

end StateScript
