import Mathlib.Data.List.Nodup
import StateScript.Proofs.Jumps
import StateScript.Proofs.Storage
import StateScript.Proofs.Walk.Standing

/-! # Integrity of compiled objects

  The symbols of an object form two trees, below the global scope and the member scope, and
  are numbered so that owners come first. The default states are the states that are marked
  so. What instructions refer to is a symbol of the sort that the opcode needs; linking
  replaces every placeholder, and shortening a program takes no operand to an opcode that
  could not have it.
-/

namespace StateScript

/-- The symbols that an opcode may refer to; what is reached through `->` is owned by
    `member`. -/
def Opcode.Admits (op : Opcode) (member : Nat) (e : Entry) : Prop :=
  match op with
  | .call => ∃ f, e.kind = .function f ∧ f.flags.method = false
  | .callMethod => ∃ f, e.kind = .function f ∧ f.flags.method = true ∧ e.scope = some member
  | .getMember | .getMemberIndexed | .setMember | .setMemberIndexed =>
    ∃ v, e.kind = .var v ∧ v.kind = .member ∧ e.scope = some member
  | .gotoState => ∃ engine editor, e.kind = .state engine editor
  | _ => e.kind = .text

/-- An operand of a linked program. -/
def Operand.Refers (symbols : List Entry) (member : Nat) (op : Opcode) : Operand → Prop
  | .symbolIndex k => ∃ (n : Nat) (e : Entry), k = n ∧ symbols[n]? = some e ∧ op.Admits member e
  | .symbol _ | .target _ => False
  | _ => True

namespace Object

/-- The symbols refer to each other as they should, and instructions refer to symbols that
    they can use. -/
structure Linked (o : Object) : Prop where
  index : ∀ (n : Nat) (e : Entry), o.symbols[n]? = some e → e.index = n
  children : ∀ (owner : Nat) (e : Entry), o.symbols[owner]? = some e → ∀ c : Int, c ∈ e.children ↔
    ∃ (n : Nat) (x : Entry), c = n ∧ o.symbols[n]? = some x ∧ x.scope = some owner
  nodup : ∀ e ∈ o.symbols, e.children.Nodup
  scope_lt : ∀ (n : Nat) (e : Entry), o.symbols[n]? = some e → ∀ owner, e.scope = some owner →
    owner < n
  /-- The two scopes are symbols, and they alone have no owner. -/
  roots : o.globalScope ≠ o.memberScope ∧ o.globalScope < o.symbols.length ∧
    o.memberScope < o.symbols.length ∧ ∀ (n : Nat) (e : Entry), o.symbols[n]? = some e →
      (e.scope = none ↔ n = o.globalScope ∨ n = o.memberScope)
  engine : ∀ n, o.engineState = some n ↔
    ∃ editor e, o.symbols[n]? = some e ∧ e.kind = .state true editor
  editor : ∀ n, o.editorState = some n ↔
    ∃ engine e, o.symbols[n]? = some e ∧ e.kind = .state engine true
  /-- All code is in the program. -/
  code : ∀ e ∈ o.symbols, ∀ f, e.kind = .function f → f.code = #[]
  placeholders : ∀ i ∈ o.instructions, ∀ x ∈ i.operands, x.isPlaceholder = false
  references : ∀ i ∈ o.instructions, ∀ k : Int, .symbolIndex k ∈ i.operands →
    ∃ (n : Nat) (e : Entry), k = n ∧ o.symbols[n]? = some e ∧ i.opcode.Admits o.memberScope e

end Object

/-! ### Shortening -/

namespace Peephole

variable {code : List Instruction} {symbols : List Entry} {member : Nat}

/-- All operands of a program can stand behind their opcodes. -/
def Referring (symbols : List Entry) (member : Nat) (code : List Instruction) : Prop :=
  ∀ i ∈ code, ∀ x ∈ i.operands, x.Refers symbols member i.opcode

/-- A replacement moves values, as the pair did. -/
theorem movesValues_of_fuse? {a b c : Instruction} (h : fuse? a b = some c) :
    c.opcode.movesValues = true := by
  unfold fuse? at h
  split at h
  · cases h
    rfl
  · split at h
    · obtain ⟨d, -, rfl⟩ := Option.map_eq_some_iff.1 h
      rfl
    · split at h
      -- Whatever is pushed and popped, the two become a move.
      · next pop mov hfusion =>
        have hmov : mov.movesValues = true := by
          unfold Opcode.fusion? at hfusion
          split at hfusion <;> cases hfusion
          rfl
        split at h
        · split at h
          · cases h
            exact hmov
          · cases h
        · cases h
      · cases h

/-- Codes that move values refer to texts only. -/
theorem admits_of_movesValues {op : Opcode} (h : op.movesValues = true) (e : Entry) :
    op.Admits member e ↔ e.kind = .text := by
  cases op <;> first | exact Iff.rfl | cases h

theorem refers_of_movesValues {op op' : Opcode} {x : Operand} (hop : op.movesValues = true)
    (hop' : op'.movesValues = true) (h : x.Refers symbols member op) :
    x.Refers symbols member op' := by
  cases x with
  | symbolIndex k =>
    obtain ⟨n, e, hk, he, hadmits⟩ := h
    rw [admits_of_movesValues hop] at hadmits
    exact ⟨n, e, hk, he, (admits_of_movesValues hop' e).2 hadmits⟩
  | _ => exact h

theorem Referring.fusePairs (h : Referring symbols member code) (isSite : Nat → Bool)
    (start : Nat) :
    Referring symbols member (fusePairs isSite start code).1 := by
  intro i hi x hx
  rcases mem_fusePairs hi with hmem | ⟨b, rfl⟩ | ⟨a, ha, b, hb, hfuse⟩
  · exact h i hmem x hx
  · cases hx
  · obtain ⟨hamoves, hbmoves, -, -, hoperands⟩ := operands_of_fuse? hfuse
    have hmoves := movesValues_of_fuse? hfuse
    rcases hoperands x hx with hxa | hxb
    · exact refers_of_movesValues hamoves hmoves (h a ha x hxa)
    · exact refers_of_movesValues hbmoves hmoves (h b hb x hxb)

theorem admits_moveEntry (g : Nat → Nat) {op : Opcode} {e : Entry} (h : op.Admits member e) :
    op.Admits member (moveEntry g e) := by
  have hfunction : ∀ f, e.kind = .function f → ∃ f', (moveEntry g e).kind = .function f' ∧
      f'.flags = f.flags := by
    intro f hf
    exact ⟨_, congrArg (SymbolKind.renumber g) hf, rfl⟩
  -- Only functions and targets hold places, and no opcode that names a symbol wants a target.
  have hkind : ∀ k, e.kind = k → k.renumber g = k → (moveEntry g e).kind = k := by
    intro k hk hsame
    exact (congrArg (SymbolKind.renumber g) hk).trans hsame
  cases op
  case call =>
    obtain ⟨f, hf, hmethod⟩ := h
    obtain ⟨f', hf', hflags⟩ := hfunction f hf
    exact ⟨f', hf', hflags ▸ hmethod⟩
  case callMethod =>
    obtain ⟨f, hf, hmethod, hscope⟩ := h
    obtain ⟨f', hf', hflags⟩ := hfunction f hf
    exact ⟨f', hf', hflags ▸ hmethod, hscope⟩
  case getMember | getMemberIndexed | setMember | setMemberIndexed =>
    obtain ⟨v, hv, hmember⟩ := h
    exact ⟨v, hkind _ hv rfl, hmember⟩
  case gotoState =>
    obtain ⟨engine, editor, hstate⟩ := h
    exact ⟨engine, editor, hkind _ hstate rfl⟩
  all_goals exact hkind _ h rfl

theorem refers_moveOperand (g : Nat → Nat) {op : Opcode} {x : Operand}
    (h : x.Refers symbols member op) :
    (moveOperand g x).Refers (symbols.map (moveEntry g)) member op := by
  cases x with
  | symbolIndex k =>
    obtain ⟨n, e, hk, he, hadmits⟩ := h
    refine ⟨n, moveEntry g e, hk, ?_, admits_moveEntry g hadmits⟩
    rw [List.getElem?_map, he]
    rfl
  | instruction k => cases k <;> exact h
  | _ => exact h

theorem Referring.compact (h : Referring symbols member code) :
    Referring (symbols.map (moveEntry (renumber code))) member (compact code) := by
  intro i' hi' x' hx'
  obtain ⟨i, hi, rfl⟩ := List.mem_map.1 hi'
  obtain ⟨x, hx, rfl⟩ := List.mem_map.1 hx'
  exact refers_moveOperand _ (h i (List.mem_filter.1 hi).1 x hx)

/-- Any number of rounds. -/
theorem Referring.rounds (h : Referring symbols member code) (n : Nat) :
    Referring (rounds n code symbols).symbols member (rounds n code symbols).code := by
  induction n generalizing code symbols with
  | zero => exact h
  | succ n ih =>
    rw [rounds_succ]
    dsimp only
    split
    · exact h
    · exact ih (h.fusePairs _ _).compact

end Peephole

theorem Compilation.referring_shorten {o : Object} {member : Nat}
    (h : Peephole.Referring o.symbols member o.instructions) :
    Peephole.Referring (shorten o).1.symbols member (shorten o).1.instructions := by
  unfold shorten
  split
  · exact h
  · exact h.rounds _

namespace Object

variable {o o' : Object}

theorem references_of_referring {member : Nat}
    (h : Peephole.Referring o.symbols member o.instructions) :
    (∀ i ∈ o.instructions, ∀ x ∈ i.operands, x.isPlaceholder = false) ∧
      ∀ i ∈ o.instructions, ∀ k : Int, .symbolIndex k ∈ i.operands →
        ∃ (n : Nat) (e : Entry), k = n ∧ o.symbols[n]? = some e ∧ i.opcode.Admits member e := by
  refine ⟨fun i hi x hx => ?_, fun i hi k hk => h i hi _ hk⟩
  have hrefers := h i hi x hx
  cases x with
  | symbol | target => exact hrefers.elim
  | _ => rfl

/-- A state of a shortened program is one of the program. -/
theorem exists_state_iff {g : Nat → Nat} (h : o'.symbols = o.symbols.map (Peephole.moveEntry g))
    {n : Nat}
    {engine editor : Bool} : (∃ e, o'.symbols[n]? = some e ∧ e.kind = .state engine editor) ↔
      ∃ e, o.symbols[n]? = some e ∧ e.kind = .state engine editor := by
  rw [h, List.getElem?_map]
  constructor
  · rintro ⟨e', he', hkind⟩
    obtain ⟨e, he, rfl⟩ := Option.map_eq_some_iff.1 he'
    refine ⟨e, he, ?_⟩
    change e.kind.renumber g = _ at hkind
    -- Renumbering makes no state of another symbol.
    cases hk : e.kind with
    | state => rwa [hk] at hkind
    | _ =>
      rw [hk] at hkind
      cases hkind
  · rintro ⟨e, he, hkind⟩
    refine ⟨Peephole.moveEntry g e, ?_, ?_⟩
    · rw [he]
      rfl
    · show e.kind.renumber g = _
      rw [hkind]
      rfl

/-- What an entry keeps of itself in a shortened program. -/
theorem getElem?_shortened {g : Nat → Nat} (h : o'.symbols = o.symbols.map (Peephole.moveEntry g))
    {n : Nat}
    {e' : Entry} (he' : o'.symbols[n]? = some e') : ∃ e, o.symbols[n]? = some e ∧
      e'.index = e.index ∧ e'.scope = e.scope ∧ e'.children = e.children := by
  rw [h, List.getElem?_map] at he'
  obtain ⟨e, he, rfl⟩ := Option.map_eq_some_iff.1 he'
  exact ⟨e, he, rfl, rfl, rfl⟩

theorem Linked.shorten (h : o.Linked)
    (hrefers : Peephole.Referring o.symbols o.memberScope o.instructions) :
    (Compilation.shorten o).1.Linked := by
  obtain ⟨g, hg⟩ := Compilation.exists_symbols_shorten o
  -- Shortening renumbers places in the code and leaves numbers of symbols alone.
  have hsame : (Compilation.shorten o).1.globalScope = o.globalScope ∧
      (Compilation.shorten o).1.memberScope = o.memberScope ∧
      (Compilation.shorten o).1.engineState = o.engineState ∧
      (Compilation.shorten o).1.editorState = o.editorState := by
    unfold Compilation.shorten
    split <;> exact ⟨rfl, rfl, rfl, rfl⟩
  have hlater := references_of_referring (Compilation.referring_shorten hrefers)
  generalize (Compilation.shorten o).1 = o' at hg hsame hlater ⊢
  obtain ⟨hglobal, hmember, hengine, heditor⟩ := hsame
  have hlength : o'.symbols.length = o.symbols.length := by rw [hg, List.length_map]
  refine ⟨fun n e' he' => ?_, fun owner e' he' c => ?_, fun e' he' => ?_, fun n e' he' => ?_, ?_,
    fun n => ?_, fun n => ?_, fun e he f hf => ?_, hlater.1, hmember ▸ hlater.2⟩
  · obtain ⟨e, he, hindex, -⟩ := getElem?_shortened hg he'
    rw [hindex]
    exact h.index n e he
  · obtain ⟨e, he, -, -, hchildren⟩ := getElem?_shortened hg he'
    rw [hchildren, h.children owner e he c]
    constructor
    · rintro ⟨n, x, hc, hx, hscope⟩
      refine ⟨n, Peephole.moveEntry g x, hc, ?_, hscope⟩
      rw [hg, List.getElem?_map, hx]
      rfl
    · rintro ⟨n, x', hc, hx', hscope⟩
      obtain ⟨x, hx, -, hsame, -⟩ := getElem?_shortened hg hx'
      exact ⟨n, x, hc, hx, hsame ▸ hscope⟩
  · obtain ⟨n, hn⟩ := List.mem_iff_getElem?.1 he'
    obtain ⟨e, he, -, -, hchildren⟩ := getElem?_shortened hg hn
    rw [hchildren]
    exact h.nodup e (List.mem_of_getElem? he)
  · obtain ⟨e, he, -, hscope, -⟩ := getElem?_shortened hg he'
    rw [hscope]
    exact h.scope_lt n e he
  · rw [hglobal, hmember, hlength]
    obtain ⟨hne, hlt, hlt', hroots⟩ := h.roots
    refine ⟨hne, hlt, hlt', fun n e' he' => ?_⟩
    obtain ⟨e, he, -, hscope, -⟩ := getElem?_shortened hg he'
    rw [hscope]
    exact hroots n e he
  · rw [hengine, h.engine n]
    exact exists_congr fun editor => (exists_state_iff hg).symm
  · rw [heditor, h.editor n]
    exact exists_congr fun engine => (exists_state_iff hg).symm
  · obtain ⟨e₀, he₀, f₀, -, hf₀, rfl⟩ := exists_function_of_shortened hg he hf
    exact h.code e₀ he₀ f₀ hf₀

end Object

/-! ### Linking -/

namespace Walk

section Linking

variable {t : Table} {id : Nat}

/-- What the entry of a symbol shows. -/
structure Layout.Shows (l : Layout) (t : Table) (id : Nat) (e : Entry) : Prop where
  index : e.index = l.number id
  scope : e.scope = (t.scope? id).map l.number
  children : e.children = (t.children id).map fun c => (l.number c : Int)
  kind : ∀ k, t.kind? id = some k → e.kind.tag = k.tag ∧ e.kind.stamp = k.stamp

theorem shows_entryOf {l : Layout} {e : Entry} (h : l.entryOf t (l.number id) id = some e) :
    l.Shows t id e := by
  unfold Layout.entryOf at h
  obtain ⟨x, hx, rfl⟩ := Option.map_eq_some_iff.1 h
  refine ⟨rfl, ?_, ?_, fun k hk => ?_⟩
  · unfold Table.scope?
    rw [hx]
    rfl
  · rw [Table.children_of_get? hx]
  · unfold Table.kind? at hk
    rw [hx] at hk
    cases hk
    cases hk : x.kind <;> exact ⟨rfl, rfl⟩

theorem exists_shown (h : t.Rooted) (hid : id < t.size) :
    ∃ e, ((layout t).symbols t)[(layout t).number id]? = some e ∧ (layout t).Shows t id e := by
  obtain ⟨x, hx⟩ := Table.exists_get? hid
  obtain ⟨e, he, hentry, -⟩ := getElem?_number_symbols h hx
  exact ⟨e, he, shows_entryOf hentry⟩

theorem shows_of_getElem? (h : t.Rooted) {n : Nat} {e : Entry}
    (he : ((layout t).symbols t)[n]? = some e) :
    ∃ id, id < t.size ∧ n = (layout t).number id ∧ (layout t).Shows t id e := by
  obtain ⟨id, hid, rfl, hentry⟩ := exists_symbol h he
  exact ⟨id, hid, rfl, shows_entryOf hentry⟩

variable {e : Entry} {l : Layout}

theorem Layout.Shows.text (h : l.Shows t id e) (hid : t.IsText id) : e.kind = .text := by
  have htag := (h.kind _ hid).1
  cases hk : e.kind with
  | text => rfl
  | _ =>
    rw [hk] at htag
    cases htag

theorem Layout.Shows.function (h : l.Shows t id e) {f : Function} (hf : t.function? id = some f) :
    ∃ f', e.kind = .function f' ∧ f'.flags.method = f.flags.method := by
  obtain ⟨htag, hstamp⟩ := h.kind _ (Table.function?_eq_some.1 hf)
  cases hk : e.kind with
  | function f' =>
    rw [hk] at hstamp
    exact ⟨f', rfl, Option.some.inj (congrArg Stamp.reached hstamp)⟩
  | _ =>
    rw [hk] at htag
    cases htag

theorem Layout.Shows.var (h : l.Shows t id e) {v : Variable} (hv : t.var? id = some v) :
    ∃ v', e.kind = .var v' ∧ (v'.kind == .member) = (v.kind == .member) := by
  obtain ⟨htag, hstamp⟩ := h.kind _ (Table.var?_eq_some.1 hv)
  cases hk : e.kind with
  | var v' =>
    rw [hk] at hstamp
    exact ⟨v', rfl, Option.some.inj (congrArg Stamp.reached hstamp)⟩
  | _ =>
    rw [hk] at htag
    cases htag

theorem Layout.Shows.state (h : l.Shows t id e) {engine editor : Bool}
    (hid : t.kind? id = some (.state engine editor)) : e.kind = .state engine editor := by
  obtain ⟨htag, hstamp⟩ := h.kind _ hid
  cases hk : e.kind with
  | state engine' editor' =>
    rw [hk] at hstamp
    cases hstamp
    rfl
  | _ =>
    rw [hk] at htag
    cases htag

/-- The entry of a state is that of the same state. -/
theorem Layout.Shows.kind?_state (h : l.Shows t id e) (hid : id < t.size) {engine editor : Bool}
    (hkind : e.kind = .state engine editor) : t.kind? id = some (.state engine editor) := by
  obtain ⟨x, hx⟩ := Table.exists_get? hid
  have hk := Table.kind?_eq_some.2 ⟨x, hx, rfl⟩
  have htag := (h.kind _ hk).1
  -- The tag tells that the symbol is a state.
  rw [hkind] at htag
  cases hstate : x.kind with
  | state engine' editor' =>
    rw [hstate] at hk
    cases hkind.symm.trans (h.state hk)
    exact hk
  | _ =>
    rw [hstate] at htag
    cases htag

/-- What the member scope owns is marked, in its entry as well. -/
theorem Layout.Shows.reached (h : l.Shows t id e) (hreached : t.Reached) (hform : t.WellFormed)
    (hid : id ∈ t.children memberScope) :
    e.scope = some (l.number memberScope) ∧ e.kind.stamp.reached ≠ some false := by
  have hscope := hform.owned memberScope id hid
  constructor
  · rw [h.scope, hscope]
    rfl
  · intro hfalse
    obtain ⟨x, hx⟩ := Table.exists_get? (hform.lt_of_mem_children hid)
    have hk := Table.kind?_eq_some.2 ⟨x, hx, rfl⟩
    refine hreached id hscope ?_
    unfold Table.see
    rw [hk, Option.bind_some, ← (h.kind _ hk).2]
    exact hfalse

/-- What suits an opcode while code is made is admitted by it in the end. -/
theorem Layout.Shows.admits (h : l.Shows t id e) (hreached : t.Reached) (hform : t.WellFormed)
    {op : Opcode}
    (hnames : Names t op id) : op.Admits (l.number memberScope) e := by
  cases op
  case call =>
    obtain ⟨f, hf, hmethod⟩ := hnames
    obtain ⟨f', hf', hflags⟩ := h.function hf
    exact ⟨f', hf', hflags.trans hmethod⟩
  case callMethod =>
    obtain ⟨⟨f, hf⟩, hmem⟩ := hnames
    obtain ⟨f', hf', -⟩ := h.function hf
    obtain ⟨hscope, hmarked⟩ := h.reached hreached hform hmem
    refine ⟨f', hf', ?_, hscope⟩
    rw [hf'] at hmarked
    simpa [SymbolKind.stamp] using hmarked
  -- Members and methods are found through the scope of members alone.
  case getMember | getMemberIndexed | setMember | setMemberIndexed =>
    obtain ⟨⟨v, hv⟩, hmem⟩ := hnames
    obtain ⟨v', hv', -⟩ := h.var hv
    obtain ⟨hscope, hmarked⟩ := h.reached hreached hform hmem
    refine ⟨v', hv', ?_, hscope⟩
    rw [hv'] at hmarked
    simpa [SymbolKind.stamp] using hmarked
  case gotoState =>
    obtain ⟨engine, editor, hstate⟩ := hnames
    exact ⟨engine, editor, h.state hstate⟩
  all_goals exact h.text hnames

theorem lt_of_names {op : Opcode} (h : Names t op id) : id < t.size := by
  cases op
  case call =>
    obtain ⟨f, hf, -⟩ := h
    exact Table.kind?_lt (Table.function?_eq_some.1 hf)
  case callMethod =>
    obtain ⟨⟨f, hf⟩, -⟩ := h
    exact Table.kind?_lt (Table.function?_eq_some.1 hf)
  case getMember | getMemberIndexed | setMember | setMemberIndexed =>
    obtain ⟨⟨v, hv⟩, -⟩ := h
    exact Table.kind?_lt (Table.var?_eq_some.1 hv)
  case gotoState =>
    obtain ⟨engine, editor, hstate⟩ := h
    exact Table.kind?_lt hstate
  all_goals exact Table.kind?_lt h

/-- Relocation replaces all placeholders. -/
theorem referring_linked (hrooted : t.Rooted) (hcomplete : Complete t) (hreached : t.Reached)
    {instructions : List Instruction} (hcode : (layout t).relocateCode t = .ok instructions) :
    Peephole.Referring ((layout t).symbols t) ((layout t).number memberScope) instructions := by
  intro i hi x hx
  obtain ⟨p, hp⟩ := List.mem_iff_getElem?.1 hi
  obtain ⟨i₀, hi₀, hopcode, hoperands⟩ := (relocateCode_eq_ok hcode).2 p i hp
  obtain ⟨x₀, hx₀, hrelocate⟩ := hoperands x hx
  obtain ⟨f, n, -, hn, -⟩ := exists_body_of_code hrooted hi₀
  rw [hopcode]
  rcases hcomplete.belongs (List.mem_of_getElem? hn) x₀ hx₀ with suits | ⟨j, rfl, -⟩
  -- Operands are relocated as they are, but for symbols and targets.
  · cases x₀ with
    | symbol id =>
      cases hrelocate
      obtain ⟨e, he, hshows⟩ := exists_shown hrooted (lt_of_names suits)
      exact ⟨_, e, rfl, he, hshows.admits hreached hrooted.wellFormed suits⟩
    | target | symbolIndex | instruction => exact suits.elim
    | _ =>
      cases hrelocate
      exact suits
  · obtain ⟨place, -, rfl⟩ := relocate_target hrelocate
    trivial

/-! ### Trees of entries -/

section Trees

variable (hrooted : t.Rooted) {n : Nat}
include hrooted

theorem mem_children_linked (he : ((layout t).symbols t)[n]? = some e) (c : Int) : c ∈ e.children ↔
    ∃ (m : Nat) (x : Entry), c = m ∧ ((layout t).symbols t)[m]? = some x ∧ x.scope = some n := by
  have hform := hrooted.wellFormed
  obtain ⟨id, hid, rfl, hshows⟩ := shows_of_getElem? hrooted he
  rw [hshows.children, List.mem_map]
  constructor
  · rintro ⟨j, hj, rfl⟩
    obtain ⟨x, hx, hown⟩ := exists_shown hrooted (hform.lt_of_mem_children hj)
    refine ⟨_, x, rfl, hx, ?_⟩
    rw [hown.scope, hform.owned id j hj]
    rfl
  · rintro ⟨m, x, rfl, hx, hscope⟩
    obtain ⟨j, hj, rfl, hown⟩ := shows_of_getElem? hrooted hx
    rw [hown.scope] at hscope
    obtain ⟨owner, howner, hnumber⟩ := Option.map_eq_some_iff.1 hscope
    have hlt : owner < t.size := Nat.lt_trans (hform.scope_lt j owner howner) hj
    -- No two symbols have the same number.
    cases number_inj hrooted hlt hid hnumber
    exact ⟨j, hform.listed j id howner, rfl⟩

theorem nodup_children_linked (he : ((layout t).symbols t)[n]? = some e) : e.children.Nodup := by
  have hform := hrooted.wellFormed
  obtain ⟨id, hid, rfl, hshows⟩ := shows_of_getElem? hrooted he
  rw [hshows.children]
  refine List.Nodup.map_on (fun c hc c' hc' heq => ?_) (hform.nodup id)
  exact number_inj hrooted (hform.lt_of_mem_children hc) (hform.lt_of_mem_children hc')
    (Int.ofNat.inj heq)

theorem scope_lt_linked (he : ((layout t).symbols t)[n]? = some e) {owner : Nat}
    (howner : e.scope = some owner) : owner < n := by
  obtain ⟨id, hid, rfl, hshows⟩ := shows_of_getElem? hrooted he
  rw [hshows.scope] at howner
  obtain ⟨j, hj, rfl⟩ := Option.map_eq_some_iff.1 howner
  exact number_scope_lt hrooted hid hj

/-- Only the two roots have no owner. -/
theorem scope_eq_none_linked (he : ((layout t).symbols t)[n]? = some e) : e.scope = none ↔
    n = (layout t).number globalScope ∨ n = (layout t).number memberScope := by
  have hsize := hrooted.size
  have hglobal : globalScope < t.size := Nat.lt_trans Nat.one_pos hsize
  obtain ⟨id, hid, rfl, hshows⟩ := shows_of_getElem? hrooted he
  rw [hshows.scope, Option.map_eq_none_iff]
  constructor
  · intro hroot
    -- Only the first two symbols have no owner.
    have hle := hrooted.wellFormed.root id hid hroot
    have hcases : id = 0 ∨ id = 1 := by omega
    rcases hcases with rfl | rfl
    · exact .inl rfl
    · exact .inr rfl
  · rintro (hnumber | hnumber)
    · cases number_inj hrooted hid hglobal hnumber
      exact hrooted.scope_zero
    · cases number_inj hrooted hid hsize hnumber
      exact hrooted.scope

/-- A function that has no body has no code. -/
theorem code_linked (hcomplete : Complete t) (he : ((layout t).symbols t)[n]? = some e)
    {f : Function}
    (hf : e.kind = .function f) : f.code = #[] := by
  obtain ⟨id, hid, rfl, hentry⟩ := exists_symbol hrooted he
  unfold Layout.entryOf at hentry
  obtain ⟨x, hx, rfl⟩ := Option.map_eq_some_iff.1 hentry
  cases hk : x.kind with
  | function f₀ =>
    simp only [hk] at hf
    cases hf
    show (if ((layout t).start? id).isSome then #[] else f₀.code) = #[]
    split
    · rfl
    · next hstart =>
      have hf₀ : t.function? id = some f₀ :=
        Table.function?_eq_some.2 (Table.kind?_eq_some.2 ⟨x, hx, hk⟩)
      -- Code stands only in defined functions, and these have a start.
      have hnil : t.code id = [] := by
        refine List.eq_nil_iff_forall_not_mem.2 fun op hop => hstart ?_
        rw [start?_of_isDefined hrooted (hcomplete.code id op hop).1]
        rfl
      rw [code_of_function? hf₀] at hnil
      simpa using hnil
  | _ =>
    simp only [hk] at hf
    cases hf

/-- A state is the default in the object if it was the default in the table. -/
theorem map_number_eq_some_iff {chosen : Option Nat} {p : Bool → Bool → Prop}
    (h : ∀ id, chosen = some id ↔ ∃ engine editor, p engine editor ∧
      t.kind? id = some (.state engine editor)) (n : Nat) :
    chosen.map (layout t).number = some n ↔ ∃ engine editor, p engine editor ∧
      ∃ e, ((layout t).symbols t)[n]? = some e ∧ e.kind = .state engine editor := by
  constructor
  · intro hn
    obtain ⟨id, hid, rfl⟩ := Option.map_eq_some_iff.1 hn
    obtain ⟨engine, editor, hp, hkind⟩ := (h id).1 hid
    obtain ⟨e, he, hshows⟩ := exists_shown hrooted (Table.kind?_lt hkind)
    exact ⟨engine, editor, hp, e, he, hshows.state hkind⟩
  · rintro ⟨engine, editor, hp, e, he, hkind⟩
    obtain ⟨id, hid, rfl, hshows⟩ := shows_of_getElem? hrooted he
    rw [(h id).2 ⟨engine, editor, hp, hshows.kind?_state hid hkind⟩]
    rfl

end Trees

/-- A symbol whose stamp passes a test that only states can pass is such a state. -/
theorem passes?_eq_some_true {test : Stamp → Bool} (htest : ∀ reached, test { reached } = false) :
    t.passes? test id = some true ↔ ∃ engine editor, test { engine, editor } = true ∧
      t.kind? id = some (.state engine editor) := by
  unfold Table.passes? Table.see
  cases t.kind? id with
  | none => simp
  | some k => cases k <;> simp [SymbolKind.stamp, htest]

end Linking

section Compiled

variable {defines : List Define} {flags : Flags} {tokens : List Token} {s t : State} {o : Object}

theorem Compiled.referring (h : Compiled defines flags tokens s t o) :
    Peephole.Referring o.symbols o.memberScope o.instructions := by
  obtain ⟨instructions, hcode, rfl⟩ := h.linked
  exact referring_linked h.rooted h.complete h.standing.reached hcode

theorem Compiled.integrity (h : Compiled defines flags tokens s t o) : o.Linked := by
  have hrefers := Object.references_of_referring h.referring
  have hrooted := h.rooted
  have hstanding := h.standing
  have hcomplete := h.complete
  have hsymbols := h.symbols
  obtain ⟨hglobal, hmember, hengine, heditor⟩ :
      o.globalScope = (layout t.closed.table).number globalScope ∧
      o.memberScope = (layout t.closed.table).number memberScope ∧
      o.engineState = t.closed.engineState.map (layout t.closed.table).number ∧
      o.editorState = t.closed.editorState.map (layout t.closed.table).number := by
    obtain ⟨instructions, -, rfl⟩ := h.linked
    exact ⟨rfl, rfl, rfl, rfl⟩
  -- From here on only the table at the end of the second walk matters.
  generalize t.closed = u at hrooted hstanding hcomplete hsymbols hglobal hmember hengine heditor
  have hzero : globalScope < u.table.size := Nat.lt_trans Nat.one_pos hrooted.size
  have hlength : ∀ {id : Nat}, id < u.table.size →
      (layout u.table).number id < o.symbols.length := by
    intro id hid
    obtain ⟨e, he, -⟩ := exists_shown hrooted hid
    rw [hsymbols]
    exact (List.getElem?_eq_some_iff.1 he).1
  constructor
  · intro n e he
    rw [hsymbols] at he
    obtain ⟨id, -, rfl, hshows⟩ := shows_of_getElem? hrooted he
    exact hshows.index
  · rw [hsymbols]
    exact fun _ _ he => mem_children_linked hrooted he
  · intro e he
    obtain ⟨n, hn⟩ := List.mem_iff_getElem?.1 he
    exact nodup_children_linked hrooted (hsymbols ▸ hn)
  · rw [hsymbols]
    exact fun _ _ he _ => scope_lt_linked hrooted he
  · rw [hglobal, hmember]
    refine ⟨fun hroots => ?_, hlength hzero, hlength hrooted.size, ?_⟩
    · cases number_inj hrooted hzero hrooted.size hroots
    · rw [hsymbols]
      exact fun _ _ he => scope_eq_none_linked hrooted he
  · intro n
    -- The default state of the engine is the one that is marked so.
    have hdefault := map_number_eq_some_iff hrooted (p := fun engine _ => engine = true)
      (fun id => (hstanding.engine id).trans (passes?_eq_some_true fun _ => rfl)) n
    rw [hengine, hsymbols, hdefault]
    simp
  · intro n
    have hdefault := map_number_eq_some_iff hrooted (p := fun _ editor => editor = true)
      (fun id => (hstanding.editor id).trans (passes?_eq_some_true fun _ => rfl)) n
    rw [heditor, hsymbols, hdefault]
    simp
  · intro e he f hf
    obtain ⟨n, hn⟩ := List.mem_iff_getElem?.1 he
    exact code_linked hrooted hcomplete (hsymbols ▸ hn) hf
  · exact hrefers.1
  · exact hrefers.2

end Compiled

end Walk

namespace Compilation

open Walk

/-- In every object of a compilation the symbols form two trees in which owners come first,
    the default states are those that are marked so, and instructions refer only to symbols
    that their opcodes can use. -/
theorem symbols_linked {options : Options} {tokens : List Token} {o : Object}
    (h : (ofTokens options tokens).object = some o) : o.Linked := by
  obtain ⟨s, t, o', hcompiled, rfl⟩ := compiled_of_ofTokens h
  exact hcompiled.integrity.shorten hcompiled.referring

/-- A script in which instructions refer to all sorts of symbols:
    `state engine A { } void f(object o) { o->(string)y = "t"; o->(int)m(); f(o); gotostate A;
    }`. -/
def sortsOfReferences : List Token :=
  [mark .kwState, mark .kwEngine, wordOf .identifier "A", mark .openBrace, mark .closeBrace,
    mark .voidType, wordOf .identifier "f", mark .openParen, mark .objectType,
    wordOf .identifier "o", mark .closeParen, mark .openBrace, wordOf .identifier "o",
    mark .arrow, mark .openParen, mark .stringType, mark .closeParen, wordOf .identifier "y",
    mark .assign, wordOf .stringLiteral "t", mark .semicolon, wordOf .identifier "o",
    mark .arrow, mark .openParen, mark .intType, mark .closeParen, wordOf .identifier "m",
    mark .openParen, mark .closeParen, mark .semicolon, wordOf .identifier "f", mark .openParen,
    wordOf .identifier "o", mark .closeParen, mark .semicolon, mark .kwGotoState,
    wordOf .identifier "A", mark .semicolon, mark .closeBrace]

theorem symbols_linked_sorts : ∃ o, (ofTokens {} sortsOfReferences).object = some o ∧ o.Linked ∧
    o.engineState = some 1 ∧ o.symbols.map (·.identifier) =
      ["$global", "A", "f", "o", "t", "$member", "y", "m"] ∧
    (o.instructions.filter fun i => i.operands.contains (.symbolIndex 7)).map (·.opcode) =
      [.callMethod] := by
  have hshape : (ofTokens {} sortsOfReferences).object.map (fun o => (o.engineState,
      o.symbols.map (·.identifier),
      (o.instructions.filter fun i => i.operands.contains (.symbolIndex 7)).map (·.opcode))) =
      some (some 1, ["$global", "A", "f", "o", "t", "$member", "y", "m"], [.callMethod]) := by
    decide +kernel
  obtain ⟨o, ho, hshape⟩ := Option.map_eq_some_iff.1 hshape
  simp only [Prod.mk.injEq] at hshape
  exact ⟨o, ho, symbols_linked ho, hshape⟩

end Compilation

end StateScript
