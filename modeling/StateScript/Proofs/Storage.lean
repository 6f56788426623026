import StateScript.Proofs.Compiled

/-! # Storage of compiled objects

  In an object the variables that live in memory take all of its slots, each its own, and
  the frame of every function that has code is laid out without gaps: no two variables that
  are alive together share a place.
-/

namespace StateScript

namespace Object

/-- The slots of memory that variables take. -/
def slots (o : Object) : List Int := o.symbols.filterMap fun e => e.kind.slot?

/-- The places of the variables of a kind that a symbol owns, in order. -/
def places (o : Object) (kind : VariableKind) (e : Entry) : List Storage :=
  e.children.filterMap fun c => o.symbols[c.toNat]?.bind fun x => x.kind.placeOf? kind

/-- Memory is used slot by slot, and frames are laid out without gaps. -/
structure Allocated (o : Object) : Prop where
  /-- What lives in memory are the globals and the constants. -/
  memory : ∀ e ∈ o.symbols, ∀ v, e.kind = .var v →
    ((∃ i, v.storage = .memory i) ↔ v.kind = .global ∨ v.kind = .constant)
  slots : ∃ n : Nat, o.memorySize = n ∧ o.slots.Perm ((List.range n).map fun (i : Nat) => (i : Int))
  locals : ∀ e ∈ o.symbols, ∀ f, e.kind = .function f → f.entryPoint ≠ none →
    o.places .local e = (List.range f.frameSize).map fun (i : Nat) => .stack (i - f.frameSize)
  parameters : ∀ e ∈ o.symbols, ∀ f, e.kind = .function f → f.entryPoint ≠ none →
    o.places .parameter e = (List.range f.parameterCount).map fun (k : Nat) =>
      .stack (-(f.frameSize + 2 + (f.parameterCount - 1 - k : Int)))

/-! ### Shortening -/

section Shortening

variable {o o' : Object} {g : Nat → Nat}

theorem place?_renumber (g : Nat → Nat) (k : SymbolKind) : (k.renumber g).place? = k.place? := by
  cases k <;> rfl

theorem slots_shortened (h : o'.symbols = o.symbols.map (Peephole.moveEntry g)) :
    o'.slots = o.slots := by
  unfold slots
  rw [h, List.filterMap_map]
  refine List.filterMap_congr fun e _ => ?_
  show (e.kind.renumber g).slot? = _
  unfold SymbolKind.slot?
  rw [place?_renumber]

theorem places_shortened (h : o'.symbols = o.symbols.map (Peephole.moveEntry g))
    (kind : VariableKind)
    (e : Entry) : o'.places kind (Peephole.moveEntry g e) = o.places kind e := by
  refine List.filterMap_congr fun c _ => ?_
  rw [h, List.getElem?_map]
  cases o.symbols[c.toNat]? with
  | none => rfl
  | some x =>
    show (x.kind.renumber g).placeOf? kind = _
    unfold SymbolKind.placeOf?
    rw [place?_renumber]
    rfl

/-- A function of a shortened program is one of the program. -/
theorem exists_function_of_shortened (h : o'.symbols = o.symbols.map (Peephole.moveEntry g))
    {e : Entry}
    {f : Function} (he : e ∈ o'.symbols) (hf : e.kind = .function f) :
    ∃ e₀ ∈ o.symbols, ∃ f₀, e = Peephole.moveEntry g e₀ ∧ e₀.kind = .function f₀ ∧
      f = { f₀ with entryPoint := f₀.entryPoint.map g } := by
  rw [h] at he
  obtain ⟨e₀, he₀, rfl⟩ := List.mem_map.1 he
  refine ⟨e₀, he₀, ?_⟩
  change e₀.kind.renumber g = _ at hf
  cases hk : e₀.kind with
  | function f₀ =>
    rw [hk] at hf
    cases hf
    exact ⟨f₀, rfl, rfl, rfl⟩
  | _ =>
    rw [hk] at hf
    cases hf

theorem Allocated.renumbered (hallocated : o.Allocated)
    (h : o'.symbols = o.symbols.map (Peephole.moveEntry g)) (hsize : o'.memorySize = o.memorySize) :
    o'.Allocated where
  memory e he v hv := by
    rw [h] at he
    obtain ⟨e₀, he₀, rfl⟩ := List.mem_map.1 he
    refine hallocated.memory e₀ he₀ v ?_
    change e₀.kind.renumber g = _ at hv
    cases hk : e₀.kind with
    | var v₀ =>
      rw [hk] at hv
      exact hv
    | _ =>
      rw [hk] at hv
      cases hv
  slots := by
    rw [hsize, slots_shortened h]
    exact hallocated.slots
  locals e he f hf hentry := by
    obtain ⟨e₀, he₀, f₀, rfl, hf₀, rfl⟩ := exists_function_of_shortened h he hf
    rw [places_shortened h]
    exact hallocated.locals e₀ he₀ f₀ hf₀ fun hnone => hentry (congrArg (Option.map g) hnone)
  parameters e he f hf hentry := by
    obtain ⟨e₀, he₀, f₀, rfl, hf₀, rfl⟩ := exists_function_of_shortened h he hf
    rw [places_shortened h]
    exact hallocated.parameters e₀ he₀ f₀ hf₀ fun hnone => hentry (congrArg (Option.map g) hnone)

theorem Allocated.shorten (h : o.Allocated) : (Compilation.shorten o).1.Allocated := by
  obtain ⟨g, hg⟩ := Compilation.exists_symbols_shorten o
  refine h.renumbered hg ?_
  unfold Compilation.shorten
  split <;> rfl

end Shortening

end Object

namespace Walk

/-! ### Linking -/

section Linking

variable {t : Table} {o : Object} (hrooted : t.Rooted) (hsymbols : o.symbols = (layout t).symbols t)
include hrooted hsymbols

theorem slots_linked : o.slots.Perm t.slots := by
  have hslots : o.slots = (t.preorder [0, 1]).filterMap (t.see SymbolKind.slot?) := by
    have hfst : (layout t).order.zipIdx.map Prod.fst = t.preorder [0, 1] := List.zipIdx_map_fst 0 _
    unfold Object.slots
    rw [hsymbols]
    unfold Layout.symbols
    rw [List.filterMap_filterMap, ← hfst, List.filterMap_map]
    refine List.filterMap_congr fun p _ => ?_
    exact see_entryOf (fun _ => rfl) (fun _ => rfl) _ _
  rw [hslots]
  exact hrooted.preorder_perm.filterMap _

theorem places_linked {id : Nat} {x : Symbol} {e : Entry} (hx : t.get? id = some x)
    (hchildren : e.children = x.children.map fun c => ((layout t).number c : Int))
    (kind : VariableKind) :
    o.places kind e = t.places kind id := by
  unfold Object.places Table.places
  rw [hchildren, List.filterMap_map, Table.children_of_get? hx]
  refine List.filterMap_congr fun c hc => ?_
  have hlt : c < t.size := hrooted.wellFormed.lt_of_mem_children (Table.children_of_get? hx ▸ hc)
  show (o.symbols[(layout t).number c]?).bind _ = _
  rw [hsymbols, exists_entry hrooted hlt]
  exact see_entryOf (fun _ => rfl) (fun _ => rfl) _ _

/-- A function with an entry point has a body. -/
theorem exists_function_of_linked {e : Entry} {f : Function} (he : e ∈ o.symbols)
    (hf : e.kind = .function f) : ∃ id x f₀, t.get? id = some x ∧ t.function? id = some f₀ ∧
      e.children = x.children.map (fun c => ((layout t).number c : Int)) ∧
      f = { f₀ with
        entryPoint := (layout t).start? id
        code := if ((layout t).start? id).isSome then #[] else f₀.code } := by
  rw [hsymbols] at he
  obtain ⟨i, hi⟩ := List.mem_iff_getElem?.1 he
  obtain ⟨id, hid, rfl, hentry⟩ := exists_symbol hrooted hi
  obtain ⟨x, hx⟩ := Table.exists_get? hid
  unfold Layout.entryOf at hentry
  rw [hx] at hentry
  cases hentry
  refine ⟨id, x, ?_⟩
  cases hk : x.kind with
  | function f₀ =>
    refine ⟨f₀, hx, Table.function?_eq_some.2 (Table.kind?_eq_some.2 ⟨x, hx, hk⟩), rfl, ?_⟩
    simp only [hk] at hf
    exact (SymbolKind.function.inj hf).symm
  | _ =>
    simp only [hk] at hf
    cases hf

end Linking

section Compiled

variable {defines : List Define} {flags : Flags} {tokens : List Token} {s t : State} {o : Object}

theorem Compiled.symbols (h : Compiled defines flags tokens s t o) :
    o.symbols = (layout t.closed.table).symbols t.closed.table := by
  obtain ⟨instructions, -, rfl⟩ := h.linked
  rfl

theorem Compiled.sorted_closed (h : Compiled defines flags tokens s t o) : t.closed.table.Sorted :=
  h.closes.sorted (fun _ _ h => h.elim) (fun _ _ => place?_alters) h.stored.sorted

theorem Compiled.slots_closed (h : Compiled defines flags tokens s t o) :
    t.closed.table.slots = (List.range t.memorySize).map fun (i : Nat) => (i : Int) :=
  (h.closes.slots (fun _ _ h => h.elim) fun _ _ => place?_alters).trans h.stored.slots

/-- The frame of a function with a body, after the last return too. -/
theorem Compiled.isLaid_closed (h : Compiled defines flags tokens s t o) {id : Nat} {f : Function}
    (hf : t.closed.table.function? id = some f)
    (hentry : (layout t.closed.table).start? id ≠ none) :
    t.closed.table.frame id = .laid f.parameterCount f.frameSize := by
  have hdefined : t.closed.table.IsDefined id := by
    rw [start?_layout h.rooted] at hentry
    split at hentry
    · next hcode =>
      obtain ⟨c, hc⟩ := Option.isSome_iff_exists.1 hcode
      obtain ⟨f', hf', hbody, -⟩ := codeOf?_eq_some.1 hc
      exact ⟨f', hf', hbody⟩
    · exact absurd rfl hentry
  -- The return that is added last defines nothing and moves no frame.
  have hold : t.table.IsDefined id := by
    rcases h.closes.see_eq_some (fun _ _ => bodied?_alters) (isDefined_iff.1 hdefined) with
      hold | ⟨_, _, hnew, -⟩
    · exact isDefined_iff.2 hold
    · exact hnew.elim
  have hframe : t.closed.table.frame id = t.table.frame id := by
    obtain ⟨i, files, -, hclosed⟩ := t.emit_eq .ret [] none
    rw [show t.closed.table = _ from congrArg State.table hclosed]
    exact Table.frame_modifyKind (fun k => by cases k <;> rfl) fun _ k => by cases k <;> rfl
  obtain ⟨count, locals, hlaid⟩ := h.isLaid hold
  have hextent : t.closed.table.see SymbolKind.extent? id = some
      (f.parameterCount, f.frameSize) := by
    unfold Table.see
    rw [Table.function?_eq_some.1 hf]
    rfl
  have hsame := (congrArg Frame.extent (hframe.trans hlaid)).symm.trans hextent
  cases hsame
  exact hframe.trans hlaid

theorem memory_iff {v : Variable} (h : v.storage.isStack = !v.kind.usesMemory) :
    (∃ i, v.storage = .memory i) ↔ v.kind = .global ∨ v.kind = .constant := by
  cases hstorage : v.storage <;> cases hkind : v.kind <;>
    simp_all [Storage.isStack, VariableKind.usesMemory]

theorem Compiled.allocated (h : Compiled defines flags tokens s t o) : o.Allocated where
  memory e he v hv := by
    rw [h.symbols] at he
    obtain ⟨i, hi⟩ := List.mem_iff_getElem?.1 he
    obtain ⟨id, hid, rfl, hentry⟩ := exists_symbol h.rooted hi
    have hsort : t.closed.table.see SymbolKind.sort? id = some (v.kind, v.storage.isStack) := by
      rw [← see_entryOf (fun _ => rfl) (fun _ => rfl), hentry, Option.bind_some, hv]
      rfl
    exact memory_iff (h.sorted_closed id v.kind v.storage.isStack hsort)
  slots := by
    refine ⟨t.memorySize, ?_, h.slots_closed ▸ slots_linked h.rooted h.symbols⟩
    obtain ⟨instructions, -, rfl⟩ := h.linked
    rfl
  -- The frame of every function with a body is laid out.
  locals e he f hf hentry := by
    obtain ⟨id, x, f₀, hx, hf₀, hchildren, rfl⟩ :=
      exists_function_of_linked h.rooted h.symbols he hf
    rw [places_linked h.rooted h.symbols hx hchildren]
    exact congrArg Frame.locals (h.isLaid_closed hf₀ hentry)
  parameters e he f hf hentry := by
    obtain ⟨id, x, f₀, hx, hf₀, hchildren, rfl⟩ :=
      exists_function_of_linked h.rooted h.symbols he hf
    rw [places_linked h.rooted h.symbols hx hchildren]
    exact congrArg Frame.parameters (h.isLaid_closed hf₀ hentry)

end Compiled

end Walk

namespace Compilation

open Walk

/-- In every object of a compilation the variables in memory take all slots, each its own,
    and every function with code has a frame without gaps. -/
theorem storage_allocated {options : Options} {tokens : List Token} {o : Object}
    (h : (ofTokens options tokens).object = some o) : o.Allocated := by
  obtain ⟨s, t, o', hcompiled, rfl⟩ := Walk.compiled_of_ofTokens h
  exact hcompiled.allocated.shorten

/-- A script with all sorts of variables, among them two that the compiler makes for the
    loop: `int g; void f(int a, float b) { static int s; do (2) { int y; } }`. -/
def sortsOfVariables : List Token :=
  [mark .intType, wordOf .identifier "g", mark .semicolon, mark .voidType,
    wordOf .identifier "f", mark .openParen, mark .intType, wordOf .identifier "a", mark .comma,
    mark .floatType, wordOf .identifier "b", mark .closeParen, mark .openBrace, mark .kwStatic,
    mark .intType, wordOf .identifier "s", mark .semicolon, mark .kwDo, mark .openParen,
    wordOf .integerLiteral "2", mark .closeParen, mark .openBrace, mark .intType,
    wordOf .identifier "y", mark .semicolon, mark .closeBrace, mark .closeBrace]

theorem storage_allocated_sorts : ∃ o,
    (ofTokens { flags := { library := true } } sortsOfVariables).object = some o ∧ o.Allocated ∧
      o.memorySize = 2 ∧ (o.function? 2).map (fun f => (f.parameterCount, f.frameSize)) = some
        (2, 3) := by
  have hsize : (ofTokens { flags := { library := true } } sortsOfVariables).object.map (fun o =>
      (o.memorySize, (o.function? 2).map fun f => (f.parameterCount, f.frameSize))) =
      some (2, some (2, 3)) := by decide +kernel
  obtain ⟨o, ho, hsize⟩ := Option.map_eq_some_iff.1 hsize
  exact ⟨o, ho, storage_allocated ho, congrArg Prod.fst hsize, congrArg Prod.snd hsize⟩

end Compilation

end StateScript
