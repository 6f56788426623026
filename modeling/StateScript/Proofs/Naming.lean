import StateScript.Proofs.Integrity
import StateScript.Proofs.Walk.Names

/-! # Names in compiled objects

  The symbols of an object that one owner has under one name are told apart by what they
  are used for: there is one symbol for each text, one for each type under which a member
  or a method is reached, and one for each list of types that a function takes. Where
  scripts declare things, a name is used again only by a state.
-/

namespace StateScript

open Walk

theorem SymbolKind.usage_renumber (g : Nat → Nat) (k : SymbolKind) :
    (k.renumber g).usage = k.usage := by
  cases k <;> rfl

namespace Object

variable {f : Function} {o : Object} {t : Table}

/-- The symbols of an object with their names, as a table has them. -/
structure Lists (o : Object) (t : Table) : Prop where
  rooted : t.Rooted
  named : t.Named
  global : o.globalScope = (layout t).number Walk.globalScope
  member : o.memberScope = (layout t).number Walk.memberScope
  entry : ∀ (n : Nat) e, o.symbols[n]? = some e → ∃ id, id < t.size ∧ n = (layout t).number id ∧
    t.name? id = some e.identifier ∧ t.usage? id = some e.kind.usage ∧
    e.scope = (t.scope? id).map (layout t).number ∧
    e.children = (t.children id).map fun c => ((layout t).number c : Int)

theorem Lists.shorten (h : o.Lists t) : (Compilation.shorten o).1.Lists t := by
  obtain ⟨g, hg⟩ := Compilation.exists_symbols_shorten o
  have hsame : (Compilation.shorten o).1.globalScope = o.globalScope ∧
      (Compilation.shorten o).1.memberScope = o.memberScope := by
    unfold Compilation.shorten
    split <;> exact ⟨rfl, rfl⟩
  refine ⟨h.rooted, h.named, hsame.1.trans h.global, hsame.2.trans h.member, fun n e he => ?_⟩
  rw [hg, List.getElem?_map] at he
  obtain ⟨e₀, he₀, rfl⟩ := Option.map_eq_some_iff.1 he
  obtain ⟨id, hid, hn, hname, husage, hscope, hchildren⟩ := h.entry n e₀ he₀
  refine ⟨id, hid, hn, hname, husage.trans (congrArg some ?_), hscope, hchildren⟩
  exact (SymbolKind.usage_renumber g e₀.kind).symm

theorem exists_lists {options : Options} {tokens : List Token}
    (h : (Compilation.ofTokens options tokens).object = some o) : ∃ t, o.Lists t := by
  obtain ⟨s, t, o', hcompiled, rfl⟩ := compiled_of_ofTokens h
  -- Optimising changes nothing of what is listed.
  refine ⟨t.closed.table, Lists.shorten ?_⟩
  have hroots : o'.globalScope = (layout t.closed.table).number Walk.globalScope ∧
      o'.memberScope = (layout t.closed.table).number Walk.memberScope := by
    obtain ⟨instructions, -, ho⟩ := hcompiled.linked
    constructor <;> rw [ho, State.object]
  refine ⟨hcompiled.rooted, hcompiled.named, hroots.1, hroots.2, fun n e he => ?_⟩
  rw [hcompiled.symbols] at he
  obtain ⟨id, hid, rfl, hentry⟩ := exists_symbol hcompiled.rooted he
  refine ⟨id, hid, rfl, ?_⟩
  unfold Layout.entryOf at hentry
  obtain ⟨x, hx, rfl⟩ := Option.map_eq_some_iff.1 hentry
  refine ⟨?_, ?_, ?_, ?_⟩
  · unfold Table.name?
    rw [hx]
    rfl
  · rw [Table.usage?_of_kind? (Table.kind?_eq_some.2 ⟨x, hx, rfl⟩)]
    cases x.kind <;> rfl
  · unfold Table.scope?
    rw [hx]
    rfl
  · rw [Table.children_of_get? hx]

/-- Entries that one owner has under one name. -/
structure Together (o : Object) (owner i j : Nat) (e e' : Entry) : Prop where
  first : o.symbols[i]? = some e
  second : o.symbols[j]? = some e'
  scope : e.scope = some owner
  scope' : e'.scope = some owner
  name : e.identifier = e'.identifier

section Lists

variable {o : Object} {t : Table} (h : o.Lists t) {owner i j : Nat} {e e' : Entry}
include h

/-- The owner of an entry. -/
theorem Lists.exists_owner (he : o.symbols[i]? = some e) (hscope : e.scope = some owner) :
    ∃ id p, id < t.size ∧ i = (layout t).number id ∧ p < t.size ∧ owner = (layout t).number p ∧
      t.scope? id = some p ∧ t.name? id = some e.identifier ∧ t.usage? id = some e.kind.usage := by
  obtain ⟨id, hid, rfl, hname, husage, hscoped, -⟩ := h.entry i e he
  rw [hscoped] at hscope
  obtain ⟨p, hp, rfl⟩ := Option.map_eq_some_iff.1 hscope
  have hlt := Nat.lt_trans (h.rooted.wellFormed.scope_lt id p hp) hid
  exact ⟨id, p, hid, rfl, hlt, rfl, hp, hname, husage⟩

theorem Lists.member_iff {p : Nat} (hp : p < t.size) :
    (layout t).number p = o.memberScope ↔ p = Walk.memberScope := by
  rw [h.member]
  constructor
  · exact number_inj h.rooted hp h.rooted.size
  · rintro rfl
    rfl

/-- What an owner may use names for. -/
theorem Lists.fits (he : o.symbols[i]? = some e) (hscope : e.scope = some owner) :
    ∃ p, p < t.size ∧ owner = (layout t).number p ∧ e.kind.usage.Fits t p := by
  obtain ⟨id, p, -, -, hp, howner, hscoped, -, husage⟩ := h.exists_owner he hscope
  exact ⟨p, hp, howner, h.named.fits id p _ hscoped husage⟩

/-- Entries with one owner, one name and one usage are the same, where the usage is unique. -/
theorem Lists.unique (hboth : o.Together owner i j e e') (husage : e.kind.usage = e'.kind.usage)
    (hunique : e.kind.usage.isUnique = true) : i = j := by
  obtain ⟨a, p, ha, rfl, hp, howner, hscope, hname, hu⟩ := h.exists_owner hboth.first hboth.scope
  obtain ⟨b, q, hb, rfl, hq, howner', hscope', hname', hu'⟩ :=
    h.exists_owner hboth.second hboth.scope'
  cases number_inj h.rooted hp hq (howner.symm.trans howner')
  rw [← husage] at hu'
  have hsame : t.name? a = t.name? b := by rw [hname, hname', hboth.name]
  rcases Nat.lt_trichotomy a b with hlt | rfl | hlt
  · exact absurd hu' (h.named.unique p a b _ ⟨hlt, hscope, hscope', hsame⟩ hunique hu)
  · rfl
  · exact absurd hu (h.named.unique p b a _ ⟨hlt, hscope', hscope, hsame.symm⟩ hunique hu')

/-- All texts belong to the global scope. -/
theorem Lists.scope_text (he : o.symbols[i]? = some e) (hkind : e.kind = .text) :
    e.scope = some o.globalScope := by
  obtain ⟨id, hid, -, -, husage, hscope, -⟩ := h.entry i e he
  rw [hkind] at husage
  rw [hscope, h.global]
  cases hroot : t.scope? id with
  | some p => rw [show p = Walk.globalScope from h.named.fits id p _ hroot husage, Option.map_some]
  | none =>
    -- The roots are a function and a namespace.
    have hle := h.rooted.wellFormed.root id hid hroot
    have hcases : id = Walk.globalScope ∨ id = Walk.memberScope := by
      unfold Walk.globalScope Walk.memberScope
      omega
    rcases hcases with rfl | rfl
    · cases h.named.global.symm.trans husage
    · cases h.named.member.symm.trans husage

theorem Lists.usage_member (he : o.symbols[i]? = some e) (hscope : e.scope = some o.memberScope)
    {v : Variable} (hv : e.kind = .var v) : e.kind.usage = .member v.type := by
  obtain ⟨p, hp, howner, hfits⟩ := h.fits he hscope
  have hmember := (h.member_iff hp).1 howner.symm
  rw [hv] at hfits ⊢
  cases hkind : v.kind with
  | member => simp [SymbolKind.usage, hkind]
  | _ =>
    simp only [SymbolKind.usage, hkind] at hfits
    exact absurd hmember hfits

theorem Lists.usage_method (he : o.symbols[i]? = some e) (hscope : e.scope = some o.memberScope)
    (hf : e.kind = .function f) : e.kind.usage = .method f.returnType := by
  obtain ⟨p, hp, howner, hfits⟩ := h.fits he hscope
  have hmember := (h.member_iff hp).1 howner.symm
  rw [hf] at hfits ⊢
  cases hflag : f.flags.method with
  | true => simp [SymbolKind.usage, hflag]
  | false =>
    simp only [SymbolKind.usage, hflag] at hfits
    exact absurd hmember hfits.1

theorem Lists.usage_function (he : o.symbols[i]? = some e) (hscope : e.scope = some owner)
    (howner : owner ≠ o.memberScope) (hf : e.kind = .function f) :
    e.kind.usage = .function f.parameterTypes := by
  obtain ⟨p, hp, rfl, hfits⟩ := h.fits he hscope
  have houter : p ≠ Walk.memberScope := fun hmember => howner ((h.member_iff hp).2 hmember)
  rw [hf] at hfits ⊢
  cases hflag : f.flags.method with
  | true =>
    simp only [SymbolKind.usage, hflag, if_true] at hfits
    exact absurd hfits houter
  | false => simp [SymbolKind.usage, hflag]

/-- Where a script declares things, only a state takes a name again. -/
theorem Lists.exclusive {x : Entry} (hx : o.symbols[owner]? = some x)
    (hopen : owner = o.globalScope ∨ owner ≠ o.memberScope ∧ x.kind.usage.isScope = true)
    (hpair : [(i : Int), (j : Int)].Sublist x.children) (he : o.symbols[i]? = some e)
    (he' : o.symbols[j]? = some e') (hname : e.identifier = e'.identifier)
    (hexclusive : e.kind.isExclusive = true) (hexclusive' : e'.kind.isExclusive = true) :
    e'.kind.isState = true ∧ e.kind.isState = false := by
  have hform := h.rooted.wellFormed
  obtain ⟨p, hp, rfl, -, hu, -, hchildren⟩ := h.entry owner x hx
  obtain ⟨a, ha, rfl, hname₁, husage, -⟩ := h.entry i e he
  obtain ⟨b, hb, rfl, hname₂, husage', -⟩ := h.entry j e' he'
  -- The two are children of the owner in the table, in this order.
  rw [hchildren] at hpair
  obtain ⟨l, hl, heq⟩ := List.sublist_map_iff.1 hpair
  obtain ⟨a', l', rfl, ha', hrest⟩ := List.map_eq_cons_iff.1 heq.symm
  obtain ⟨b', l'', rfl, hb', hnil⟩ := List.map_eq_cons_iff.1 hrest
  cases List.map_eq_nil_iff.1 hnil
  have hlt : ∀ c ∈ [a', b'], c < t.size := fun c hc => hform.lt_of_mem_children (hl.subset hc)
  cases number_inj h.rooted (hlt a' (by simp)) ha (Int.ofNat.inj ha')
  cases number_inj h.rooted (hlt b' (by simp)) hb (Int.ofNat.inj hb')
  have hsakes : t.Namesakes p a b := by
    refine ⟨?_, hform.owned p a (hl.subset (by simp)), hform.owned p b (hl.subset (by simp)), ?_⟩
    · have hsorted := (h.named.sorted p).sublist hl
      simpa using hsorted
    · rw [hname₁, hname₂, hname]
  have hscope : t.IsOpen p := by
    rcases hopen with hglobal | ⟨houter, hscope⟩
    · rw [h.global] at hglobal
      exact .inl (number_inj h.rooted hp (Nat.lt_trans Nat.one_pos h.rooted.size) hglobal)
    · exact .inr ⟨fun hmember => houter ((h.member_iff hp).2 hmember), _, hu, hscope⟩
  rw [← SymbolKind.isExclusive_usage] at hexclusive hexclusive'
  obtain ⟨hstate, hnone⟩ :=
    h.named.exclusive p a b _ _ hsakes hscope husage husage' hexclusive hexclusive'
  refine ⟨SymbolKind.usage_eq_state_iff.1 hstate, ?_⟩
  rw [Ne, SymbolKind.usage_eq_state_iff] at hnone
  simpa using hnone

end Lists

/-- Symbols that are made where a script comes across them, and functions with their
    parameters, are told apart. -/
structure ToldApart (o : Object) : Prop where
  texts : ∀ (i j : Nat) e e', o.symbols[i]? = some e → o.symbols[j]? = some e' → e.kind = .text →
    e'.kind = .text → e.identifier = e'.identifier → i = j
  members : ∀ i j e e', o.Together o.memberScope i j e e' → ∀ v v', e.kind = .var v →
    e'.kind = .var v' →
    v.type = v'.type → i = j
  methods : ∀ i j e e', o.Together o.memberScope i j e e' → ∀ f f', e.kind = .function f →
    e'.kind = .function f' → f.returnType = f'.returnType → i = j
  functions : ∀ owner i j e e', owner ≠ o.memberScope → o.Together owner i j e e' → ∀ f f',
    e.kind = .function f → e'.kind = .function f' → f.parameterTypes = f'.parameterTypes → i = j
  parameters : ∀ owner i j e e', o.Together owner i j e e' → ∀ v v', e.kind = .var v →
    e'.kind = .var v' →
    v.kind = .parameter → v'.kind = .parameter → i = j

theorem Lists.toldApart (h : o.Lists t) : o.ToldApart where
  texts i j e e' he he' hkind hkind' hname := by
    -- All texts belong to the global scope.
    have hboth : o.Together o.globalScope i j e e' :=
      ⟨he, he', h.scope_text he hkind, h.scope_text he' hkind', hname⟩
    refine h.unique hboth (by rw [hkind, hkind']) ?_
    rw [hkind]
    rfl
  members i j e e' hboth v v' hv hv' htype := by
    have husage := h.usage_member hboth.first hboth.scope hv
    have husage' := h.usage_member hboth.second hboth.scope' hv'
    refine h.unique hboth (by rw [husage, husage', htype]) ?_
    rw [husage]
    rfl
  methods i j e e' hboth f f' hf hf' htype := by
    have husage := h.usage_method hboth.first hboth.scope hf
    have husage' := h.usage_method hboth.second hboth.scope' hf'
    refine h.unique hboth (by rw [husage, husage', htype]) ?_
    rw [husage]
    rfl
  functions owner i j e e' howner hboth f f' hf hf' htypes := by
    have husage := h.usage_function hboth.first hboth.scope howner hf
    have husage' := h.usage_function hboth.second hboth.scope' howner hf'
    refine h.unique hboth (by rw [husage, husage', htypes]) ?_
    rw [husage]
    rfl
  parameters owner i j e e' hboth v v' hv hv' hkind hkind' := by
    have husage : e.kind.usage = .parameter := by simp [hv, SymbolKind.usage, hkind]
    have husage' : e'.kind.usage = .parameter := by simp [hv', SymbolKind.usage, hkind']
    refine h.unique hboth (by rw [husage, husage']) ?_
    rw [husage]
    rfl

/-- Functions that are called by name take values. -/
theorem Lists.values (h : o.Lists t) {i : Nat} {e : Entry} (he : o.symbols[i]? = some e)
    (hf : e.kind = .function f) (hmethod : f.flags.method = false) {type : ValueType}
    (htype : type ∈ f.parameterTypes) : type.primitive ≠ .void := by
  have husage : e.kind.usage = .function f.parameterTypes := by simp [hf, SymbolKind.usage, hmethod]
  obtain ⟨id, hid, -, -, hu, -⟩ := h.entry i e he
  rw [husage] at hu
  cases hroot : t.scope? id with
  | some p => exact (h.named.fits id p _ hroot hu).2 type htype
  | none =>
    -- Of the roots only the global scope is a function, and it has no parameters.
    have hle := h.rooted.wellFormed.root id hid hroot
    have hcases : id = Walk.globalScope ∨ id = Walk.memberScope := by
      unfold Walk.globalScope Walk.memberScope
      omega
    rcases hcases with rfl | rfl
    · have hnone : f.parameterTypes = [] :=
        (Usage.function.inj (Option.some.inj (h.named.global.symm.trans hu))).symm
      rw [hnone] at htype
      cases htype
    · cases h.named.member.symm.trans hu

end Object

namespace Walk

variable {defines : List Define} {flags : Flags} {tokens : List Token} {s t : State} {o : Object}

theorem Compiled.counted (h : Compiled defines flags tokens s t o) {e : Entry} {f : Function}
    (he : e ∈ o.symbols) (hf : e.kind = .function f) :
    f.parameterCount = f.parameterTypes.length := by
  obtain ⟨id, x, f₀, -, hf₀, -, rfl⟩ := exists_function_of_linked h.rooted h.symbols he hf
  exact h.rooted.wellFormed.counts id f₀ hf₀

end Walk

namespace Compilation

open Walk

/-- In every object of a compilation there is one symbol for each text, in the member scope
    one variable for each name and type and one function for each name and result, in any
    other scope one function for each name and list of parameter types, and the parameters
    of a function have different names. -/
theorem symbols_told_apart {options : Options} {tokens : List Token} {o : Object}
    (h : (ofTokens options tokens).object = some o) : o.ToldApart := by
  obtain ⟨t, hlists⟩ := Object.exists_lists h
  exact hlists.toldApart

/-- A script that comes across a text, a member and a method twice, and across the member
    with a second type; its two functions have one name:
    `void f(object o) { o->(string)y = "t"; o->(string)y = "t"; o->(int)m(); o->(int)m();
    o->(int)y = 1; } void f(int a, int b) { }`. -/
def sortsOfNames : List Token :=
  let reach (type : Kind) (name : String) : List Token :=
    [wordOf .identifier "o", mark .arrow, mark .openParen, wordOf type "type", mark .closeParen,
      wordOf .identifier name]
  let store (type literal : Kind) (text : String) : List Token :=
    reach type "y" ++ [mark .assign, wordOf literal text, mark .semicolon]
  let call : List Token :=
    reach .intType "m" ++ [mark .openParen, mark .closeParen, mark .semicolon]
  [mark .voidType, wordOf .identifier "f", mark .openParen, mark .objectType,
    wordOf .identifier "o", mark .closeParen, mark .openBrace] ++
  store .stringType .stringLiteral "t" ++ store .stringType .stringLiteral "t" ++ call ++ call ++
  store .intType .integerLiteral "1" ++
  [mark .closeBrace, mark .voidType, wordOf .identifier "f", mark .openParen, mark .intType,
    wordOf .identifier "a", mark .comma, mark .intType, wordOf .identifier "b",
    mark .closeParen, mark .openBrace, mark .closeBrace]

theorem symbols_told_apart_sorts : ∃ o,
    (ofTokens { flags := { library := true } } sortsOfNames).object = some o ∧ o.ToldApart ∧
    o.symbols.map (·.identifier) =
      ["$global", "f", "o", "t", "f", "a", "b", "$member", "y", "m", "y"] := by
  have hnames : (ofTokens { flags := { library := true } } sortsOfNames).object.map
      (fun o => o.symbols.map (·.identifier)) =
      some ["$global", "f", "o", "t", "f", "a", "b", "$member", "y", "m", "y"] := by decide +kernel
  obtain ⟨o, ho, hnames⟩ := Option.map_eq_some_iff.1 hnames
  exact ⟨o, ho, symbols_told_apart ho, hnames⟩

/-- In every object of a compilation, of two children of the global scope, of a namespace, a
    state or an enumeration that have one name and are variables, states, enumerations or
    namespaces, the later one is a state and the earlier one is not: a state is declared
    without a look at anything but states. -/
theorem namesake_is_state {options : Options} {tokens : List Token} {o : Object}
    (h : (ofTokens options tokens).object = some o) {owner i j : Nat} {x e e' : Entry}
    (hx : o.symbols[owner]? = some x)
    (hopen : owner = o.globalScope ∨ owner ≠ o.memberScope ∧
      (x.kind = .space ∨ x.kind.isState = true ∨ x.kind = .enumeration))
    (hpair : [(i : Int), (j : Int)].Sublist x.children) (he : o.symbols[i]? = some e)
    (he' : o.symbols[j]? = some e') (hname : e.identifier = e'.identifier)
    (hexclusive : e.kind.isExclusive = true) (hexclusive' : e'.kind.isExclusive = true) :
    e'.kind.isState = true ∧ e.kind.isState = false := by
  obtain ⟨t, hlists⟩ := Object.exists_lists h
  refine hlists.exclusive hx (hopen.imp_right fun hscope =>
    ⟨hscope.1, ?_⟩) hpair he he' hname hexclusive
    hexclusive'
  rcases hscope.2 with hspace | hstate | henumeration
  · rw [hspace]
    rfl
  · rw [SymbolKind.usage_eq_state_iff.2 hstate]
    rfl
  · rw [henumeration]
    rfl

/-- A variable and a state of one name: `int A; state A { }`. -/
def stateBehindVariable : List Token :=
  [mark .intType, wordOf .identifier "A", mark .semicolon, mark .kwState,
    wordOf .identifier "A", mark .openBrace, mark .closeBrace]

theorem namesake_is_state_behind : ∃ o x e e',
    (ofTokens { flags := { library := true } } stateBehindVariable).object = some o ∧
      o.symbols[o.globalScope]? = some x ∧ [(1 : Int), (2 : Int)].Sublist x.children ∧
      o.symbols[1]? = some e ∧ o.symbols[2]? = some e' ∧ e.identifier = "A" ∧ e'.identifier = "A" ∧
      e.kind.isExclusive = true ∧ e'.kind.isState = true ∧ e.kind.isState = false := by
  have hshape : (ofTokens { flags := { library := true } } stateBehindVariable).object.map (fun o =>
      (o.globalScope, o.symbols.map fun e => (e.identifier, e.children, e.kind.isExclusive))) =
      some (0, [("$global", [1, 2], false), ("A", [], true), ("A", [], true),
        ("$member", [], true)]) := by
    decide +kernel
  obtain ⟨o, ho, hshape⟩ := Option.map_eq_some_iff.1 hshape
  obtain ⟨hglobal, hsymbols⟩ := Prod.mk.inj hshape
  -- Which entries there are is read off one run. The theorem tells what the last one is.
  have hget : ∀ n : Nat, o.symbols[n]?.map
      (fun e => (e.identifier, e.children, e.kind.isExclusive)) =
      [("$global", [1, 2], false), ("A", [], true), ("A", [], true),
        ("$member", [], true)][n]? := by
    intro n
    rw [← List.getElem?_map, hsymbols]
  obtain ⟨x, hx, hroot⟩ := Option.map_eq_some_iff.1 (hget 0)
  obtain ⟨e, he, hvariable⟩ := Option.map_eq_some_iff.1 (hget 1)
  obtain ⟨e', he', hstate⟩ := Option.map_eq_some_iff.1 (hget 2)
  simp only [Prod.mk.injEq] at hroot hvariable hstate
  have hpair : [(1 : Int), (2 : Int)].Sublist x.children := by rw [hroot.2.1]
  have hstates := namesake_is_state (i := 1) (j := 2) ho hx (.inl hglobal.symm) hpair he he'
    (hvariable.1.trans hstate.1.symm) hvariable.2.2 hstate.2.2
  exact ⟨o, x, e, e', ho, hglobal ▸ hx, hpair, he, he', hvariable.1, hstate.1, hvariable.2.2,
    hstates⟩

/-- In every object of a compilation a function has as many parameters as types of
    parameters, and unless it is a method none of them is void: the types of a method are
    those of the arguments in its first call. -/
theorem parameters_counted {options : Options} {tokens : List Token} {o : Object}
    (h : (ofTokens options tokens).object = some o) {e : Entry} {f : Function} (he : e ∈ o.symbols)
    (hf : e.kind = .function f) : f.parameterCount = f.parameterTypes.length ∧
      (f.flags.method = false → ∀ type ∈ f.parameterTypes, type.primitive ≠ .void) := by
  constructor
  · obtain ⟨s, t, o', hcompiled, rfl⟩ := compiled_of_ofTokens h
    obtain ⟨g, hg⟩ := exists_symbols_shorten o'
    obtain ⟨e₀, he₀, f₀, -, hf₀, rfl⟩ := Object.exists_function_of_shortened hg he hf
    have hcounted := hcompiled.counted he₀ hf₀
    exact hcounted
  -- A method takes the types of its arguments, which may be void.
  · intro hmethod type htype
    obtain ⟨t, hlists⟩ := Object.exists_lists h
    obtain ⟨i, hi⟩ := List.mem_iff_getElem?.1 he
    exact hlists.values hi hf hmethod htype

/-- A call through `->` with an argument that is no value:
    `object o; void g() { } void f(int a) { o->(void)m(g()); }`. -/
def voidArgument : List Token :=
  [mark .objectType, wordOf .identifier "o", mark .semicolon, mark .voidType,
    wordOf .identifier "g", mark .openParen, mark .closeParen, mark .openBrace,
    mark .closeBrace, mark .voidType, wordOf .identifier "f", mark .openParen, mark .intType,
    wordOf .identifier "a", mark .closeParen, mark .openBrace, wordOf .identifier "o",
    mark .arrow, mark .openParen, mark .voidType, mark .closeParen, wordOf .identifier "m",
    mark .openParen, wordOf .identifier "g", mark .openParen, mark .closeParen,
    mark .closeParen, mark .semicolon, mark .closeBrace]

theorem parameters_counted_void : ∃ o e e' f f',
    (ofTokens { flags := { library := true } } voidArgument).object = some o ∧ e ∈ o.symbols ∧
      e' ∈ o.symbols ∧ e.kind = .function f ∧ e'.kind = .function f' ∧ f.parameterTypes = [.int] ∧
      f.parameterCount = f.parameterTypes.length ∧ f'.parameterTypes = [.void] ∧
      f'.parameterCount = f'.parameterTypes.length := by
  have hshape : (ofTokens { flags := { library := true } } voidArgument).object.map (fun o =>
      ((o.function? 3).map (·.parameterTypes), (o.function? 6).map (·.parameterTypes))) =
      some (some [.int], some [.void]) := by decide +kernel
  obtain ⟨o, ho, hshape⟩ := Option.map_eq_some_iff.1 hshape
  obtain ⟨hnamed, hmethod⟩ := Prod.mk.inj hshape
  obtain ⟨f, hf, htypes⟩ := Option.map_eq_some_iff.1 hnamed
  obtain ⟨f', hf', htypes'⟩ := Option.map_eq_some_iff.1 hmethod
  obtain ⟨e, he, hkind⟩ := Option.bind_eq_some_iff.1 hf
  obtain ⟨e', he', hkind'⟩ := Option.bind_eq_some_iff.1 hf'
  have hfunction : ∀ {k : SymbolKind} {f : Function}, k.function? = some f → k = .function f := by
    intro k f hk
    cases k <;> cases hk
    rfl
  have hmem := List.mem_of_getElem? he
  have hmem' := List.mem_of_getElem? he'
  exact ⟨o, e, e', f, f', ho, hmem, hmem', hfunction hkind, hfunction hkind', htypes,
    (parameters_counted ho hmem (hfunction hkind)).1, htypes',
    (parameters_counted ho hmem' (hfunction hkind')).1⟩

end Compilation

end StateScript
