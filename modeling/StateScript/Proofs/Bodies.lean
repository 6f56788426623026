import StateScript.Object.Listing
import StateScript.Proofs.Jumps

/-! # The bodies of functions make up the program

  The second walk finds every function with a body again where the body stands, and puts a
  return at its end, so no body is empty. Linking lays the bodies one behind the other, and
  shortening removes no return. So the entry points increase strictly in the order of the
  symbols, from the code outside of functions on, and each body goes from its own entry
  point to the next.

  A listing goes over the bodies in this order, so its lines of code are those of the whole
  program, numbered from zero.
-/

namespace StateScript

variable {rest : List Nat}

/-! ### Cutting a list at given places -/

/-- The next of some places, or the end. -/
def nextPlace (places : List Nat) (stop place : Nat) : Nat :=
  ((places.filter (place < ·)).min?).getD stop

theorem min?_of_increasing {first : Nat} (h : (first :: rest).Pairwise (· < ·)) :
    (first :: rest).min? = some first := by
  rw [List.min?_eq_some_iff]
  refine ⟨List.mem_cons_self, fun p hp => ?_⟩
  rcases List.mem_cons.1 hp with rfl | hp
  · exact Nat.le_refl _
  · exact Nat.le_of_lt (List.rel_of_pairwise_cons h hp)

/-- In increasing places the next one is the one behind. -/
theorem nextPlace_append {before : List Nat} {place : Nat}
    (h : (before ++ place :: rest).Pairwise (· < ·)) (stop : Nat) :
    nextPlace (before ++ place :: rest) stop place = rest.head?.getD stop := by
  obtain ⟨-, hrest, hbefore⟩ := List.pairwise_append.1 h
  have hsmaller : before.filter (place < ·) = [] := by
    rw [List.filter_eq_nil_iff]
    intro p hp
    have hlt := hbefore p hp place List.mem_cons_self
    simp only [decide_eq_true_eq]
    omega
  have hlarger : rest.filter (place < ·) = rest := by
    rw [List.filter_eq_self]
    intro p hp
    exact decide_eq_true (List.rel_of_pairwise_cons hrest hp)
  -- Of an increasing list, the later places are those behind this one.
  have hfilter : (before ++ place :: rest).filter (place < ·) = rest := by
    rw [List.filter_append, hsmaller, List.filter_cons_of_neg (by simp), hlarger, List.nil_append]
  unfold nextPlace
  rw [hfilter]
  cases rest with
  | nil => rfl
  | cons next rest => rw [min?_of_increasing (List.Pairwise.of_cons hrest)]; rfl

/-- The items from a place up to the next one. -/
def slice {α : Type} (places : List Nat) (items : List α) (place : Nat) : List α :=
  (items.take (nextPlace places items.length place)).drop place

/-- The slices from a place on, one behind the other, are all items from there on, and every
    item has its place. -/
theorem flatMap_slice {α β : Type} {items : List α} {before : List Nat} {place : Nat}
    (h : (before ++ place :: rest).Pairwise (· < ·)) (hlt : ∀ p ∈ place :: rest, p < items.length)
    (label : Nat → α → β) :
    (place :: rest).flatMap (fun p =>
        (slice (before ++ place :: rest) items p).mapIdx fun k x => label (p + k) x) =
      (items.drop place).mapIdx fun k x => label (place + k) x := by
  -- The induction is on the places that are left; those before only have to be smaller.
  induction rest generalizing before place with
  | nil =>
    rw [List.flatMap_singleton, slice, nextPlace_append h]
    simp
  | cons next rest ih =>
    have hsplit : before ++ place :: next :: rest = (before ++ [place]) ++ next :: rest := by simp
    have hlater := ih (hsplit ▸ h) fun p hp => hlt p (List.mem_cons_of_mem _ hp)
    rw [← hsplit] at hlater
    rw [List.flatMap_cons, hlater, slice, nextPlace_append h]
    have hnext : place < next := List.rel_of_pairwise_cons (List.pairwise_append.1 h).2.1
      List.mem_cons_self
    have hinside : next < items.length := hlt next (by simp)
    -- What is cut off at the next place is what comes from there on.
    have hcut : items.drop place = (items.take next).drop place ++ items.drop next := by
      conv => lhs; rw [← List.take_append_drop next items]
      rw [List.drop_append_of_le_length (by rw [List.length_take]; omega)]
    have hlength : ((items.take next).drop place).length = next - place := by
      rw [List.length_drop, List.length_take]
      omega
    have hplace : ∀ k, place + (k + (next - place)) = next + k := by omega
    rw [hcut, List.mapIdx_append, hlength]
    simp only [hplace]
    rfl

namespace Peephole

variable {code : List Instruction} {symbols : List Entry}

/-! ### Programs divided into bodies -/

/-- A program whose entry points increase in the order of the symbols, from the first symbol
    on, with a return before each of them and at the end. -/
structure Divided (symbols : List Entry) (code : List Instruction) : Prop extends
    Confined symbols code where
  increasing : (entries symbols).Pairwise (· < ·)
  inside : ∀ e ∈ entries symbols, e < code.length
  outside : ∃ e rest f, symbols = e :: rest ∧ e.kind = .function f ∧ f.entryPoint = some 0
  numbered : ∀ (k : Nat) (e : Entry), symbols[k]? = some e → e.index = k

theorem Divided.fusePairs (h : Divided symbols code) :
    Divided symbols (fusePairs (sites code symbols).contains 0 code).1 := by
  refine ⟨h.toConfined.fusePairs, h.increasing, fun e he => ?_, h.outside, h.numbered⟩
  rw [length_fusePairs]
  exact h.inside e he

theorem Divided.compact (h : Divided symbols code) :
    Divided (symbols.map (moveEntry (renumber code))) (compact code) := by
  refine ⟨h.toConfined.compact, ?_, fun e he => ?_, ?_, fun k e he => ?_⟩
  -- A body ends in a return, which is kept, so no two entries fall together.
  · rw [entries_map, List.pairwise_map]
    refine h.increasing.imp_of_mem fun _ he hlt => ?_
    exact renumber_lt h.parted (.inl he) hlt
  · rw [entries_map] at he
    obtain ⟨e, hold, rfl⟩ := List.mem_map.1 he
    rw [length_compact]
    exact renumber_lt h.parted (.inr rfl) (h.inside e hold)
  · obtain ⟨e, rest, f, rfl, hkind, hentry⟩ := h.outside
    refine ⟨_, _, { f with entryPoint := f.entryPoint.map (renumber code) }, List.map_cons, ?_, ?_⟩
    · simp only [moveEntry, hkind, SymbolKind.renumber]
    · rw [hentry]
      rfl
  · rw [List.getElem?_map] at he
    obtain ⟨e, hold, rfl⟩ := Option.map_eq_some_iff.1 he
    exact h.numbered k e hold

/-- Any number of rounds. -/
theorem Divided.rounds (h : Divided symbols code) (n : Nat) :
    Divided (rounds n code symbols).symbols (rounds n code symbols).code := by
  induction n generalizing code symbols with
  | zero => exact h
  | succ n ih =>
    rw [rounds_succ]
    dsimp only
    split
    · exact h
    · exact ih h.fusePairs.compact

end Peephole

theorem Compilation.divided_shorten {o : Object} (h : Peephole.Divided o.symbols o.instructions) :
    Peephole.Divided (shorten o).1.symbols (shorten o).1.instructions := by
  unfold shorten
  split
  · exact h
  · exact h.rounds _

theorem Table.SameCode.length_le {t t' : Table} (h : t.SameCode t') (j : Nat) :
    (t.code j).length ≤ (t'.code j).length :=
  Nat.le_of_eq (congrArg List.length (h j).1.symm)

namespace Walk

/-! ### No body is empty -/

section Filling

variable {T : Table} {s s' : State}

/-- An instruction makes no code shorter, be it of a function or of nothing. -/
theorem length_code_le_emit (op : Opcode) (operands : List Operand)
    {place : Option Nat} (j : Nat) :
    (s.table.code j).length ≤ ((s.emit op operands place).table.code j).length := by
  obtain ⟨i, files, -, h⟩ := s.emit_eq op operands place
  rw [h]
  unfold Table.code
  rw [Table.kind?_modifyKind]
  split
  · cases hk : s.table.kind? j with
    | none => simp
    | some k =>
      cases k with
      | function f =>
        have hlt := size_putAt f.code place i
        simp only [Option.map_some, Option.getD_some, SymbolKind.mapFunction, SymbolKind.code,
          List.length_map, Array.length_toList]
        omega
      | _ => simp [SymbolKind.mapFunction]
  · exact Nat.le_refl _

theorem Step.length_code_le (h : Step T s s') (j : Nat) :
    (s.table.code j).length ≤ (s'.table.code j).length := by
  cases h with
  | aside => exact Nat.le_refl _
  | use id =>
    apply Table.SameCode.length_le
    exact sameCode_modifyKind id fun k => by cases k <;> exact ⟨rfl, rfl⟩
  | discover _ new =>
    apply Table.SameCode.length_le
    exact sameCode_add _ new.code
  | @fix id =>
    apply Table.SameCode.length_le
    exact sameCode_modifyKind id fun k => by cases k <;> exact ⟨rfl, rfl⟩
  | emit => exact length_code_le_emit _ _ j

theorem Steps.length_code_le (h : Steps T s s') (j : Nat) :
    (s.table.code j).length ≤ (s'.table.code j).length := by
  induction h with
  | refl => exact Nat.le_refl _
  | tail _ hstep ih => exact Nat.le_trans ih (hstep.length_code_le j)

theorem Move.length_code_le (h : Move T s s') (hpass : s.pass = .emit) (j : Nat) :
    (s.table.code j).length ≤ (s'.table.code j).length := by
  cases h with
  | step h => exact h.length_code_le j
  | enter | retrieve => exact Nat.le_refl _
  | annotate howner =>
    apply Table.SameCode.length_le
    exact sameCode_annotate _ howner
  | space =>
    apply Table.SameCode.length_le
    exact sameCode_add _ ⟨rfl, rfl⟩
  | declare _ hdeclare | introduce hdeclare | literal _ _ hdeclare =>
    cases hdeclare.symm.trans hpass
  | retype id =>
    apply Table.SameCode.length_le
    exact sameCode_modifyKind id fun k => by cases k <;> exact ⟨rfl, rfl⟩
  | jump => exact length_code_le_emit _ _ j
  | bind => exact Nat.le_of_eq (congrArg List.length (code_placed ..).symm)

/-- The second walk makes no code shorter. -/
theorem Course.length_code_le (h : Course T s s') (hpass : s.pass = .emit) (j : Nat) :
    (s.table.code j).length ≤ (s'.table.code j).length := by
  induction h with
  | refl => exact Nat.le_refl _
  | move h => exact h.length_code_le hpass j
  | trans h _ ih ih₁ => exact Nat.le_trans (ih hpass) (ih₁ (h.steady.pass.trans hpass))
  | outside h => exact h.length_code_le j
  | framed hdeclare => cases hdeclare.symm.trans hpass
  | filled _ _ _ _ parameters _ ih ih₁ =>
    have hbody := Nat.le_trans (ih hpass) (ih₁ (parameters.steady.pass.trans hpass))
    exact Nat.le_trans hbody (length_code_le_emit .ret [] j)

/-- A function that the second walk finds again on its course has code at the end, since a
    return closes its body. -/
theorem Course.fills (h : Course T s s') (hpass : s.pass = .emit) (hready : Ready T s.table)
    {d : Declared} (hd : d ∈ s'.recalled) (hrole : d.role = .function) :
    d ∈ s.recalled ∨ 0 < (s'.table.code d.symbol).length := by
  induction h with
  | refl => exact .inl hd
  | @move s s' h =>
    left
    cases h with
    | step h => rwa [h.recalled] at hd
    | declare _ hdeclare | introduce hdeclare | literal _ _ hdeclare =>
      cases hdeclare.symm.trans hpass
    | retrieve _ hother =>
      rcases List.mem_cons.1 hd with rfl | hd
      · exact absurd hrole hother
      · exact hd
    | _ => exact hd
  -- What the first part has filled the second only makes longer.
  | trans h h₁ ih ih₁ =>
    have hpass₁ := h.steady.pass.trans hpass
    rcases ih₁ hpass₁ (hready.grows h.grows) hd with hd | hfilled
    · rcases ih hpass hready hd with hd | hfilled
      · exact .inl hd
      · exact .inr (Nat.lt_of_lt_of_le hfilled (h₁.length_code_le hpass₁ _))
    · exact .inr hfilled
  | outside h =>
    left
    exact h.recalled ▸ hd
  | framed hdeclare => cases hdeclare.symm.trans hpass
  | @filled s s₀ s₁ token id _ _ hid _ parameters body ih ih₁ =>
    have hpass₀ := parameters.steady.pass.trans hpass
    have hready₀ : Ready T s₀.table := hready.grows parameters.grows
    have hready₁ : Ready T s₁.table := hready₀.grows body.grows
    have hcurrent : s₁.function = id := body.steady.function
    have hlater : ∀ j, (s₁.table.code j).length ≤ ((s₁.emit .ret [] none).table.code j).length :=
      length_code_le_emit .ret []
    -- It was found again in the body, or with the parameters, or it is this function.
    rcases ih₁ hpass₀ hready₀ hd with hd | hfilled
    · rcases ih hpass hready hd with hd | hfilled
      · rcases List.mem_cons.1 hd with rfl | hd
        · -- The function whose body this is has got the return.
          right
          have hs : s₁.table.IsDefined s₁.function := hready₁.isDefined _ (hcurrent.symm ▸ hid)
          show 0 < ((s₁.emit .ret [] none).table.code id).length
          rw [← hcurrent, code_emit_push .ret [] hs, List.length_append]
          exact Nat.succ_pos _
        · exact .inl hd
      · have hbody := Nat.lt_of_lt_of_le hfilled (body.length_code_le hpass₀ _)
        exact .inr (Nat.lt_of_lt_of_le hbody (hlater _))
    · exact .inr (Nat.lt_of_lt_of_le hfilled (hlater _))

end Filling

section Walked

variable {flags : Flags} {tokens : List Token} {s t : State}

/-- After both walks every function with a body has code. -/
theorem Walked.filled (h : Walked flags tokens s t) {id : Nat} (hid : t.closed.table.IsDefined id) :
    bodyOf t.closed.table id ≠ [] := by
  have hfunction : t.function = globalScope := h.second.steady.function
  have hglobal : t.table.IsDefined t.function := hfunction ▸ h.ready.outside
  have hlength : 0 < (t.closed.table.code id).length := by
    have hlt : id < t.table.size := by
      obtain ⟨f, hf, -⟩ := hid
      have hsize := Table.kind?_lt (Table.function?_eq_some.1 hf)
      rwa [show t.closed.table.size = t.table.size from Table.size_modify ..] at hsize
    -- A function has a body in the script, or is the code outside of functions.
    rcases h.exists_body (h.closes.grows.isDefined_of_lt hid hlt) with rfl | ⟨d, hd, hrole, rfl, -⟩
    · rw [← hfunction, show t.closed.table.code t.function = _ from code_emit_push .ret [] hglobal,
        List.length_append]
      exact Nat.succ_pos _
    · rw [← h.recalled] at hd
      rcases h.second.fills rfl h.ready hd hrole with hfirst | hfilled
      · rw [show (s.begin .emit).recalled = [] from h.recalled_first] at hfirst
        cases hfirst
      · exact Nat.lt_of_lt_of_le hfilled (length_code_le_emit .ret [] _)
  intro hnil
  rw [← map_op_bodyOf hid, hnil] at hlength
  cases hlength

end Walked

/-! ### The linked program is divided -/

section Linked

variable {t : Table} {id : Nat}

theorem preorder_eq_cons (h : t.Rooted) : ∃ rest, t.preorder [0, 1] = 0 :: rest := by
  unfold Table.preorder
  have hsize := h.size
  obtain ⟨steps, hsteps⟩ : ∃ steps, [0, 1].length * t.size = steps + 1 :=
    ⟨2 * t.size - 1, by simp; omega⟩
  rw [hsteps]
  exact ⟨_, rfl⟩

/-- The code outside of functions comes first. -/
theorem number_globalScope (h : t.Rooted) : (layout t).number globalScope = 0 := by
  obtain ⟨rest, hrest⟩ := preorder_eq_cons h
  have hzero : globalScope < t.size := Nat.lt_trans Nat.zero_lt_one h.size
  rw [number_layout h hzero, hrest]
  exact List.idxOf_cons_self

/-- A function with a body that stands earlier starts earlier, unless the body is empty. -/
theorem offsetOf_lt (h : t.Rooted) {j : Nat} (hid : id < t.size) (hbody : bodyOf t id ≠ [])
    (hbefore : (t.preorder [0, 1]).idxOf id < (t.preorder [0, 1]).idxOf j) :
    offsetOf t id < offsetOf t j := by
  have hend := offsetOf_add_le h hid hbefore
  rw [← offsetOf_eq] at hend
  have hpos := List.length_pos_iff.2 hbody
  omega

/-- The entry point of an entry is that of its symbol, which has a body then. -/
theorem entryPoint_symbols (h : t.Rooted) {n e : Nat} {x : Entry}
    (hx : ((layout t).symbols t)[n]? = some x)
    (hentry : x.kind.function?.bind (·.entryPoint) = some e) :
    ∃ id, id < t.size ∧ n = (t.preorder [0, 1]).idxOf id ∧ e = offsetOf t id ∧ t.IsDefined id := by
  obtain ⟨id, hid, rfl, hentryOf⟩ := exists_symbol h hx
  have hstart := entryPoint_entryOf t id (layout t) ((layout t).number id)
  rw [hentryOf, Option.bind_some, hentry] at hstart
  obtain ⟨f, -, hstart⟩ := Option.bind_eq_some_iff.1 hstart.symm
  rw [start?_layout h] at hstart
  split at hstart
  · next hcode =>
    obtain ⟨c, hc⟩ := Option.isSome_iff_exists.1 hcode
    obtain ⟨g, hg, hbody, -⟩ := codeOf?_eq_some.1 hc
    exact ⟨id, hid, number_layout h hid, (Option.some.inj hstart).symm, g, hg, hbody⟩
  · cases hstart

theorem divided_linked (h : t.Rooted) (hcomplete : Complete t) (hglobal : t.IsDefined globalScope)
    (hfilled : ∀ id, t.IsDefined id → bodyOf t id ≠ []) {instructions : List Instruction}
    (hcode : (layout t).relocateCode t = .ok instructions) :
    Peephole.Divided ((layout t).symbols t) instructions := by
  have hlength := (relocateCode_eq_ok hcode).1
  refine ⟨confined_linked h hcomplete hcode, ?_, fun e he => ?_, ?_, fun k e he => ?_⟩
  -- Bodies that are not empty start at increasing places.
  · unfold Peephole.entries
    rw [List.pairwise_filterMap, List.pairwise_iff_getElem]
    intro n m hn hm hlt e he e' he'
    obtain ⟨id, hid, rfl, rfl, hdefined⟩ := entryPoint_symbols h (List.getElem?_eq_getElem hn) he
    obtain ⟨j, -, rfl, rfl, -⟩ := entryPoint_symbols h (List.getElem?_eq_getElem hm) he'
    exact offsetOf_lt h hid (hfilled id hdefined) hlt
  · obtain ⟨x, hx, hentry⟩ := List.mem_filterMap.1 he
    obtain ⟨n, hn⟩ := List.mem_iff_getElem?.1 hx
    obtain ⟨id, hid, -, rfl, hdefined⟩ := entryPoint_symbols h hn hentry
    rw [hlength]
    exact offsetOf_add_lt h hid (k := 0) (List.length_pos_iff.2 (hfilled id hdefined))
  -- The code outside of functions is laid first, as its symbol is the first of all.
  · have hzero : globalScope < t.size := Nat.lt_trans Nat.zero_lt_one h.size
    have hget := exists_entry h hzero
    rw [number_globalScope h] at hget
    obtain ⟨f, hf, hbody⟩ := hglobal
    obtain ⟨x, hx, hkind⟩ := Table.kind?_eq_some.1 (Table.function?_eq_some.1 hf)
    have hstart : (layout t).start? globalScope = some 0 := by
      rw [start?_of_isDefined h ⟨f, hf, hbody⟩]
      obtain ⟨rest, hrest⟩ := preorder_eq_cons h
      simp [offsetOf, hrest, globalScope]
    unfold Layout.entryOf at hget
    rw [hx, Option.map_some, hkind] at hget
    cases hsymbols : (layout t).symbols t with
    | nil => simp [hsymbols] at hget
    | cons e rest =>
      rw [hsymbols] at hget
      cases hget
      exact ⟨_, rest, _, rfl, rfl, hstart⟩
  · obtain ⟨id, hid, rfl, hentryOf⟩ := exists_symbol h he
    unfold Layout.entryOf at hentryOf
    obtain ⟨x, -, rfl⟩ := Option.map_eq_some_iff.1 hentryOf
    rfl

end Linked

section Compiled

variable {defines : List Define} {flags : Flags} {tokens : List Token} {s t : State} {o : Object}

theorem Compiled.divided (h : Compiled defines flags tokens s t o) :
    Peephole.Divided o.symbols o.instructions := by
  obtain ⟨instructions, hcode, rfl⟩ := h.linked
  have hgrows := h.grows_initial.trans h.closes.grows
  exact divided_linked h.rooted h.complete (hgrows.isDefined isDefined_globalScope)
    (fun id hid => h.filled hid) hcode

theorem Compiled.globalScope_eq (h : Compiled defines flags tokens s t o) : o.globalScope = 0 := by
  obtain ⟨instructions, -, rfl⟩ := h.linked
  simp only [State.object, number_globalScope h.rooted]

/-- The name stays what it is in the table that every compilation starts with. -/
theorem Compiled.global_named (h : Compiled defines flags tokens s t o) :
    o.symbols[o.globalScope]?.map (·.identifier) = some "$global" := by
  obtain ⟨instructions, -, rfl⟩ := h.linked
  have hgrows := h.grows_initial.trans h.closes.grows
  have hstart : initialTable.get? globalScope =
      some { identifier := "$global", kind := .function {} } := rfl
  -- Symbols keep their names, so the first one is called as at the start.
  obtain ⟨x, hx, hsame⟩ := hgrows globalScope _ hstart
  obtain ⟨e, he, hentry, -⟩ := getElem?_number_symbols h.rooted hx
  have hname : e.identifier = "$global" := by
    unfold Layout.entryOf at hentry
    rw [hx] at hentry
    cases hentry
    exact hsame.identifier
  simp only [State.object, he, Option.map_some, hname]

end Compiled

end Walk

namespace Object

variable {f : Function}

/-! ### Bodies and their listing -/

/-- What goes over all bodies of a program, in the order of their entry points. -/
structure Covers (o : Object) (bodies : List Body) : Prop where
  /-- The bodies are those of the functions that have an entry point. -/
  functions : ∀ b, b ∈ bodies ↔ ∃ f, o.function? b.index = some f ∧ f.entryPoint = some b.entry
  increasing : bodies.Pairwise fun b b' => b.entry < b'.entry
  /-- The first is that of the code outside of functions. -/
  first : bodies.head? = some ⟨0, o.globalScope⟩
  named : o.symbols[o.globalScope]?.map (·.identifier) = some "$global"
  whole : bodies.flatMap (fun b => o.functionBody b.index) = o.instructions
  returns : ∀ b ∈ bodies, ∃ i, (o.functionBody b.index).getLast? = some i ∧ i.opcode = .ret

/-- How an operand is written: a text between quotes, another symbol by its name, and what
    stands for no symbol as it is. -/
inductive OperandText (o : Object) : Operand → String → Prop where
  | text {i : Nat} {e : Entry} (he : o.symbols[i]? = some e) (hkind : e.kind = .text) :
    OperandText o (.symbolIndex i) (Text.listed e.identifier)
  | symbol {i : Nat} {e : Entry} (he : o.symbols[i]? = some e) (hkind : e.kind ≠ .text) :
    OperandText o (.symbolIndex i) (o.qualifiedName i)
  | other {x : Operand} (hx : ∀ i : Nat, x = .symbolIndex i → o.symbols[i]? = none) :
    OperandText o x x.render

/-- The columns of a line of code. -/
structure Columns where
  number : String
  mark : Char
  mnemonic : String
  operands : List String

/-- The columns next to each other. The operands start at the same place in all lines. -/
def Columns.text (c : Columns) : String :=
  let blanks := List.replicate (20 - c.mnemonic.toList.length) ' '
  let operands := String.intercalate ", " c.operands
  s!"{c.number} {c.mark} " ++
    if c.operands = [] then c.mnemonic else c.mnemonic ++ String.ofList blanks ++ operands

/-- The columns of the instruction `i`, which is the one with the number `k`. -/
structure Columns.Show (c : Columns) (o : Object) (k : Nat) (i : Instruction) : Prop where
  number : c.number = Text.zeroPadded 4 k
  /-- It has four digits or more, which are those of `k`. -/
  digits : 4 ≤ c.number.toList.length ∧ (∀ d ∈ c.number.toList, d.isDigit = true) ∧
    Nat.ofDigitChars 10 c.number.toList 0 = k
  /-- What a jump goes to is marked. -/
  mark : c.mark = if ∃ j ∈ o.instructions, j.opcode.isJump = true ∧
    j.operands.head? = some (.instruction k) then '►' else ' '
  mnemonic : c.mnemonic = i.opcode.mnemonic
  operands : List.Forall₂ o.OperandText i.operands c.operands

/-- The lines that introduce a body: an empty one, and the name between two rules. -/
def heading (o : Object) (b : Body) : List String :=
  match o.symbols[b.index]? with
  | some { kind := .function f, identifier, .. } =>
    let word := if f.flags.event then "event" else "function"
    let name := if o.qualifiedName b.index = "" then identifier else o.qualifiedName b.index
    ["", rule, s!" {word} {name}  entry {b.entry}  frame {f.frameSize}  params {f.parameterCount}",
      rule]
  | _ => []

/-- Of the lines of all instructions, those of a body. -/
def linesOf (o : Object) (lines : List Columns) (b : Body) : List Columns :=
  (lines.drop b.entry).take (o.functionBody b.index).length

/-- The listing goes over these bodies. Below their headings stand the lines of all instructions,
    each once and in order. -/
structure Shows (o : Object) (bodies : List Body) (lines : List Columns) : Prop where
  length : lines.length = o.instructions.length
  line : ∀ (k : Nat) c i, lines[k]? = some c → o.instructions[k]? = some i → Columns.Show c o k i
  once : bodies.flatMap (o.linesOf lines) = lines
  /-- No other line starts with a digit. -/
  apart : ∀ line ∈ o.headerLines ++ bodies.flatMap o.heading, ∀ c, line.toList.head? = some c →
    c.isDigit = false
  text : o.decompile? = some (String.join ((o.headerLines ++ bodies.flatMap fun b =>
    o.heading b ++ (o.linesOf lines b).map Columns.text).map (· ++ "\n")))

variable {o : Object}

theorem filterMapM_eq_some {α β : Type} {f : α → Option (Option β)} {g : α → Option β} {l : List α}
    (h : ∀ x ∈ l, f x = some (g x)) : l.filterMapM f = some (l.filterMap g) := by
  induction l with
  | nil => rfl
  | cons x l ih =>
    have hrest := ih fun y hy => h y (List.mem_cons_of_mem _ hy)
    rw [List.filterMapM_cons, h x List.mem_cons_self, hrest]
    cases hx : g x with
    | none => simp [hx]
    | some y => simp [hx]

/-- The body that an entry stands for, if it is a function with an entry point. -/
def bodyOf? (e : Entry) : Option Body :=
  (e.kind.function?.bind (·.entryPoint)).map fun entry => ⟨entry, e.index.toNat⟩

variable (h : Peephole.Divided o.symbols o.instructions)

theorem map_entry_bodies (symbols : List Entry) :
    (symbols.filterMap bodyOf?).map (·.entry) = Peephole.entries symbols := by
  unfold Peephole.entries
  rw [List.map_filterMap]
  refine List.filterMap_congr fun e _ => ?_
  unfold bodyOf?
  cases e.kind.function?.bind (·.entryPoint) <;> rfl

include h

theorem increasing_bodies :
    (o.symbols.filterMap bodyOf?).Pairwise fun b b' => b.entry < b'.entry := by
  have hincreasing := h.increasing
  rw [← map_entry_bodies] at hincreasing
  exact List.pairwise_map.1 hincreasing

/-- The bodies stand in the order of the symbols already. -/
theorem bodies?_eq : o.bodies? = some (o.symbols.filterMap bodyOf?) := by
  have hsorted : (o.symbols.filterMap bodyOf?).mergeSort Body.le = o.symbols.filterMap bodyOf? := by
    -- In the order of the symbols the bodies are sorted already.
    apply List.mergeSort_of_pairwise
    refine (increasing_bodies h).imp fun hlt => ?_
    simp [Body.le, hlt]
  unfold bodies?
  rw [filterMapM_eq_some (g := bodyOf?)]
  · exact congrArg some hsorted
  · intro e he
    obtain ⟨k, hk⟩ := List.mem_iff_getElem?.1 he
    have hindex : e.index = .ofNat k := h.numbered k e hk
    have hlt := (List.getElem?_eq_some_iff.1 hk).1
    unfold bodyOf?
    cases hentry : e.kind.function?.bind (·.entryPoint) with
    | none => rfl
    | some entry => simp [hindex, hlt]

theorem mem_bodies (b : Body) : b ∈ o.symbols.filterMap bodyOf? ↔
    ∃ f, o.function? b.index = some f ∧ f.entryPoint = some b.entry := by
  rw [List.mem_filterMap]
  constructor
  · rintro ⟨e, he, hbody⟩
    obtain ⟨k, hk⟩ := List.mem_iff_getElem?.1 he
    obtain ⟨entry, hentry, rfl⟩ := Option.map_eq_some_iff.1 hbody
    obtain ⟨f, hf, hentry⟩ := Option.bind_eq_some_iff.1 hentry
    refine ⟨f, ?_, hentry⟩
    -- Entries are numbered by where they stand.
    show (o.symbols[e.index.toNat]?).bind _ = _
    rw [h.numbered k e hk, Int.toNat_natCast, hk]
    exact hf
  · rintro ⟨f, hf, hentry⟩
    obtain ⟨e, he, hf⟩ := Option.bind_eq_some_iff.1 hf
    refine ⟨e, List.mem_of_getElem? he, ?_⟩
    unfold bodyOf?
    rw [hf, Option.bind_some, hentry, h.numbered _ e he, Int.toNat_natCast]
    rfl

omit h in
theorem functionBody_eq {index entry : Nat} (hf : o.function? index = some f)
    (hentry : f.entryPoint = some entry) :
    o.functionBody index = slice (Peephole.entries o.symbols) o.instructions entry := by
  unfold functionBody
  rw [hf, Option.bind_some, hentry]
  rfl

/-- Whatever is said of each instruction of each body and its number is said of the whole
    program. -/
theorem flatMap_bodies {β : Type} (label : Nat → Instruction → β) :
    (o.symbols.filterMap bodyOf?).flatMap (fun b =>
        (o.functionBody b.index).mapIdx fun k i => label (b.entry + k) i) =
      o.instructions.mapIdx label := by
  have hslices : (o.symbols.filterMap bodyOf?).flatMap (fun b =>
      (o.functionBody b.index).mapIdx fun k i => label (b.entry + k) i) =
        (Peephole.entries o.symbols).flatMap fun entry =>
          (slice (Peephole.entries o.symbols) o.instructions entry).mapIdx fun k i =>
            label (entry + k) i := by
    conv => rhs; rw [← map_entry_bodies]
    rw [List.flatMap_map, map_entry_bodies]
    apply List.flatMap_congr
    intro b hb
    obtain ⟨f, hf, hentry⟩ := (mem_bodies h b).1 hb
    rw [functionBody_eq hf hentry]
  -- The first body starts at 0, so the slices leave nothing out.
  obtain ⟨e, rest, f, hsymbols, hkind, hentry⟩ := h.outside
  have hentries : Peephole.entries o.symbols = 0 :: Peephole.entries rest := by
    rw [hsymbols]
    simp [Peephole.entries, hkind, SymbolKind.function?, hentry]
  have hincreasing : ([] ++ 0 :: Peephole.entries rest).Pairwise (· < ·) := hentries ▸ h.increasing
  have hcut := flatMap_slice hincreasing (hentries ▸ h.inside) label
  rw [hslices, hentries]
  simpa using hcut

/-- A body reaches up to the next entry point, where a return stands in front. -/
theorem getLast?_functionBody {index entry : Nat} (hf : o.function? index = some f)
    (hentry : f.entryPoint = some entry) :
    ∃ i, (o.functionBody index).getLast? = some i ∧ i.opcode = .ret := by
  have hmem := mem_entries_of_function? hf hentry
  have hinside := h.inside entry hmem
  -- The end of the body is an entry point behind it or the end of the program.
  have hbound : entry < o.bodyEnd entry ∧ o.bodyEnd entry ≤ o.instructions.length := by
    rcases o.bodyEnd_cases entry with ⟨hnext, hlt⟩ | hend
    · exact ⟨hlt, Nat.le_of_lt (h.inside _ hnext)⟩
    · rw [hend]
      exact ⟨hinside, Nat.le_refl _⟩
  obtain ⟨last, hlast⟩ : ∃ last, o.bodyEnd entry = last + 1 := ⟨o.bodyEnd entry - 1, by omega⟩
  obtain ⟨i, hi, hret⟩ := h.parted (o.bodyEnd entry)
    ((o.bodyEnd_cases entry).imp And.left id) last hlast
  refine ⟨i, ?_, hret⟩
  unfold functionBody
  rw [hf, Option.bind_some, hentry]
  dsimp only
  rw [List.getLast?_eq_getElem?, List.getElem?_drop, List.length_drop, List.length_take,
    List.getElem?_take, hlast]
  rw [if_pos (by omega), ← hi]
  congr 1
  omega

theorem covers_bodies (hglobal : o.globalScope = 0)
    (hname : o.symbols[o.globalScope]?.map (·.identifier) = some "$global") :
    o.Covers (o.symbols.filterMap bodyOf?) where
  functions := mem_bodies h
  increasing := increasing_bodies h
  first := by
    obtain ⟨e, rest, f, hsymbols, hkind, hentry⟩ := h.outside
    have hindex : e.index = 0 := h.numbered 0 e (by rw [hsymbols]; rfl)
    rw [hsymbols, hglobal]
    simp [bodyOf?, hkind, SymbolKind.function?, hentry, hindex]
  named := hname
  whole := by
    have hsame : ∀ l : List Instruction, l.mapIdx (fun _ i => i) = l := fun l => by
      rw [List.mapIdx_eq_iff]
      simp
    have hlabels := flatMap_bodies h fun _ i => i
    simpa only [hsame] using hlabels
  returns := by
    intro b hb
    obtain ⟨f, hf, hentry⟩ := (mem_bodies h b).1 hb
    exact getLast?_functionBody h hf hentry

/-! The columns of the lines -/

omit h in
theorem ofDigitChars_zeroPadded (width n : Nat) :
    Nat.ofDigitChars 10 (Text.zeroPadded width n).toList 0 = n := by
  unfold Text.zeroPadded
  dsimp only
  rw [String.toList_ofList, Nat.ofDigitChars_append, Nat.ofDigitChars_replicate_zero, Nat.mul_zero]
  exact Nat.ofDigitChars_ten_toDigits

omit h in
theorem isDigit_zeroPadded {width n : Nat} {c : Char} (hc : c ∈ (Text.zeroPadded width n).toList) :
    c.isDigit = true := by
  unfold Text.zeroPadded at hc
  dsimp only at hc
  rw [String.toList_ofList] at hc
  rcases List.mem_append.1 hc with hc | hc
  · rw [List.eq_of_mem_replicate hc]
    rfl
  · exact Nat.isDigit_of_mem_toDigits (by decide) (by decide) hc

/-- The columns of an instruction as the listing fills them. -/
def columns (o : Object) (k : Nat) (i : Instruction) : Columns where
  number := Text.zeroPadded 4 k
  mark := if k ∈ o.jumpDestinations then '►' else ' '
  mnemonic := i.opcode.mnemonic
  operands := i.operands.map o.renderOperand

omit h in
theorem codeLine_eq (k : Nat) (i : Instruction) :
    o.codeLine o.jumpDestinations k i = (o.columns k i).text := by
  unfold codeLine Columns.text columns renderInstruction Text.padRight mnemonicWidth
  dsimp only
  have hmark : toString (if o.jumpDestinations.contains k = true then "►" else " ") =
      toString (if k ∈ o.jumpDestinations then '►' else ' ') := by
    simp only [List.contains_iff_mem]
    split <;> rfl
  have hoperands : i.operands.isEmpty = true ↔ i.operands.map o.renderOperand = [] := by
    rw [List.isEmpty_iff, List.map_eq_nil_iff]
  rw [hmark]
  simp only [hoperands]
  rfl

omit h in
theorem mem_jumpDestinations (k : Nat) : k ∈ o.jumpDestinations ↔
    ∃ j ∈ o.instructions, j.opcode.isJump = true ∧ j.operands.head? = some (.instruction k) := by
  unfold jumpDestinations
  rw [List.mem_filterMap]
  refine exists_congr fun j => and_congr_right fun _ => ?_
  split
  · next hjump =>
    rw [and_iff_right hjump]
    split
    · next hhead =>
      rw [hhead]
      exact ⟨fun h => by cases h; rfl, fun h => by cases h; rfl⟩
    · next hother => exact ⟨nofun, fun hhead => absurd hhead (hother k)⟩
  · next hjump => exact ⟨nofun, fun hhead => absurd hhead.1 hjump⟩

theorem operandText_render (x : Operand) : o.OperandText x (o.renderOperand x) := by
  unfold renderOperand
  split
  · next i =>
    split
    · next he =>
      have htext := OperandText.text he rfl
      exact htext
    · next own _ _ _ _ hkind he =>
      -- The entry has the number that the operand names.
      have hindex : Int.ofNat own = i := h.numbered i _ he
      cases hindex
      have hsymbol := OperandText.symbol he hkind
      exact hsymbol
    · next he => cases h.numbered i _ he
    · next he => exact .other fun j hj => by cases hj; exact he
  · next hother => exact .other fun i hi => absurd hi (hother i)

theorem show_columns (k : Nat) (i : Instruction) : (o.columns k i).Show o k i where
  number := rfl
  digits := by
    refine ⟨?_, fun c hc => isDigit_zeroPadded hc, ofDigitChars_zeroPadded 4 k⟩
    show 4 ≤ (Text.zeroPadded 4 k).toList.length
    unfold Text.zeroPadded
    simp only [String.toList_ofList, List.length_append, List.length_replicate]
    omega
  mark := by
    simp only [← mem_jumpDestinations]
    rfl
  mnemonic := rfl
  operands := List.forall₂_map_right_iff.2 (List.forall₂_same.2 fun x _ => operandText_render h x)

omit h in
theorem heading_apart (b : Body) : ∀ line ∈ o.heading b, ∀ c, line.toList.head? = some c →
    c.isDigit = false := by
  intro line hline c hc
  unfold heading at hline
  split at hline
  · simp only [List.mem_cons, List.not_mem_nil, or_false] at hline
    have hrule : rule.toList.head? = some '═' := by
      unfold rule
      rw [String.toList_ofList]
      rfl
    -- An empty line, and a name between two rules.
    rcases hline with rfl | rfl | rfl | rfl
    · cases hc
    · cases hrule.symm.trans hc
      rfl
    · simp only [String.toList_append] at hc
      cases hc
      rfl
    · cases hrule.symm.trans hc
      rfl
  · cases hline

omit h in
theorem headerLines_apart : ∀ line ∈ o.headerLines, ∀ c, line.toList.head? = some c →
    c.isDigit = false := by
  intro line hline c hc
  unfold headerLines at hline
  simp only [List.mem_append, List.mem_cons, List.not_mem_nil, or_false, List.mem_map] at hline
  rcases hline with (((rfl | rfl) | ⟨_, -, rfl⟩) | ⟨_, -, rfl⟩) | ⟨_, -, rfl⟩ <;>
    simp only [String.toList_append] at hc <;> cases hc <;> rfl

omit h in
theorem take_drop_mapIdx {α β : Type} (f : Nat → α → β) (l : List α) (first stop : Nat) :
    ((l.mapIdx f).drop first).take ((l.take stop).drop first).length =
      ((l.take stop).drop first).mapIdx fun k x => f (first + k) x := by
  apply List.ext_getElem?
  intro k
  simp only [List.getElem?_take, List.getElem?_drop, List.getElem?_mapIdx, List.length_drop,
    List.length_take]
  by_cases hk : first + k < stop
  · rw [if_pos hk]
    split
    · rfl
    · rw [List.getElem?_eq_none (by omega)]
      rfl
  · rw [if_neg hk, if_neg (by omega)]
    rfl

omit h in
theorem linesOf_columns {b : Body} (hf : o.function? b.index = some f)
    (hentry : f.entryPoint = some b.entry) : o.linesOf (o.instructions.mapIdx o.columns) b =
      (o.functionBody b.index).mapIdx fun k i => o.columns (b.entry + k) i := by
  unfold linesOf functionBody
  rw [hf, Option.bind_some, hentry]
  exact take_drop_mapIdx ..

omit h in
/-- The lines of a function are those that introduce it and one for each instruction. -/
theorem bodyLines_eq {b : Body} (hf : o.function? b.index = some f)
    (hentry : f.entryPoint = some b.entry) : o.bodyLines o.jumpDestinations b =
      o.heading b ++ (o.linesOf (o.instructions.mapIdx o.columns) b).map Columns.text := by
  have hlines : (o.linesOf (o.instructions.mapIdx o.columns) b).map Columns.text =
      (o.functionBody b.index).mapIdx fun k i =>
        o.codeLine o.jumpDestinations (b.entry + k) i := by
    rw [linesOf_columns hf hentry, eq_comm, List.mapIdx_eq_iff]
    intro k
    simp [codeLine_eq]
    rfl
  rw [hlines]
  obtain ⟨e, he, hf⟩ := Option.bind_eq_some_iff.1 hf
  obtain ⟨index, identifier, scope, children, kind⟩ := e
  cases kind with
  | function g =>
    unfold heading bodyLines
    rw [he]
    simp
  | _ => cases hf

theorem decompile?_eq : o.decompile? = some (String.join ((o.headerLines ++
    (o.symbols.filterMap bodyOf?).flatMap (o.bodyLines o.jumpDestinations)).map (· ++ "\n"))) := by
  unfold decompile? listing?
  rw [bodies?_eq h]
  rfl

theorem shows_bodies :
    o.Shows (o.symbols.filterMap bodyOf?) (o.instructions.mapIdx o.columns) where
  length := List.length_mapIdx
  line := by
    intro k c i hc hi
    rw [List.getElem?_mapIdx, hi] at hc
    cases hc
    exact show_columns h k i
  once := by
    refine Eq.trans (List.flatMap_congr ?_) (flatMap_bodies h o.columns)
    intro b hb
    obtain ⟨f, hf, hentry⟩ := (mem_bodies h b).1 hb
    exact linesOf_columns hf hentry
  apart := by
    intro line hline
    rcases List.mem_append.1 hline with hline | hline
    -- Headings of the listing and of a body are told from lines of code.
    · exact headerLines_apart line hline
    · obtain ⟨b, -, hline⟩ := List.mem_flatMap.1 hline
      exact heading_apart b line hline
  text := by
    have hlines : (o.symbols.filterMap bodyOf?).flatMap (o.bodyLines o.jumpDestinations) =
        (o.symbols.filterMap bodyOf?).flatMap fun b => o.heading b ++
          (o.linesOf (o.instructions.mapIdx o.columns) b).map Columns.text := by
      apply List.flatMap_congr
      intro b hb
      obtain ⟨f, hf, hentry⟩ := (mem_bodies h b).1 hb
      exact bodyLines_eq hf hentry
    rw [decompile?_eq h, hlines]

end Object

namespace Compilation

open Walk

theorem divided_ofTokens {options : Options} {tokens : List Token} {o : Object}
    (h : (ofTokens options tokens).object = some o) :
    Peephole.Divided o.symbols o.instructions ∧ o.globalScope = 0 ∧
      o.symbols[o.globalScope]?.map (·.identifier) = some "$global" := by
  obtain ⟨s, t, o', hcompiled, rfl⟩ := compiled_of_ofTokens h
  have hglobal : (shorten o').1.globalScope = o'.globalScope := by
    unfold shorten
    split <;> rfl
  obtain ⟨g, hg⟩ := exists_symbols_shorten o'
  refine ⟨divided_shorten hcompiled.divided, hglobal.trans hcompiled.globalScope_eq, ?_⟩
  rw [hglobal, hg, List.getElem?_map, Option.map_map]
  exact hcompiled.global_named

/-- The functions of every object of a compilation that have an entry point, in the order of
    their entry points, divide its program: no two entry points are the same, the first is that
    of the code outside of functions, and the bodies follow each other without gaps or overlaps,
    none of them empty and each with a return at its end. The listing of the object goes over them
    in this order, and below the headings of the functions it has one line for each instruction
    of the program, with the numbers of the instructions from zero on. -/
theorem bodies_cover_program {options : Options} {tokens : List Token} {o : Object}
    (h : (ofTokens options tokens).object = some o) :
    ∃ bodies lines, o.Covers bodies ∧ o.Shows bodies lines := by
  obtain ⟨hdivided, hglobal, hname⟩ := divided_ofTokens h
  exact ⟨_, _, Object.covers_bodies hdivided hglobal hname, Object.shows_bodies hdivided⟩

/-- The listing of a program of two functions that has been shortened. -/
def twoFunctionsListing : List String :=
  ["; flags 0x2", "; 10 symbols, 12 instructions, 2 memory slots",
    "", Object.rule, " function $global  entry 0  frame 0  params 0", Object.rule,
    "0000   RETURN",
    "", Object.rule, " function f  entry 1  frame 0  params 0", Object.rule,
    "0001 ► MOV_BOOL            op1, memory[0]",
    "0002   CMP_BOOL            op1, false",
    "0003   JMP_EQ              #6",
    "0004   MOV_INT             memory[1], 1",
    "0005   JMP                 #1",
    "0006 ► RETURN",
    "", Object.rule, " function g  entry 7  frame 0  params 0", Object.rule,
    "0007   MOV_BOOL            op1, memory[0]",
    "0008   CMP_BOOL            op1, false",
    "0009   JMP_EQ              #11",
    "0010   MOV_INT             memory[1], 2",
    "0011 ► RETURN"]

theorem bodies_cover_twoFunctions : ∃ o,
    (ofTokens { flags := { library := true } } jumpsOfTwoFunctions).object = some o ∧
      o.entryPoints = [0, 1, 7] ∧ o.instructions.length = 12 ∧
      o.decompile? = some (String.join (twoFunctionsListing.map (· ++ "\n"))) ∧
      ∃ bodies lines, o.Covers bodies ∧ o.Shows bodies lines := by
  have hshape : (ofTokens { flags := { library := true } } jumpsOfTwoFunctions).object.map (fun o =>
      (o.entryPoints, o.instructions.length, o.headerLines ++
        (o.symbols.filterMap Object.bodyOf?).flatMap (o.bodyLines o.jumpDestinations))) =
          some ([0, 1, 7], 12, twoFunctionsListing) := by
    decide +kernel
  obtain ⟨o, ho, hshape⟩ := Option.map_eq_some_iff.1 hshape
  rw [Prod.mk.injEq, Prod.mk.injEq] at hshape
  obtain ⟨hentries, hlength, hlines⟩ := hshape
  refine ⟨o, ho, hentries, hlength, ?_, bodies_cover_program ho⟩
  rw [Object.decompile?_eq (divided_ofTokens ho).1, hlines]

end Compilation

end StateScript
