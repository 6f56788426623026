import StateScript.Proofs.Linking
import StateScript.Proofs.Walk.Allocation

/-! # Compiled objects

  What an object shows of the table that it was linked from. Shortening a program changes
  no symbol but for the numbers of instructions in it.
-/

namespace StateScript

/-! ### Shortening -/

theorem SymbolKind.renumber_renumber (g g' : Nat → Nat) (k : SymbolKind) :
    (k.renumber g).renumber g' = k.renumber (g' ∘ g) := by
  cases k <;> simp [renumber]

theorem SymbolKind.renumber_id (k : SymbolKind) : k.renumber id = k := by
  cases k <;> simp [renumber]

namespace Peephole

theorem map_moveEntry_id (symbols : List Entry) : symbols.map (moveEntry id) = symbols := by
  refine (List.map_congr_left fun e _ => ?_).trans symbols.map_id
  unfold moveEntry
  rw [SymbolKind.renumber_id]
  rfl

/-- Rounds only renumber the instructions that symbols refer to. -/
theorem exists_symbols_rounds (n : Nat) (code : List Instruction) (symbols : List Entry) :
    ∃ g, (rounds n code symbols).symbols = symbols.map (moveEntry g) := by
  induction n generalizing code symbols with
  | zero => exact ⟨id, (map_moveEntry_id symbols).symm⟩
  | succ n ih =>
    rw [rounds_succ]
    dsimp only
    split
    · exact ⟨id, (map_moveEntry_id symbols).symm⟩
    · obtain ⟨g, hg⟩ := ih _ (symbols.map (moveEntry _))
      -- Rounds renumber one after the other.
      refine ⟨g ∘ renumber (fusePairs (sites code symbols).contains 0 code).1, hg.trans ?_⟩
      rw [List.map_map]
      refine List.map_congr_left fun e _ => ?_
      simp only [Function.comp_apply, moveEntry, SymbolKind.renumber_renumber]

end Peephole

theorem Compilation.exists_symbols_shorten (o : Object) :
    ∃ g, (shorten o).1.symbols = o.symbols.map (Peephole.moveEntry g) := by
  unfold shorten
  split
  · exact ⟨id, (Peephole.map_moveEntry_id o.symbols).symm⟩
  · exact Peephole.exists_symbols_rounds ..

namespace Walk

/-! ### Entries -/

variable {t : Table} {id : Nat}

/-- What linking does not change is seen in the entry of a symbol. -/
theorem see_entryOf {α : Type} {view : SymbolKind → Option α}
    (hfunction : ∀ f, view (.function f) = none)
    (htarget : ∀ bound, view (.target bound) = none) (l : Layout) (number : Nat) :
    (l.entryOf t number id).bind (fun e => view e.kind) = t.see view id := by
  unfold Layout.entryOf Table.see Table.kind?
  cases t.get? id with
  | none => rfl
  | some x =>
    cases hk : x.kind with
    | function f => simp [hk, hfunction]
    | target bound => simp [hk, htarget]
    | _ => simp [hk]

/-- The entry of a symbol at its number. -/
theorem getElem?_number_symbols (h : t.Rooted) {x : Symbol} (hx : t.get? id = some x) :
    ∃ e, ((layout t).symbols t)[(layout t).number id]? = some e ∧
      (layout t).entryOf t ((layout t).number id) id = some e ∧
      e.children = x.children.map fun c => ((layout t).number c : Int) := by
  have hentry := exists_entry h (Table.get?_lt hx)
  rw [hentry]
  unfold Layout.entryOf
  rw [hx]
  exact ⟨_, rfl, rfl, rfl⟩

section Walked

variable {flags : Flags} {tokens : List Token} {s t : State}

/-- The return behind the code outside of functions is an edit. -/
theorem Walked.closes (h : Walked flags tokens s t) :
    Table.Edits (fun _ _ => False) (Alters t.table t) t.table t.closed.table :=
  edits_emit (h.second.steady.pass) .ret [] none

theorem Walked.rooted (h : Walked flags tokens s t) : t.closed.table.Rooted := by
  have hgrows := h.grows_initial.trans h.closes.grows
  refine ⟨h.closes.wellFormed h.wellFormed, ?_, ?_⟩
  · exact Nat.lt_of_lt_of_le memberScope_lt hgrows.size_le
  · exact (hgrows.scope? memberScope_lt).trans (scope?_initialTable memberScope)

end Walked

end Walk

end StateScript
