import StateScript.Bytes

/-! # Writers and readers that fit

  A writer and a reader of a field fit together if the reader finds the value in front of
  any bytes and leaves these, and if it finds the bytes short on anything less than all
  bytes of the field. `Decodes` says both. It passes from the parts of a record to the
  record.
-/

namespace StateScript.Bytes

variable {ε α β : Type} {short : ε}

/-- The reader `r` finds `x` in `bytes`, whatever follows, and in no strict front part. -/
structure Decodes (short : ε) (r : Reader ε α) (bytes : List UInt8) (x : α) : Prop where
  reads : ∀ rest, r (bytes ++ rest) = .ok (x, rest)
  cut : ∀ front, front <+: bytes → front ≠ bytes → r front = .error short

namespace Decodes

variable {r : Reader ε α} {bytes : List UInt8} {x : α}

theorem pure (x : α) : Decodes short (Pure.pure x) [] x where
  reads _ := rfl
  cut _ hfront hne := absurd (List.prefix_nil.1 hfront) hne

theorem bind (h : Decodes short r bytes x) {f : α → Reader ε β} {bytes' : List UInt8} {y : β}
    (h' : Decodes short (f x) bytes' y) : Decodes short (r >>= f) (bytes ++ bytes') y where
  reads rest := by
    change (r (bytes ++ bytes' ++ rest) >>= fun p => f p.1 p.2) = _
    rw [List.append_assoc, h.reads]
    exact h'.reads rest
  cut front hfront hne := by
    change (r front >>= fun p => f p.1 p.2) = _
    rcases Nat.le_total front.length bytes.length with hle | hge
    · have hshort := List.prefix_of_prefix_length_le hfront (List.prefix_append _ _) hle
      by_cases hall : front = bytes
      · -- The first field is complete, and nothing is left for the second.
        subst hall
        have hreads := h.reads []
        rw [List.append_nil] at hreads
        rw [hreads]
        refine h'.cut [] List.nil_prefix fun hnil => hne ?_
        rw [← hnil, List.append_nil]
      · rw [h.cut front hshort hall]
        rfl
    · obtain ⟨front', rfl⟩ := List.prefix_of_prefix_length_le (List.prefix_append _ _) hfront hge
      rw [h.reads]
      refine h'.cut front' ((List.prefix_append_right_inj bytes).1 hfront) fun heq => hne ?_
      rw [heq]

/-- The last field of a record. -/
theorem last (h : Decodes short r bytes x) (g : α → β) :
    Decodes short (r >>= fun a => Pure.pure (g a)) bytes (g x) := by
  have hall := h.bind (f := fun a => Pure.pure (g a)) (Decodes.pure (g x))
  rwa [List.append_nil] at hall

theorem map (h : Decodes short r bytes x) (g : α → β) : Decodes short (g <$> r) bytes (g x) := by
  rw [map_eq_pure_bind]
  exact h.last g

end Decodes

theorem decodes_take (short : ε) (bytes : List UInt8) :
    Decodes short (take short bytes.length) bytes bytes where
  reads rest := by simp [take]
  cut front hfront hne := by
    have hlt : front.length < bytes.length := by
      rcases Nat.lt_or_ge front.length bytes.length with hlt | hge
      · exact hlt
      · exact absurd (hfront.eq_of_length_le hge) hne
    have hshort : (front.take bytes.length).length ≠ bytes.length := by
      rw [List.length_take]
      omega
    simp only [take, hshort, if_false]

theorem decodes_many {item : Reader ε β} {write : α → List UInt8} {g : α → β} (xs : List α)
    (h : ∀ x ∈ xs, Decodes short item (write x) (g x)) :
    Decodes short (many item xs.length) (xs.flatMap write) (xs.map g) := by
  induction xs with
  | nil => exact Decodes.pure []
  | cons x rest ih =>
    have hrest := ih fun y hy => h y (List.mem_cons_of_mem x hy)
    rw [List.flatMap_cons]
    refine (h x List.mem_cons_self).bind ?_
    exact hrest.last fun ys => g x :: ys

end StateScript.Bytes
