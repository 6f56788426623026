import StateScript.Proofs.Walk.Agreement

/-! # Walks do not break off

  A walk breaks off if a symbol or a token is missing that it counts on, or if a loop or the
  nesting of its rules uses up its budget. Neither happens. What a state refers to is there
  (`State.Sane`), and every rule keeps it so; and a budget that counts the tokens is enough,
  since every turn of a loop and every level of nesting takes one.

  Four classes say how a walk fares from a sane state. They have in common where the run may
  start: at or after the token `b`, with at least `n` tokens ahead, and with the symbols `ids`
  in the table; `c` is the number of all tokens.

  - `Safe`: it ends well, at or after where it started; or it is abandoned, not in front of
    `b`; or the compilation is over;
  - `Takes`: besides, if it ends well, it has taken a token;
  - `Provides`: besides, certain symbols of its outcome are in the table;
  - `Turns`: besides, it has taken a token if it is a turn after which there is another.

  This module has them for the steps that all rules are made of.
-/

namespace StateScript.Walk

variable {front : List Nat} {operands : List Operand} {id scope : Nat} {role : Role} {s : State}
  {filter : Symbol → Bool} {t : Table} {x : Walk Unit}

variable {α β : Type} {c b n : Nat} {ids : List Nat}

/-! ### Sane states -/

/-- All that a state refers to is there. -/
structure State.Sane (c : Nat) (s : State) : Prop where
  count : s.tokens.size = c
  pos : s.pos ≤ c
  table : s.table.WellFormed
  roots : 2 ≤ s.table.size
  scope : s.scope < s.table.size
  function : s.function < s.table.size
  declared : ∀ d ∈ s.declared, d.symbol < s.table.size
  counters : ∀ frame ∈ s.loops, ∀ id ∈ frame.counter, id < s.table.size
  visible : ∀ block ∈ s.blocks, ∀ id ∈ block, id < s.table.size
  engine : ∀ id ∈ s.engineState, id < s.table.size
  editor : ∀ id ∈ s.editorState, id < s.table.size

/-- Another table, with more symbols or as many. -/
theorem State.Sane.grow (h : s.Sane c) {table : Table} (hw : table.WellFormed)
    (hsize : s.table.size ≤ table.size) (files : List String) (history : List CodeEvent) :
    State.Sane c { s with table, files, history } where
  count := h.count
  pos := h.pos
  table := hw
  roots := Nat.le_trans h.roots hsize
  scope := Nat.lt_of_lt_of_le h.scope hsize
  function := Nat.lt_of_lt_of_le h.function hsize
  declared d hd := Nat.lt_of_lt_of_le (h.declared d hd) hsize
  counters frame hframe id hid := Nat.lt_of_lt_of_le (h.counters frame hframe id hid) hsize
  visible block hblock id hid := Nat.lt_of_lt_of_le (h.visible block hblock id hid) hsize
  engine id hid := Nat.lt_of_lt_of_le (h.engine id hid) hsize
  editor id hid := Nat.lt_of_lt_of_le (h.editor id hid) hsize

/-- A symbol that is in the table of every sane state that has the symbols `ids`. -/
class Held (ids : List Nat) (id : Nat) : Prop where
  lt : ∀ {c : Nat} {s : State}, s.Sane c → (∀ i ∈ ids, i < s.table.size) → id < s.table.size

instance : Held (id :: ids) id := ⟨fun _ h => h id List.mem_cons_self⟩

instance [k : Held ids id] : Held (front ++ ids) id :=
  ⟨fun hs h => k.lt hs fun i hi => h i (List.mem_append_right _ hi)⟩

instance [k : Held front id] : Held (front ++ ids) id :=
  ⟨fun hs h => k.lt hs fun i hi => h i (List.mem_append_left _ hi)⟩

instance : Held (some id).toList id := ⟨fun _ h => h id (by simp)⟩

instance : Held ids globalScope := ⟨fun hs _ => Nat.lt_of_lt_of_le (by decide) hs.roots⟩

instance : Held ids memberScope := ⟨fun hs _ => Nat.lt_of_lt_of_le (by decide) hs.roots⟩

theorem Held.of_mem (h : id ∈ ids) : Held ids id := ⟨fun _ known => known id h⟩

/-- Several such symbols. -/
class HeldAll (ids these : List Nat) : Prop where
  held : ∀ id ∈ these, Held ids id

instance (these : List Nat) : HeldAll (these ++ ids) these :=
  ⟨fun _ hid => .of_mem (List.mem_append_left _ hid)⟩

instance (these : List Nat) [h : HeldAll ids these] : HeldAll (front ++ ids) these where
  held id hid := by
    have held := h.held id hid
    infer_instance

instance [h : Held ids id] : HeldAll ids [id] :=
  ⟨fun _ hid => List.mem_singleton.1 hid ▸ h⟩

@[simp] theorem State.knows_iff : s.knows ids = true ↔ ∀ id ∈ ids, id < s.table.size := by
  simp [State.knows]

/-! ### Runs -/

/-- Where a run may start. -/
structure Starts (c b n : Nat) (ids : List Nat) (s : State) : Prop where
  sane : s.Sane c
  start : b ≤ s.pos
  ahead : s.pos + n ≤ c
  known : ∀ id ∈ ids, id < s.table.size

/-- The outcome of a run that has started in `s` and has not broken off; `q` holds if it has
    ended well. -/
inductive Fine (c b : Nat) (s : State) (q : α → State → Prop) :
    EStateM.Result Stop State α → Prop
  | ok {a : α} {s' : State} (sane : s'.Sane c) (onward : s.pos ≤ s'.pos)
      (grows : s.table.size ≤ s'.table.size) (post : q a s') : Fine c b s q (.ok a s')
  | abandoned {s' : State} (sane : s'.Sane c) (start : b ≤ s'.pos)
      (grows : s.table.size ≤ s'.table.size) : Fine c b s q (.error .abandoned s')
  | fatal {s' : State} : Fine c b s q (.error .fatal s')

section Fine

variable {s : State} {q q' : α → State → Prop} {r : EStateM.Result Stop State α}

theorem Fine.mono (h : Fine c b s q r) (hq : ∀ a s', s.pos ≤ s'.pos → q a s' → q' a s') :
    Fine c b s q' r := by
  cases h with
  | ok sane onward grows post => exact .ok sane onward grows (hq _ _ onward post)
  | abandoned sane start grows => exact .abandoned sane start grows
  | fatal => exact .fatal

theorem Fine.weaken {b' : Nat} (h : Fine c b s q r) (hb : b' ≤ b) : Fine c b' s q r := by
  cases h with
  | ok sane onward grows post => exact .ok sane onward grows post
  | abandoned sane start grows => exact .abandoned sane (Nat.le_trans hb start) grows
  | fatal => exact .fatal

theorem Fine.and {p : α → State → Prop} (h : Fine c b s q r) (hr : ∀ a s', r = .ok a s' → p a s') :
    Fine c b s (fun a s' => q a s' ∧ p a s') r := by
  cases h with
  | ok sane onward grows post => exact .ok sane onward grows ⟨post, hr _ _ rfl⟩
  | abandoned sane start grows => exact .abandoned sane start grows
  | fatal => exact .fatal

/-- Two things to say about one run. -/
theorem Fine.both (h : Fine c b s q r) (h' : Fine c b s q' r) :
    Fine c b s (fun a s' => q a s' ∧ q' a s') r := by
  cases h with
  | ok sane onward grows post =>
    cases h' with
    | ok _ _ _ post' => exact .ok sane onward grows ⟨post, post'⟩
  | abandoned sane start grows => exact .abandoned sane start grows
  | fatal => exact .fatal

/-- One run after the other. -/
theorem Fine.bind {x : Walk α} {f : α → Walk β} {q' : β → State → Prop} (hx : Fine c b s q (x s))
    (hf : ∀ a s₁, x s = .ok a s₁ → s₁.Sane c → s.pos ≤ s₁.pos →
      s.table.size ≤ s₁.table.size → q a s₁ → Fine c b s₁ q' (f a s₁)) :
    Fine c b s q' ((x >>= f) s) := by
  generalize hr : x s = r at hx
  cases hx with
  | @ok a s₁ sane onward grows post =>
    rw [bind_of_ok hr]
    have hrest := hf a s₁ hr sane onward grows post
    generalize f a s₁ = r' at hrest
    cases hrest with
    | ok sane' onward' grows' post' =>
      exact .ok sane' (Nat.le_trans onward onward') (Nat.le_trans grows grows') post'
    | abandoned sane' start' grows' => exact .abandoned sane' start' (Nat.le_trans grows grows')
    | fatal => exact .fatal
  | abandoned sane start grows =>
    rw [bind_of_error hr]
    exact .abandoned sane start grows
  | fatal =>
    rw [bind_of_error hr]
    exact .fatal

/-- A run that never ends well may be said to have started elsewhere. -/
theorem Fine.of_never {s₀ : State} {x : Walk α} [never : Never x] (h : Fine c b s₀ q (x s₀))
    (hsize : s.table.size ≤ s₀.table.size) : Fine c b s q' (x s₀) := by
  generalize hr : x s₀ = r at h
  cases h with
  | ok sane onward grows post => exact absurd hr (never.ne_ok _ _ _)
  | abandoned sane start grows => exact .abandoned sane start (Nat.le_trans hsize grows)
  | fatal => exact .fatal

/-- Entering and leaving, around a run. -/
theorem Fine.protect (s₀ : State) {restore : State → State} {x : Walk α} (h : Fine c b s₀ q (x s₀))
    (hpos : s₀.pos = s.pos) (htable : s₀.table = s.table)
    (hrestore : ∀ s', s'.Sane c → s.table.size ≤ s'.table.size →
      (restore s').Sane c ∧ (restore s').pos = s'.pos ∧ (restore s').table = s'.table)
    (hq : ∀ a s', q a s' → q' a (restore s')) : Fine c b s q' (protect restore x s₀) := by
  unfold Walk.protect
  generalize x s₀ = r at h
  cases h with
  | @ok a s' sane onward grows post =>
    rw [htable] at grows
    obtain ⟨hsane, hpos', htable'⟩ := hrestore s' sane grows
    exact .ok hsane (by rw [hpos', ← hpos]; exact onward) (by rw [htable']; exact grows)
      (hq a s' post)
  | @abandoned s' sane start grows =>
    rw [htable] at grows
    obtain ⟨hsane, hpos', htable'⟩ := hrestore s' sane grows
    exact .abandoned hsane (by rw [hpos']; exact start) (by rw [htable']; exact grows)
  | fatal => exact .fatal

end Fine

/-- After a run, the rest may start where it has ended. -/
theorem Starts.next {s s₁ : State} (hs : Starts c b n ids s) (sane : s₁.Sane c)
    (onward : s.pos ≤ s₁.pos) (grows : s.table.size ≤ s₁.table.size) : Starts c b 0 ids s₁ where
  sane := sane
  start := Nat.le_trans hs.start onward
  ahead := sane.pos
  known id hid := Nat.lt_of_lt_of_le (hs.known id hid) grows

/-- The symbols of an outcome are at hand for the rest. -/
theorem Starts.provided {s₁ : State} (hs : Starts c b n ids s) (sane : s₁.Sane c)
    (onward : s.pos ≤ s₁.pos) (grows : s.table.size ≤ s₁.table.size)
    (hfront : ∀ id ∈ front, id < s₁.table.size) : Starts c b 0 (front ++ ids) s₁ where
  sane := sane
  start := Nat.le_trans hs.start onward
  ahead := sane.pos
  known id hid := by
    rcases List.mem_append.1 hid with hid | hid
    · exact hfront id hid
    · exact Nat.lt_of_lt_of_le (hs.known id hid) grows

theorem Starts.fewer {m : Nat} (hs : Starts c b n ids s) (h : m ≤ n) : Starts c b m ids s :=
  { hs with ahead := Nat.le_trans (Nat.add_le_add_left h _) hs.ahead }

theorem Starts.held (hs : Starts c b n ids s) (id : Nat) [k : Held ids id] : id < s.table.size :=
  k.lt hs.sane hs.known

class Safe (c b n : Nat) (ids : List Nat) (x : Walk α) : Prop where
  run : ∀ s, Starts c b n ids s → Fine c b s (fun _ _ => True) (x s)

class Takes (c b n : Nat) (ids : List Nat) (x : Walk α) : Prop where
  run : ∀ s, Starts c b n ids s → Fine c b s (fun _ s' => s.pos < s'.pos) (x s)

class Provides (c b : Nat) (ids : List Nat) (x : Walk α) (symbols : outParam (α → List Nat)) :
    Prop where
  run : ∀ s, Starts c b 0 ids s →
    Fine c b s (fun a s' => ∀ id ∈ symbols a, id < s'.table.size) (x s)

class Turns (c b n : Nat) (ids : List Nat) (x : Walk (Turn α β)) : Prop where
  run : ∀ s, Starts c b n ids s →
    Fine c b s (fun r s' => ∀ a, r = .again a → s.pos < s'.pos) (x s)

/-- A walk that leaves the cursor where it is. -/
class Stays (x : Walk α) : Prop where
  pos : ∀ s a s', x s = .ok a s' → s'.pos = s.pos

/-- The rule for what is nested takes a token, however far on it starts. -/
class Deeper (c b n : Nat) (x : Walk α) : Prop where
  takes : ∀ b', b ≤ b' → ∀ ids, Takes c b' n ids x

instance (priority := low) (x : Walk α) [h : Takes c b n ids x] : Safe c b n ids x :=
  ⟨fun s hs => (h.run s hs).mono fun _ _ _ _ => trivial⟩

instance (priority := low) (x : Walk α) [h : Safe c b 0 ids x] : Safe c b (n + 1) ids x :=
  ⟨fun s hs => h.run s (hs.fewer (Nat.zero_le _))⟩

instance (priority := low) (x : Walk α) [h : Takes c b 0 ids x] : Takes c b (n + 1) ids x :=
  ⟨fun s hs => h.run s (hs.fewer (Nat.zero_le _))⟩

instance (priority := low) (x : Walk α) {symbols : α → List Nat} [h : Provides c b ids x symbols] :
    Safe c b 0 ids x :=
  ⟨fun s hs => (h.run s hs).mono fun _ _ _ _ => trivial⟩

instance (priority := low) (x : Walk (Turn α β)) [h : Takes c b n ids x] : Turns c b n ids x :=
  ⟨fun s hs => (h.run s hs).mono fun _ _ _ took _ _ => took⟩

instance (priority := low) (x : Walk α) [h : Deeper c b n x] : Takes c b n ids x :=
  h.takes b (Nat.le_refl b) ids

instance (x : Walk α) [h : Deeper c b n x] : Deeper c (b + 1) n x :=
  ⟨fun b' hb => h.takes b' (Nat.le_trans (Nat.le_succ b) hb)⟩

/-! ### Composition -/

section Composition

variable {x : Walk α} {f : α → Walk β} {symbols : α → List Nat}

theorem Safe.bind (hx : Safe c b n ids x) (hf : ∀ a, Safe c b 0 ids (f a)) :
    Safe c b n ids (x >>= f) where
  run s hs := (hx.run s hs).bind fun a s₁ _ sane onward grows _ =>
    (hf a).run s₁ (hs.next sane onward grows)

theorem Safe.seq [hx : Safe c b n ids x] (hf : ∀ a, Safe c b 0 ids (f a)) :
    Safe c b n ids (x >>= f) :=
  .bind hx hf

theorem Safe.provided (hx : Provides c b ids x symbols)
    (hf : ∀ a, Safe c b 0 (symbols a ++ ids) (f a)) : Safe c b 0 ids (x >>= f) where
  run s hs := (hx.run s hs).bind fun a s₁ _ sane onward grows known =>
    (hf a).run s₁ (hs.provided sane onward grows known)

theorem Starts.stay {s₁ : State} {a : α} [stays : Stays x] (hs : Starts c b n ids s)
    (hrun : x s = .ok a s₁) (sane : s₁.Sane c) (grows : s.table.size ≤ s₁.table.size) :
    Starts c b n ids s₁ where
  sane := sane
  start := by
    rw [stays.pos s a s₁ hrun]
    exact hs.start
  ahead := by
    rw [stays.pos s a s₁ hrun]
    exact hs.ahead
  known id hid := Nat.lt_of_lt_of_le (hs.known id hid) grows

theorem Safe.stay [Stays x] (hx : Safe c b 0 ids x) (hf : ∀ a, Safe c b n ids (f a)) :
    Safe c b n ids (x >>= f) where
  run s hs := (hx.run s (hs.fewer (Nat.zero_le _))).bind fun a s₁ hrun sane _ grows _ =>
    (hf a).run s₁ (hs.stay hrun sane grows)

theorem Takes.bind (hx : Takes c b n ids x) (hf : ∀ a, Safe c b 0 ids (f a)) :
    Takes c b n ids (x >>= f) where
  run s hs := (hx.run s hs).bind fun a s₁ _ sane onward grows took =>
    ((hf a).run s₁ (hs.next sane onward grows)).mono fun _ _ onward' _ =>
      Nat.lt_of_lt_of_le took onward'

theorem Takes.seq [hx : Takes c b n ids x] (hf : ∀ a, Safe c b 0 ids (f a)) :
    Takes c b n ids (x >>= f) :=
  .bind hx hf

theorem Takes.after (hx : Safe c b n ids x) (hf : ∀ a, Takes c b 0 ids (f a)) :
    Takes c b n ids (x >>= f) where
  run s hs := (hx.run s hs).bind fun a s₁ _ sane onward grows _ =>
    ((hf a).run s₁ (hs.next sane onward grows)).mono fun _ _ _ took =>
      Nat.lt_of_le_of_lt onward took

/-- A walk that both takes a token and has symbols to offer. -/
theorem Takes.offered (hx : Takes c b n ids x) (hx' : Provides c b ids x symbols)
    (hf : ∀ a, Safe c b 0 (symbols a ++ ids) (f a)) : Takes c b n ids (x >>= f) where
  run s hs := by
    have hoffers := hx'.run s (hs.fewer (Nat.zero_le _))
    refine ((hx.run s hs).both hoffers).bind fun a s₁ _ sane onward grows ⟨took, known⟩ => ?_
    exact ((hf a).run s₁ (hs.provided sane onward grows known)).mono fun _ _ onward' _ =>
      Nat.lt_of_lt_of_le took onward'

theorem Takes.stay [Stays x] (hx : Safe c b 0 ids x) (hf : ∀ a, Takes c b n ids (f a)) :
    Takes c b n ids (x >>= f) where
  run s hs := (hx.run s (hs.fewer (Nat.zero_le _))).bind fun a s₁ hrun sane onward grows _ =>
    ((hf a).run s₁ (hs.stay hrun sane grows)).mono fun _ _ _ took =>
      Nat.lt_of_le_of_lt onward took

/-- Once a token is taken, the rest starts further on. -/
theorem Takes.raise (hx : Takes c b n ids x) (hf : ∀ a, Safe c (b + 1) 0 ids (f a)) :
    Takes c b n ids (x >>= f) where
  run s hs := (hx.run s hs).bind fun a s₁ _ sane onward grows took => by
    have hstart : b + 1 ≤ s₁.pos := Nat.lt_of_le_of_lt hs.start took
    have hrest := (hf a).run s₁ ⟨sane, hstart, sane.pos, (hs.next sane onward grows).known⟩
    exact (hrest.mono fun _ _ onward' _ => Nat.lt_of_lt_of_le took onward').weaken (Nat.le_succ b)

theorem Provides.bind {symbols' : β → List Nat} (hx : Safe c b 0 ids x)
    (hf : ∀ a, Provides c b ids (f a) symbols') : Provides c b ids (x >>= f) symbols' where
  run s hs := (hx.run s hs).bind fun a s₁ _ sane onward grows _ =>
    (hf a).run s₁ (hs.next sane onward grows)

theorem Provides.seq {symbols' : β → List Nat} [hx : Safe c b 0 ids x]
    (hf : ∀ a, Provides c b ids (f a) symbols') : Provides c b ids (x >>= f) symbols' :=
  .bind hx hf

theorem Provides.provided {symbols' : β → List Nat} (hx : Provides c b ids x symbols)
    (hf : ∀ a, Provides c b (symbols a ++ ids) (f a) symbols') :
    Provides c b ids (x >>= f) symbols' where
  run s hs := (hx.run s hs).bind fun a s₁ _ sane onward grows known =>
    (hf a).run s₁ (hs.provided sane onward grows known)

theorem Provides.raise {symbols' : β → List Nat} (hx : Takes c b 0 ids x)
    (hf : ∀ a, Provides c (b + 1) ids (f a) symbols') : Provides c b ids (x >>= f) symbols' where
  run s hs := (hx.run s hs).bind fun a s₁ _ sane onward grows took => by
    have hstart : b + 1 ≤ s₁.pos := Nat.lt_of_le_of_lt hs.start took
    have hrest := (hf a).run s₁ ⟨sane, hstart, sane.pos, (hs.next sane onward grows).known⟩
    exact hrest.weaken (Nat.le_succ b)

theorem Turns.bind {γ : Type} {f : α → Walk (Turn γ β)} (hx : Safe c b n ids x)
    (hf : ∀ a, Turns c b 0 ids (f a)) : Turns c b n ids (x >>= f) where
  run s hs := (hx.run s hs).bind fun a s₁ _ sane onward grows _ =>
    ((hf a).run s₁ (hs.next sane onward grows)).mono fun _ _ _ took r hr =>
      Nat.lt_of_le_of_lt onward (took r hr)

theorem Turns.seq {γ : Type} {f : α → Walk (Turn γ β)} [hx : Safe c b n ids x]
    (hf : ∀ a, Turns c b 0 ids (f a)) : Turns c b n ids (x >>= f) :=
  .bind hx hf

end Composition

section Search

variable (x : Walk α) (f : α → Walk β) {symbols : α → List Nat}

instance (priority := low) [hx : Safe c b n ids x] [hf : ∀ a, Safe c b 0 ids (f a)] :
    Safe c b n ids (x >>= f) :=
  hx.bind hf

instance (priority := 90) {x : Walk (Option γ)} {f : Option γ → Walk β} [hx : Safe c b n ids x]
    [hnone : Safe c b 0 ids (f none)] [hsome : ∀ a, Safe c b 0 ids (f (some a))] :
    Safe c b n ids (x >>= f) :=
  hx.bind (Option.forall.2 ⟨hnone, hsome⟩)

instance [hx : Provides c b ids x symbols] [hf : ∀ a, Safe c b 0 (symbols a ++ ids) (f a)] :
    Safe c b 0 ids (x >>= f) :=
  .provided hx hf

instance (priority := low) {x : Walk (Option γ)} {f : Option γ → Walk β}
    {symbols : Option γ → List Nat}
    [hx : Provides c b ids x symbols] [hnone : Safe c b 0 (symbols none ++ ids) (f none)]
    [hsome : ∀ a, Safe c b 0 (symbols (some a) ++ ids) (f (some a))] : Safe c b 0 ids (x >>= f) :=
  .provided hx (Option.forall.2 ⟨hnone, hsome⟩)

instance [Stays x] [hx : Safe c b 0 ids x] [hf : ∀ a, Safe c b (n + 1) ids (f a)] :
    Safe c b (n + 1) ids (x >>= f) :=
  .stay hx hf

instance (priority := low) [hx : Safe c b n ids x] [hf : ∀ a, Takes c b 0 ids (f a)] :
    Takes c b n ids (x >>= f) :=
  .after hx hf

instance [hx : Takes c b n ids x] [hf : ∀ a, Safe c b 0 ids (f a)] : Takes c b n ids (x >>= f) :=
  hx.bind hf

instance [Stays x] [hx : Safe c b 0 ids x] [hf : ∀ a, Takes c b (n + 1) ids (f a)] :
    Takes c b (n + 1) ids (x >>= f) :=
  .stay hx hf

instance {symbols' : β → List Nat} [hx : Safe c b 0 ids x]
    [hf : ∀ a, Provides c b ids (f a) symbols'] : Provides c b ids (x >>= f) symbols' :=
  .bind hx hf

variable (p : Prop) [Decidable p]

instance (x y : Walk α) [hx : Safe c b n ids x] [hy : Safe c b n ids y] :
    Safe c b n ids (if p then x else y) := by
  split
  · exact hx
  · exact hy

instance (x y : Walk α) [hx : Takes c b n ids x] [hy : Takes c b n ids y] :
    Takes c b n ids (if p then x else y) := by
  split
  · exact hx
  · exact hy

instance {symbols : α → List Nat} (x y : Walk α) [hx : Provides c b ids x symbols]
    [hy : Provides c b ids y symbols] : Provides c b ids (if p then x else y) symbols := by
  split
  · exact hx
  · exact hy

instance (priority := high) (x y : Walk (Turn α β)) [d : Decidable (false = true)]
    [hy : Turns c b n ids y] : Turns c b n ids (if false = true then x else y) := by
  rw [if_neg Bool.false_ne_true]
  exact hy

end Search

/-! ### Steps that change little -/

instance (a : α) : Safe c b n ids (pure a : Walk α) :=
  ⟨fun _ hs => .ok hs.sane (Nat.le_refl _) (Nat.le_refl _) trivial⟩

instance (a : β) : Turns c b n ids (pure (.done a) : Walk (Turn α β)) :=
  ⟨fun _ hs => .ok hs.sane (Nat.le_refl _) (Nat.le_refl _) fun _ h => by cases h⟩

instance (f : State → α) : Safe c b n ids (view f) :=
  ⟨fun _ hs => .ok hs.sane (Nat.le_refl _) (Nat.le_refl _) trivial⟩

theorem Provides.view {f : State → α} {symbols : α → List Nat}
    (h : ∀ s, s.Sane c → (∀ id ∈ ids, id < s.table.size) →
      ∀ id ∈ symbols (f s), id < s.table.size) :
    Provides c b ids (view f) symbols :=
  ⟨fun s hs => .ok hs.sane (Nat.le_refl _) (Nat.le_refl _) (h s hs.sane hs.known)⟩

theorem Provides.of_pure {a : α} {symbols : α → List Nat}
    (h : ∀ s : State, s.Sane c → (∀ id ∈ ids, id < s.table.size) →
      ∀ id ∈ symbols a, id < s.table.size) :
    Provides c b ids (pure a : Walk α) symbols :=
  ⟨fun s hs => .ok hs.sane (Nat.le_refl _) (Nat.le_refl _) (h s hs.sane hs.known)⟩

instance : Provides c b ids (view (·.function)) fun id => [id] :=
  .view fun s hs _ id hid => by
    rw [List.mem_singleton.1 hid]
    exact hs.function

instance : Provides c b ids (view (·.scope)) fun id => [id] :=
  .view fun s hs _ id hid => by
    rw [List.mem_singleton.1 hid]
    exact hs.scope

/-- A change aside from all that a sane state is about. -/
theorem Safe.change {f : State → State}
    (h : ∀ s, s.Sane c → (∀ id ∈ ids, id < s.table.size) →
      (f s).Sane c ∧ (f s).pos = s.pos ∧ (f s).table = s.table) :
    Safe c b n ids (change f) where
  run s hs := by
    obtain ⟨sane, hpos, htable⟩ := h s hs.sane hs.known
    exact .ok sane (Nat.le_of_eq hpos.symm) (Nat.le_of_eq (congrArg Table.size htable.symm)) trivial

instance : Takes c b n ids (throw .abandoned : Walk α) :=
  ⟨fun _ hs => .abandoned hs.sane hs.start (Nat.le_refl _)⟩

/-- What a walk makes sure of holds in sane states. -/
theorem Safe.ensure {holds : State → Bool}
    (h : ∀ s, s.Sane c → (∀ id ∈ ids, id < s.table.size) → holds s = true) :
    Safe c b n ids (ensure holds) where
  run s hs := by
    unfold Walk.ensure
    rw [if_pos (h s hs.sane hs.known)]
    exact .ok hs.sane (Nat.le_refl _) (Nat.le_refl _) trivial

theorem ensure_function (hs : s.Sane c) : ensure (fun s => s.knows [s.function]) s = .ok () s :=
  ensure_of (by simpa using hs.function)

instance : Safe c b n ids (Walk.ensure fun s => s.knows [s.function]) :=
  .ensure fun s hs _ => by simpa using hs.function

/-- Scopes that are there own what is there. -/
theorem ensureScopes_of_held (hs : s.Sane c) (known : ∀ id ∈ ids, id < s.table.size)
    (scopes : List Nat) [h : HeldAll ids scopes] : ensureScopes scopes s = .ok () s := by
  refine ensure_of (State.knows_iff.2 fun id hid => ?_)
  rcases List.mem_append.1 hid with hid | hid
  · exact (h.held id hid).lt hs known
  · obtain ⟨scope, -, hchild⟩ := List.mem_flatMap.1 hid
    exact hs.table.lt_of_mem_children hchild

instance (scopes : List Nat) [HeldAll ids scopes] : Safe c b n ids (ensureScopes scopes) where
  run s hs := by
    rw [ensureScopes_of_held hs.sane hs.known scopes]
    exact .ok hs.sane (Nat.le_refl _) (Nat.le_refl _) trivial

/-- A change of the table, its history and the list of files alone. -/
theorem Safe.of_table [hx : Respects .any 0 x]
    (h : ∀ s, s.Sane c → (∀ id ∈ ids, id < s.table.size) →
      ∃ table files history, x s = .ok () { s with table, files, history }) : Safe c b n ids x where
  run s hs := by
    obtain ⟨table, files, history, hrun⟩ := h s hs.sane hs.known
    have hkeeps := hx.ok (Nat.zero_le _) hrun
    rw [hrun]
    exact .ok (hs.sane.grow (hkeeps.wellFormed hs.sane.table) hkeeps.table.size_le files history)
      (Nat.le_refl _) hkeeps.table.size_le trivial

theorem Stays.bind {x : Walk α} {f : α → Walk β} (hx : Stays x) (hf : ∀ a, Stays (f a)) :
    Stays (x >>= f) where
  pos s r s' h := by
    obtain ⟨a, s₁, h₁, h₂⟩ := bind_eq_ok.1 h
    rw [(hf a).pos s₁ r s' h₂, hx.pos s a s₁ h₁]

instance (x : Walk α) (f : α → Walk β) [hx : Stays x] [hf : ∀ a, Stays (f a)] : Stays (x >>= f) :=
  hx.bind hf

instance (p : Prop) [Decidable p] (x y : Walk α) [hx : Stays x] [hy : Stays y] :
    Stays (if p then x else y) := by
  split
  · exact hx
  · exact hy

instance (priority := low) (x : Walk α) [h : Never x] : Stays x :=
  ⟨fun s a s' hrun => absurd hrun (h.ne_ok s a s')⟩

instance (a : α) : Stays (pure a : Walk α) := ⟨fun _ _ _ h => by cases h; rfl⟩
instance : Stays position := ⟨fun _ _ _ h => by cases h; rfl⟩
instance : Stays inFunction := ⟨fun _ _ _ h => by cases h; rfl⟩
instance (ahead : Nat) : Stays (peekAt ahead) := ⟨fun _ _ _ h => by cases h; rfl⟩

/-! ### Loops -/

/-- A budget that is more than the tokens left is enough for turns that take one each. From
    turn to turn, the symbols that are carried along stay in the table. -/
theorem Fine.iterate {turn : α → Walk (Turn α β)} {q : β → State → Prop} (carried : α → List Nat)
    (h : ∀ a s, Starts c b 0 (carried a ++ ids) s → Fine c b s (fun r s' =>
      (∀ a, r = .again a → s.pos < s'.pos ∧ ∀ id ∈ carried a, id < s'.table.size) ∧
        ∀ d, r = .done d → q d s') (turn a s))
    (n : Nat) (a : α) (s : State) (hs : Starts c b 0 (carried a ++ ids) s) (hn : c < n + s.pos) :
    Fine c b s q (iterate turn n a s) := by
  induction n generalizing a s with
  | zero =>
    have := hs.sane.pos
    omega
  | succ n ih =>
    refine (h a s hs).bind fun r s₁ _ sane onward grows post => ?_
    cases r with
    | again a' =>
      -- A further turn has taken a token, so the turns left still suffice.
      obtain ⟨took, known⟩ := post.1 a' rfl
      have hids : Starts c b 0 ids s :=
        { hs with known := fun id hid => hs.known id (List.mem_append_right _ hid) }
      exact ih a' s₁ (hids.provided sane onward grows known) (by omega)
    | done d => exact .ok sane (Nat.le_refl _) (Nat.le_refl _) (post.2 d rfl)

/-- A loop that carries symbols along. -/
theorem Fine.carry {turn : α → Walk (Turn α β)} {q : β → State → Prop} (carried : α → List Nat)
    {a : α} (hs : Starts c b 0 (carried a ++ ids) s) (h : ∀ a s, Starts c b 0 (carried a ++ ids) s →
      Fine c b s (fun r s' => (∀ a, r = .again a → s.pos < s'.pos ∧ ∀ id ∈ carried a, id <
      s'.table.size) ∧ ∀ d, r = .done d → q d s') (turn a s)) : Fine c b s q (loop a turn s) := by
  show Fine c b s q (Walk.iterate turn (s.tokens.size + 1) a s)
  rw [hs.sane.count]
  exact .iterate carried h _ a s hs (by omega)

theorem Fine.loop {turn : α → Walk (Turn α β)} {q : β → State → Prop} (hs : Starts c b 0 ids s) (h :
      ∀ a s, Starts c b 0 ids s → Fine c b s (fun r s' => (∀ a, r = .again a → s.pos < s'.pos) ∧ ∀
      d, r = .done d → q d s') (turn a s)) (a : α) : Fine c b s q (loop a turn s) := by
  refine .carry (fun _ => []) hs fun a s hs => (h a s hs).mono fun _ _ _ post => ?_
  exact ⟨fun a ha => ⟨post.1 a ha, fun _ hid => (by cases hid)⟩, post.2⟩

theorem Safe.loop {turn : α → Walk (Turn α β)} (h : ∀ a, Turns c b 0 ids (turn a)) (a : α) :
    Safe c b 0 ids (loop a turn) where
  run _ hs := .loop hs
    (fun a s hs => ((h a).run s hs).mono fun _ _ _ took => ⟨took, fun _ _ => trivial⟩) a

theorem Safe.forM {xs : List α} {f : α → Walk Unit} (h : ∀ a, Safe c b 0 ids (f a)) :
    Safe c b 0 ids (xs.forM f) := by
  induction xs with
  | nil => exact inferInstanceAs (Safe c b 0 ids (pure ()))
  | cons a xs ih => exact Safe.bind (h a) fun _ => ih

/-! ### Reports -/

instance : Safe c b n ids position := inferInstanceAs (Safe c b n ids (view _))
instance : Safe c b n ids tokenCount := inferInstanceAs (Safe c b n ids (view _))
instance : Safe c b n ids emitting := inferInstanceAs (Safe c b n ids (view _))
instance : Safe c b n ids inFunction := inferInstanceAs (Safe c b n ids (view _))
instance (index : Nat) : Safe c b n ids (isRejected index) :=
  inferInstanceAs (Safe c b n ids (view _))

instance (index : Nat) (code : Code) (level : StateScript.Level) (message : String) :
    Safe c b n ids (reportAt index code level message) where
  run s hs := by
    unfold reportAt
    dsimp only
    split
    · exact .fatal
    · exact .ok { hs.sane with } (Nat.le_refl _) (Nat.le_refl _) trivial

instance (index : Nat) (code : Code) (message : String) :
    Takes c b n ids (errorAt index code message : Walk α) where
  run s hs := by
    obtain ⟨log, -, -, -, -, hrun⟩ := errorAt_eq (α := α) index code message s
    rw [hrun]
    exact .abandoned { hs.sane with } hs.start (Nat.le_refl _)

instance [Safe c b 0 ids x] : Safe c b 0 ids (declaring x) := by
  unfold declaring
  infer_instance

instance (index : Nat) (code : Code) (message : String) :
    Safe c b 0 ids (refuse index code message) := by
  have rejected : Safe c b 0 ids (change fun s => { s with rejected := index :: s.rejected }) :=
    .change fun _ hs _ => ⟨{ hs with }, rfl, rfl⟩
  unfold refuse
  refine .seq fun isEmitting => ?_
  split <;> infer_instance

instance (index : Nat) (code : Code) (message : String) :
    Takes c b 0 ids (reject index code message : Walk α) := by
  unfold reject
  infer_instance

instance (code : Code) (message : String) : Takes c b n ids (fatal code message : Walk α) where
  run s _ := by
    obtain ⟨log, -, -, -, hrun⟩ := fatal_eq (α := α) code message s
    rw [hrun]
    exact .fatal

/-! ### The cursor -/

instance (ahead : Nat) : Safe c b n ids (peekAt ahead) := inferInstanceAs (Safe c b n ids (view _))
instance : Safe c b n ids peek := inferInstanceAs (Safe c b n ids (view _))
instance (index : Nat) : Safe c b n ids (tokenAt index) := inferInstanceAs (Safe c b n ids (view _))

instance (kind : Kind) : Safe c b n ids (check kind) :=
  inferInstanceAs (Safe c b n ids (view fun s => s.tokens[s.pos]?.map Token.kind == some kind))

instance : Takes c b (n + 1) ids skip where
  run s hs := by
    have := hs.ahead
    exact .ok { hs.sane with pos := by show s.pos + 1 ≤ c; omega } (Nat.le_succ _) (Nat.le_refl _)
      (Nat.lt_succ_self _)

/-- Once a token is taken, the rest starts further on, with one token less ahead. -/
theorem Takes.skip {f : Unit → Walk α} (hf : Safe c (b + 1) n ids (f ())) :
    Takes c b (n + 1) ids (Walk.skip >>= f) where
  run s hs := by
    have hahead := hs.ahead
    have hstart := hs.start
    have sane : State.Sane c { s with pos := s.pos + 1 } :=
      { hs.sane with pos := by show s.pos + 1 ≤ c; omega }
    have hrest := hf.run { s with pos := s.pos + 1 }
      ⟨sane, Nat.succ_le_succ hstart, by show s.pos + 1 + n ≤ c; omega, hs.known⟩
    show Fine c b s _ (f () { s with pos := s.pos + 1 })
    generalize f () { s with pos := s.pos + 1 } = r at hrest
    cases hrest with
    | ok sane onward grows _ => exact .ok sane (Nat.le_of_succ_le onward) grows onward
    | abandoned sane start grows => exact .abandoned sane (Nat.le_of_succ_le start) grows
    | fatal => exact .fatal

instance (priority := high) (f : Unit → Walk α) [hf : Safe c (b + 1) n ids (f ())] :
    Takes c b (n + 1) ids (skip >>= f) :=
  .skip hf

theorem State.Sane.lt_of_token (h : s.Sane c) {i : Nat} {t : Token} (ht : s.tokens[i]? = some t) :
    i < c := by
  rw [← h.count]
  exact (Array.getElem?_eq_some_iff.1 ht).1

/-- If the next token is known, there is one. -/
theorem Fine.peek {f : Option Kind → Walk α} {q : α → State → Prop} (hs : Starts c b 0 ids s)
    (hnone : Fine c b s q (f none s))
    (hsome : ∀ kind, Starts c b 1 ids s → Fine c b s q (f (some kind) s)) :
    Fine c b s q ((peek >>= f) s) := by
  show Fine c b s q (f (s.tokens[s.pos]?.map Token.kind) s)
  cases ht : s.tokens[s.pos]? with
  | none => exact hnone
  | some t => exact hsome t.kind { hs with ahead := hs.sane.lt_of_token ht }

/-- If the next token is of a kind, there is one. -/
theorem Fine.check {kind : Kind} {f : Bool → Walk α} {q : α → State → Prop}
    (hs : Starts c b 0 ids s) (hfalse : Fine c b s q (f false s))
    (htrue : Starts c b 1 ids s → Fine c b s q (f true s)) :
    Fine c b s q ((Walk.check kind >>= f) s) := by
  show Fine c b s q (f (s.tokens[s.pos]?.map Token.kind == some kind) s)
  cases hcheck : s.tokens[s.pos]?.map Token.kind == some kind with
  | false => exact hfalse
  | true =>
    cases ht : s.tokens[s.pos]? with
    | none =>
      rw [ht] at hcheck
      cases hcheck
    | some t => exact htrue { hs with ahead := hs.sane.lt_of_token ht }

theorem Safe.peek {f : Option Kind → Walk α} (hnone : Safe c b 0 ids (f none))
    (hsome : ∀ kind, Safe c b 1 ids (f (some kind))) : Safe c b 0 ids (Walk.peek >>= f) :=
  ⟨fun s hs => .peek hs (hnone.run s hs) fun kind hs => (hsome kind).run s hs⟩

theorem Takes.peek {f : Option Kind → Walk α} (hnone : Takes c b 0 ids (f none))
    (hsome : ∀ kind, Takes c b 1 ids (f (some kind))) : Takes c b 0 ids (Walk.peek >>= f) :=
  ⟨fun s hs => .peek hs (hnone.run s hs) fun kind hs => (hsome kind).run s hs⟩

/-- A token that is ahead has a kind. -/
theorem Takes.peek_ahead {f : Option Kind → Walk α} (h : ∀ kind, Takes c b 1 ids (f (some kind))) :
    Takes c b 1 ids (Walk.peek >>= f) where
  run s hs := by
    have hpos : s.pos < s.tokens.size := by
      have := hs.ahead
      rw [hs.sane.count]
      omega
    show Fine c b s _ (f (s.tokens[s.pos]?.map Token.kind) s)
    rw [Array.getElem?_eq_getElem hpos]
    exact (h _).run s hs

theorem Turns.peek {f : Option Kind → Walk (Turn α β)} (hnone : Turns c b 0 ids (f none))
    (hsome : ∀ kind, Turns c b 1 ids (f (some kind))) : Turns c b 0 ids (Walk.peek >>= f) :=
  ⟨fun s hs => .peek hs (hnone.run s hs) fun kind hs => (hsome kind).run s hs⟩

/-- If two tokens are known, they are there. -/
theorem Fine.pair {x y : Walk α} {q : α → State → Prop} (first second : Kind)
    (hs : Starts c b 0 ids s) (hx : Starts c b 2 ids s → Fine c b s q (x s))
    (hy : Fine c b s q (y s)) :
    Fine c b s q ((Walk.check first >>= fun isFirst => peekAt 1 >>= fun next =>
      if (isFirst && next == some second) = true then x else y) s) := by
  show Fine c b s q ((if (s.tokens[s.pos]?.map Token.kind == some first &&
    s.tokens[s.pos + 1]?.map Token.kind == some second) = true then x else y) s)
  split
  · next h =>
    have hnext := (Bool.and_eq_true_iff.1 h).2
    -- The second token is there, so two may be taken.
    cases ht : s.tokens[s.pos + 1]? with
    | none =>
      rw [ht] at hnext
      cases hnext
    | some t => exact hx { hs with ahead := hs.sane.lt_of_token ht }
  · exact hy

theorem Fine.eat {kind : Kind} {f : Bool → Walk α} {q : α → State → Prop}
    (hs : Starts c b 0 ids s) (hfalse : Fine c b s q (f false s))
    (htrue : Starts c (b + 1) 0 ids { s with pos := s.pos + 1 } →
      Fine c b { s with pos := s.pos + 1 } q (f true { s with pos := s.pos + 1 })) :
    Fine c b s q ((Walk.eat kind >>= f) s) := by
  unfold Walk.eat
  rw [bind_assoc]
  refine .check hs hfalse fun hs => ?_
  have hstart := hs.start
  have sane : State.Sane c { s with pos := s.pos + 1 } := { hs.sane with pos := hs.ahead }
  have hrest := htrue ⟨sane, Nat.succ_le_succ hstart, hs.ahead, hs.known⟩
  show Fine c b s q (f true { s with pos := s.pos + 1 })
  generalize f true { s with pos := s.pos + 1 } = r at hrest
  cases hrest with
  | ok sane onward grows post => exact .ok sane (Nat.le_of_succ_le onward) grows post
  | abandoned sane start grows => exact .abandoned sane start grows
  | fatal => exact .fatal

instance (kind : Kind) : Safe c b 0 ids (eat kind) where
  run s hs := by
    have h : Fine c b s (fun _ _ => True) ((eat kind >>= fun r => pure r : Walk Bool) s) :=
      .eat hs (.ok hs.sane (Nat.le_refl _) (Nat.le_refl _) trivial) fun hs =>
        .ok hs.sane (Nat.le_refl _) (Nat.le_refl _) trivial
    rwa [bind_pure] at h

theorem Turns.eat {kind : Kind} {f : Bool → Walk (Turn α β)} (hfalse : Turns c b 0 ids (f false))
    (htrue : Safe c b 0 ids (f true)) : Turns c b 0 ids (Walk.eat kind >>= f) where
  run s hs := by
    refine .eat hs (hfalse.run s hs) fun hs' => ?_
    have hrest := htrue.run _ { hs' with start := Nat.le_of_succ_le hs'.start }
    exact hrest.mono fun _ _ onward _ _ _ => onward

instance : Takes c b n ids (unexpectedEnd : Walk α) := inferInstanceAs (Takes c b n ids (fatal _ _))

instance (context : String) : Takes c b 0 ids (unexpected context : Walk α) := by
  unfold unexpected
  refine .after inferInstance fun kind => ?_
  cases kind <;> infer_instance

/-- The token at the cursor can be taken if it is there. -/
theorem Fine.token {f : Option Token → Walk α} {q : α → State → Prop} {s : State}
    (hs : Starts c b 0 ids s) (hnone : Fine c b s q (f none s))
    (hsome : ∀ t, Starts c b 1 ids s → Fine c b s q (f (some t) s)) :
    Fine c b s q ((Walk.position >>= fun p => tokenAt p >>= f) s) := by
  show Fine c b s q (f s.tokens[s.pos]? s)
  cases ht : s.tokens[s.pos]? with
  | none => exact hnone
  | some t => exact hsome t { hs with ahead := hs.sane.lt_of_token ht }

theorem Safe.token {f : Option Token → Walk α} (hnone : Safe c b 0 ids (f none))
    (hsome : ∀ t, Safe c b 1 ids (f (some t))) :
    Safe c b 0 ids (Walk.position >>= fun p => tokenAt p >>= f) :=
  ⟨fun s hs => .token hs (hnone.run s hs) fun t hs => (hsome t).run s hs⟩

instance : Takes c b 0 ids advance := by
  have taken : ∀ t, Takes c b 1 ids (skip >>= fun _ => pure t : Walk Token) := inferInstance
  unfold advance
  exact ⟨fun s hs => .token hs (Takes.run s hs) fun t hs => (taken t).run s hs⟩

/-- Of the tokens that are ahead, one is taken. -/
theorem Takes.advance {f : Token → Walk α} (hf : ∀ t, Safe c (b + 1) n ids (f t)) :
    Takes c b (n + 1) ids (Walk.advance >>= f) where
  run s hs := by
    have hpos : s.pos < s.tokens.size := by
      have := hs.ahead
      rw [hs.sane.count]
      omega
    -- With a token ahead, taking it is skipping it.
    have hrun : (Walk.advance >>= f) s = (Walk.skip >>= fun _ => f s.tokens[s.pos]) s := by
      have hadvance : Walk.advance s = .ok s.tokens[s.pos] { s with pos := s.pos + 1 } := by
        unfold Walk.advance tokenAt
        rw [position_bind, view_bind, Array.getElem?_eq_getElem hpos]
        rfl
      exact bind_of_ok hadvance
    rw [hrun]
    exact (Takes.skip (hf s.tokens[s.pos])).run s hs

instance (kind : Kind) : Takes c b 0 ids (expect kind) := by
  unfold expect
  refine .after inferInstance fun found => ?_
  cases found <;> infer_instance

theorem Safe.separated {item : Walk α} (hitem : Safe c b 0 ids item) :
    Safe c b 0 ids (separated item) := by
  unfold Walk.separated
  refine .loop (fun items => .bind hitem fun x => .eat ?_ ?_) _ <;> infer_instance

instance (stop : Kind) (item : Walk α) [hitem : Safe c b 0 ids item] :
    Safe c b 0 ids (separatedUnless stop item) := by
  have separated := hitem.separated
  unfold separatedUnless
  infer_instance

theorem closing?_le {tokens : Array Token} {opens closes : Kind} {i depth next : Nat}
    (h : closing? tokens opens closes i depth = some next) : next ≤ tokens.size := by
  refine scanFrom_invariant (fun _ _ => True) (fun r => r = some next → next ≤ tokens.size) trivial
    nofun (fun _ _ _ _ _ _ _ => trivial) ?_ h
  intro j depth t r ht _ hturn hr
  have hj : j < tokens.size := (Array.getElem?_eq_some_iff.1 ht).1
  split at hturn
  · cases hturn
  · split at hturn
    · split at hturn
      · cases hturn
        cases hr
        exact hj
      · cases hturn
    · cases hturn

instance (opens closes : Kind) : Safe c b 0 ids (skipBalanced opens closes) where
  run s hs := by
    unfold skipBalanced
    rw [position_bind, view_bind]
    cases hnext : closing? s.tokens opens closes s.pos 1 with
    | some next =>
      have hle : next ≤ c := hs.sane.count ▸ closing?_le hnext
      exact .ok { hs.sane with pos := hle } (le_of_closing? hnext) (Nat.le_refl _) trivial
    | none => exact .fatal

/-- A detour: the walk goes back to a token at or after `b`, and returns. -/
theorem Safe.detour {p : Nat} (hp : b ≤ p) (hpc : p ≤ c) (hx : Safe c b 0 ids x) :
    Safe c b 0 ids (position >>= fun next => moveTo p >>= fun _ => x >>= fun _ => moveTo next) where
  run s hs := by
    have sane : State.Sane c { s with pos := p } := { hs.sane with pos := hpc }
    have hrun := hx.run { s with pos := p } ⟨sane, hp, hpc, hs.known⟩
    show Fine c b s _ ((x >>= fun _ => moveTo s.pos) { s with pos := p })
    generalize hr : x { s with pos := p } = r at hrun
    cases hrun with
    -- The walk comes back to where it left.
    | ok sane' onward grows _ =>
      rw [bind_of_ok hr]
      exact .ok { sane' with pos := hs.sane.pos } (Nat.le_refl _) grows trivial
    | abandoned sane' start grows =>
      rw [bind_of_error hr]
      exact .abandoned sane' start grows
    | fatal =>
      rw [bind_of_error hr]
      exact .fatal

/-- The rest of a walk may rely on the bounds of the position that it reads. -/
theorem Safe.position {f : Nat → Walk α} (h : ∀ p, b ≤ p → p ≤ c → Safe c b 0 ids (f p)) :
    Safe c b 0 ids (Walk.position >>= f) :=
  ⟨fun s hs => (h s.pos hs.start hs.sane.pos).run s hs⟩

theorem Takes.tokenCount {f : Nat → Walk α} (h : Takes c b n ids (f c)) :
    Takes c b n ids (Walk.tokenCount >>= f) where
  run s hs := by
    show Fine c b s _ (f s.tokens.size s)
    rw [hs.sane.count]
    exact h.run s hs

/-! ### Making symbols -/

instance [Held ids id] : Safe c b n ids (symbol id) where
  run s hs := by
    obtain ⟨x, hx⟩ := Table.exists_get? (hs.held id)
    unfold symbol
    rw [hx]
    exact .ok hs.sane (Nat.le_refl _) (Nat.le_refl _) trivial

theorem Provides.addSymbol {name : String} {kind : SymbolKind} [Held ids scope]
    (hcounts : ∀ f, kind = .function f → f.parameterCount = f.parameterTypes.length) :
    Provides c b ids (addSymbol scope name kind) fun id => [id] where
  run s hs := by
    have hscope := hs.held scope
    have hsize : s.table.size < (s.table.add (some scope) name kind).size := by
      rw [Table.size_add]
      exact Nat.lt_succ_self _
    unfold Walk.addSymbol
    dsimp only
    rw [if_pos hscope]
    refine .ok (hs.sane.grow (hs.sane.table.add hscope name hcounts)
      (Nat.le_of_lt hsize) s.files s.history)
      (Nat.le_refl _) (Nat.le_of_lt hsize) fun id hid => ?_
    rw [List.mem_singleton.1 hid]
    exact hsize

instance (name : String) (kind : SymbolKind) [Held ids scope] [new : NewKind kind] :
    Provides c b ids (addSymbol scope name kind) fun id => [id] :=
  .addSymbol new.counts

instance (name : String) (bound : Option Nat) [Held ids scope] :
    Provides c b ids (addSymbol scope name (.target bound)) fun id => [id] :=
  .addSymbol fun _ h => by cases h

theorem Provides.held [k : Held ids id] : Provides c b ids (pure id) fun id => [id] :=
  .of_pure fun _ hs known i hi => by
    rw [List.mem_singleton.1 hi]
    exact k.lt hs known

instance (index : Nat) : Provides c b ids (declared? index role) Option.toList := by
  refine .view fun s hs _ id hid => ?_
  obtain ⟨d, hd, rfl⟩ := Option.map_eq_some_iff.1 (Option.mem_toList.1 hid)
  exact hs.declared d (List.mem_of_find?_eq_some hd)

instance (index : Nat) : Provides c b ids (retrieve index role) fun id => [id] := by
  unfold retrieve
  refine .provided inferInstance fun found => ?_
  cases found with
  | some id =>
    exact .bind (.change fun _ hs _ => ⟨{ hs with }, rfl, rfl⟩) fun _ => .held
  | none =>
    refine .seq fun isRejected => ?_
    split
    · exact ⟨fun _ hs => .abandoned hs.sane hs.start (Nat.le_refl _)⟩
    · exact ⟨fun _ _ => .fatal⟩

/-- A symbol that is made in the first walk is there when the second looks for it. -/
theorem Provides.record {index : Nat} {create : Walk Nat}
    (h : Provides c b ids create fun id => [id]) :
    Provides c b ids (record index role create) fun id => [id] := by
  unfold Walk.record
  refine .provided h fun id => .bind (.change fun s hs known => ?_) fun _ => .held
  have hid : id < s.table.size := known id List.mem_cons_self
  refine ⟨{ hs with declared := fun d hd => ?_ }, rfl, rfl⟩
  rcases List.mem_cons.1 hd with rfl | hd
  · exact hid
  · exact hs.declared d hd

instance (index : Nat) (create : Walk Nat) [h : Provides c b ids create fun id => [id]] :
    Provides c b ids (keyed index role create) fun id => [id] := by
  unfold keyed
  refine .seq fun isEmitting => ?_
  split
  · infer_instance
  · exact h.record

instance (index : Nat) : Provides c b ids (target index role) fun id => [id] := by
  unfold target
  exact .provided inferInstance fun function => inferInstance

instance : Safe c b 0 ids allocateMemory :=
  ⟨fun _ hs => .ok { hs.sane with } (Nat.le_refl _) (Nat.le_refl _) trivial⟩

instance : Safe c b 0 ids allocateLocal :=
  ⟨fun _ hs => .ok { hs.sane with } (Nat.le_refl _) (Nat.le_refl _) trivial⟩

instance [k : Held ids id] : Safe c b 0 ids (makeVisible id) := by
  refine .change fun s hs known => ?_
  have hid : id < s.table.size := k.lt hs known
  cases hblocks : s.blocks with
  | nil => exact ⟨hs, rfl, rfl⟩
  | cons block outer =>
    have visible := hs.visible
    rw [hblocks] at visible
    refine ⟨{ hs with visible := fun block' hblock' i hi => ?_ }, rfl, rfl⟩
    rcases List.mem_cons.1 hblock' with rfl | hblock'
    · rcases List.mem_cons.1 hi with rfl | hi
      · exact hid
      · exact visible block List.mem_cons_self i hi
    · exact visible block' (List.mem_cons_of_mem _ hblock') i hi

instance (index : Nat) (name : String) (type : ValueType) :
    Provides c b ids (internalLocal index role name type) fun id => [id] := by
  unfold internalLocal
  refine .provided inferInstance fun function => ?_
  have create : Provides c b ([function] ++ ids) (do
      let ordinal ← allocateLocal
      change fun s => { s with internalVariables := s.internalVariables + 1 }
      addSymbol function name
        (.var { kind := .local, type, storage := .stack ordinal, used := true })) fun id => [id] :=
    .seq fun ordinal =>
      .bind (.change fun _ hs _ => ⟨{ hs with }, rfl, rfl⟩) fun _ => inferInstance
  exact .provided inferInstance fun id => .seq fun _ => .held

theorem Table.find?_lt {name : String} (hw : t.WellFormed)
    (h : t.find? scope name filter = some id) : id < t.size :=
  hw.lt_of_mem_children (List.mem_of_find?_eq_some h)

instance (text : String) : Provides c b ids (intern text) fun id => [id] := by
  unfold intern
  have known : Provides c b ids
      (view fun s => s.table.find? globalScope text (·.kind.isText)) Option.toList :=
    .view fun s hs _ id hid => Table.find?_lt hs.table (Option.mem_toList.1 hid)
  refine .provided known fun found => ?_
  cases found with
  | some id => exact .held
  | none => infer_instance

instance (owner : Nat) [Held ids owner] : Safe c b 0 ids (attachMetadata owner) := by
  unfold attachMetadata
  refine .seq fun entries => ?_
  exact .bind (.change fun _ hs _ => ⟨{ hs with }, rfl, rfl⟩) fun _ => .forM fun _ => inferInstance

/-! ### Views of symbols -/

section Views

variable (id : Nat) [k : Held ids id]

instance : Safe c b n ids (markUsed id) :=
  .of_table fun s hs known => ⟨_, s.files, s.history, modifyKind_of_lt _ (k.lt hs known)⟩

instance (f : Variable → Variable) [Settling f] : Safe c b n ids (modifyVariable id f) :=
  .of_table fun s hs known => ⟨_, s.files, s.history, modifyKind_of_lt _ (k.lt hs known)⟩

instance : Safe c b 0 ids (variableType id) := by
  unfold variableType
  refine .seq fun x => ?_
  split <;> infer_instance

instance : Safe c b 0 ids (variableTraits id) := by
  unfold variableTraits
  refine .seq fun x => ?_
  split <;> infer_instance

instance : Safe c b 0 ids (slot id) := by
  unfold slot
  refine .seq fun x => ?_
  split <;> infer_instance

instance (index : Register) : Safe c b 0 ids (indexedSlot id index) := by
  unfold indexedSlot
  refine .seq fun x => ?_
  split <;> infer_instance

instance (name : String) : Provides c b ids (findChild id name filter) Option.toList := by
  unfold findChild
  refine .seq fun _ => .view fun s hs _ i hi => ?_
  exact Table.find?_lt hs.table (Option.mem_toList.1 hi)

end Views

/-! ### Finding symbols -/

instance (name : String) : Provides c b ids (lookupLocal name) Option.toList := by
  have visible : ∀ s : State, s.Sane c → ∀ id ∈ s.blocks.flatten, id < s.table.size := by
    intro s hs id hid
    obtain ⟨block, hblock, hid⟩ := List.mem_flatten.1 hid
    exact hs.visible block hblock id hid
  unfold lookupLocal
  refine .bind (.ensure fun s hs _ => State.knows_iff.2 (visible s hs)) fun _ => ?_
  refine .view fun s hs _ id hid => visible s hs id ?_
  exact List.mem_of_find?_eq_some (Option.mem_toList.1 hid)

/-- Owners come first, so that there are no more of them than symbols. -/
theorem scopeChain_eq_some (hw : t.WellFormed) (steps id : Nat) (hid : id < t.size)
    (hsteps : id < steps) : ∃ ids, scopeChain t steps id = some ids := by
  induction steps generalizing id with
  | zero => omega
  | succ steps ih =>
    obtain ⟨x, hx⟩ := Table.exists_get? hid
    unfold scopeChain
    rw [hx]
    cases hscope : x.scope with
    | none => exact ⟨[id], by simp only [hscope]⟩
    | some owner =>
      -- Owners are older, so the chain ends.
      have hlt : owner < id := hw.scope_lt id owner (by rw [Table.scope?, hx]; exact hscope)
      obtain ⟨ids, hids⟩ := ih owner (Nat.lt_trans hlt hid) (by omega)
      exact ⟨id :: ids, by simp only [hscope, hids, Option.map_some]⟩

theorem lt_of_mem_scopeChain {steps id : Nat} {ids : List Nat}
    (h : scopeChain t steps id = some ids) : ∀ scope ∈ ids, scope < t.size := by
  induction steps generalizing id ids with
  | zero => cases h
  | succ steps ih =>
    unfold scopeChain at h
    cases hx : t.get? id with
    | none =>
      rw [hx] at h
      cases h
    | some x =>
      rw [hx] at h
      intro scope hscope
      cases howner : x.scope with
      | none =>
        simp only [howner, Option.some.injEq] at h
        rw [← h] at hscope
        rw [List.mem_singleton.1 hscope]
        exact Table.get?_lt hx
      | some owner =>
        simp only [howner, Option.map_eq_some_iff] at h
        obtain ⟨owners, howners, rfl⟩ := h
        -- The scope itself, or one that its owner stands in.
        rcases List.mem_cons.1 hscope with rfl | hscope
        · exact Table.get?_lt hx
        · exact ih howners scope hscope

instance : Provides c b ids scopes fun found => found where
  run s hs := by
    obtain ⟨found, hfound⟩ := scopeChain_eq_some hs.sane.table _ _ hs.sane.scope hs.sane.scope
    unfold scopes
    rw [hfound]
    exact .ok hs.sane (Nat.le_refl _) (Nat.le_refl _) (lt_of_mem_scopeChain hfound)

instance (name : String) : Provides c b ids (resolve name filter) Option.toList := by
  unfold resolve
  refine .provided inferInstance fun scopes => .seq fun _ => ?_
  refine .view fun s hs _ id hid => ?_
  obtain ⟨scope, -, hscope⟩ := List.exists_of_findSome?_eq_some (Option.mem_toList.1 hid)
  exact Table.find?_lt hs.table hscope

theorem Provides.held_some [k : Held ids id] : Provides c b ids (pure (some id)) Option.toList :=
  .of_pure fun _ hs known i hi => by
    cases Option.mem_toList.1 hi
    exact k.lt hs known

theorem Provides.none : Provides c b ids (pure none) (Option.toList : Option Nat → List Nat) :=
  .of_pure fun _ _ _ i hi => by cases hi

/-- Every segment leads from a symbol to one of its children. -/
theorem Provides.descend (path : List Token) {scope : Nat} (h : Held ids scope) :
    Provides c b ids (descend path scope) Option.toList := by
  induction path generalizing scope ids with
  | nil => exact .held_some
  | cons segment rest ih =>
    unfold Walk.descend
    refine .provided inferInstance fun found => ?_
    cases found with
    | some id => exact ih inferInstance
    | none => exact .none

instance (first : Token) (rest : List Token) :
    Provides c b ids (resolveContainer first rest) Option.toList := by
  unfold resolveContainer
  refine .provided inferInstance fun start => ?_
  cases start with
  | some scope => exact .descend rest inferInstance
  | none => exact .none

instance (path : List Token) : Provides c b ids (resolvePath path filter) Option.toList := by
  unfold resolvePath
  split
  · exact .none
  · refine .provided inferInstance fun found => ?_
    cases found with
    | none => infer_instance
    | some id =>
      refine .seq fun x => ?_
      split
      · exact .held_some
      · infer_instance
  · refine .provided inferInstance fun found => ?_
    cases found with
    | none => exact .none
    | some container => infer_instance

theorem Table.findAll_lt {name : String} (hw : t.WellFormed)
    (h : id ∈ t.findAll scope name filter) : id < t.size :=
  hw.lt_of_mem_children (List.mem_filter.1 h).1

instance (path : List Token) : Provides c b ids (candidates path) fun found => found := by
  unfold candidates
  dsimp only
  split
  · exact .of_pure fun _ _ _ i hi => by cases hi
  · refine .provided inferInstance fun scopes => .seq fun _ => ?_
    refine .view fun s hs _ id hid => ?_
    obtain ⟨scope, -, hscope⟩ := List.mem_flatMap.1 hid
    exact Table.findAll_lt hs.table hscope
  · refine .provided inferInstance fun found => ?_
    cases found with
    | none => exact .of_pure fun _ _ _ i hi => by cases hi
    | some container =>
      exact .seq fun _ => .view fun s hs _ id hid => Table.findAll_lt hs.table hid

instance : Takes c b 0 ids qualifiedPath := by
  unfold qualifiedPath
  refine .seq fun first => .loop (fun path => ⟨fun s hs => ?_⟩) _
  have taken : Turns c b 2 ids (skip >>= fun _ => advance >>= fun t => pure (.again (t :: path)) :
      Walk (Turn (List Token) (List Token))) := inferInstance
  exact .pair .period .identifier hs (taken.run s) (Turns.run s hs)

/-! ### Code -/

instance (opcode : Opcode) : Safe c b n ids (emit opcode operands) := by
  refine .of_table fun s hs _ => ?_
  rcases s.pass_cases with hpass | hpass
  · exact ⟨s.table, s.files, s.history, emit_of_declare opcode operands hpass⟩
  · have hrun : emit opcode operands s = .ok () (s.emit opcode operands none) := by
      unfold emit
      rw [emitting_bind_emit hpass, if_pos rfl, bind_of_ok (ensure_function hs)]
      rfl
    exact ⟨_, _, _, hrun⟩

instance (place : Nat) (opcode : Opcode) : Safe c b n ids (emitAt place opcode operands) := by
  refine .of_table fun s hs _ => ?_
  rcases s.pass_cases with hpass | hpass
  · exact ⟨s.table, s.files, s.history, emitAt_of_declare place opcode operands hpass⟩
  · have hrun : emitAt place opcode operands s = .ok () (s.emit opcode operands (some place)) := by
      unfold emitAt
      rw [emitting_bind_emit hpass, if_pos rfl, bind_of_ok (ensure_function hs)]
      rfl
    exact ⟨_, _, _, hrun⟩

instance (opcode : Opcode) (target : Nat) : Safe c b n ids (jump opcode target) :=
  inferInstanceAs (Safe c b n ids (emit _ _))

instance (target : Nat) [k : Held ids target] : Safe c b n ids (bind target) := by
  refine .of_table fun s hs known => ?_
  rcases s.pass_cases with hpass | hpass
  · exact ⟨s.table, s.files, s.history, bind_of_declare hpass⟩
  · have hrun : Walk.bind target s = .ok () (s.bind target) := by
      unfold Walk.bind
      rw [emitting_bind_emit hpass, if_pos rfl,
        bind_of_ok (ensure_of (by simpa using ⟨hs.function, k.lt hs known⟩))]
      rfl
    exact ⟨_, _, _, hrun⟩

instance (t : ValueType) (op : Operation) : Safe c b 0 ids (opcodeFor t op) := by
  unfold opcodeFor
  split <;> infer_instance

end StateScript.Walk
