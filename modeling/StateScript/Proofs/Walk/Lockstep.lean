import StateScript.Proofs.Walk.Advance
import StateScript.Proofs.Walk.ExpressionAgreement

/-! # Both walks in step

  The second walk goes over the same statements as the first and finds again, for the same
  tokens and in the same order, what the first has declared. This module is about two runs
  of the same rule, one in each walk, that start `Abreast`: at the same token, in the same
  function and region, and inside loops of the same shape. If they are close, then besides
  everything has been found again that has been declared up to there.

  What the second walk starts from is the outcome of the whole first walk, so a run of the
  first is `Known` to it: the symbols are in the table, the records are in the list, and
  what was declared later stands behind the run. If then the second walk gets through a
  rule without an error, the first has got through it too, and both are abreast again
  (`Marches`).

  Runs that are not close matter for `for` loops alone. Their last clause is walked over
  behind the body, and nothing is known of what is declared later until it is clear that
  the first walk gets through that clause.

  Targets are bound by the second walk. The parameter `o` has those that are still open.
-/

namespace StateScript.Walk

variable {b id : Nat} {o : Nat → Prop} {e : Option Stop} {role : Role} {s s' t t' : State}
  {create : Walk Nat}

variable {α β γ δ : Type} {k : Mode} {l : Bool}

/-! ### Two states -/

/-- How much two runs have in common: they go over the same tokens inside a function, or
    they are close, or both. -/
inductive Mode where
  | apart
  | close
  | inner
deriving DecidableEq

namespace Mode

def isClose : Mode → Bool
  | .apart => false
  | .close | .inner => true

def isInner : Mode → Bool
  | .close => false
  | .apart | .inner => true

/-- The same inside a function. -/
def within : Mode → Mode
  | .apart => .apart
  | .close | .inner => .inner

@[simp] theorem isClose_within (k : Mode) : k.within.isClose = k.isClose := by
  cases k <;> rfl

end Mode

/-- A loop apart from its targets: whether `continue` is about it, whether it counts, and
    the regions around it. -/
def LoopFrame.shape (f : LoopFrame) : Bool × Bool × Regions :=
  (f.continueTarget.isSome, f.counter.isSome, f.regions)

/-- Two states in the same surroundings. -/
structure Alike (k : Mode) (s t : State) : Prop where
  function : t.function = s.function
  regions : t.regions = s.regions
  shapes : t.loops.map LoopFrame.shape = s.loops.map LoopFrame.shape
  scope : k.isClose = true → t.scope = s.scope

/-- A symbol other than a target that is still to be bound. -/
def Settled (t : Table) (id : Nat) : Prop := ∃ k, t.kind? id = some k ∧ k ≠ .target none

/-- Two states with the same past. -/
structure Close (o : Nat → Prop) (s t : State) : Prop where
  records : t.recalled = s.declared
  past : ∀ d ∈ s.declared, d.token < s.pos
  exists_kind : ∀ r ∈ t.recalled, ∃ k, t.table.kind? r.symbol = some k
  settled : ∀ r ∈ t.recalled, ¬ o r.symbol → Settled t.table r.symbol

/-- The two walks at the same token, in the same surroundings, and with the same past if
    they are close. -/
structure Abreast (k : Mode) (o : Nat → Prop) (s t : State) : Prop extends Level s t where
  alike : Alike k s t
  formed : s.table.WellFormed
  faithful : t.Faithful
  inside : k.isInner = true → s.function ≠ globalScope
  close : k.isClose = true → Close o s t

/-- What the second walk has of a run of the first. -/
structure Holds (r : EStateM.Result Stop State α) (t : State) : Prop where
  table : (final r).table.Grows t.table
  later : ∃ later, t.declared = later ++ (final r).declared ∧
    ∀ d ∈ later, (final r).pos ≤ d.token

/-- A run of the first walk as the second knows it. -/
structure Known (k : Mode) (r : EStateM.Result Stop State α) (t : State) : Prop where
  ends : ¬ Doomed r
  log : (final r).log.hasErrors = false
  recorded : ∃ later, t.declared = later ++ (final r).declared
  holds : k.isClose = true → Holds r t

theorem Alike.control (h : Alike k s t) (hs : s'.control = s.control)
    (ht : t'.control = t.control) : Alike k s' t' := by
  simp only [State.control, Prod.mk.injEq] at hs ht
  obtain ⟨hf, hsc, hl, hr⟩ := hs
  obtain ⟨hf', hsc', hl', hr'⟩ := ht
  refine ⟨?_, ?_, ?_, fun hk => ?_⟩
  · rw [hf, hf', h.function]
  · rw [hr, hr', h.regions]
  · rw [hl, hl', h.shapes]
  · rw [hsc, hsc', h.scope hk]

/-- Loops of the same shape count alike. -/
theorem Alike.counters (h : Alike k s t) :
    (s.loops.findSome? (·.counter)).isSome = (t.loops.findSome? (·.counter)).isSome := by
  have count : ∀ loops : List LoopFrame, (loops.findSome? (·.counter)).isSome =
      (loops.map LoopFrame.shape).any (·.2.1) := by
    intro loops
    induction loops with
    | nil => rfl
    | cons f loops ih =>
      rw [List.findSome?_cons, List.map_cons, List.any_cons, ← ih]
      unfold LoopFrame.shape
      cases f.counter <;> rfl
  rw [count, count, h.shapes]

theorem Settled.mono {t t' : Table} (h : Settled t id) (hgrows : t.Grows t') : Settled t' id := by
  obtain ⟨k, hk, hopen⟩ := h
  obtain ⟨x, hx, rfl⟩ := Table.kind?_eq_some.1 hk
  obtain ⟨x', hx', g⟩ := hgrows id x hx
  refine ⟨x'.kind, Table.kind?_eq_some.2 ⟨x', hx', rfl⟩, fun hopen' => ?_⟩
  have htag := g.kind.tag
  have hbound := g.kind.bound
  rw [hopen'] at htag hbound
  cases hkind : x.kind with
  -- A bound target stays bound.
  | target bound =>
    rw [hkind] at hbound hopen
    exact hbound (fun h : bound = none => hopen (congrArg _ h)) rfl
  | _ =>
    rw [hkind] at htag
    cases htag

/-- Nothing is declared, found or bound. -/
theorem Close.mono (h : Close o s t) (hdeclared : s'.declared = s.declared) (hle : s.pos ≤ s'.pos)
    (hrecalled : t'.recalled = t.recalled) (hgrows : t.table.Grows t'.table) : Close o s' t' := by
  refine ⟨?_, ?_, ?_, ?_⟩
  · rw [hrecalled, hdeclared, h.records]
  · intro d hd
    rw [hdeclared] at hd
    exact Nat.lt_of_lt_of_le (h.past d hd) hle
  · intro r hr
    rw [hrecalled] at hr
    exact hgrows.exists_kind (h.exists_kind r hr)
  · intro r hr ho
    rw [hrecalled] at hr
    exact (h.settled r hr ho).mono hgrows

theorem Close.keeps (h : Close o s t) (hs : Keeps .plain 0 e s s')
    (ht : Keeps .plain 0 none t t') (hle : s.pos ≤ s'.pos) : Close o s' t' := by
  obtain ⟨hdeclared, -, -, -, -⟩ := hs.plain (Nat.le_refl _)
  obtain ⟨-, hrecalled, -, -, -⟩ := ht.plain (Nat.le_refl _)
  exact h.mono hdeclared hle hrecalled ht.table

/-- Two runs that declare nothing have got to the same token. -/
theorem Abreast.keeps (h : Abreast k o s t) (hs : Keeps .plain 0 e s s')
    (ht : Keeps .plain 0 none t t') (hpos : t'.pos = s'.pos) (hle : s.pos ≤ s'.pos) :
    Abreast k o s' t' where
  toLevel := h.toLevel.keeps hs ht.weaken hpos
  alike := h.alike.control hs.control ht.control
  formed := hs.wellFormed h.formed
  faithful := ht.faithful h.faithful
  inside hk := by
    rw [hs.function]
    exact h.inside hk
  close hk := (h.close hk).keeps hs ht hle

theorem Abreast.mono {o' : Nat → Prop} (h : Abreast k o s t) (ho : ∀ id, o id → o' id) :
    Abreast k o' s t :=
  { h with close := fun hk => { h.close hk with
      settled := fun r hr hno => (h.close hk).settled r hr fun hid => hno (ho _ hid) } }

theorem Alike.within (h : Alike k s t) : Alike k.within s t :=
  ⟨h.function, h.regions, h.shapes, fun hk => h.scope (by simpa using hk)⟩

/-- Inside a function both walks are inside it. -/
theorem Abreast.within (h : Abreast k o s t) (hfunction : s.function ≠ globalScope) :
    Abreast k.within o s t :=
  ⟨h.toLevel, h.alike.within, h.formed, h.faithful, fun _ => hfunction,
    fun hk => h.close (by simpa using hk)⟩

theorem Abreast.of_within (h : Abreast k.within o s t) : Abreast k o s t := by
  refine ⟨h.toLevel, ⟨h.alike.function, h.alike.regions, h.alike.shapes, fun hk => ?_⟩, h.formed,
    h.faithful, fun hk => h.inside ?_, fun hk => h.close (by simpa using hk)⟩
  · exact h.alike.scope (by simpa using hk)
  · cases k <;> rfl

theorem Known.within {r : EStateM.Result Stop State α} (h : Known k r t) : Known k.within r t :=
  ⟨h.ends, h.log, h.recorded, fun hk => h.holds (by simpa using hk)⟩

/-- Inside a function two runs need not be close. -/
theorem Abreast.toApart (h : Abreast k o s t) (hk : k.isInner = true) : Abreast .apart o s t :=
  ⟨h.toLevel, ⟨h.alike.function, h.alike.regions, h.alike.shapes, nofun⟩, h.formed,
    h.faithful, fun _ => h.inside hk, nofun⟩

/-- Both walks go to the same token. -/
theorem Abreast.moved {o : Nat → Prop} {s t : State} (h : Abreast k o s t) {pos : Nat}
    (hle : s.pos ≤ pos) : Abreast k o { s with pos } { t with pos } where
  toLevel := { h.toLevel with pos := rfl }
  alike := h.alike.control rfl rfl
  formed := h.formed
  faithful := h.faithful
  inside := h.inside
  close hk :=
    { h.close hk with
      past := fun d hd => Nat.lt_of_lt_of_le ((h.close hk).past d hd) hle }

theorem Known.moved {r : EStateM.Result Stop State α} {t : State} {pos : Nat} (h : Known k r t) :
    Known k r { t with pos } :=
  ⟨h.ends, h.log, h.recorded, fun hk => ⟨(h.holds hk).table, (h.holds hk).later⟩⟩

/-- What is known stays known. -/
theorem Known.keeps {g : Grade} {r : EStateM.Result Stop State α} (h : Known k r t)
    (hpass : t.pass = .emit) (ht : Keeps g b e t t') : Known k r t' where
  ends := h.ends
  log := h.log
  recorded := by
    rw [(ht.emit hpass).1]
    exact h.recorded
  holds hk := by
    refine ⟨(h.holds hk).table.trans ht.table, ?_⟩
    rw [(ht.emit hpass).1]
    exact (h.holds hk).later

/-- An end that does not end the compilation. -/
theorem ending_of_not_doomed {r : EStateM.Result Stop State α} (h : ¬ Doomed r) :
    ending r = none ∨ ending r = some .abandoned := by
  cases hend : ending r with
  | none => exact .inl rfl
  | some e =>
    cases e with
    | abandoned => exact .inr rfl
    | fatal => exact absurd (.inl hend) h
    | broken => exact absurd (.inr hend) h

theorem not_doomed_ok (a : α) (s : State) : ¬ Doomed (.ok a s : EStateM.Result Stop State α) := by
  rintro (h | h) <;> cases h

/-- The first part of a run ends as the whole does or well. -/
theorem Known.first_apart {x : Walk α} {f : α → Walk β} [rf : ∀ a, Respects .any 0 (f a)]
    (h : Known k ((x >>= f) s) t) : Known .apart (x s) t := by
  cases hrun : x s with
  | error e s₁ =>
    rw [bind_of_error hrun] at h
    exact ⟨h.ends, h.log, h.recorded, nofun⟩
  | ok a s₁ =>
    rw [bind_of_ok hrun] at h
    have hkeeps := (rf a).run s₁ (Nat.zero_le _)
    obtain ⟨later, hlater⟩ := h.recorded
    obtain ⟨new, hnew, -⟩ := hkeeps.records
    refine ⟨not_doomed_ok a s₁, hasErrors_eq_false_mono hkeeps.log h.log, ⟨later ++ new, ?_⟩, nofun⟩
    rw [hlater, hnew, List.append_assoc]
    rfl

/-- The first part of a run is known if the rest declares what stands behind it. -/
theorem Known.first {x : Walk α} {f : α → Walk β} [rf : ∀ b a, Respects .any b (f a)]
    (h : Known k ((x >>= f) s) t) : Known k (x s) t := by
  refine { h.first_apart with holds := fun hk => ?_ }
  cases hrun : x s with
  | error e s₁ =>
    rw [bind_of_error hrun] at h
    exact ⟨(h.holds hk).table, (h.holds hk).later⟩
  | ok a s₁ =>
    rw [bind_of_ok hrun] at h
    have hkeeps := (rf s₁.pos a).run s₁ (Nat.le_refl _)
    -- What the rest declares stands behind the first part.
    have honward : s₁.pos ≤ (final (f a s₁)).pos := hkeeps.onward (ending_of_not_doomed h.ends)
    obtain ⟨later, hlater, hbehind⟩ := (h.holds hk).later
    obtain ⟨new, hnew, adds⟩ := hkeeps.records
    refine ⟨hkeeps.table.trans (h.holds hk).table, later ++ new, ?_, ?_⟩
    · rw [hlater, hnew, List.append_assoc]
      rfl
    · intro d hd
      rcases List.mem_append.1 hd with hd | hd
      · exact Nat.le_trans honward (hbehind d hd)
      · exact adds d hd

/-- The symbols of a known run were there from its start. -/
theorem Known.grows {x : Walk α} [rx : Respects .any 0 x] (h : Known k (x s) t)
    (hk : k.isClose = true) : s.table.Grows t.table :=
  (rx.run s (Nat.zero_le _)).table.trans (h.holds hk).table

/-! ### Two runs -/

/-- A run that starts at or after a token ends there. -/
class Forward (b : Nat) (x : Walk α) : Prop where
  le : ∀ {s a s'}, b ≤ s.pos → x s = .ok a s' → b ≤ s'.pos

instance (priority := low) (x : Walk α) [Respects .any b x] : Forward b x := ⟨le_pos_of_ok⟩

instance (x : Walk α) (f : α → Walk β) [hx : Forward b x] [hf : ∀ a, Forward b (f a)] :
    Forward b (x >>= f) where
  le hpos hrun := by
    obtain ⟨a, s₁, hs₁, hrun⟩ := bind_eq_ok.1 hrun
    exact (hf a).le (hx.le hpos hs₁) hrun

/-- A failure of the compiler that does not stand alone: something else is an error, or there
    is a `switch`, in which the walks may part. -/
def Excused (t : State) : Prop :=
  Internal t.log → (∃ d ∈ t.log.items, d.level = .error) ∨ ∃ x ∈ t.tokens, x.kind = .kwSwitch

/-- Why the second walk may stop. -/
structure Accounted (e : Stop) (t : State) : Prop where
  abandoned : e = .abandoned → t.log.hasErrors = true
  fatal : e = .fatal → Excused t

/-- Where there has been an error, all is accounted for. -/
theorem Accounted.of_errors {e : Stop} (hlog : t.log.items <+: t'.log.items)
    (hrunning : t.log.hasFatal = false) (h : t.log.hasErrors = true) : Accounted e t' := by
  refine ⟨fun _ => hasErrors_mono hlog h, fun _ _ => .inl ?_⟩
  obtain ⟨d, hd, hlevel⟩ := List.any_eq_true.1 h
  refine ⟨d, hlog.subset hd, ?_⟩
  have hnot := hasFatal_eq_false.1 hrunning d hd
  cases hkind : d.level with
  | error => rfl
  | fatal => exact absurd hkind hnot
  | _ =>
    rw [hkind] at hlevel
    cases hlevel

theorem Accounted.of_candid {e : Stop} {y : Walk β} [ry : Respects .loud 0 y] [Candid y]
    (hpass : t.pass = .emit) (hfaithful : t.Faithful) (hrunning : t.log.hasFatal = false)
    (hrun : y t = .error e t') : Accounted e t' := by
  constructor
  · rintro rfl
    exact (ry.error (Nat.zero_le _) hrun).loud (Nat.le_refl _) rfl hpass hfaithful
  · rintro rfl h
    exact absurd h (Candid.lost hpass hrunning hrun)

theorem Abreast.accounted {e : Stop} {y : Walk β} [Respects .loud 0 y] [Candid y]
    (h : Abreast k o s t) (hrun : y t = .error e t') : Accounted e t' :=
  .of_candid h.second h.faithful h.running hrun

/-- How the ends of two runs go together. Where the second walk has got through without an
    error, the first has got through, with related results, and both are abreast again. If
    it is loose, the second may be stuck instead. Where the second walk stops, it is
    accounted for. -/
structure Meets (k : Mode) (isLoose : Bool) (Q : α → β → Prop) (o' : β → Nat → Prop)
    (r : EStateM.Result Stop State α) (r' : EStateM.Result Stop State β) : Prop where
  ok : ∀ {d : β} {t' : State}, r' = .ok d t' → t'.log.hasErrors = false →
    (isLoose = true ∧ Stuck t') ∨ ∃ a s', r = .ok a s' ∧ Q a d ∧ Abreast k (o' d) s' t'
  stop : ∀ {e : Stop} {t' : State}, r' = .error e t' → Accounted e t'

namespace Meets

variable {Q : α → β → Prop} {o' : β → Nat → Prop} {r : EStateM.Result Stop State α}
  {r' : EStateM.Result Stop State β} {y : Walk β}

theorem of_errors [ry : Respects .any 0 y] (hrunning : t.log.hasFatal = false)
    (h : t.log.hasErrors = true) : Meets k l Q o' r (y t) where
  ok hr hlog := by
    cases (hasErrors_mono (ry.ok (Nat.zero_le _) hr).log h).symm.trans hlog
  stop hr := .of_errors (ry.error (Nat.zero_le _) hr).log hrunning h

/-- Only runs without errors matter. -/
theorem of_quiet [Respects .any 0 y] (hrunning : t.log.hasFatal = false)
    (h : t.log.hasErrors = false → Meets k l Q o' r (y t)) : Meets k l Q o' r (y t) := by
  cases hlog : t.log.hasErrors with
  | true => exact .of_errors hrunning hlog
  | false => exact h hlog

theorem mono {k' : Mode} {Q' : α → β → Prop} {o₁ : β → Nat → Prop} (h : Meets k' l Q' o₁ r r')
    (hmono : ∀ {a s' d t'}, r' = .ok d t' → Q' a d → Abreast k' (o₁ d) s' t' →
      Q a d ∧ Abreast k (o' d) s' t') : Meets k l Q o' r r' where
  ok hr hlog := by
    rcases h.ok hr hlog with h | ⟨a, s', hs', hq, habreast⟩
    · exact .inl h
    · exact .inr ⟨a, s', hs', hmono hr hq habreast⟩
  stop := h.stop

/-- The second walk goes on after a first rule. -/
theorem bind {y : Walk γ} {g : γ → Walk β}
    (hstop : ∀ {e t₁}, y t = .error e t₁ → Accounted e t₁)
    (hrest : ∀ d t₁, y t = .ok d t₁ → Meets k l Q o' r (g d t₁)) :
    Meets k l Q o' r ((y >>= g) t) := by
  cases hrun : y t with
  | ok d t₁ =>
    rw [bind_of_ok hrun]
    exact hrest d t₁ hrun
  | error e t₁ =>
    rw [bind_of_error hrun]
    refine ⟨fun h => (by cases h), fun h => ?_⟩
    cases h
    exact hstop hrun

/-- A walk that is stuck stays so. -/
theorem stuck [ry : Respects .loud 0 y] [halts : Halts l y] (hpass : t.pass = .emit)
    (hfaithful : t.Faithful) (hrunning : t.log.hasFatal = false) (hstuck : Stuck t) :
    Meets k l Q o' r (y t) where
  ok hrun _ := by
    obtain ⟨hl, hstuck', -⟩ := (halts.run hpass hrunning hstuck).ok hrun
    exact .inl ⟨hl, hstuck'⟩
  stop hrun := by
    constructor
    · rintro rfl
      exact (ry.error (Nat.zero_le _) hrun).loud (Nat.le_refl _) rfl hpass hfaithful
    · rintro rfl h
      exact absurd h ((halts.run hpass hrunning hstuck).lost hrun)

end Meets

/-- Two runs that start abreast, in states of some sort, meet. -/
structure MarchesFrom (P : State → State → Prop) (k : Mode) (isLoose : Bool) (b : Nat)
    (o : Nat → Prop) (x : Walk α) (y : Walk β) (Q : α → β → Prop) (o' : β → Nat → Prop) : Prop where
  run : ∀ {s t : State}, P s t → b ≤ s.pos → Abreast k o s t → Known k (x s) t →
    Meets k isLoose Q o' (x s) (y t)

namespace MarchesFrom

variable {P S : State → State → Prop} {b : Nat} {o : Nat → Prop} {x : Walk α} {y : Walk β}
  {Q : α → β → Prop} {o' : β → Nat → Prop}

theorem mono (h : MarchesFrom S k l b o x y Q o') (hP : ∀ s t, P s t → S s t) :
    MarchesFrom P k l b o x y Q o' :=
  ⟨fun hs => h.run (hP _ _ hs)⟩

/-- One rule after the other, if what follows a loose one gets nowhere when stuck. What the
    rest declares stands behind the first. -/
theorem bind {l' : Bool} {f : α → Walk γ} {g : β → Walk δ} {R : α → β → Prop} {Q : γ → δ → Prop}
    {o₁ : β → Nat → Prop} {o₂ : δ → Nat → Prop} [forward : Forward b x] [ry : Respects .any 0 y]
    [rf : ∀ b a, Respects .any b (f a)] [rg : ∀ d, Respects .any 0 (g d)]
    (halts : l' = true → ∀ d, Respects .loud 0 (g d) ∧ Halts l (g d))
    (hx : MarchesFrom P k l' b o x y R o₁)
    (hP : ∀ {s s₁ t t₁ a d}, P s t → x s = .ok a s₁ → y t = .ok d t₁ → S s₁ t₁)
    (hf : ∀ a d, R a d → MarchesFrom S k l b (o₁ d) (f a) (g d) Q o₂) :
    MarchesFrom P k l b o (x >>= f) (y >>= g) Q o₂ where
  run hstart hpos habreast hknown := by
    have hmeets := hx.run hstart hpos habreast hknown.first
    refine .bind hmeets.stop fun d t₁ ht₁ => ?_
    have hkeeps := ry.ok (Nat.zero_le _) ht₁
    have hrunning := hkeeps.running habreast.running
    refine .of_quiet hrunning fun hlog => ?_
    rcases hmeets.ok ht₁ hlog with ⟨hloose, hstuck⟩ | ⟨a, s₁, hs₁, hR, habreast₁⟩
    · obtain ⟨loud, halts⟩ := halts hloose d
      exact .stuck (hkeeps.pass.trans habreast.second) (hkeeps.faithful habreast.faithful) hrunning
        hstuck
    · rw [bind_of_ok hs₁] at hknown ⊢
      exact (hf a d hR).run (hP hstart hs₁ ht₁) (forward.le hpos hs₁) habreast₁
        (hknown.keeps habreast.second hkeeps)

theorem ite {p : Prop} [Decidable p] {x' : Walk α} {y' : Walk β}
    (h : p → MarchesFrom P k l b o x y Q o') (h' : ¬ p → MarchesFrom P k l b o x' y' Q o') :
    MarchesFrom P k l b o (if p then x else x') (if p then y else y') Q o' := by
  split
  · next hp => exact h hp
  · next hp => exact h' hp

end MarchesFrom

/-- Two runs that start abreast meet. -/
structure Marches (k : Mode) (isLoose : Bool) (b : Nat) (o : Nat → Prop) (x : Walk α) (y : Walk β)
    (Q : α → β → Prop) (o' : β → Nat → Prop) : Prop where
  run : ∀ {s t : State}, b ≤ s.pos → Abreast k o s t → Known k (x s) t →
    Meets k isLoose Q o' (x s) (y t)

theorem MarchesFrom.of {P : State → State → Prop} {b : Nat} {o : Nat → Prop} {x : Walk α}
    {y : Walk β} {Q : α → β → Prop} {o' : β → Nat → Prop}
    (h : ∀ s t, P s t → Marches k l b o x y Q o') : MarchesFrom P k l b o x y Q o' :=
  ⟨fun hP => (h _ _ hP).run⟩

namespace Marches

variable {b : Nat} {o : Nat → Prop} {x : Walk α} {y : Walk β} {turn : α → Walk (Turn α β)}
  {f : α → Walk γ} {Q R : α → β → Prop} {o' o₁ : β → Nat → Prop} {g : β → Walk δ}
  {o₂ : δ → Nat → Prop}

theorem ok {d : β} (h : Marches k l b o x y Q o') (hpos : b ≤ s.pos) (habreast : Abreast k o s t)
    (hknown : Known k (x s) t) (hrun : y t = .ok d t') (hlog : t'.log.hasErrors = false) :
    (l = true ∧ Stuck t') ∨ ∃ a s', x s = .ok a s' ∧ Q a d ∧ Abreast k (o' d) s' t' :=
  (h.run hpos habreast hknown).ok hrun hlog

theorem stop {e : Stop} (h : Marches k l b o x y Q o') (hpos : b ≤ s.pos)
    (habreast : Abreast k o s t) (hknown : Known k (x s) t) (hrun : y t = .error e t') :
    Accounted e t' :=
  (h.run hpos habreast hknown).stop hrun

theorem of_agrees [rx : ∀ b, Respects .plain b x] [ry : Respects .plain 0 y]
    (h : AgreesOn l x y Q) : Marches k l b o x y Q (fun _ => o) where
  run {s t} hpos habreast hknown := by
    have loud : Respects .loud 0 y := ry.weaken
    refine ⟨fun hrun _ => ?_, habreast.accounted⟩
    rcases h.run habreast.toLevel hrun with hdoomed | hstuck | ⟨a, s', hs', hpos', hq⟩
    · exact absurd hdoomed hknown.ends
    · exact .inl hstuck
    · have hs := (rx s.pos).ok (Nat.le_refl _) hs'
      exact .inr ⟨a, s', hs', hq, habreast.keeps ((rx 0).ok (Nat.zero_le _) hs')
        (ry.ok (Nat.zero_le _) hrun) hpos' (hs.onward (.inl rfl))⟩

theorem mono {Q' : α → β → Prop} {o₂ : β → Nat → Prop} (h : Marches k l b o x y Q o₁)
    (hQ : ∀ a d, Q a d → Q' a d) (ho : ∀ d id, o₁ d id → o₂ d id) : Marches k l b o x y Q' o₂ where
  run hpos habreast hknown :=
    (h.run hpos habreast hknown).mono fun _ hq habreast => ⟨hQ _ _ hq, habreast.mono (ho _)⟩

/-- Runs from a later token on. -/
theorem later {b' : Nat} (h : Marches k l b o x y Q o') (hle : b ≤ b') :
    Marches k l b' o x y Q o' :=
  ⟨fun hpos => h.run (Nat.le_trans hle hpos)⟩

theorem bind_halts {l' : Bool} {Q : γ → δ → Prop} [Forward b x] [Respects .any 0 y]
    [∀ b a, Respects .any b (f a)] [∀ d, Respects .any 0 (g d)]
    (halts : l' = true → ∀ d, Respects .loud 0 (g d) ∧ Halts l (g d))
    (hx : Marches k l' b o x y R o₁)
    (hf : ∀ a d, R a d → Marches k l b (o₁ d) (f a) (g d) Q o₂) :
    Marches k l b o (x >>= f) (y >>= g) Q o₂ := by
  have hall : MarchesFrom (fun _ _ => True) k l b o (x >>= f) (y >>= g) Q o₂ :=
    .bind (S := fun _ _ => True) halts (.of fun _ _ _ => hx) (fun _ _ _ => trivial)
      fun a d hR => .of fun _ _ _ => hf a d hR
  exact ⟨hall.run trivial⟩

/-- One rule after the other. -/
theorem bind {Q : γ → δ → Prop} [Forward b x] [Respects .any 0 y] [∀ b a, Respects .any b (f a)]
    [∀ d, Respects .any 0 (g d)] (hx : Marches k false b o x y R o₁)
    (hf : ∀ a d, R a d → Marches k l b (o₁ d) (f a) (g d) Q o₂) :
    Marches k l b o (x >>= f) (y >>= g) Q o₂ :=
  bind_halts (absurd · Bool.false_ne_true) hx hf

/-- The same where what follows is known to respect the record only by cases. -/
theorem seq {Q : γ → δ → Prop} (forward : Forward b x) (ry : Respects .any 0 y)
    (rf : ∀ b a, Respects .any b (f a)) (rg : ∀ d, Respects .any 0 (g d))
    (hx : Marches k false b o x y R o₁)
    (hf : ∀ a d, R a d → Marches k l b (o₁ d) (f a) (g d) Q o₂) :
    Marches k l b o (x >>= f) (y >>= g) Q o₂ :=
  bind hx hf

/-- Nothing is declared by the first of two rules, of which the tokens are known between
    which it ran. -/
theorem bind_between {l' : Bool} {Q : γ → δ → Prop} [rx : ∀ b, Respects .plain b x]
    [ry : Respects .plain 0 y]
    (halts : l' = true → ∀ d, Respects .loud 0 (g d) ∧ Halts l (g d))
    {P : Nat → α → Nat → Prop} (hP : ∀ {s a s'}, x s = .ok a s' → P s.pos a s'.pos)
    (hx : AgreesOn l' x y R) (hf : ∀ start a d next, b ≤ start → start ≤ next →
      P start a next → R a d → Marches k l next o (f a) (g d) Q o₂) :
    Marches k l b o (x >>= f) (y >>= g) Q o₂ where
  run {s t} hpos habreast hknown := by
    have loud : Respects .loud 0 y := ry.weaken
    refine .bind habreast.accounted fun d t₁ ht₁ => ?_
    have hkeeps := ry.ok (Nat.zero_le _) ht₁
    rcases hx.run habreast.toLevel ht₁ with hdoomed | ⟨hloose, hstuck⟩ | ⟨a, s₁, hs₁, hpos₁, hR⟩
    -- The compilation would have ended in the first walk.
    · exact absurd hdoomed.bind hknown.ends
    · obtain ⟨loud, halts⟩ := halts hloose d
      exact .stuck (hkeeps.pass.trans habreast.second) (hkeeps.faithful habreast.faithful)
        (hkeeps.running habreast.running) hstuck
    · have hle : s.pos ≤ s₁.pos := ((rx s.pos).ok (Nat.le_refl _) hs₁).onward (.inl rfl)
      rw [bind_of_ok hs₁] at hknown ⊢
      exact (hf s.pos a d s₁.pos hpos hle (hP hs₁) hR).run (Nat.le_refl _)
        (habreast.keeps ((rx 0).ok (Nat.zero_le _) hs₁) hkeeps hpos₁ hle)
        (hknown.keeps habreast.second hkeeps)

/-- Nothing is declared by the first of two rules. -/
theorem bind_plain {Q : γ → δ → Prop} [rx : ∀ b, Respects .plain b x] [ry : Respects .plain 0 y]
    (hx : AgreesOn false x y R) (hf : ∀ a d, R a d → Marches k l b o (f a) (g d) Q o₂) :
    Marches k l b o (x >>= f) (y >>= g) Q o₂ :=
  bind_between (absurd · Bool.false_ne_true) (P := fun _ _ _ => True) (fun _ => trivial) hx
    fun _ a d _ hfrom hle _ hR => (hf a d hR).later (Nat.le_trans hfrom hle)

theorem bind_blind {x : Walk γ} {f : γ → Walk α} {g : γ → Walk β} {o₂ : β → Nat → Prop} [Blind x]
    [∀ b, Respects .plain b x] (hf : ∀ c, Marches k l b o (f c) (g c) Q o₂) :
    Marches k l b o (x >>= f) (x >>= g) Q o₂ :=
  bind_plain .blind fun a _ h => h ▸ hf a

theorem bind_still {x : Walk γ} {y : Walk δ} {f : γ → Walk α} {g : δ → Walk β} {o₂ : β → Nat → Prop}
    [Still .declare x] [Still .emit y] [∀ b, Respects .plain b x] [Respects .plain 0 y]
    (hf : ∀ a c, Marches k l b o (f a) (g c) Q o₂) : Marches k l b o (x >>= f) (y >>= g) Q o₂ :=
  bind_plain (R := fun _ _ => True) .still fun a c _ => hf a c

theorem never [hy : Never y] [Respects .loud 0 y] [Candid y] : Marches k l b o x y Q o' where
  run _ habreast _ := ⟨fun hrun => absurd hrun (hy.ne_ok _ _ _), habreast.accounted⟩

theorem pure {a : α} {d : β} (h : Q a d) (ho : ∀ id, o id → o' d id) :
    Marches k l b o (Pure.pure a) (Pure.pure d) Q o' where
  run {s _} _ habreast _ := by
    refine ⟨fun hrun _ => ?_, fun hrun => by cases hrun⟩
    cases hrun
    exact .inr ⟨a, s, rfl, h, habreast.mono ho⟩

/-- What both states have, related in some way. -/
theorem bind_view {f : State → γ} {f' : State → δ} {R : γ → δ → Prop} {g : γ → Walk α}
    {g' : δ → Walk β} (hf : ∀ s t, Abreast k o s t → R (f s) (f' t))
    (hg : ∀ c d, R c d → Marches k l b o (g c) (g' d) Q o') :
    Marches k l b o (view f >>= g) (view f' >>= g') Q o' where
  run {s t} hpos habreast hknown := by
    rw [view_bind] at hknown ⊢
    rw [view_bind]
    exact (hg _ _ (hf s t habreast)).run hpos habreast hknown

/-- A token is taken whose position is the key of what follows. -/
theorem header {f : Nat → Walk α} {g : Nat → Walk β}
    (h : ∀ index, Marches k l (index + 1) o (f index) (g index) Q o') :
    Marches k l b o (position >>= fun index => skip >>= fun _ => f index)
      (position >>= fun index => skip >>= fun _ => g index) Q o' where
  run {s t} hpos habreast hknown := by
    show Meets k l Q o' (f s.pos { s with pos := s.pos + 1 }) (g t.pos { t with pos := t.pos + 1 })
    rw [habreast.pos]
    exact (h s.pos).run (Nat.le_refl _) (habreast.moved (Nat.le_succ _)) hknown.moved

/-- A loose rule in front of what gets nowhere when stuck. -/
theorem bind_loose {Q : γ → δ → Prop} [Forward b x] [Respects .any 0 y]
    [∀ b a, Respects .any b (f a)] [rg : ∀ d, Respects .loud 0 (g d)]
    [halts : ∀ d, Halts l (g d)] (hx : Marches k true b o x y R o₁)
    (hf : ∀ a d, R a d → Marches k l b (o₁ d) (f a) (g d) Q o₂) :
    Marches k l b o (x >>= f) (y >>= g) Q o₂ :=
  have _any : ∀ d, Respects .any 0 (g d) := fun d => (rg d).weaken
  bind_halts (fun _ d => ⟨rg d, halts d⟩) hx hf

theorem seq_loose {Q : γ → δ → Prop} (forward : Forward b x) (ry : Respects .any 0 y)
    (rf : ∀ b a, Respects .any b (f a)) (rg : ∀ d, Respects .loud 0 (g d))
    (halts : ∀ d, Halts l (g d)) (hx : Marches k true b o x y R o₁)
    (hf : ∀ a d, R a d → Marches k l b (o₁ d) (f a) (g d) Q o₂) :
    Marches k l b o (x >>= f) (y >>= g) Q o₂ :=
  bind_loose hx hf

/-- A loose rule that declares nothing. -/
theorem bind_agrees {Q : γ → δ → Prop} [∀ b, Respects .plain b x] [Respects .plain 0 y]
    [rg : ∀ d, Respects .loud 0 (g d)] [halts : ∀ d, Halts l (g d)] (hx : AgreesOn true x y R)
    (hf : ∀ a d, R a d → Marches k l b o (f a) (g d) Q o₂) :
    Marches k l b o (x >>= f) (y >>= g) Q o₂ :=
  bind_between (fun _ d => ⟨rg d, halts d⟩) (P := fun _ _ _ => True) (fun _ => trivial) hx
    fun _ a d _ hfrom hle _ hR => (hf a d hR).later (Nat.le_trans hfrom hle)

/-- Both walks take as many turns. -/
theorem iterate {turn' : α → Walk (Turn α β)} (r : ∀ b a, Respects .any b (turn a))
    (r' : ∀ a, Respects .any 0 (turn' a))
    (halts : l = true → ∀ a, Respects .loud 0 (turn' a) ∧ Halts l (turn' a))
    (h : ∀ a, Marches k l b o (turn a) (turn' a) Eq fun _ => o) (n : Nat) (a : α) :
    Marches k l b o (Walk.iterate turn n a) (Walk.iterate turn' n a) Eq fun _ => o := by
  induction n generalizing a with
  | zero => exact never (y := (throw .broken : Walk β))
  | succ n ih =>
    have forward : Forward b (turn a) := have := r b a; inferInstance
    have first := r' a
    have rest := fun b => Respects.rest (r b) n
    have rest' := Respects.rest r' n
    refine bind_halts (fun hl t => ⟨.rest (fun a => (halts hl a).1) n t, ?_⟩) (h a) ?_
    · subst hl
      cases t with
      | again a => exact .iterate (fun a => (halts rfl a).2) n a
      | done c => exact inferInstanceAs (Halts true (Pure.pure c : Walk β))
    · rintro t _ ⟨⟩
      cases t with
      | again a => exact ih a
      | done c => exact .pure rfl fun _ h => h

theorem loop (r : ∀ b a, Respects .any b (turn a))
    (h : ∀ a, Marches k false b o (turn a) (turn a) Eq fun _ => o) (a : α) :
    Marches k false b o (Walk.loop a turn) (Walk.loop a turn) Eq fun _ => o :=
  bind_blind fun n => iterate r (r 0) (absurd · Bool.false_ne_true) h (n + 1) a

/-- The same with turns that may leave the second walk stuck. -/
theorem loop_loose {turn' : α → Walk (Turn α β)} (r : ∀ b a, Respects .any b (turn a))
    (r' : ∀ a, Respects .loud 0 (turn' a)) (halts : ∀ a, Halts true (turn' a))
    (h : ∀ a, Marches k true b o (turn a) (turn' a) Eq fun _ => o) (a : α) :
    Marches k true b o (Walk.loop a turn) (Walk.loop a turn') Eq fun _ => o :=
  bind_blind fun n =>
    iterate r (fun a => (r' a).weaken) (fun _ a => ⟨r' a, halts a⟩) h (n + 1) a

theorem ite {p : Prop} [Decidable p] {x' : Walk α} {y' : Walk β} (h : p → Marches k l b o x y Q o')
    (h' : ¬ p → Marches k l b o x' y' Q o') :
    Marches k l b o (if p then x else x') (if p then y else y') Q o' := by
  split
  · next hp => exact h hp
  · next hp => exact h' hp

theorem ite_right {p : Prop} [Decidable p] {y' : Walk β} (h : p → Marches k l b o x y Q o')
    (h' : ¬ p → Marches k l b o x y' Q o') : Marches k l b o x (if p then y else y') Q o' := by
  split
  · next hp => exact h hp
  · next hp => exact h' hp

theorem emitting_left {f : Bool → Walk α} (h : Marches k l b o (f false) y Q o') :
    Marches k l b o (Walk.emitting >>= f) y Q o' where
  run hpos habreast hknown := by
    rw [emitting_bind_declare habreast.first] at hknown ⊢
    exact h.run hpos habreast hknown

theorem emitting_right {g : Bool → Walk β} (h : Marches k l b o x (g true) Q o') :
    Marches k l b o x (Walk.emitting >>= g) Q o' where
  run hpos habreast hknown := by
    rw [emitting_bind_emit habreast.second]
    exact h.run hpos habreast hknown

/-- Each walk takes its own branch. -/
theorem emitting {f : Bool → Walk α} {g : Bool → Walk β}
    (h : Marches k l b o (f false) (g true) Q o') :
    Marches k l b o (Walk.emitting >>= f) (Walk.emitting >>= g) Q o' :=
  emitting_left (emitting_right h)

/-- Code in the second walk only. -/
theorem right {y : Walk γ} {g : γ → Walk β} [Still .emit y] [Respects .plain 0 y]
    (h : ∀ c, Marches k l b o x (g c) Q o') : Marches k l b o x (y >>= g) Q o' :=
  bind_still (x := (Pure.pure () : Walk Unit)) (f := fun _ => x) fun _ c => h c

/-- Code in the first walk only. -/
theorem left {x : Walk γ} {f : γ → Walk α} [Still .declare x] [∀ b, Respects .plain b x]
    (h : ∀ c, Marches k l b o (f c) y Q o') : Marches k l b o (x >>= f) y Q o' :=
  bind_still (y := (Pure.pure () : Walk Unit)) (g := fun _ => y) fun c _ => h c

theorem inFunction {f : Bool → Walk α} {g : Bool → Walk β}
    (h : ∀ isInner, Marches k l b o (f isInner) (g isInner) Q o') :
    Marches k l b o (Walk.inFunction >>= f) (Walk.inFunction >>= g) Q o' :=
  bind_view (R := Eq) (fun s t habreast => by rw [habreast.alike.function]) fun c _ hc => hc ▸ h c

/-- A rule in front that depends on the tokens alone, with what is known of its outcome and
    of the tokens between which it ran. -/
theorem bind_facts {x : Walk γ} [Blind x] [∀ b, Respects .plain b x] {P : Nat → γ → Nat → Prop}
    (hP : ∀ {s a s'}, x s = .ok a s' → P s.pos a s'.pos) {f : γ → Walk α} {g : γ → Walk β}
    (h : ∀ start a next, b ≤ start → start ≤ next → P start a next →
      Marches k l next o (f a) (g a) Q o') : Marches k l b o (x >>= f) (x >>= g) Q o' :=
  bind_between (absurd · Bool.false_ne_true) hP .blind fun start a _ next hfrom hle ha heq =>
    heq ▸ h start a next hfrom hle ha

/-- The position in front of a rule that takes a token is the key of what follows. -/
theorem position {x : Walk γ} [Blind x] [rx : ∀ b, Respects .plain b x]
    (htakes : ∀ {s a s'}, x s = .ok a s' → s.pos < s'.pos) {f : Nat → γ → Walk α}
    {g : Nat → γ → Walk β} (h : ∀ index a, Marches k l (index + 1) o (f index a) (g index a) Q o') :
    Marches k l b o (Walk.position >>= fun index => x >>= f index)
      (Walk.position >>= fun index => x >>= g index) Q o' := by
  -- Both rules together go by the tokens alone.
  have marches : Marches k l b o
      ((do let index ← Walk.position; let a ← x; return (index, a)) >>= fun c => f c.1 c.2)
      ((do let index ← Walk.position; let a ← x; return (index, a)) >>= fun c =>
        g c.1 c.2) Q o' := by
    refine bind_facts (P := fun start c next => c.1 = start ∧ start < next)
      (fun {s c s'} hrun => ?_)
      fun start c next _ _ ⟨hc, hlt⟩ => ?_
    · rw [position_bind] at hrun
      obtain ⟨a, s₁, hs₁, hrun⟩ := bind_eq_ok.1 hrun
      cases hrun
      exact ⟨rfl, htakes hs₁⟩
    · subst hc
      exact (h c.1 c.2).later hlt
  simp only [bind_assoc, pure_bind] at marches
  exact marches

/-- A rule for functions only. -/
theorem requireFunction {f : Unit → Walk α} {g : Unit → Walk β} (what : String)
    (h : Marches k.within l b o (f ()) (g ()) Q o') :
    Marches k l b o (Walk.requireFunction what >>= f) (Walk.requireFunction what >>= g) Q o' := by
  have passed : ∀ {s : State} {γ : Type} {f : Unit → Walk γ}, s.function ≠ globalScope →
      (Walk.requireFunction what >>= f) s = f () s := by
    intro s γ f hfunction
    unfold Walk.requireFunction Walk.inFunction
    rw [bind_assoc, view_bind, bne_iff_ne.2 hfunction]
    rfl
  have failed : ∀ {t : State}, t.function = globalScope → ∃ message,
      (Walk.requireFunction what >>= g) t =
        ((errorHere .invalidScope message : Walk Unit) >>= g) t := by
    intro t hfunction
    refine ⟨s!"{what} are only allowed inside functions", ?_⟩
    unfold Walk.requireFunction Walk.inFunction
    rw [bind_assoc, view_bind, hfunction]
    rfl
  constructor
  intro s t hpos habreast hknown
  -- Both are in a function or neither is. In the latter case the second walk reports it.
  by_cases hfunction : s.function = globalScope
  · obtain ⟨message, hfail⟩ := failed (habreast.alike.function.trans hfunction)
    have loud : Respects .loud 0 (errorHere .invalidScope message : Walk Unit) := inferInstance
    rw [hfail]
    exact .bind habreast.accounted fun _ _ hok => absurd hok (Never.ne_ok _ _ _)
  · rw [passed hfunction] at hknown ⊢
    rw [passed (habreast.alike.function ▸ hfunction)]
    exact (h.run hpos (habreast.within hfunction) hknown.within).mono
      fun _ hq habreast => ⟨hq, habreast.of_within⟩

end Marches

/-! ### Symbols by token -/

/-- What the first walk gets when it makes a symbol. -/
structure Brought (p : SymbolKind → Prop) (s : State) (id : Nat) (s₁ : State) : Prop where
  tokens : s₁.tokens = s.tokens
  pass : s₁.pass = s.pass
  pos : s₁.pos = s.pos
  control : s₁.control = s.control
  declared : s₁.declared = s.declared
  fits : Fits s.table → Fits s₁.table
  formed : s.table.WellFormed → s₁.table.WellFormed
  kind : ∃ k, s₁.table.kind? id = some k ∧ p k

/-- Makes a symbol of a kind in the first walk, or ends the compilation. -/
def Brings (p : SymbolKind → Prop) (create : Walk Nat) : Prop :=
  ∀ s, s.pass = .declare → Doomed (create s) ∨ ∃ id s₁, create s = .ok id s₁ ∧ Brought p s id s₁

theorem Brings.of_plain {p : SymbolKind → Prop} [still : Still .declare create]
    [plain : Respects .plain 0 create]
    (hkind : ∀ s id s₁, create s = .ok id s₁ → ∃ k, s₁.table.kind? id = some k ∧ p k) :
    Brings p create := by
  intro s hpass
  rcases doomed_or_ok (still.lasts rfl s hpass) with h | ⟨id, s₁, hrun⟩
  · exact .inl h
  · have hkeeps := plain.ok (Nat.zero_le _) hrun
    obtain ⟨hdeclared, -, hliterals, -, -⟩ := hkeeps.plain (Nat.le_refl _)
    exact .inr ⟨id, s₁, hrun, hkeeps.tokens, hkeeps.pass, (still.stays hpass hrun).1,
      hkeeps.control, hdeclared, hliterals.fits, hkeeps.wellFormed, hkind s id s₁ hrun⟩

theorem Brings.target (function : Nat) (name : String) :
    Brings (·.isTarget = true) (addSymbol function name (.target none)) := by
  intro s _
  unfold addSymbol
  dsimp only
  split
  · next hscope =>
    refine .inr ⟨_, _, rfl, rfl, rfl, rfl, rfl, rfl, fun hfits id v l hv hl => ?_,
      fun h => h.add hscope name (by intro f hf; cases hf), .target none, ?_, rfl⟩
    · rw [Table.var?, Table.kind?_add] at hv
      split at hv
      · cases hv
      · exact hfits id v l hv hl
    · rw [Table.kind?_add, if_pos rfl]
  · exact .inl (.inr rfl)

theorem keyed_of_declare {index : Nat} {role : Role} {create : Walk Nat} {s s₁ : State} {id : Nat}
    (hpass : s.pass = .declare) (hrun : create s = .ok id s₁) : keyed index role create s = .ok id
      { s₁ with declared := ⟨index, role, id, s₁.function, s₁.regions⟩ :: s₁.declared } := by
  unfold keyed
  rw [emitting_bind_declare hpass, if_neg Bool.false_ne_true, record, bind_of_ok hrun]
  rfl

theorem keyed_of_doomed {index : Nat} (hpass : s.pass = .declare) (hdoomed : Doomed (create s)) :
    Doomed (keyed index role create s) := by
  unfold keyed
  rw [emitting_bind_declare hpass, if_neg Bool.false_ne_true, record]
  exact hdoomed.bind

/-- In the first walk `x` declares nothing for a token in a role, and stays behind it. -/
class Avoids (index : Nat) (role : Role) (x : Walk α) : Prop where
  run : ∀ s : State, s.pass = .declare → index < s.pos → ¬ Doomed (x s) →
    (final (x s)).pass = .declare ∧ index < (final (x s)).pos ∧
      ∃ new, (final (x s)).declared = new ++ s.declared ∧ ∀ d ∈ new, d.token = index → d.role ≠ role

instance (priority := low) (index : Nat) (x : Walk α) [hx : ∀ b, Respects .any b x] :
    Avoids index role x where
  run s hpass hpos hends := by
    have hkeeps := (hx (index + 1)).run s hpos
    obtain ⟨new, hnew, adds⟩ := hkeeps.records
    refine ⟨hkeeps.pass.trans hpass, hkeeps.onward (ending_of_not_doomed hends), new, hnew, ?_⟩
    intro d hd htoken
    have := adds d hd
    omega

instance (index : Nat) (x : Walk α) (f : α → Walk β) [hx : Avoids index role x]
    [hf : ∀ a, Avoids index role (f a)] : Avoids index role (x >>= f) where
  run s hpass hpos hends := by
    cases hrun : x s with
    | error e s₁ =>
      have h := hx.run s hpass hpos fun h => hends h.bind
      rw [hrun] at h
      rw [bind_of_error hrun]
      exact h
    | ok a s₁ =>
      rw [bind_of_ok hrun] at hends ⊢
      have h := hx.run s hpass hpos (hrun ▸ not_doomed_ok a s₁)
      rw [hrun] at h
      obtain ⟨hpass₁, hpos₁, new, hnew, hroles⟩ := h
      dsimp only [final] at hnew
      obtain ⟨hpass₂, hpos₂, new', hnew', hroles'⟩ := (hf a).run s₁ hpass₁ hpos₁ hends
      refine ⟨hpass₂, hpos₂, new' ++ new, ?_, fun d hd => ?_⟩
      · rw [hnew', hnew, List.append_assoc]
      · rcases List.mem_append.1 hd with hd | hd
        · exact hroles' d hd
        · exact hroles d hd

/-- A symbol for the same token in another role, or for another token. -/
theorem Avoids.keyed {p : SymbolKind → Prop} {index index' : Nat} {role role' : Role}
    {create : Walk Nat} (hcreate : Brings p create) (hkey : index' = index → role' ≠ role) :
    Avoids index role (keyed index' role' create) where
  run s hpass hpos hends := by
    rcases hcreate s hpass with hdoomed | ⟨id, s₁, hrun, hbrought⟩
    · exact absurd (keyed_of_doomed hpass hdoomed) hends
    · rw [keyed_of_declare hpass hrun]
      refine ⟨hbrought.pass.trans hpass, show index < s₁.pos from hbrought.pos.symm ▸ hpos,
        [⟨index', role', id, s₁.function, s₁.regions⟩], congrArg (_ :: ·) hbrought.declared, ?_⟩
      intro d hd
      rw [List.mem_singleton] at hd
      subst hd
      exact hkey

/-- Two roles. -/
class Role.Differs (role role' : Role) : Prop where
  ne : role' ≠ role

instance : Role.Differs .otherwise .stop := ⟨by decide⟩
instance : Role.Differs .start .resume := ⟨by decide⟩
instance : Role.Differs .start .stop := ⟨by decide⟩
instance : Role.Differs .resume .stop := ⟨by decide⟩
instance : Role.Differs .counter .limit := ⟨by decide⟩
instance : Role.Differs .counter .start := ⟨by decide⟩
instance : Role.Differs .counter .resume := ⟨by decide⟩
instance : Role.Differs .counter .stop := ⟨by decide⟩
instance : Role.Differs .limit .start := ⟨by decide⟩
instance : Role.Differs .limit .resume := ⟨by decide⟩
instance : Role.Differs .limit .stop := ⟨by decide⟩
instance : Role.Differs .stop .value := ⟨by decide⟩
instance : Role.Differs .body .test := ⟨by decide⟩

instance (index : Nat) (role' : Role) [h : Role.Differs role role'] :
    Avoids index role (target index role') := by
  unfold target
  have avoids : ∀ function, Avoids index role
      (keyed index role' (addSymbol function "$target" (.target none))) :=
    fun function => .keyed (.target function _) fun _ => h.ne
  infer_instance

/-- The symbol that a local of the compiler's own is. -/
theorem Brings.internalLocal (function : Nat) (name : String) (type : ValueType) :
    Brings (·.isTarget = false) (do
      let ordinal ← allocateLocal
      change fun s => { s with internalVariables := s.internalVariables + 1 }
      addSymbol function name
        (.var { kind := .local, type, storage := .stack ordinal, used := true })) := by
  have counted : Respects .plain 0
      (change fun s => { s with internalVariables := s.internalVariables + 1 }) :=
    .of_under (fun s h => Keeps.beside s h ..) fun _ _ => rfl
  have counts : Still .declare
      (change fun s => { s with internalVariables := s.internalVariables + 1 }) :=
    .of_eq fun s => ⟨(), _, rfl, rfl, rfl⟩
  have allocates : Still .declare allocateLocal := .of_eq fun s => ⟨_, _, rfl, rfl, rfl⟩
  refine .of_plain fun s id s₁ hrun => ?_
  obtain ⟨ordinal, s', -, hrun⟩ := bind_eq_ok.1 hrun
  obtain ⟨_, s'', -, hrun⟩ := bind_eq_ok.1 hrun
  obtain ⟨-, rfl, rfl⟩ := addSymbol_eq_ok hrun
  exact ⟨_, by rw [Table.kind?_add, if_pos rfl], rfl⟩

instance (index : Nat) (role' : Role) [h : Role.Differs role role'] (name : String)
    (type : ValueType) : Avoids index role (internalLocal index role' name type) := by
  unfold internalLocal
  have avoids : ∀ function, Avoids index role (keyed index role' do
      let ordinal ← allocateLocal
      change fun s => { s with internalVariables := s.internalVariables + 1 }
      addSymbol function name
        (.var { kind := .local, type, storage := .stack ordinal, used := true })) :=
    fun function => .keyed (.internalLocal function name type) fun _ => h.ne
  infer_instance

/-- The newest record for a token in a role, if none is put in front of it. -/
theorem find?_record {index : Nat} {later : List Declared} (d : Declared) (older : List Declared)
    (hd : d.token = index ∧ d.role = role) (hlater : ∀ r ∈ later, r.token = index → r.role ≠ role) :
    (later ++ d :: older).find? (fun r => r.token == index && r.role == role) = some d := by
  rw [List.find?_append, List.find?_eq_none.2, Option.none_or, List.find?_cons_of_pos]
  · simp [hd]
  · intro r hr
    have := hlater r hr
    simpa using this

/-- The first walk makes a symbol for a token, and the second finds one again. It is the
    same if the walks are close. -/
theorem Abreast.keyed {o : Nat → Prop} {p : SymbolKind → Prop} {index : Nat} {role : Role}
    {create create' : Walk Nat} {f : Nat → Walk α} {s t t₂ : State} {id' : Nat}
    (h : Abreast k o s t) (hindex : index < s.pos) (hcreate : Brings p create)
    [avoids : ∀ id, Avoids index role (f id)] [hgrows : ∀ id, Respects .any 0 (f id)]
    (hknown : Known k ((Walk.keyed index role create >>= f) s) t)
    (hfound : Walk.keyed index role create' t = .ok id' t₂) :
    ∃ id s₁ s₂, create s = .ok id s₁ ∧ Brought p s id s₁ ∧
      Walk.keyed index role create s = .ok id s₂ ∧
      s₂ = { s₁ with declared := ⟨index, role, id, s₁.function, s₁.regions⟩ :: s₁.declared } ∧
      (k.isClose = true → id' = id ∧ s₁.table.Grows t₂.table) ∧
      Abreast k (fun j => o j ∨ j = id') s₂ t₂ ∧ Known k (f id s₂) t₂ := by
  rcases hcreate s h.first with hdoomed | ⟨id, s₁, hrun, hbrought⟩
  · exact absurd (keyed_of_doomed h.first hdoomed).bind hknown.ends
  have hkeyed := @keyed_of_declare index role _ _ _ _ h.first hrun
  have hcontrol := hbrought.control
  simp only [State.control, Prod.mk.injEq] at hcontrol
  obtain ⟨hfunction, hscope, hloops, hregions⟩ := hcontrol
  rw [bind_of_ok hkeyed] at hknown
  -- If the second walk has got here, it has found some record.
  obtain ⟨d, hd, rfl, rfl⟩ := found_of_keyed h.second hfound
  -- In a close run it is the one just made, because all that comes later has another key.
  have hsame : k.isClose = true → d = ⟨index, role, id, s₁.function, s₁.regions⟩ ∧
      s₁.table.Grows t.table := by
    intro hk
    obtain ⟨-, hpast, new, hnew, hroles⟩ := (avoids id).run
      { s₁ with declared := ⟨index, role, id, s₁.function, s₁.regions⟩ :: s₁.declared }
      (hbrought.pass.trans h.first) (show index < s₁.pos from hbrought.pos ▸ hindex) hknown.ends
    obtain ⟨later, hlater, hbehind⟩ := (hknown.holds hk).later
    refine ⟨Option.some.inj (hd.symm.trans ?_), ((hgrows id).run
      { s₁ with declared := ⟨index, role, id, s₁.function, s₁.regions⟩ :: s₁.declared }
      (Nat.zero_le _)).table.trans (hknown.holds hk).table⟩
    rw [hlater, hnew, ← List.append_assoc]
    refine find?_record _ _ ⟨rfl, rfl⟩ fun r hr htoken => ?_
    rcases List.mem_append.1 hr with hr | hr
    · have := hbehind r hr
      omega
    · exact hroles r hr htoken
  refine ⟨id, s₁, _, hrun, hbrought, hkeyed, rfl, fun hk => ?_, ?_, ?_⟩
  · obtain ⟨rfl, hgrow⟩ := hsame hk
    exact ⟨rfl, hgrow⟩
  · refine ⟨⟨hbrought.pass.trans h.first, h.second, ?_, ?_, ?_, hbrought.fits h.fits, h.running⟩,
      ?_,
      hbrought.formed h.formed, h.faithful, ?_, fun hk => ?_⟩
    · exact h.tokens.trans hbrought.tokens.symm
    · exact h.pos.trans hbrought.pos.symm
    · show (s₁.loops.findSome? (·.counter)).isSome = _
      rw [hloops]
      exact h.counters
    · exact h.alike.control hbrought.control rfl
    · intro hk
      show s₁.function ≠ globalScope
      rw [hfunction]
      exact h.inside hk
    · have hclose := h.close hk
      obtain ⟨rfl, hgrow⟩ := hsame hk
      refine ⟨?_, ?_, ?_, ?_⟩
      · show _ :: t.recalled = _ :: s₁.declared
        rw [hclose.records, hbrought.declared, h.alike.function, hfunction, h.alike.regions,
          hregions]
      · intro d hd
        show d.token < s₁.pos
        rw [hbrought.pos]
        rcases List.mem_cons.1 hd with rfl | hd
        · exact hindex
        · rw [hbrought.declared] at hd
          exact hclose.past d hd
      · intro r hr
        rcases List.mem_cons.1 hr with rfl | hr
        · obtain ⟨kind, hkind, -⟩ := hbrought.kind
          exact hgrow.exists_kind ⟨kind, hkind⟩
        · exact hclose.exists_kind r hr
      · intro r hr hopen
        rcases List.mem_cons.1 hr with rfl | hr
        · exact absurd (.inr rfl) hopen
        · exact hclose.settled r hr fun ho => hopen (.inl ho)
  · exact ⟨hknown.ends, hknown.log, hknown.recorded,
      fun hk => ⟨(hknown.holds hk).table, (hknown.holds hk).later⟩⟩

/-- The second walk skips in silence only what the first has refused, and it misses nothing
    that the first has got through. -/
theorem Abreast.keyed_stop {p : SymbolKind → Prop} {index : Nat} {role : Role} {stop : Stop}
    {create create' : Walk Nat} {f : Nat → Walk α} {s t t' : State} (h : Abreast k o s t)
    (hcreate : Brings p create) [hgrows : ∀ id, Respects .any 0 (f id)]
    (hknown : Known k ((Walk.keyed index role create >>= f) s) t)
    (hrun : Walk.keyed index role create' t = .error stop t') : Accounted stop t' := by
  rcases @keyed_of_emit index role create' t h.second with
    ⟨d, -, hrun'⟩ | ⟨hrun', hrejected⟩ | ⟨-, hnone⟩
  · cases hrun.symm.trans hrun'
  · cases hrun.symm.trans hrun'
    exact ⟨fun _ => h.faithful hrejected, nofun⟩
  · rcases hcreate s h.first with hdoomed | ⟨id, s₁, hs₁, hbrought⟩
    · exact absurd (keyed_of_doomed h.first hdoomed).bind hknown.ends
    -- The first walk has made a record, and records stay.
    rw [bind_of_ok (keyed_of_declare h.first hs₁)] at hknown
    obtain ⟨later, hlater⟩ := hknown.recorded
    obtain ⟨new, hnew, -⟩ := ((hgrows id).run _ (Nat.zero_le _)).records
    have hmem : ⟨index, role, id, s₁.function, s₁.regions⟩ ∈ t.declared := by
      rw [hlater, hnew]
      simp
    have := List.find?_eq_none.1 hnone _ hmem
    simp at this

namespace Marches

variable {b : Nat} {o : Nat → Prop}

theorem keyed {p : SymbolKind → Prop} {index : Nat} {role : Role} {create create' : Walk Nat}
    {f : Nat → Walk α} {g : Nat → Walk β} {Q : α → β → Prop} {o' : β → Nat → Prop}
    (hindex : index < b) (hcreate : Brings p create) [∀ id, Avoids index role (f id)]
    [rf : ∀ id, Respects .any 0 (f id)]
    (h : ∀ id id', Marches k l b (fun j => o j ∨ j = id') (f id) (g id') Q o') :
    Marches k l b o (Walk.keyed index role create >>= f)
    (Walk.keyed index role create' >>= g) Q o' where
  run hpos habreast hknown := by
    refine .bind (habreast.keyed_stop hcreate hknown) fun id' t₂ ht₂ => ?_
    obtain ⟨id, s₁, s₂, -, hbrought, hs₂, rfl, -, habreast₂, hknown₂⟩ :=
      habreast.keyed (Nat.lt_of_lt_of_le hindex hpos) hcreate hknown ht₂
    rw [bind_of_ok hs₂]
    exact (h id id').run (hbrought.pos.symm ▸ hpos) habreast₂ hknown₂

/-- A target is open until it is bound. -/
theorem target {index : Nat} {role : Role} {f : Nat → Walk α} {g : Nat → Walk β} {Q : α → β → Prop}
    {o' : β → Nat → Prop} (hindex : index < b) [∀ id, Avoids index role (f id)]
    [rf : ∀ id, Respects .any 0 (f id)]
    (h : ∀ id id', Marches k l b (fun j => o j ∨ j = id') (f id) (g id') Q o') :
    Marches k l b o (Walk.target index role >>= f) (Walk.target index role >>= g) Q o' := by
  unfold Walk.target
  rw [bind_assoc, bind_assoc]
  refine bind_view (R := fun _ _ => True) (fun _ _ _ => trivial) fun function _ _ => ?_
  exact keyed hindex (.target function _) h

end Marches

theorem settled_of_kind {u t : Table} {k : SymbolKind} (hk : u.kind? id = some k)
    (hkind : k.isTarget = false) (hgrows : u.Grows t) : Settled t id :=
  Settled.mono ⟨k, hk, by rintro rfl; cases hkind⟩ hgrows

/-- What is no target is settled. -/
theorem Abreast.closed {kind : SymbolKind} {u : Table} (h : Abreast k (fun j => o j ∨ j = id) s t)
    (hk : u.kind? id = some kind) (hkind : kind.isTarget = false)
    (hgrows : k.isClose = true → u.Grows t.table) : Abreast k o s t := by
  refine { h with close := fun hclose => { h.close hclose with settled := fun r hr hopen => ?_ } }
  by_cases hid : r.symbol = id
  · rw [hid]
    exact settled_of_kind hk hkind (hgrows hclose)
  · exact (h.close hclose).settled r hr fun ho => ho.elim hopen hid

namespace Marches

variable {b : Nat} {o : Nat → Prop} {f : Nat → Walk α} {g : Nat → Walk β} {role : Role}
  {Q : α → β → Prop} {o' : β → Nat → Prop}

/-- A symbol other than a target, of a kind that is known where it has just been made. -/
theorem keyed_from {p : SymbolKind → Prop} {index : Nat} {create create' : Walk Nat}
    (hindex : index < b) (hcreate : Brings p create) (hp : ∀ k, p k → k.isTarget = false)
    [∀ id, Avoids index role (f id)] [rf : ∀ id, Respects .any 0 (f id)]
    (h : ∀ id id', MarchesFrom (fun s t => (∃ kind, s.table.kind? id = some kind ∧ p kind) ∧
      (k.isClose = true → id' = id ∧ s.table.Grows t.table)) k l b o (f id) (g id') Q o') :
    Marches k l b o (Walk.keyed index role create >>= f)
    (Walk.keyed index role create' >>= g) Q o' where
  run hpos habreast hknown := by
    refine .bind (habreast.keyed_stop hcreate hknown) fun id' t₂ ht₂ => ?_
    obtain ⟨id, s₁, s₂, -, hbrought, hs₂, rfl, hid, habreast₂, hknown₂⟩ :=
      habreast.keyed (Nat.lt_of_lt_of_le hindex hpos) hcreate hknown ht₂
    rw [bind_of_ok hs₂]
    refine (h id id').run ⟨hbrought.kind, hid⟩ (hbrought.pos.symm ▸ hpos) ?_ hknown₂
    obtain ⟨kind, hkind, hpk⟩ := hbrought.kind
    -- A symbol that is no target needs no binding.
    by_cases hk : k.isClose = true
    · obtain ⟨rfl, hgrows⟩ := hid hk
      exact habreast₂.closed hkind (hp kind hpk) fun _ => hgrows
    · exact { habreast₂ with close := fun h => absurd h hk }

/-- A symbol other than a target. -/
theorem keyed_closed {p : SymbolKind → Prop} {index : Nat} {create create' : Walk Nat}
    (hindex : index < b) (hcreate : Brings p create) (hp : ∀ k, p k → k.isTarget = false)
    [∀ id, Avoids index role (f id)] [rf : ∀ id, Respects .any 0 (f id)]
    (h : ∀ id id', (k.isClose = true → id' = id) → Marches k l b o (f id) (g id') Q o') :
    Marches k l b o (Walk.keyed index role create >>= f)
    (Walk.keyed index role create' >>= g) Q o' :=
  keyed_from hindex hcreate hp fun id id' => .of fun _ _ hP => h id id' fun hk => (hP.2 hk).1

/-- A local of the compiler's own. -/
theorem internalLocal {index : Nat} {name : String} {type type' : ValueType} (hindex : index < b)
    [∀ id, Avoids index role (f id)] [rf : ∀ id, Respects .any 0 (f id)]
    (h : ∀ id id', Marches k l b o (f id) (g id') Q o') :
    Marches k l b o (Walk.internalLocal index role name type >>= f)
      (Walk.internalLocal index role name type' >>= g) Q o' := by
  have visible : ∀ p id, Still p (makeVisible id) := by
    intro p id
    refine .of_eq fun s => ?_
    obtain ⟨blocks, hrun⟩ := makeVisible_eq id s
    exact ⟨(), _, hrun, rfl, rfl⟩
  unfold Walk.internalLocal
  simp only [bind_assoc]
  refine bind_view (R := fun _ _ => True) (fun _ _ _ => trivial) fun function _ _ => ?_
  refine keyed_closed hindex (.internalLocal function name type) (fun _ hk => hk) fun id id' _ => ?_
  have := visible .declare id
  have := visible .emit id'
  exact bind_still fun _ _ => h id id'

end Marches

/-- A target that has got a place is settled. -/
theorem settled_placed {t : Table} {place : Nat} (h : ∃ k, t.kind? id = some k) :
    Settled (t.modifyKind id (placed place)) id := by
  obtain ⟨k, hk⟩ := h
  refine ⟨placed place k, ?_, by cases k <;> nofun⟩
  rw [Table.kind?_modifyKind, if_pos rfl, hk]
  rfl

theorem grows_placed (t : Table) (id place : Nat) : t.Grows (t.modifyKind id (placed place)) := by
  refine Table.grows_modifyKind fun k _ => ?_
  cases k with
  | target bound => exact .ofTarget ..
  | _ => exact .refl _

/-- The second walk binds a target. -/
theorem Abreast.bound (h : Abreast k o s t) (id : Nat) :
    Abreast k (fun j => o j ∧ j ≠ id) s (t.bind id) := by
  have hgrows := grows_placed t.table id t.here
  refine ⟨{ h.toLevel with }, h.alike.control rfl rfl, h.formed, h.faithful, h.inside, fun hk => ?_⟩
  have hclose := h.close hk
  refine { hclose with exists_kind := ?_, settled := ?_ }
  · intro r hr
    exact hgrows.exists_kind (hclose.exists_kind r hr)
  · intro r hr hopen
    by_cases hid : r.symbol = id
    · rw [hid]
      exact settled_placed (hid ▸ hclose.exists_kind r hr)
    · exact (hclose.settled r hr fun ho => hopen ⟨ho, hid⟩).mono hgrows

namespace Marches

variable {b : Nat} {o : Nat → Prop}

theorem bindTarget (id id' : Nat) : Marches k l b o (Walk.bind id) (Walk.bind id')
    (fun _ _ => True) (fun _ j => o j ∧ j ≠ id') where
  run {s t} _ habreast _ := by
    refine ⟨fun hrun _ => ?_, fun hrun => ?_⟩
    · rw [state_of_bind habreast.second hrun]
      exact .inr ⟨(), s, bind_of_declare habreast.first, trivial, habreast.bound id'⟩
    · rcases bind_of_emit id' habreast.second with h | h <;> cases h.symm.trans hrun
      exact ⟨nofun, nofun⟩

end Marches

/-! ### Checks of the first walk -/

/-- A walk that changes nothing where it succeeds. In the first walk it fails with an
    error, or it ends the compilation. -/
class Checks (x : Walk α) : Prop where
  run : ∀ s : State, s.pass = .declare →
    (∃ a, x s = .ok a s) ∨ Doomed (x s) ∨ ∃ e s', x s = .error e s' ∧ s'.log.hasErrors = true

instance (a : α) : Checks (pure a : Walk α) := ⟨fun _ _ => .inl ⟨a, rfl⟩⟩

instance (f : State → α) : Checks (view f) := ⟨fun s _ => .inl ⟨f s, rfl⟩⟩

instance (holds : State → Bool) : Checks (ensure holds) where
  run s _ := by
    rcases ensure_cases holds s with ⟨hrun, -⟩ | hrun
    · exact .inl ⟨(), hrun⟩
    · rw [hrun]
      exact .inr (.inl (.inr rfl))

instance : Checks (symbol id) where
  run s _ := by
    unfold symbol
    split
    · exact .inl ⟨_, rfl⟩
    · exact .inr (.inl (.inr rfl))

instance (x : Walk α) (f : α → Walk β) [hx : Checks x] [hf : ∀ a, Checks (f a)] :
    Checks (x >>= f) where
  run s hpass := by
    rcases hx.run s hpass with ⟨a, hrun⟩ | hdoomed | ⟨e, s', hrun, hlog⟩
    · rw [bind_of_ok hrun]
      exact (hf a).run s hpass
    · exact .inr (.inl hdoomed.bind)
    · exact .inr (.inr ⟨e, s', bind_of_error hrun, hlog⟩)

instance (p : Prop) [Decidable p] (x y : Walk α) [hx : Checks x] [hy : Checks y] :
    Checks (if p then x else y) := by
  split
  · exact hx
  · exact hy

theorem reject_of_declare {index : Nat} {code : Code} {message : String} {s : State}
    (hpass : s.pass = .declare) : ∃ s', (reject index code message : Walk α) s =
      .error .abandoned s' ∧ s'.log.hasErrors = true := by
  unfold reject refuse
  rw [bind_assoc, emitting_bind_declare hpass]
  refine ⟨_, rfl, hasErrors_push_error s.log ?_⟩
  rfl

instance (index : Nat) (code : Code) (message : String) :
    Checks (reject index code message : Walk α) where
  run s hpass := by
    obtain ⟨s', hrun, hlog⟩ := @reject_of_declare α index code message s hpass
    exact .inr (.inr ⟨_, s', hrun, hlog⟩)

theorem declaring_of_declare {x : Walk Unit} (hpass : s.pass = .declare) : declaring x s = x s := by
  unfold declaring
  rw [emitting_bind_declare hpass]
  rfl

namespace Marches

variable {b : Nat} {o : Nat → Prop} {Q : α → β → Prop} {o' : β → Nat → Prop} {x : Walk α}
  {y : Walk β}

/-- A check that only the first walk makes. -/
theorem checked {x : Walk γ} {f : γ → Walk α} [hx : Checks x]
    (h : ∀ c, Marches k l b o (f c) y Q o') : Marches k l b o (x >>= f) y Q o' where
  run {s t} hpos habreast hknown := by
    rcases hx.run s habreast.first with ⟨c, hrun⟩ | hdoomed | ⟨e, s', hrun, hlog⟩
    · rw [bind_of_ok hrun] at hknown ⊢
      exact (h c).run hpos habreast hknown
    · exact absurd hdoomed.bind hknown.ends
    · have hlog' := hknown.log
      rw [bind_of_error hrun] at hlog'
      cases hlog.symm.trans hlog'

/-- A check by the first walk. -/
theorem declaring {x x' : Walk Unit} {f : Unit → Walk α} {g : Unit → Walk β} [Checks x]
    (h : Marches k l b o (f ()) (g ()) Q o') :
    Marches k l b o (Walk.declaring x >>= f) (Walk.declaring x' >>= g) Q o' where
  run {s t} hpos habreast hknown := by
    have heq : (Walk.declaring x >>= f) s = (x >>= f) s := by
      unfold Walk.declaring
      rw [bind_assoc, emitting_bind_declare habreast.first]
      rfl
    rw [heq] at hknown ⊢
    rw [bind_of_ok (declaring_of_emit habreast.second)]
    exact (checked fun _ => h).run hpos habreast hknown

/-- What the first walk refuses is reported. -/
theorem refused (h : ∀ s, s.pass = .declare → (final (x s)).log.hasErrors = true) :
    Marches k l b o x y Q o' where
  run _ habreast hknown :=
    absurd (h _ habreast.first) (by rw [hknown.log]; exact Bool.false_ne_true)

/-- What the first walk refuses inside of functions. -/
theorem refused_inside (hk : k.isInner = true) (h : ∀ s, s.pass = .declare → s.function ≠
      globalScope → Doomed (x s) ∨ (final (x s)).log.hasErrors = true) :
    Marches k l b o x y Q o' where
  run {s t} _ habreast hknown := by
    rcases h s habreast.first (habreast.inside hk) with hdoomed | hlog
    · exact absurd hdoomed hknown.ends
    · cases hlog.symm.trans hknown.log

/-- Nothing has been refused if there are no errors. -/
theorem unrejected {index : Nat} {c : β} [Respects .any 0 y] (h : Marches k l b o x y Q o') :
    Marches k l b o x
      (isRejected index >>= fun isRefused => if !isRefused then y else Pure.pure c) Q o' where
  run {s t} hpos habreast hknown := by
    unfold isRejected
    rw [view_bind]
    cases hr : t.rejected.contains index with
    | false => exact h.run hpos habreast hknown
    | true =>
      refine .of_errors (y := Pure.pure c) habreast.running (habreast.faithful fun hnil => ?_)
      rw [hnil] at hr
      cases hr

/-- A refusal by the first walk. -/
theorem reject (index index' : Nat) (code code' : Code) (message message' : String) :
    Marches k l b o (Walk.reject index code message : Walk α)
      (Walk.reject index' code' message' : Walk β) Q o' :=
  refused fun s hpass => by
    obtain ⟨s', hrun, hlog⟩ := @reject_of_declare α index code message s hpass
    rw [hrun]
    exact hlog

end Marches

/-! ### Entering and leaving -/

/-- Two states that are abreast, after both have entered or left the same. -/
theorem Abreast.apart {s₀ t₀ : State} (h : Abreast k o s t) (hs : Apart s s₀) (ht : Apart t t₀)
    (halike : Alike k s₀ t₀) (hinside : k.isInner = true → s₀.function ≠ globalScope) :
    Abreast k o s₀ t₀ := by
  -- All that matters is in the parts that entering leaves alone.
  refine ⟨⟨?_, ?_, ?_, ?_, halike.counters, ?_, ?_⟩, halike, ?_, ?_, hinside, fun hk => ?_⟩
  · rw [hs.pass, h.first]
  · rw [ht.pass, h.second]
  · rw [hs.tokens, ht.tokens, h.tokens]
  · rw [hs.pos, ht.pos, h.pos]
  · rw [hs.table]
    exact h.fits
  · rw [ht.log, h.running]
  · rw [hs.table]
    exact h.formed
  · unfold State.Faithful
    rw [ht.rejected, ht.log]
    exact h.faithful
  · have hclose := h.close hk
    refine ⟨?_, ?_, ?_, ?_⟩
    · rw [ht.recalled, hs.declared, hclose.records]
    · rw [hs.declared, hs.pos]
      exact hclose.past
    · rw [ht.recalled, ht.table]
      exact hclose.exists_kind
    · rw [ht.recalled, ht.table]
      exact hclose.settled

/-- A run between entering and leaving is known as the whole is. -/
theorem Known.enclosed {w x : Walk α} (e : Enclosure w x) {t₀ : State} (h : Known k (w s) t)
    (ht : Apart t t₀) : Known k (x (e.enter s)) t₀ := by
  have apart := e.left s (final (x (e.enter s)))
  refine ⟨fun hdoomed => h.ends ?_, ?_, ?_, fun hk => ⟨?_, ?_⟩⟩
  · unfold Doomed at *
    rwa [e.ending_eq]
  · rw [← apart.log, ← e.final_eq]
    exact h.log
  · rw [← apart.declared, ← e.final_eq, ht.declared]
    exact h.recorded
  · rw [← apart.table, ← e.final_eq, ht.table]
    exact (h.holds hk).table
  · rw [← apart.declared, ← apart.pos, ← e.final_eq, ht.declared]
    exact (h.holds hk).later

section Enclosing

variable {x w : Walk α} {y w' : Walk β} {Q : α → β → Prop} {o' : β → Nat → Prop}
  [rx : Respects .any 0 x] [ry : Respects .any 0 y] (e : Enclosure w x) (e' : Enclosure w' y)

/-- Entering and leaving around two runs. -/
theorem Marches.enclosed (hx : Marches k l b o x y Q o')
    (hin : ∀ s t, Alike k s t → Alike k (e.enter s) (e'.enter t))
    (hinside : ∀ s, k.isInner = true → s.function ≠ globalScope →
      (e.enter s).function ≠ globalScope) :
    Marches k l b o w w' Q o' := by
  constructor
  intro s t hpos habreast hknown
  rw [← (e.entered s).pos] at hpos
  have habreast₀ := habreast.apart (e.entered s) (e'.entered t) (hin s t habreast.alike)
    fun hk => hinside s hk (habreast.inside hk)
  have hmeets := hx.run hpos habreast₀ (hknown.enclosed e (e'.entered t))
  refine ⟨fun hrun hlog => ?_, fun hrun => ?_⟩
  -- Leaving brings back where both were, so they are alike as at the start.
  · obtain ⟨t₁, ht₁, rfl⟩ := e'.eq_ok.1 hrun
    have left' := e'.left t t₁
    rcases hmeets.ok ht₁ (left'.log ▸ hlog) with ⟨hl, hstuck⟩ | ⟨a, s₁, hs₁, hq, habreast₁⟩
    · exact .inl ⟨hl, hstuck.of_still left'.pos left'.tokens⟩
    · have hcontrol := e.back s s₁ (rx.ok (Nat.zero_le _) hs₁).control
      have hcontrol' := e'.back t t₁ (ry.ok (Nat.zero_le _) ht₁).control
      refine .inr ⟨a, e.leave s s₁, e.eq_ok.2 ⟨s₁, hs₁, rfl⟩, hq, habreast₁.apart (e.left s s₁)
        left' (habreast.alike.control hcontrol hcontrol') fun hk => ?_⟩
      rw [show (e.leave s s₁).function = s.function from congrArg Prod.fst hcontrol]
      exact habreast.inside hk
  · obtain ⟨t₁, ht₁, rfl⟩ := e'.eq_error.1 hrun
    have left' := e'.left t t₁
    have hstop := hmeets.stop ht₁
    refine ⟨fun he => left'.log ▸ hstop.abandoned he, fun he => ?_⟩
    unfold Excused
    rw [left'.log, left'.tokens]
    exact hstop.fatal he

end Enclosing

end StateScript.Walk
