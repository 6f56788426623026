import StateScript.Proofs.Walk.ExpressionAgreement

/-! # Pairs of brackets

  Whatever a rule takes is nested: brackets, parentheses and braces are closed in the
  opposite order. `Nested` reads tokens with a list of the closing tokens that are still
  to come. Statements may be skipped after a fault, and then braces alone are paired.

  This tells where tokens end that were skipped by counting: the size of an array, the
  last clause of a loop, and a statement that one of the walks has abandoned.
-/

namespace StateScript

variable {k : Kind} {cs cs' : List Kind}

/-! ### Reading pairs -/

/-- The kind that closes a pair. -/
def Kind.closer? : Kind → Option Kind
  | .openParen => some .closeParen
  | .openBracket => some .closeBracket
  | .openBrace => some .closeBrace
  | _ => none

def Kind.isCloser : Kind → Bool
  | .closeParen | .closeBracket | .closeBrace => true
  | _ => false

/-- Which pairs count. -/
inductive Pairs where
  | all
  | braces
deriving DecidableEq

def Pairs.counts : Pairs → Kind → Bool
  | .all, _ => true
  | .braces, closer => closer == .closeBrace

theorem Kind.eq_of_closer? {k' c : Kind} (h : k.closer? = some c) (h' : k'.closer? = some c) :
    k = k' := by
  cases k <;> cases h <;> cases k' <;> first | rfl | cases h'

theorem Kind.closer?_of_isCloser (h : k.isCloser = true) : k.closer? = none := by
  cases k <;> first | rfl | cases h

theorem Kind.isCloser_of_closer? {c : Kind} (h : k.closer? = some c) : c.isCloser = true := by
  cases k <;> cases h <;> rfl

/-- What a token does to the closing tokens still to come. -/
inductive Pairs.Step (v : Pairs) (kind : Kind) : List Kind → List Kind → Prop
  | opens {c : Kind} (cs : List Kind) : kind.closer? = some c → v.counts c = true →
      Pairs.Step v kind cs (c :: cs)
  | closes (cs : List Kind) : kind.isCloser = true → v.counts kind = true →
      Pairs.Step v kind (kind :: cs) cs
  | neutral (cs : List Kind) : (∀ c, kind.closer? = some c → v.counts c = false) →
      (kind.isCloser = true → v.counts kind = false) → Pairs.Step v kind cs cs

theorem Pairs.Step.append {v : Pairs} {kind : Kind} (h : v.Step kind cs cs') (more : List Kind) :
    v.Step kind (cs ++ more) (cs' ++ more) := by
  cases h with
  | opens _ hc hcounts => exact .opens _ hc hcounts
  | closes _ hcloser hcounts => exact .closes _ hcloser hcounts
  | neutral _ hopens hcloses => exact .neutral _ hopens hcloses

/-- The tokens from `p` to `q` lead from the closing tokens `cs` still to come to `cs'`. -/
inductive Nested (v : Pairs) (tokens : Array Token) : List Kind → Nat → List Kind → Nat → Prop
  | refl (cs : List Kind) (p : Nat) : Nested v tokens cs p cs p
  | step {cs cs₁ cs' : List Kind} {p q : Nat} {t : Token} : tokens[p]? = some t →
      v.Step t.kind cs cs₁ → Nested v tokens cs₁ (p + 1) cs' q → Nested v tokens cs p cs' q

namespace Nested

variable {v : Pairs} {tokens : Array Token} {cs cs₁ cs' : List Kind} {p q r : Nat}

theorem trans (h : Nested v tokens cs p cs₁ q) (h' : Nested v tokens cs₁ q cs' r) :
    Nested v tokens cs p cs' r := by
  induction h with
  | refl => exact h'
  | step ht hstep _ ih => exact .step ht hstep (ih h')

theorem single {t : Token} (ht : tokens[p]? = some t) (hstep : v.Step t.kind cs cs') :
    Nested v tokens cs p cs' (p + 1) :=
  .step ht hstep (.refl ..)

theorem append (h : Nested v tokens cs p cs' q) (more : List Kind) :
    Nested v tokens (cs ++ more) p (cs' ++ more) q := by
  induction h with
  | refl => exact .refl ..
  | step ht hstep _ ih => exact .step ht (hstep.append more) ih

theorem le (h : Nested v tokens cs p cs' q) : p ≤ q := by
  induction h with
  | refl => exact Nat.le_refl _
  | step _ _ _ ih => exact Nat.le_of_succ_le ih

theorem le_size (h : Nested v tokens cs p cs' q) (hp : p ≤ tokens.size) : q ≤ tokens.size := by
  induction h with
  | refl => exact hp
  | step ht _ _ ih => exact ih (Array.getElem?_eq_some_iff.1 ht).1

end Nested

/-- The braces among closing tokens. -/
def bracesOf (cs : List Kind) : List Kind := cs.filter (· == .closeBrace)

theorem Pairs.Step.braces {kind : Kind} (h : Pairs.all.Step kind cs cs') :
    Pairs.braces.Step kind (bracesOf cs) (bracesOf cs') := by
  cases h with
  | @opens c _ hc _ =>
    by_cases hbrace : c = .closeBrace
    · subst hbrace
      exact .opens _ hc rfl
    -- Other pairs do not count here.
    · rw [bracesOf, bracesOf, List.filter_cons_of_neg (by simpa using hbrace)]
      refine .neutral _ (fun c' hc' => ?_) fun hcloser => ?_
      · cases hc.symm.trans hc'
        simpa [Pairs.counts] using hbrace
      · rw [Kind.closer?_of_isCloser hcloser] at hc
        cases hc
  | closes _ hcloser _ =>
    by_cases hbrace : kind = .closeBrace
    · subst hbrace
      exact .closes _ rfl rfl
    · rw [bracesOf, List.filter_cons_of_neg (by simpa using hbrace)]
      refine .neutral _ (fun c' hc' => ?_) fun _ => by simpa [Pairs.counts] using hbrace
      rw [Kind.closer?_of_isCloser hcloser] at hc'
      cases hc'
  | neutral _ hopens hcloses =>
    exact .neutral _ (fun c hc => absurd (hopens c hc) nofun) fun hc => absurd (hcloses hc) nofun

/-- A token that is no brace. -/
theorem Pairs.Step.of_ne {kind : Kind} (ho : kind ≠ .openBrace) (hc : kind ≠ .closeBrace)
    (cs : List Kind) : Pairs.braces.Step kind cs cs := by
  refine .neutral cs (fun c hcloser => ?_) fun _ => by simpa [Pairs.counts] using hc
  cases kind <;> cases hcloser <;> first | rfl | exact absurd rfl ho

theorem Nested.braces {tokens : Array Token} {p q : Nat} (h : Nested .all tokens cs p cs' q) :
    Nested .braces tokens (bracesOf cs) p (bracesOf cs') q := by
  induction h with
  | refl => exact .refl ..
  | step ht hstep _ ih => exact .step ht hstep.braces ih

namespace Walk

variable {k : Kind} {cs cs' : List Kind} {depth p q : Nat} {t t' : State} {x : Token} {u : Unit}

set_option synthInstance.maxSize 1000000000

variable {α β : Type}

/-! ### Counting pairs -/

section Scans

variable {tokens : Array Token} {turn : α → Nat → Kind → Turn α β} {whenOver : α → β}
  {i : Nat} {a : α} {t : Token}

theorem scanFrom_again {a' : α} (ht : tokens[i]? = some t) (h : turn a i t.kind = .again a') :
    scanFrom tokens i a whenOver turn = scanFrom tokens (i + 1) a' whenOver turn := by
  have hi := (Array.getElem?_eq_some_iff.1 ht).1
  unfold scanFrom
  rw [show tokens.size - i = tokens.size - (i + 1) + 1 by omega, scan]
  simp only [ht, h]

theorem scanFrom_done {b : β} (ht : tokens[i]? = some t) (h : turn a i t.kind = .done b) :
    scanFrom tokens i a whenOver turn = b := by
  have hi := (Array.getElem?_eq_some_iff.1 ht).1
  unfold scanFrom
  rw [show tokens.size - i = tokens.size - (i + 1) + 1 by omega, scan]
  simp only [ht, h]

end Scans

/-- Counting one sort of pairs goes past what is nested. -/
theorem closing?_nested {tokens : Array Token} {opens closes : Kind}
    (hpair : opens.closer? = some closes) (h : Nested .all tokens cs p cs' q) (hdepth : 0 < depth) :
    closing? tokens opens closes p (cs.count closes + depth) =
      closing? tokens opens closes q (cs'.count closes + depth) := by
  induction h with
  | refl => rfl
  | @step cs cs₁ cs' p q t ht hstep _ ih =>
    -- One token: the count follows what is left open of this sort.
    rw [← ih]
    apply scanFrom_again ht
    have hcloses : t.kind = closes → t.kind.isCloser = true := by
      rintro rfl
      exact Kind.isCloser_of_closer? hpair
    cases hstep with
    | @opens c _ hc _ =>
      have hne : t.kind ≠ closes := by
        intro h
        rw [Kind.closer?_of_isCloser (hcloses h)] at hc
        cases hc
      by_cases hopens : t.kind = opens
      · rw [hopens, hpair] at hc
        cases hc
        rw [if_pos hopens, List.count_cons_self]
        congr 1
        omega
      · have hother : c ≠ closes := by
          rintro rfl
          exact hopens (Kind.eq_of_closer? hc hpair)
        rw [if_neg hopens, if_neg hne, List.count_cons_of_ne hother]
    | closes _ hcloser _ =>
      have hopens : t.kind ≠ opens := by
        intro h
        rw [← h, Kind.closer?_of_isCloser hcloser] at hpair
        cases hpair
      rw [if_neg hopens]
      by_cases h : t.kind = closes
      · rw [if_pos h, h, List.count_cons_self, if_neg (by omega)]
        congr 1
        omega
      · rw [if_neg h, List.count_cons_of_ne h]
    | neutral _ hopens hclosers =>
      have hne : t.kind ≠ opens := by
        rintro rfl
        cases hopens closes hpair
      rw [if_neg hne, if_neg fun h => absurd (hclosers (hcloses h)) nofun]

/-- A token between blocks that are left open. -/
theorem endTurn_step {kind : Kind} (h : Pairs.braces.Step kind cs cs') (hdepth : 0 < depth)
    (i : Nat) : endTurn (cs.length + depth) i kind = .again (cs'.length + depth) := by
  cases h with
  | opens _ hc hcounts =>
    have hkind : kind = .openBrace := by
      cases kind <;> cases hc <;> first | rfl | cases hcounts
    subst hkind
    rw [List.length_cons]
    show Turn.again _ = _
    congr 1
    omega
  -- The depth stays above zero, so this brace does not end the statement.
  | closes _ hcloser hcounts =>
    have hkind : kind = .closeBrace := beq_iff_eq.1 hcounts
    subst hkind
    rw [List.length_cons]
    unfold endTurn
    dsimp only
    rw [if_neg (by omega), if_neg (by omega)]
    congr 1
    omega
  | neutral _ hopens hcloses =>
    unfold endTurn
    split
    · exact if_neg (by omega)
    · cases hopens .closeBrace rfl
    · cases hcloses rfl
    · rfl

/-- Counting braces goes past what is nested. -/
theorem statementEnd_nested {tokens : Array Token} (h : Nested .braces tokens cs p cs' q)
    (hdepth : 0 < depth) (hp : p ≤ tokens.size) :
    statementEnd tokens p (cs.length + depth) = statementEnd tokens q (cs'.length + depth) := by
  unfold statementEnd
  rw [Nat.max_eq_right hp, Nat.max_eq_right (h.le_size hp)]
  induction h with
  | refl => rfl
  | @step cs cs₁ cs' p q t ht hstep _ ih =>
    rw [scanFrom_again ht (endTurn_step hstep hdepth p)]
    exact ih (Array.getElem?_eq_some_iff.1 ht).1

theorem length_add_braceStep {kind : Kind} (h : Pairs.braces.Step kind cs cs') :
    (cs'.length : Int) = cs.length + braceStep kind := by
  cases h with
  | opens _ hc hcounts =>
    have hkind : kind = .openBrace := by
      cases kind <;> cases hc <;> first | rfl | cases hcounts
    subst hkind
    simp [braceStep]
  | closes _ hcloser hcounts =>
    have hkind : kind = .closeBrace := beq_iff_eq.1 hcounts
    subst hkind
    simp only [braceStep, List.length_cons]
    omega
  | neutral _ hopens hcloses =>
    unfold braceStep
    split
    · cases hopens .closeBrace rfl
    · cases hcloses rfl
    · simp

/-- The balance of braces is what they leave open. -/
theorem braceBalance_nested {tokens : Array Token} (h : Nested .braces tokens cs p cs' q) :
    braceBalance (tokens.extract p q).toList = cs'.length - cs.length := by
  induction h with
  | refl => simp [braceBalance]
  | @step cs cs₁ cs' p q t ht hstep hrest ih =>
    have hle := hrest.le
    obtain ⟨hsize, hget⟩ := Array.getElem?_eq_some_iff.1 ht
    have hcons : (tokens.extract p q).toList = t :: (tokens.extract (p + 1) q).toList := by
      rw [Array.toList_extract, Array.toList_extract, List.extract_eq_take_drop,
        List.extract_eq_take_drop, List.drop_eq_getElem_cons (by simpa using hsize),
        show q - p = q - (p + 1) + 1 by omega, List.take_succ_cons, Array.getElem_toList, hget]
    rw [hcons, braceBalance, ih]
    -- A token changes the balance as it changes the depth.
    have := length_add_braceStep hstep
    omega

/-- The end of a statement is found where all braces are closed that it has opened. -/
theorem nested_statementEnd {tokens : Array Token} (hcs : ∀ c ∈ cs, c = .closeBrace) :
    Nested .braces tokens cs p [] (statementEnd tokens p cs.length) ∨
      tokens.size ≤ statementEnd tokens p cs.length := by
  -- Whatever is left open at a token is a number of braces.
  refine scanFrom_invariant
    (fun j depth => Nested .braces tokens cs p (List.replicate depth .closeBrace) j)
    (fun r => Nested .braces tokens cs p [] r ∨ tokens.size ≤ r) ?_ ?_ ?_ ?_
  · rw [List.eq_replicate_of_mem hcs, List.length_replicate]
    exact .refl ..
  · intro j depth _ _
    exact .inr (Nat.le_max_right ..)
  · intro j depth t depth' ht h hturn
    refine h.trans (.single ht ?_)
    unfold endTurn at hturn
    split at hturn
    · next hkind =>
      split at hturn <;> cases hturn
      exact .of_ne (by rw [hkind]; decide) (by rw [hkind]; decide) _
    · next hkind =>
      cases hturn
      rw [hkind]
      exact .opens _ rfl rfl
    · next hkind =>
      split at hturn
      · cases hturn
      · split at hturn <;> cases hturn
        rw [hkind, show depth = depth - 1 + 1 by omega, List.replicate_succ, Nat.add_sub_cancel]
        exact .closes _ rfl rfl
    · next ho hc =>
      cases hturn
      exact .of_ne ho hc _
  · intro j depth t r ht h hturn
    unfold endTurn at hturn
    split at hturn
    · next hkind =>
      split at hturn <;> cases hturn
      next hdepth =>
      subst hdepth
      exact .inl (h.trans (.single ht (.of_ne (by rw [hkind]; decide) (by rw [hkind]; decide) _)))
    · cases hturn
    · next hkind =>
      split at hturn
      · next hdepth =>
        cases hturn
        subst hdepth
        exact .inl h
      · split at hturn <;> cases hturn
        next hdepth =>
        subst hdepth
        refine .inl (h.trans (.single ht ?_))
        rw [hkind]
        exact .closes _ rfl rfl
    · cases hturn

/-- Braces leave nothing but braces open. -/
theorem Nested.all_braces {tokens : Array Token} (h : Nested .braces tokens cs p cs' q)
    (hcs : ∀ c ∈ cs, c = .closeBrace) : ∀ c ∈ cs', c = .closeBrace := by
  induction h with
  | refl => exact hcs
  | @step cs cs₁ cs' p q t _ hstep _ ih =>
    refine ih fun c hc => ?_
    cases hstep with
    | opens _ hcloser hcounts =>
      rcases List.mem_cons.1 hc with rfl | hc
      · revert hcloser hcounts
        cases t.kind <;> rintro ⟨⟩ hcounts <;> first | rfl | cases hcounts
      · exact hcs c hc
    | closes _ _ _ => exact hcs c (List.mem_cons_of_mem _ hc)
    | neutral _ _ _ => exact hcs c hc

/-- A statement that has opened nothing ends in place only before a closing brace. -/
theorem closeBrace_of_statementEnd {tokens : Array Token} (h : statementEnd tokens p 0 = p)
    (hp : p < tokens.size) : ∃ t, tokens[p]? = some t ∧ t.kind = .closeBrace := by
  refine scanFrom_invariant (fun j depth => j = p ∧ depth = 0 ∨ p < j)
    (fun r => r = p → ∃ t, tokens[p]? = some t ∧ t.kind = .closeBrace) (.inl ⟨rfl, rfl⟩) ?_ ?_ ?_ h
  · intro j depth _ _ hmax
    omega
  · intro j depth t depth' _ hj _
    omega
  -- A turn that ends the search at once has seen a closing brace.
  · intro j depth t r ht hj hturn hr
    unfold endTurn at hturn
    split at hturn
    · split at hturn <;> cases hturn
      omega
    · cases hturn
    · next hkind =>
      split at hturn
      · cases hturn
        subst hr
        exact ⟨t, ht, hkind⟩
      · split at hturn <;> cases hturn
        omega
    · cases hturn

/-! ### Walks over nested tokens -/

/-- The kind of the next token, where it is known. -/
def State.Ahead (next : Option Kind) (t : State) : Prop :=
  ∀ k, next = some k → t.tokens[t.pos]?.map Token.kind = some k

/-- A run gets from the closing tokens `cs` to `cs'`. It may also have skipped all tokens,
    if braces alone count. -/
def Reaches (v : Pairs) (cs : List Kind) (t : State) (cs' : List Kind) (t' : State) : Prop :=
  Nested v t.tokens cs t.pos cs' t'.pos ∨ (v = .braces ∧ t.tokens.size ≤ t'.pos)

theorem Reaches.trans {v : Pairs} {cs cs₁ cs' : List Kind} {t t₁ t' : State}
    (h : Reaches v cs t cs₁ t₁) (h' : Reaches v cs₁ t₁ cs' t') (htokens : t₁.tokens = t.tokens) :
    Reaches v cs t cs' t' := by
  unfold Reaches at h'
  rw [htokens] at h'
  rcases h' with h' | h'
  · rcases h with h | ⟨hv, h⟩
    · exact .inl (h.trans h')
    · exact .inr ⟨hv, Nat.le_trans h h'.le⟩
  · exact .inr h'

/-- What the second walk takes by `x` without a fault leads from `cs` to `cs'`. A kind
    that is given as `next` is that of the first token. -/
class Nests (v : Pairs) (next : Option Kind) (cs : List Kind) (cs' : outParam (List Kind))
    (x : Walk α) : Prop where
  respects : Respects .any 0 x
  ok : ∀ {t t' : State} {a : α}, t.pass = .emit → t.Faithful → t.Ahead next → x t = .ok a t' →
    t'.log.hasErrors = false → Reaches v cs t cs' t'
  stop : ∀ {t t' : State}, t.pass = .emit → t.Faithful → t.Ahead next →
    x t = .error .abandoned t' → t'.log.hasErrors = false → ∃ cs'', Reaches v cs t cs'' t'

theorem State.Ahead.none (t : State) : t.Ahead none := nofun

theorem hasErrors_eq_false_mono {l l' : Log} (h : l.items <+: l'.items)
    (he : l'.hasErrors = false) : l.hasErrors = false := by
  cases hl : l.hasErrors with
  | false => rfl
  | true => exact (hasErrors_mono h hl).symm.trans he

section Composition

variable {v : Pairs} {next : Option Kind} {cs cs₁ cs' : List Kind}

/-- What comes before may tell the kind of the next token. -/
theorem Nests.bind_ahead {k : Option Kind} {x : Walk α} {f : α → Walk β}
    (hx : Nests v next cs cs₁ x) (hk : ∀ {t t' a}, x t = .ok a t' → t'.Ahead k)
    (hf : ∀ a, Nests v k cs₁ cs' (f a)) : Nests v next cs cs' (x >>= f) where
  respects := .bind hx.respects fun a => (hf a).respects
  ok {t t' b} hpass hfaithful hahead hrun hlog := by
    obtain ⟨a, t₁, h₁, h₂⟩ := bind_eq_ok.1 hrun
    have hkeeps := hx.respects.ok (Nat.zero_le _) h₁
    have hlog₁ := hasErrors_eq_false_mono ((hf a).respects.ok (Nat.zero_le _) h₂).log hlog
    have h := (hf a).ok (hkeeps.pass.trans hpass) (hkeeps.faithful hfaithful) (hk h₁) h₂ hlog
    exact (hx.ok hpass hfaithful hahead h₁ hlog₁).trans h hkeeps.tokens
  stop {t t'} hpass hfaithful hahead hrun hlog := by
    rcases bind_eq_error.1 hrun with h | ⟨a, t₁, h₁, h₂⟩
    · exact hx.stop hpass hfaithful hahead h hlog
    · have hkeeps := hx.respects.ok (Nat.zero_le _) h₁
      have hlog₁ := hasErrors_eq_false_mono ((hf a).respects.error (Nat.zero_le _) h₂).log hlog
      obtain ⟨cs'', h⟩ :=
        (hf a).stop (hkeeps.pass.trans hpass) (hkeeps.faithful hfaithful) (hk h₁) h₂ hlog
      exact ⟨cs'', (hx.ok hpass hfaithful hahead h₁ hlog₁).trans h hkeeps.tokens⟩

theorem Nests.bind {x : Walk α} {f : α → Walk β} (hx : Nests v next cs cs₁ x)
    (hf : ∀ a, Nests v none cs₁ cs' (f a)) : Nests v next cs cs' (x >>= f) :=
  hx.bind_ahead (fun _ => .none _) hf

theorem Nests.seq {x : Walk α} {f : α → Walk β} [hx : Nests v next cs cs₁ x]
    (hf : ∀ a, Nests v none cs₁ cs' (f a)) : Nests v next cs cs' (x >>= f) :=
  .bind hx hf

instance (x : Walk α) (f : α → Walk β) [hx : Nests v next cs cs₁ x]
    [hf : ∀ a, Nests v none cs₁ cs' (f a)] : Nests v next cs cs' (x >>= f) :=
  .bind hx hf

instance (priority := low) (x : Walk (Option α)) (f : Option α → Walk β)
    [hx : Nests v next cs cs₁ x]
    [hnone : Nests v none cs₁ cs' (f none)] [hsome : ∀ a, Nests v none cs₁ cs' (f (some a))] :
    Nests v next cs cs' (x >>= f) :=
  .bind hx (Option.forall.2 ⟨hnone, hsome⟩)

/-- A loud walk abandons no statement without a report. -/
theorem Respects.not_abandoned {g : Grade} [hg : Grade.Within .soft g] {x : Walk α}
    (hx : Respects g 0 x) (hpass : t.pass = .emit) (hfaithful : t.Faithful)
    (hlog : t'.log.hasErrors = false) : x t ≠ .error .abandoned t' := by
  intro hrun
  have h := (hx.error (Nat.zero_le _) hrun).loud hg.le rfl hpass hfaithful
  rw [hlog] at h
  cases h

theorem Nests.of_loud {x : Walk α} (hx : Respects .soft 0 x)
    (ok : ∀ {t t' : State} {a : α}, t.pass = .emit → t.Ahead next → x t = .ok a t' →
      Reaches v cs t cs' t') : Nests v next cs cs' x where
  respects := hx.weaken
  ok hpass _ hahead hrun _ := ok hpass hahead hrun
  stop hpass hfaithful _ hrun hlog := absurd hrun (hx.not_abandoned hpass hfaithful hlog)

instance (priority := low) (x : Walk α) [hx : Still .emit x] [hx' : Respects .soft 0 x] :
    Nests v next cs cs x :=
  .of_loud hx' fun hpass _ hrun => .inl ((hx.stays hpass hrun).1 ▸ .refl ..)

theorem State.Ahead.still {t₁ : State} (h : t.Ahead next) (htokens : t₁.tokens = t.tokens)
    (hpos : t₁.pos = t.pos) : t₁.Ahead next := by
  unfold State.Ahead at *
  rwa [htokens, hpos]

/-- Looking at something before the next token is taken. -/
theorem Nests.after {x : Walk α} {f : α → Walk β} (hx : Still .emit x) (hx' : Respects .soft 0 x)
    (hf : ∀ a, Nests v next cs cs' (f a)) : Nests v next cs cs' (x >>= f) where
  respects := .bind hx'.weaken fun a => (hf a).respects
  ok {t t' b} hpass hfaithful hahead hrun hlog := by
    obtain ⟨a, t₁, h₁, h₂⟩ := bind_eq_ok.1 hrun
    have hkeeps := hx'.ok (Nat.zero_le _) h₁
    -- Looking does not move, so the same token is ahead.
    obtain ⟨hpos, hpass₁⟩ := hx.stays hpass h₁
    have h := (hf a).ok hpass₁ (hkeeps.faithful hfaithful) (hahead.still hkeeps.tokens hpos) h₂ hlog
    exact Reaches.trans (.inl (hpos ▸ .refl ..)) h hkeeps.tokens
  stop {t t'} hpass hfaithful hahead hrun hlog := by
    rcases bind_eq_error.1 hrun with h | ⟨a, t₁, h₁, h₂⟩
    · exact absurd h (hx'.not_abandoned hpass hfaithful hlog)
    · have hkeeps := hx'.ok (Nat.zero_le _) h₁
      obtain ⟨hpos, hpass₁⟩ := hx.stays hpass h₁
      obtain ⟨cs'', h⟩ :=
        (hf a).stop hpass₁ (hkeeps.faithful hfaithful) (hahead.still hkeeps.tokens hpos) h₂ hlog
      exact ⟨cs'', Reaches.trans (.inl (hpos ▸ .refl ..)) h hkeeps.tokens⟩

instance (priority := high) (x : Walk α) (f : α → Walk β) [hx : Still .emit x]
    [hx' : Respects .soft 0 x] [hf : ∀ a, Nests v (some k) cs cs' (f a)] :
    Nests v (some k) cs cs' (x >>= f) :=
  .after hx hx' hf

instance (c : Prop) [Decidable c] (x y : Walk α) [hx : Nests v next cs cs' x]
    [hy : Nests v next cs cs' y] : Nests v next cs cs' (if c then x else y) := by
  split
  · exact hx
  · exact hy

instance (priority := high) (x y : Walk α) [d : Decidable (false = true)]
    [hy : Nests v next cs cs' y] : Nests v next cs cs' (if false = true then x else y) := by
  rw [if_neg Bool.false_ne_true]
  exact hy

instance (priority := high) (x y : Walk α) [d : Decidable (true = true)]
    [hx : Nests v next cs cs' x] : Nests v next cs cs' (if true = true then x else y) := by
  rw [if_pos rfl]
  exact hx

/-- The second walk takes the branch for the second walk. -/
theorem Nests.emitting {f : Bool → Walk α} (h : Nests v next cs cs' (f true))
    (h' : Respects .any 0 (f false)) : Nests v next cs cs' (Walk.emitting >>= f) where
  respects := .seq fun b => by
    cases b
    · exact h'
    · exact h.respects
  ok hpass hfaithful hahead hrun hlog := by
    rw [emitting_bind_emit hpass] at hrun
    exact h.ok hpass hfaithful hahead hrun hlog
  stop hpass hfaithful hahead hrun hlog := by
    rw [emitting_bind_emit hpass] at hrun
    exact h.stop hpass hfaithful hahead hrun hlog

instance (priority := high) (f : Bool → Walk α) [h : Nests v next cs cs' (f true)]
    [h' : Respects .any 0 (f false)] : Nests v next cs cs' (emitting >>= f) :=
  .emitting h h'

/-- A walk that ran out of budget nests nothing. -/
theorem Nests.broken : Nests v next cs cs' (throw .broken : Walk α) := by
  refine .of_loud .broken ?_
  intro t t' a _ _ hrun
  cases hrun

theorem Nests.iterate {turn : α → Walk (Turn α β)} (h : ∀ a, Nests v none cs cs (turn a)) (n : Nat)
    (a : α) : Nests v none cs cs (iterate turn n a) :=
  iterate_induction (P := Nests v none cs cs) .broken (fun _ => inferInstance)
    (fun a _ => (h a).bind) n a

theorem Nests.loop {turn : α → Walk (Turn α β)} (h : ∀ a, Nests v none cs cs (turn a)) (a : α) :
    Nests v none cs cs (loop a turn) :=
  .seq fun _ => .iterate h _ a

instance (a : α) (turn : α → Walk (Turn α β)) [h : ∀ a, Nests v none cs cs (turn a)] :
    Nests v none cs cs (loop a turn) :=
  .loop h a

/-! Tokens -/

/-- What a kind of token does to the closing tokens still to come. -/
class Effect (v : Pairs) (k : Kind) (cs : List Kind) (cs' : outParam (List Kind)) : Prop where
  step : v.Step k cs cs'

/-- A kind that neither opens nor closes a pair. -/
class Neutral (k : Kind) : Prop where
  opens : k.closer? = none
  closes : k.isCloser = false

instance [h : Neutral k] : Effect v k cs cs where
  step := .neutral cs (fun _ hc => absurd (h.opens.symm.trans hc) nofun)
    fun hc => absurd (h.closes.symm.trans hc) nofun

instance : Effect .all .openParen cs (.closeParen :: cs) := ⟨.opens cs rfl rfl⟩
instance : Effect .all .openBracket cs (.closeBracket :: cs) := ⟨.opens cs rfl rfl⟩
instance : Effect v .openBrace cs (.closeBrace :: cs) := ⟨.opens cs rfl (by cases v <;> rfl)⟩
instance : Effect .all .closeParen (.closeParen :: cs) cs := ⟨.closes cs rfl rfl⟩
instance : Effect .all .closeBracket (.closeBracket :: cs) cs := ⟨.closes cs rfl rfl⟩
instance : Effect v .closeBrace (.closeBrace :: cs) cs := ⟨.closes cs rfl (by cases v <;> rfl)⟩
instance : Effect .braces .openParen cs cs := ⟨.of_ne (by decide) (by decide) cs⟩
instance : Effect .braces .closeParen cs cs := ⟨.of_ne (by decide) (by decide) cs⟩
instance : Effect .braces .openBracket cs cs := ⟨.of_ne (by decide) (by decide) cs⟩
instance : Effect .braces .closeBracket cs cs := ⟨.of_ne (by decide) (by decide) cs⟩

instance : Neutral .identifier := ⟨rfl, rfl⟩
instance : Neutral .comma := ⟨rfl, rfl⟩
instance : Neutral .semicolon := ⟨rfl, rfl⟩
instance : Neutral .colon := ⟨rfl, rfl⟩
instance : Neutral .period := ⟨rfl, rfl⟩
instance : Neutral .arrow := ⟨rfl, rfl⟩
instance : Neutral .assign := ⟨rfl, rfl⟩
instance : Neutral .minus := ⟨rfl, rfl⟩
instance : Neutral .plus := ⟨rfl, rfl⟩
instance : Neutral .not := ⟨rfl, rfl⟩
instance : Neutral .tilde := ⟨rfl, rfl⟩
instance : Neutral .increment := ⟨rfl, rfl⟩
instance : Neutral .decrement := ⟨rfl, rfl⟩
instance : Neutral .nullWord := ⟨rfl, rfl⟩
instance : Neutral .kwNew := ⟨rfl, rfl⟩
instance : Neutral .kwIndexer := ⟨rfl, rfl⟩

theorem nested_token {tokens : Array Token} (k : Kind) [h : Effect v k cs cs']
    (hx : tokens[p]? = some x) (hkind : x.kind = k) : Nested v tokens cs p cs' (p + 1) :=
  .single hx (hkind ▸ h.step)

theorem State.Ahead.token {k : Kind} {t : State} (h : State.Ahead (some k) t) :
    ∃ x, t.tokens[t.pos]? = some x ∧ x.kind = k :=
  Option.map_eq_some_iff.1 (h k rfl)

theorem peek_eq_ok {found : Option Kind} (h : peek t = .ok found t') :
    t = t' ∧ t.tokens[t.pos]?.map Token.kind = found := by
  unfold peek view at h
  injection h with h h'
  exact ⟨h', h⟩

instance [Effect v k cs cs'] : Nests v (some k) cs cs' skip := by
  refine .of_loud inferInstance fun hpass hahead hrun => .inl ?_
  cases hrun
  obtain ⟨x, hx, hkind⟩ := State.Ahead.token hahead
  exact nested_token k hx hkind

/-- Knowing the next token does no harm. -/
theorem Nests.know {x : Walk α} (h : Nests v none cs cs' x) : Nests v next cs cs' x where
  respects := h.respects
  ok hpass hfaithful _ := h.ok hpass hfaithful (.none _)
  stop hpass hfaithful _ := h.stop hpass hfaithful (.none _)

instance (priority := low) (x : Walk α) [h : Nests v none cs cs' x] : Nests v (some k) cs cs' x :=
  h.know

/-- What is seen is next, and it is what was known to be next. -/
theorem Nests.peek {f : Option Kind → Walk α} (hnone : Nests v next cs cs' (f none))
    (hsome : ∀ k, (∀ k', next = some k' → k' = k) → Nests v (some k) cs cs' (f (some k)))
    (hf : ∀ found, Respects .any 0 (f found)) : Nests v next cs cs' (Walk.peek >>= f) where
  respects := .bind inferInstance hf
  ok {t t' b} hpass hfaithful hahead hrun hlog := by
    obtain ⟨found, t₁, h₁, h₂⟩ := bind_eq_ok.1 hrun
    obtain ⟨rfl, hfound⟩ := peek_eq_ok h₁
    cases found with
    | none => exact hnone.ok hpass hfaithful hahead h₂ hlog
    | some k =>
      -- What was promised and what is seen agree.
      have hk : ∀ k', next = some k' → k' = k := fun k' hk' =>
        Option.some.inj ((hahead k' hk').symm.trans hfound)
      refine (hsome k hk).ok hpass hfaithful (fun k' hk' => ?_) h₂ hlog
      rw [hfound, hk']
  stop {t t'} hpass hfaithful hahead hrun hlog := by
    rcases bind_eq_error.1 hrun with h | ⟨found, t₁, h₁, h₂⟩
    · cases h
    · obtain ⟨rfl, hfound⟩ := peek_eq_ok h₁
      cases found with
      | none => exact hnone.stop hpass hfaithful hahead h₂ hlog
      | some k =>
        have hk : ∀ k', next = some k' → k' = k := fun k' hk' =>
          Option.some.inj ((hahead k' hk').symm.trans hfound)
        refine (hsome k hk).stop hpass hfaithful (fun k' hk' => ?_) h₂ hlog
        rw [hfound, hk']

theorem Nests.check {f : Bool → Walk α} (htrue : Nests v (some k) cs cs' (f true))
    (hfalse : Nests v next cs cs' (f false)) : Nests v next cs cs' (Walk.check k >>= f) := by
  unfold Walk.check
  rw [bind_assoc]
  simp only [pure_bind]
  refine .peek hfalse (fun k' hk' => ?_) fun found => ?_
  -- The test tells whether `k` is ahead.
  · by_cases hkk : k' = k
    · subst hkk
      rw [beq_self_eq_true]
      exact htrue
    · rw [beq_eq_false_iff_ne.2 fun h => hkk (Option.some.inj h)]
      cases next with
      | none => exact hfalse.know
      | some k₀ =>
        cases hk' k₀ rfl
        exact hfalse
  · cases found == some k
    · exact hfalse.respects
    · exact htrue.respects

instance (priority := high) (f : Bool → Walk α) [htrue : Nests v (some k) cs cs' (f true)]
    [hfalse : Nests v next cs cs' (f false)] : Nests v next cs cs' (check k >>= f) :=
  .check htrue hfalse

theorem Nests.eat [Effect v k cs cs₁] {f : Bool → Walk α} (htrue : Nests v none cs₁ cs' (f true))
    (hfalse : Nests v next cs cs' (f false)) : Nests v next cs cs' (Walk.eat k >>= f) := by
  unfold Walk.eat
  rw [bind_assoc]
  refine .check ?_ hfalse
  rw [if_pos rfl, bind_assoc]
  exact .seq fun _ => htrue

instance (priority := high) [Effect v k cs cs₁] (f : Bool → Walk α)
    [htrue : Nests v none cs₁ cs' (f true)] [hfalse : Nests v next cs cs' (f false)] :
    Nests v next cs cs' (eat k >>= f) :=
  .eat htrue hfalse

theorem Nests.never {x : Walk α} [hx : Never x] [hx' : Respects .loud 0 x] :
    Nests v next cs cs' x :=
  .of_loud hx'.weaken fun _ _ hrun => absurd hrun (hx.ne_ok _ _ _)

instance [Effect v k cs cs'] : Nests v (some k) cs cs' advance := by
  unfold advance
  refine .after inferInstance inferInstance fun i => .after inferInstance inferInstance fun t => ?_
  cases t with
  | some t => infer_instance
  | none => exact .never

instance [Effect v k cs cs'] : Nests v none cs cs' (expect k) := by
  unfold expect
  refine .peek .never (fun found _ => ?_) fun found => by cases found <;> infer_instance
  dsimp only
  split
  · next h =>
    subst h
    infer_instance
  · exact .never

/-- What nests all pairs nests braces. -/
theorem Nests.braces {x : Walk α} (h : Nests .all none [] [] x) : Nests .braces none cs cs x where
  respects := h.respects
  ok hpass hfaithful _ hrun hlog := by
    rcases h.ok hpass hfaithful (.none _) hrun hlog with h | ⟨h, -⟩
    · exact .inl (h.braces.append cs)
    · cases h
  stop hpass hfaithful _ hrun hlog := by
    obtain ⟨cs'', h | ⟨h, -⟩⟩ := h.stop hpass hfaithful (.none _) hrun hlog
    · exact ⟨_, .inl (h.braces.append cs)⟩
    · cases h

end Composition

/-! ### Expressions -/

theorem Kind.neutral_of_primitive? {p : Primitive} (h : k.primitive? = some p) : Neutral k := by
  cases k <;> cases h <;> exact ⟨rfl, rfl⟩

theorem Kind.neutral_of_isLiteral (h : k.isLiteral = true) : Neutral k := by
  cases k <;> cases h <;> exact ⟨rfl, rfl⟩

section Expressions

variable {cs cs₁ : List Kind}

theorem peekAt_eq_ok {ahead : Nat} {found : Option Kind} (h : peekAt ahead t = .ok found t') :
    t = t' ∧ t.tokens[t.pos + ahead]?.map Token.kind = found := by
  unfold peekAt view at h
  injection h with h h'
  exact ⟨h', h⟩

theorem advance_of_token (h : t.tokens[t.pos]? = some x) :
    advance t = .ok x { t with pos := t.pos + 1 } := by
  unfold advance
  rw [position_bind, tokenAt, view_bind, h]
  rfl

/-- A token of the kind `k` and then, if it is of the kind `k'`, another one. -/
theorem nests_two {k' : Kind} [Effect .all k cs cs₁] [Effect .all k' cs₁ cs] {y : Walk α}
    [Respects .loud 0 y] (x : α) (hy : ∀ {t t' a} {u : Token}, t.tokens[t.pos + 1]? = some u → y t =
      .ok a t' → t'.pos = t.pos + 2) :
    Nests .all (some k) cs cs do
      if (← peekAt 1) == some k' then y else return x := by
  refine .of_loud inferInstance fun {t t' a} hpass hahead hrun => ?_
  obtain ⟨found, t₁, h₁, h₂⟩ := bind_eq_ok.1 hrun
  obtain ⟨rfl, hfound⟩ := peekAt_eq_ok h₁
  split at h₂
  · next hc =>
    obtain ⟨u, hu, hkind⟩ := State.Ahead.token hahead
    rw [eq_of_beq hc] at hfound
    obtain ⟨u', hu', hkind'⟩ := Option.map_eq_some_iff.1 hfound
    -- The two effects cancel.
    have h : Nested .all t.tokens cs t.pos cs (t.pos + 2) :=
      (nested_token k hu hkind).trans (nested_token k' hu' hkind')
    unfold Reaches
    rw [hy hu' h₂]
    exact .inl h
  · cases h₂
    exact .inl (.refl ..)

instance : Nests .all none cs cs typeSpecifier := by
  unfold typeSpecifier
  refine .peek ?_ (fun k _ => ?_) fun found => by split <;> infer_instance
  · exact .never (x := unexpected _)
  · split
    · exact .never
    · next h =>
      have := Kind.neutral_of_primitive? h
      refine .seq fun _ => .check ?_ ?_
      · refine nests_two _ fun _ hrun => ?_
        cases hrun
        rfl
      · infer_instance

instance : Nests .all none cs cs qualifiedPath := by
  unfold qualifiedPath
  refine .seq fun first => .loop (fun path => .check (nests_two _ fun hu hrun => ?_) ?_) _
  · obtain ⟨_, t₁, ht₁, hrun⟩ := bind_eq_ok.1 hrun
    cases ht₁
    rw [bind_of_ok (advance_of_token hu)] at hrun
    cases hrun
    rfl
  · infer_instance

theorem check_eq_ok {isNext : Bool} (h : check k t = .ok isNext t') :
    t = t' ∧ (isNext = true ↔ ∃ x, t.tokens[t.pos]? = some x ∧ x.kind = k) := by
  unfold check at h
  obtain ⟨found, t₁, h₁, h₂⟩ := bind_eq_ok.1 h
  obtain ⟨rfl, hfound⟩ := peek_eq_ok h₁
  cases h₂
  refine ⟨rfl, ?_⟩
  rw [← hfound, beq_iff_eq]
  exact Option.map_eq_some_iff

theorem eat_eq_ok {isTaken : Bool} (h : eat k t = .ok isTaken t') :
    t' = { t with pos := t.pos + isTaken.toNat } ∧
      (isTaken = true ↔ ∃ x, t.tokens[t.pos]? = some x ∧ x.kind = k) := by
  unfold eat at h
  obtain ⟨isNext, t₁, h₁, h₂⟩ := bind_eq_ok.1 h
  obtain ⟨rfl, hnext⟩ := check_eq_ok h₁
  cases isNext <;> cases h₂ <;> exact ⟨rfl, hnext⟩

theorem advance_eq_ok (h : advance t = .ok x t') :
    t.tokens[t.pos]? = some x ∧ t' = { t with pos := t.pos + 1 } := by
  unfold advance at h
  rw [position_bind, tokenAt, view_bind] at h
  cases hx : t.tokens[t.pos]? with
  | none =>
    rw [hx] at h
    exact absurd h (Never.ne_ok _ _ _)
  | some y =>
    rw [hx] at h
    cases h
    exact ⟨rfl, rfl⟩

theorem expectMark_eq_ok (h : expectMark k t = .ok u t') :
    (∃ x, t.tokens[t.pos]? = some x ∧ x.kind = k) ∧ t' = { t with pos := t.pos + 1 } := by
  unfold expectMark expect at h
  obtain ⟨x, t₁, h₁, h₂⟩ := bind_eq_ok.1 h
  cases h₂
  obtain ⟨found, t₂, h₂, h₃⟩ := bind_eq_ok.1 h₁
  obtain ⟨rfl, hfound⟩ := peek_eq_ok h₂
  cases found with
  | none => exact absurd h₃ (Never.ne_ok _ _ _)
  | some found =>
    dsimp only at h₃
    split at h₃
    · next hkind =>
      rw [hkind] at hfound
      exact ⟨Option.map_eq_some_iff.1 hfound, (advance_eq_ok h₃).2⟩
    · exact absurd h₃ (Never.ne_ok _ _ _)

instance (ends : List Kind) : Nests .all none cs cs (foldedLiteral? ends) := by
  refine .of_loud inferInstance fun {t t' a} hpass hahead hrun => .inl ?_
  unfold foldedLiteral? at hrun
  obtain ⟨isNegative, t₁, h₁, hrest⟩ := bind_eq_ok.1 hrun
  obtain ⟨rfl, hminus⟩ := check_eq_ok h₁
  rw [position_bind] at hrest
  dsimp only [tokenAt] at hrest
  rw [view_bind, view_bind] at hrest
  -- A literal and what ends it are looked for before anything is taken.
  generalize hx : t.tokens[t.pos + isNegative.toNat]? = found at hrest
  generalize t.tokens[t.pos + isNegative.toNat + 1]?.map Token.kind = next at hrest
  cases found with
  | none =>
    cases hrest
    exact .refl ..
  | some x =>
    cases next with
    | none =>
      cases hrest
      exact .refl ..
    | some next =>
      dsimp only at hrest
      split at hrest
      · next hc =>
        cases hrest
        rw [Bool.and_eq_true, Bool.and_eq_true] at hc
        have := Kind.neutral_of_isLiteral hc.1.1
        refine .trans ?_ (nested_token x.kind hx rfl)
        cases isNegative with
        | false => exact .refl ..
        | true =>
          obtain ⟨x', hx', hkind'⟩ := hminus.1 rfl
          exact nested_token .minus hx' hkind'
      · cases hrest
        exact .refl ..

instance (priority := high) {next : Option Kind} {v : Pairs} {f : Option Kind → Walk α}
    [hi : Nests v (some .increment) cs cs' (f (some .increment))]
    [hd : Nests v (some .decrement) cs cs' (f (some .decrement))]
    [hnone : Nests v none cs cs' (f none)] : Nests v next cs cs' (stepAhead >>= f) := by
  unfold stepAhead
  rw [bind_assoc]
  refine .peek hnone.know (fun k _ => ?_) fun found => ?_
  · split
    · next h =>
      cases h
      exact hi
    · next h =>
      cases h
      exact hd
    · exact hnone.know
  · split
    · exact hi.respects
    · exact hd.respects
    · exact hnone.respects

section Rules

variable {unary expression : Walk ValueType} [Respects .any 0 unary] [Respects .any 0 expression]
  [Respects .loud 0 unary] [hloud : Respects .loud 0 expression]
  [hplain : Respects .plain 0 expression]
  [hu : ∀ cs, Nests .all none cs cs unary] [he : ∀ cs, Nests .all none cs cs expression]

instance (path : List Token) (index : Nat) :
    Nests .all none cs cs (call expression path index) := by
  unfold call
  refine .seq fun args => .seq fun all => .emitting inferInstance ?_
  cases all <;> infer_instance

theorem nested_literalExpression {type : ValueType} (hx : t.tokens[t.pos]? = some x) (hkind :
      x.kind.isLiteral = true ∨ x.kind = .minus ∧ ∃ y, t.tokens[t.pos + 1]? = some y ∧ Neutral
      y.kind) (hpass : t.pass = .emit) (hrun : literalExpression t = .ok type t') :
    Nested .all t.tokens cs t.pos cs t'.pos := by
  unfold literalExpression at hrun
  obtain ⟨isNegative, t₁, h₁, hrun⟩ := bind_eq_ok.1 hrun
  obtain ⟨ht₁, hnegative⟩ := eat_eq_ok h₁
  obtain ⟨u, t₂, h₂, hrun⟩ := bind_eq_ok.1 hrun
  obtain ⟨-, ht₂⟩ := advance_eq_ok h₂
  have hpass₂ : t₂.pass = .emit := by rw [ht₂, ht₁, hpass]
  -- It takes the literal and a minus sign in front of it.
  have hpos : t'.pos = t.pos + isNegative.toNat + 1 := by
    rw [(Still.stays hpass₂ hrun).1, ht₂, ht₁]
  rw [hpos]
  cases isNegative with
  | true =>
    obtain ⟨y, hy, hminus⟩ := hnegative.1 rfl
    cases hx.symm.trans hy
    rcases hkind with hkind | ⟨-, z, hz, hneutral⟩
    · rw [hminus] at hkind
      cases hkind
    · exact (nested_token .minus hx hminus).trans (nested_token z.kind hz rfl)
  | false =>
    rcases hkind with hkind | ⟨hkind, -⟩
    · have := Kind.neutral_of_isLiteral hkind
      exact nested_token x.kind hx rfl
    · cases hnegative.2 ⟨x, hx, hkind⟩

omit [Respects .any 0 expression] hloud hplain in
theorem nested_closedIndex (cs : List Kind) (hpass : t.pass = .emit) (hfaithful : t.Faithful)
    (hrun : closedIndex expression t = .ok u t') (hlog : t'.log.hasErrors = false) :
    closing? t.tokens .openBracket .closeBracket t.pos 1 = some t'.pos ∧
      Nested .all t.tokens (.closeBracket :: cs) t.pos cs t'.pos := by
  unfold closedIndex at hrun
  obtain ⟨_, t₁, h₁, h₂⟩ := bind_eq_ok.1 hrun
  obtain ⟨⟨x, hx, hkind⟩, rfl⟩ := expectMark_eq_ok h₂
  have hnests : Nests .all none [] [] (indexExpression expression) := inferInstance
  rw [(hnests.respects.ok (Nat.zero_le _) h₁).tokens] at hx
  rcases hnests.ok hpass hfaithful (.none _) h₁ hlog with h | ⟨h, -⟩
  · have hdone : closing? t.tokens .openBracket .closeBracket t₁.pos 1 = some (t₁.pos + 1) :=
      scanFrom_done hx (by rw [hkind]; rfl)
    -- What is nested in the brackets does not end the scan.
    have hclosed := closing?_nested
      (rfl : Kind.openBracket.closer? = some .closeBracket) h Nat.one_pos
    have hinside : Nested .all t.tokens (.closeBracket :: cs) t.pos (.closeBracket :: cs) t₁.pos :=
      h.append (.closeBracket :: cs)
    exact ⟨hclosed.trans hdone, hinside.trans (nested_token .closeBracket hx hkind)⟩
  · cases h

theorem moveTo_bind (pos : Nat) (k : Unit → Walk α) (t : State) :
    (moveTo pos >>= k) t = k () { t with pos } := rfl

omit [Respects .any 0 expression] hloud hplain in
/-- The size of an array ends where its bracket is closed. -/
theorem nested_arraySize (cs : List Kind) {index count next : Nat} (hpass : t.pass = .emit)
    (hfaithful : t.Faithful) (hrun : arraySize expression index count t = .ok u t')
    (hlog : t'.log.hasErrors = false)
    (hnext : closing? t.tokens .openBracket .closeBracket index 1 = some next) :
    t'.pos = t.pos ∧ Nested .all t.tokens (.closeBracket :: cs) index cs next := by
  unfold arraySize at hrun
  rw [tokenAt, view_bind] at hrun
  split at hrun
  · next hc =>
    -- There is no size.
    obtain ⟨x, hx, hkind⟩ := Option.map_eq_some_iff.1 (eq_of_beq hc)
    have hclosed : closing? t.tokens .openBracket .closeBracket index 1 = some (index + 1) :=
      scanFrom_done hx (by rw [hkind]; rfl)
    cases hnext.symm.trans hclosed
    exact ⟨(Still.stays hpass hrun).1, nested_token .closeBracket hx hkind⟩
  · rw [position_bind, moveTo_bind] at hrun
    obtain ⟨_, t₁, h₁, hrun⟩ := bind_eq_ok.1 hrun
    cases hrun
    obtain ⟨hclosed, h⟩ :=
      nested_closedIndex cs (t := { t with pos := index }) hpass hfaithful h₁ hlog
    cases hnext.symm.trans hclosed
    exact ⟨rfl, h⟩

theorem skipBalanced_eq_ok {opens closes : Kind} (h : skipBalanced opens closes t = .ok u t') :
    ∃ next, closing? t.tokens opens closes t.pos 1 = some next ∧ t' = { t with pos := next } := by
  unfold skipBalanced at h
  rw [position_bind, view_bind] at h
  cases hnext : closing? t.tokens opens closes t.pos 1 with
  | none =>
    rw [hnext] at h
    obtain ⟨count, t₁, -, h⟩ := bind_eq_ok.1 h
    obtain ⟨_, t₂, -, h⟩ := bind_eq_ok.1 h
    exact absurd h (Never.ne_ok _ _ _)
  | some next =>
    rw [hnext] at h
    cases h
    exact ⟨next, rfl, rfl⟩

omit [Respects .any 0 expression] hplain in
theorem nests_arrayOf (k : Kind) [Neutral k] (primitive : Primitive) :
    Nests .all (some k) cs cs (arrayOf expression primitive) := by
  unfold arrayOf
  refine .seq fun _ => .seq fun _ => ?_
  have rest : Respects .loud 0 (position >>= fun index => do
      skipBalanced .openBracket .closeBracket
      let count ← arrayElements expression (.scalar primitive)
      arraySize expression index count
      allocateArray primitive count
      return ValueType.array primitive) := inferInstance
  refine ⟨rest.weaken, fun {t t' a} hpass hfaithful hahead hrun hlog => ?_,
    fun hpass hfaithful _ hrun hlog => absurd hrun (rest.not_abandoned hpass hfaithful hlog)⟩
  rw [position_bind] at hrun
  obtain ⟨_, t₁, h₁, hrun⟩ := bind_eq_ok.1 hrun
  obtain ⟨count, t₂, h₂, hrun⟩ := bind_eq_ok.1 hrun
  obtain ⟨_, t₃, h₃, h₄⟩ := bind_eq_ok.1 hrun
  -- The size between the brackets is read last, after the elements behind them.
  obtain ⟨next, hnext, rfl⟩ := skipBalanced_eq_ok h₁
  have elements : Nests .all none cs cs (arrayElements expression (.scalar primitive)) :=
    inferInstance
  have hkeeps₂ := elements.respects.ok (Nat.zero_le _) h₂
  have size : Respects .loud 0 (arraySize expression t.pos count) := inferInstance
  have hkeeps₃ := size.ok (Nat.zero_le _) h₃
  have last : Respects .any 0 (allocateArray primitive count >>= fun _ =>
      pure (ValueType.array primitive)) :=
    inferInstance
  have hlog₃ := hasErrors_eq_false_mono (last.ok (Nat.zero_le _) h₄).log hlog
  have hlog₂ := hasErrors_eq_false_mono hkeeps₃.log hlog₃
  have hpass₂ := hkeeps₂.pass.trans hpass
  obtain ⟨hpos, h⟩ := nested_arraySize cs hpass₂ (hkeeps₂.faithful hfaithful) h₃ hlog₃
    (hkeeps₂.tokens ▸ hnext)
  rw [hkeeps₂.tokens] at h
  have hpos' := (Still.stays (hkeeps₃.pass.trans hpass₂) h₄).1
  unfold Reaches
  rw [hpos', hpos]
  -- In the order of the tokens the size comes first.
  have hsize : Reaches .all (.closeBracket :: cs) t cs { t with pos := next } := .inl h
  exact hsize.trans (elements.ok hpass hfaithful (.none _) h₂ hlog₂) rfl

instance : Nests .all (some .kwNew) cs cs (newArray expression) := by
  unfold newArray
  refine .seq fun _ => .peek ?_ (fun k _ => ?_) fun found => by split <;> infer_instance
  · exact .never (x := unexpected _)
  · split
    · exact .never
    · exact .never
    · next h =>
      have := Kind.neutral_of_primitive? h
      exact nests_arrayOf k _

instance : Nests .all none cs cs (primary expression) := by
  unfold primary
  refine .peek ?_ (fun k _ => ?_) fun found => by split <;> infer_instance
  · exact .never (x := unexpectedEnd)
  · split
    · exact .never
    · next h =>
      cases h
      infer_instance
    · next h =>
      cases h
      infer_instance
    · next h =>
      cases h
      infer_instance
    · next h =>
      cases h
      infer_instance
    · exact Nests.know inferInstance
    -- What is left can only be a literal.
    · next kind _ _ _ _ _ h =>
      cases h
      split
      · next hliteral =>
        refine .of_loud inferInstance fun hpass hahead hrun => ?_
        obtain ⟨x, hx, rfl⟩ := State.Ahead.token hahead
        exact .inl (nested_literalExpression hx (.inl hliteral) hpass hrun)
      · exact .never

theorem Kind.neutral_of_isNumericLiteral (h : k.isNumericLiteral = true) : Neutral k := by
  cases k <;> first | exact ⟨rfl, rfl⟩ | cases h

/-- A minus sign belongs to a literal behind it. -/
theorem nests_minus {y : Walk ValueType} (hy : Nests .all (some .minus) cs cs y) :
    Nests .all (some .minus) cs cs do
      if (← peekAt 1).any Kind.isNumericLiteral then literalExpression else y where
  respects := by
    have := hy.respects
    infer_instance
  ok {t t' a} hpass hfaithful hahead hrun hlog := by
    obtain ⟨found, t₁, h₁, h₂⟩ := bind_eq_ok.1 hrun
    obtain ⟨rfl, hfound⟩ := peekAt_eq_ok h₁
    split at h₂
    -- Both tokens are taken, the sign and the number.
    · next hc =>
      cases found with
      | none => cases hc
      | some k =>
        obtain ⟨x, hx, hminus⟩ := State.Ahead.token hahead
        obtain ⟨y, hy, rfl⟩ := Option.map_eq_some_iff.1 hfound
        have hneutral := Kind.neutral_of_isNumericLiteral hc
        exact .inl (nested_literalExpression hx (.inr ⟨hminus, y, hy, hneutral⟩) hpass h₂)
    · exact hy.ok hpass hfaithful hahead h₂ hlog
  stop {t t'} hpass hfaithful hahead hrun hlog := by
    rcases bind_eq_error.1 hrun with h | ⟨found, t₁, h₁, h₂⟩
    · cases h
    · obtain ⟨rfl, hfound⟩ := peekAt_eq_ok h₁
      split at h₂
      · exact absurd h₂ (Respects.not_abandoned (g := .soft) inferInstance hpass hfaithful hlog)
      · exact hy.stop hpass hfaithful hahead h₂ hlog

instance : Still .emit castAhead := by
  unfold castAhead
  refine .seq fun found => ?_
  split
  · refine .seq fun found => ?_
    split <;> infer_instance
  · infer_instance

instance : Nests .all none cs cs (unaryWith unary expression) := by
  unfold unaryWith
  refine .seq fun index => ?_
  dsimp only
  refine .peek ?_ (fun k _ => ?_) fun found => by split <;> infer_instance
  · exact inferInstanceAs (Nests .all none cs cs (primary expression))
  · split
    · next h =>
      cases h
      exact nests_minus inferInstance
    · next h =>
      cases h
      infer_instance
    · next h =>
      cases h
      infer_instance
    · next h =>
      cases h
      infer_instance
    · next h =>
      cases h
      infer_instance
    · next h =>
      cases h
      infer_instance
    · next h =>
      cases h
      refine .after inferInstance inferInstance fun isCast => ?_
      split
      · infer_instance
      · exact Nests.know inferInstance
    · exact Nests.know inferInstance

instance : Nests .all none cs cs (memberLevel unary expression) := by
  unfold memberLevel
  refine .seq fun type => .loop (fun type => .check (Nests.know ?_) inferInstance) _
  refine .seq fun a => ?_
  cases a <;> infer_instance

theorem nests_binaryLevel {operators : List Kind} {operand : Walk ValueType}
    (ho : ∀ cs, Nests .all none cs cs operand)
    (h : operators.all (fun k => k.closer?.isNone && !k.isCloser) = true) :
    Nests .all none cs cs (binaryLevel operators operand) := by
  unfold binaryLevel
  refine .bind (ho cs) fun type => .loop (fun left => .peek ?_ (fun k _ => ?_) fun found => ?_) _
  · infer_instance
  · dsimp only
    split
    · next hk =>
      have hneutral := List.all_eq_true.1 h k (List.contains_iff_mem.1 hk)
      rw [Bool.and_eq_true, Option.isNone_iff_eq_none, Bool.not_eq_true'] at hneutral
      -- No operator opens or closes anything.
      have : Neutral k := ⟨hneutral.1, hneutral.2⟩
      infer_instance
    · infer_instance
  · have := (ho cs).respects
    split <;> infer_instance

instance : Nests .all none cs cs (expressionWith unary expression) := by
  unfold expressionWith
  refine nests_binaryLevel (fun cs => nests_binaryLevel (fun cs => nests_binaryLevel (fun cs =>
    nests_binaryLevel (fun cs => inferInstance) ?_) ?_) ?_) ?_ <;> decide

end Rules

theorem nests_upTo (n : Nat) : (∀ cs, Nests .all none cs cs (unaryUpTo n)) ∧
    ∀ cs, Nests .all none cs cs (expressionUpTo n) := by
  induction n with
  | zero => exact ⟨fun _ => .broken, fun _ => .broken⟩
  | succ n ih =>
    obtain ⟨hu, he⟩ := ih
    obtain ⟨_, _⟩ := respects_upTo (g := .any) (b := 0) n
    obtain ⟨_, _⟩ := respects_upTo (g := .loud) (b := 0) n
    obtain ⟨-, _⟩ := respects_upTo (g := .plain) (b := 0) n
    exact ⟨fun cs => inferInstanceAs
      (Nests .all none cs cs (unaryWith (unaryUpTo n) (expressionUpTo n))),
      fun cs => inferInstanceAs
        (Nests .all none cs cs (expressionWith (unaryUpTo n) (expressionUpTo n)))⟩

instance : Nests .all none cs cs unary := by
  unfold unary
  exact .seq fun n => (nests_upTo _).1 cs

instance : Nests .all none cs cs expression := by
  unfold expression
  exact .seq fun n => (nests_upTo _).2 cs

instance : Nests .all none cs cs memberPlace := by
  unfold memberPlace
  refine .seq fun type => .loop (fun type => ?_) _
  refine .seq fun index => .seq fun a => ?_
  cases a <;> infer_instance

instance : Nests .all none cs cs assignmentPlace := by
  unfold assignmentPlace
  refine .seq fun pos => .seq fun count => ?_
  have broken : Nests .all none cs cs (throw .broken : Walk Unit) := .of_loud .broken nofun
  infer_instance

end Expressions

end Walk

end StateScript
