import StateScript.Number.Power
import StateScript.Proofs.Decoding
import StateScript.Token.Stream

/-! # Token streams are read back

  A reader of variable-length numbers has room for some bytes and for some bits in the
  last of them. Numbers that fit are read back, and so is all that is made of them. What is
  cut is short before its version is looked at.
-/

namespace StateScript

open Bytes Number

/-! ### Numbers of variable length -/

namespace Bytes

theorem varint_of_lt {v : Nat} (h : v < 128) : varint v = [UInt8.ofNat v] := by
  rw [varint, if_pos h]

theorem varint_of_le {v : Nat} (h : 128 ≤ v) :
    varint v = UInt8.ofNat (v % 128 + 128) :: varint (v / 128) := by
  rw [varint, if_neg (Nat.not_lt.2 h)]

/-- A last byte. -/
theorem decodes_lastByte {top n v : Nat} (h : v < 128) (hroom : n = 0 → v ≤ top) :
    Decodes .short (readVarint top (n + 1)) (varint v) v := by
  have hv : (UInt8.ofNat v).toNat = v := UInt8.toNat_ofNat_of_lt (Nat.lt_trans h (by decide))
  rw [varint_of_lt h]
  refine ⟨fun rest => ?_, fun front hfront hne => ?_⟩
  · rw [List.singleton_append, readVarint, hv, if_pos h,
      if_neg fun hlong => Nat.not_le.2 hlong.2 (hroom hlong.1)]
  · cases front with
    | nil => rfl
    | cons b front => exact absurd (hfront.eq_of_length_le (by simp)) hne

/-- A byte that another one follows. -/
theorem readVarint_cons (top n v : Nat) (rest : List UInt8) :
    readVarint top (n + 1) (UInt8.ofNat (v % 128 + 128) :: rest) =
      (readVarint top n rest).map fun r => (v % 128 + 128 * r.1, r.2) := by
  have hbyte : (UInt8.ofNat (v % 128 + 128)).toNat = v % 128 + 128 :=
    UInt8.toNat_ofNat_of_lt (Nat.add_lt_add_right (Nat.mod_lt v (by decide)) 128)
  rw [readVarint, hbyte, if_neg (by omega), Nat.add_sub_cancel]
  cases readVarint top n rest <;> rfl

/-- All bytes but the last have room for seven bits, and the last for numbers to `top`. -/
theorem decodes_readVarint {top n v : Nat} (htop : top < 128) (h : v < (top + 1) * Nat.pow 128 n) :
    Decodes .short (readVarint top (n + 1)) (varint v) v := by
  induction n generalizing v with
  | zero =>
    have hle : v < top + 1 := Nat.lt_of_lt_of_eq h (Nat.mul_one _)
    exact decodes_lastByte (by omega) fun _ => by omega
  | succ n ih =>
    rcases Nat.lt_or_ge v 128 with hlt | hge
    · exact decodes_lastByte hlt nofun
    -- What is left above the low seven bits is read in the same way.
    · have hhigh : v / 128 < (top + 1) * Nat.pow 128 n := by
        rw [Nat.div_lt_iff_lt_mul (by decide)]
        rw [Nat.mul_assoc]
        exact h
      have hrest := ih hhigh
      rw [varint_of_le hge]
      refine ⟨fun rest => ?_, fun front hfront hne => ?_⟩
      · rw [List.cons_append, readVarint_cons, hrest.reads, Except.map, Nat.mod_add_div]
      -- A byte that announces more is not the last one.
      · cases front with
        | nil => rfl
        | cons b front =>
          obtain ⟨rfl, hprefix⟩ := List.cons_prefix_cons.1 hfront
          rw [readVarint_cons, hrest.cut front hprefix fun heq => hne (heq ▸ rfl)]
          rfl

end Bytes

/-! ### Fields of a stream -/

namespace TokenStream

/-- Reading in a token stream. -/
abbrev Decodes {α : Type} (r : Reader Malformed α) (bytes : List UInt8) (x : α) : Prop :=
  Bytes.Decodes .endOfBytes r bytes x

theorem decodes_number {top n v : Nat} (htop : top < 128) (h : v < (top + 1) * Nat.pow 128 n) :
    Decodes (number (n + 1) top) (varint v) v := by
  have hread := decodes_readVarint htop h
  refine ⟨fun rest => ?_, fun front hfront hne => ?_⟩
  · rw [number, hread.reads]
  · rw [number, hread.cut front hfront hne]

theorem decodes_number64 {v : Nat} (h : v < pow2 64) : Decodes number64 (varint v) v :=
  decodes_number (by decide) (Nat.lt_of_lt_of_eq h (by decide))

def TextFits (s : String) : Prop := (Text.utf8 s).length < pow2 64

theorem decodes_readText {s : String} (h : TextFits s) : Decodes readText (writeText s) s := by
  have hall : Decodes readText (varint (Text.utf8 s).length ++ (Text.utf8 s ++ [])) s := by
    refine (decodes_number64 h).bind ((decodes_take _ (Text.utf8 s)).bind ?_)
    rw [Text.ofUtf8_utf8]
    exact Decodes.pure s
  rwa [List.append_nil] at hall

theorem decodes_readKind (k : Kind) : Decodes readKind (varint k.number) k := by
  have hlt : k.number < (15 + 1) * Nat.pow 128 4 := by cases k <;> decide
  have hall : Decodes readKind (varint k.number ++ []) k := by
    refine (decodes_number (by decide) hlt).bind ?_
    rw [Kind.ofNumber?_number]
    exact Decodes.pure k
  rwa [List.append_nil] at hall

/-- Tokens and defines, their numbers and the lengths of their texts below 2 to the 64. -/
structure Sendable (tokens : List Token) (defines : List Define) : Prop where
  tokenCount : tokens.length < pow2 64
  line : ∀ t ∈ tokens, t.line < pow2 64
  offset : ∀ t ∈ tokens, t.offset < pow2 64
  text : ∀ t ∈ tokens, TextFits t.text
  file : ∀ t ∈ tokens, TextFits t.file
  defineCount : defines.length < pow2 64
  identifier : ∀ d ∈ defines, TextFits d.identifier
  value : ∀ d ∈ defines, TextFits d.value

variable {tokens : List Token} {defines : List Define}

theorem Sendable.decodes_readToken (h : Sendable tokens defines) {t : Token} (ht : t ∈ tokens) :
    Decodes readToken (writeToken t) t := by
  simp only [writeToken, List.append_assoc]
  refine (decodes_readKind t.kind).bind ?_
  refine (decodes_readText (h.text t ht)).bind ?_
  refine (decodes_number64 (h.line t ht)).bind ?_
  refine (decodes_number64 (h.offset t ht)).bind ?_
  exact (decodes_readText (h.file t ht)).last fun file => { t with file }

theorem Sendable.decodes_readDefine (h : Sendable tokens defines) {d : Define} (hd : d ∈ defines) :
    Decodes readDefine (writeDefine d) d := by
  refine (decodes_readText (h.identifier d hd)).bind ?_
  exact (decodes_readText (h.value d hd)).last fun value => { d with value }

theorem Sendable.decodes_readStream (h : Sendable tokens defines) :
    Decodes readStream (encode tokens defines) ⟨currentVersion, tokens, defines⟩ := by
  have htokens := decodes_many (g := id) tokens fun t ht => h.decodes_readToken ht
  have hdefines := decodes_many (g := id) defines fun d hd => h.decodes_readDefine hd
  rw [List.map_id] at htokens hdefines
  simp only [encode, List.append_assoc]
  refine (decodes_number (n := 2) (by decide) (by decide)).bind ?_
  refine (decodes_number64 h.tokenCount).bind (htokens.bind ?_)
  refine (decodes_number64 h.defineCount).bind ?_
  exact hdefines.last (TokenStream.mk currentVersion tokens)

/-! ### Streams -/

/-- A stream is read back with its version from its bytes, whatever follows them; and
    wherever its bytes are cut off, they end too soon. -/
theorem stream_read_back (tokens : List Token) (defines : List Define)
    (h : Sendable tokens defines) :
    (∀ rest, decode (encode tokens defines ++ rest) = .ok ⟨1, tokens, defines⟩) ∧
    ∀ front, front <+: encode tokens defines → front ≠ encode tokens defines →
      decode front = .error (.malformed .endOfBytes) := by
  have hread := h.decodes_readStream
  refine ⟨fun rest => ?_, fun front hfront hne => ?_⟩
  · rw [decode, hread.reads]
    rfl
  · rw [decode, hread.cut front hfront hne]

/-- A string of three bytes on the last line that there can be. -/
def farToken : Token := ⟨.stringLiteral, "€", pow2 64 - 1, 300, "a.ks"⟩

theorem sendable_farToken : Sendable [farToken] [⟨"MODE", "é"⟩] := by
  constructor <;> simp [TextFits, farToken] <;> decide

theorem stream_read_back_farToken :
    Sendable [farToken] [⟨"MODE", "é"⟩] ∧
    decode (encode [farToken] [⟨"MODE", "é"⟩] ++ [0xFF]) = .ok ⟨1, [farToken], [⟨"MODE", "é"⟩]⟩ ∧
    decode ((encode [farToken] [⟨"MODE", "é"⟩]).take 9) = .error (.malformed .endOfBytes) := by
  obtain ⟨hreads, hcut⟩ := stream_read_back _ _ sendable_farToken
  exact ⟨sendable_farToken, hreads [0xFF], hcut _ (List.take_prefix 9 _) (by decide +kernel)⟩

end TokenStream

end StateScript
