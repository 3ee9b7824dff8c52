import Flock.Wire
import Flock.Decode

/-!
# Names in a fixed field

Both sides cut a name that is too long for its field. The program's builder cuts its
UTF-8 at a byte. The SDK cuts its UTF-16 at a code unit first, which is never what
decides: a character takes at least as many bytes as code units. Then it writes
whole characters for as long as they fit.

So the two fields differ just when a character stands on the edge of the field. The
builder then writes the front part of it, which is not UTF-8, and the SDK zeroes.
-/

namespace Flock

open Sdk Sdk.State

/-- `String.utf8EncodeChar` of every character. -/
def utf8 (text : List Char) : List UInt8 := text.flatMap String.utf8EncodeChar

@[simp] theorem utf8_nil : utf8 [] = [] := rfl

@[simp] theorem utf8_cons (c : Char) (cs : List Char) :
    utf8 (c :: cs) = String.utf8EncodeChar c ++ utf8 cs := rfl

/-- A character begins inside a field of `width` bytes and ends outside it. -/
def Straddled (width : Nat) (text : List Char) : Prop :=
  ∃ before c after, text = before ++ c :: after ∧ (utf8 before).length < width ∧
    width < (utf8 before).length + (String.utf8EncodeChar c).length

/-- A field of `width` bytes with `bs` in front. -/
def padded (width : Nat) (bs : List UInt8) : List UInt8 :=
  bs ++ List.replicate (width - bs.length) 0

/-! ## One character -/

section Characters

variable (c : Char)

theorem length_encodeChar_pos : 0 < (String.utf8EncodeChar c).length := by
  rw [String.length_utf8EncodeChar]
  exact c.utf8Size_pos

/-- A character is one code unit, or a surrogate pair and four bytes. -/
theorem codeUnits_cases : (∃ u, codeUnits c = [u]) ∨
    ∃ high low, codeUnits c = [high, low] ∧ isHighSurrogate high ∧
      (String.utf8EncodeChar c).length = 4 := by
  have hmax : c.toNat < 0x110000 := by
    rcases c.valid with h | h
    · show c.val.toNat < _
      omega
    · exact h.2
  unfold codeUnits
  by_cases hone : c.toNat < 0x10000
  · exact .inl ⟨_, if_pos hone⟩
  · refine .inr ⟨_, _, if_neg hone, ?_, ?_⟩
    · have hu : (UInt16.ofNat (0xD800 + (c.toNat - 0x10000) / 0x400)).toNat
          = 0xD800 + (c.toNat - 0x10000) / 0x400 :=
        UInt16.toNat_ofNat_of_lt' (by show _ < 65536; omega)
      show 0xD800 ≤ UInt16.toNat _ ∧ UInt16.toNat _ < 0xDC00
      omega
    · rw [String.length_utf8EncodeChar, Char.utf8Size_eq_four_iff, UInt32.lt_iff_toNat_lt]
      show 0xffff < c.toNat
      omega

/-- The first of several bytes has its upper bits set. -/
theorem encodeChar_head (h : 1 < (String.utf8EncodeChar c).length) :
    ∃ b bs, String.utf8EncodeChar c = b :: bs ∧ b ≠ 0 := by
  have hb : ∀ n, 0 < n → n < 256 → UInt8.ofNat n ≠ 0 := by
    intro n hpos hlt hzero
    have hn : n = 0 := (UInt8.toNat_ofNat_of_lt' hlt).symm.trans (congrArg UInt8.toNat hzero)
    omega
  rw [String.utf8EncodeChar] at h ⊢
  generalize c.val.toNat = v at h
  by_cases h1 : v ≤ 0x7f
  · rw [if_pos h1] at h
    exact absurd h (Nat.lt_irrefl 1)
  · rw [if_neg h1]
    by_cases h2 : v ≤ 0x7ff
    · rw [if_pos h2]
      exact ⟨_, _, rfl, hb _ (by omega) (by omega)⟩
    · rw [if_neg h2]
      by_cases h3 : v ≤ 0xffff
      · rw [if_pos h3]
        exact ⟨_, _, rfl, hb _ (by omega) (by omega)⟩
      · rw [if_neg h3]
        exact ⟨_, _, rfl, hb _ (by omega) (by omega)⟩

end Characters

/-! ## The cut at a code unit -/

theorem writeUtf8_head {room : Nat} {c : Char} (cs : List Char)
    (h : room < (String.utf8EncodeChar c).length) : writeUtf8 room (c :: cs) = [] :=
  if_neg (by omega)

/-- Cutting the string first changes nothing: half a pair would be U+FFFD, which does
not fit where the pair did not. -/
theorem writeUtf8_take {room k : Nat} (h : room ≤ k) (text : List Char) :
    writeUtf8 room (characters ((stringOf text).take k)) = writeUtf8 room text := by
  induction text generalizing room k with
  | nil => rw [stringOf, List.flatMap_nil, List.take_nil]; rfl
  | cons c cs ih =>
    have hpos := length_encodeChar_pos c
    have hunits : (codeUnits c).length ≤ (String.utf8EncodeChar c).length := by
      rcases codeUnits_cases c with ⟨u, hu⟩ | ⟨high, low, hu, -, hfour⟩
      · rw [hu]
        exact hpos
      · rw [hu, hfour]
        exact (by decide : 2 ≤ 4)
    rw [stringOf, List.flatMap_cons, List.take_append]
    by_cases hk : (codeUnits c).length ≤ k
    · rw [List.take_of_length_le hk, characters_codeUnits, writeUtf8, writeUtf8]
      by_cases hfits : (String.utf8EncodeChar c).length ≤ room
      · rw [if_pos hfits, if_pos hfits]
        exact congrArg _ (ih (by omega))
      · rw [if_neg hfits, if_neg hfits]
    · -- the character is cut, so it has more bytes than there is room for
      rw [writeUtf8_head cs (by omega)]
      have hrest : k - (codeUnits c).length = 0 := by omega
      rw [hrest, List.take_zero, List.append_nil]
      rcases codeUnits_cases c with ⟨u, hu⟩ | ⟨high, low, hu, hhigh, -⟩
      · rw [hu, List.length_singleton] at hk
        rw [hu, Nat.lt_one_iff.mp (Nat.lt_of_not_le hk), List.take_zero]
        rfl
      · rw [hu] at hk ⊢
        rcases k with - | - | k
        · rfl
        · show writeUtf8 room [if isHighSurrogate high ∨ isLowSurrogate high
            then replacementCharacter else _] = []
          rw [if_pos (.inl hhigh)]
          exact writeUtf8_head [] (Nat.lt_of_le_of_lt h (by decide))
        · exact absurd (Nat.le_add_left 2 k) hk

/-! ## The cut at a byte -/

section Cut

variable {c : Char} {cs : List Char} {n : Nat}

theorem padded_append (a b : List UInt8) :
    padded n (a ++ b) = a ++ padded (n - a.length) b := by
  unfold padded
  rw [List.append_assoc, List.length_append, Nat.sub_add_eq]

theorem straddled_cons (h : (String.utf8EncodeChar c).length ≤ n) :
    Straddled n (c :: cs) ↔ Straddled (n - (String.utf8EncodeChar c).length) cs := by
  constructor
  · intro ⟨before, d, after, heq, hstart, hend⟩
    rcases before with - | ⟨b, before⟩
    · -- the first character ends inside
      obtain ⟨rfl, rfl⟩ := List.cons.inj heq
      exact absurd hend (by simpa using h)
    · obtain ⟨rfl, rfl⟩ := List.cons.inj heq
      refine ⟨before, d, after, rfl, ?_, ?_⟩
      all_goals
        rw [utf8_cons, List.length_append] at hstart hend
        omega
  · intro ⟨before, d, after, heq, hstart, hend⟩
    refine ⟨c :: before, d, after, congrArg (c :: ·) heq, ?_, ?_⟩
    all_goals
      rw [utf8_cons, List.length_append]
      omega

theorem straddled_head (hpos : 0 < n) (h : n < (String.utf8EncodeChar c).length) :
    Straddled n (c :: cs) :=
  ⟨[], c, cs, rfl, hpos, by simpa using h⟩

/-- Whole characters against bytes. The induction is on the text, with what is left
of the field. -/
theorem padded_write_iff (n : Nat) (text : List Char) :
    padded n (writeUtf8 n text) = padded n ((utf8 text).take n) ↔ ¬Straddled n text := by
  induction text generalizing n with
  | nil =>
    have hnone : ¬Straddled n [] := by
      intro hstraddled
      obtain ⟨before, d, after, heq, -, -⟩ := hstraddled
      exact List.append_ne_nil_of_right_ne_nil before (List.cons_ne_nil d after) heq.symm
    rw [utf8_nil, List.take_nil]
    exact iff_of_true rfl hnone
  | cons c cs ih =>
    rw [utf8_cons, writeUtf8]
    by_cases hfits : (String.utf8EncodeChar c).length ≤ n
    · rw [if_pos hfits, List.take_append, List.take_of_length_le hfits, padded_append,
        padded_append, List.append_cancel_left_eq, straddled_cons hfits]
      exact ih _
    · rw [if_neg hfits]
      by_cases hzero : n = 0
      · subst hzero
        have hnone : ¬Straddled 0 (c :: cs) := by
          intro hstraddled
          obtain ⟨before, d, after, -, hstart, -⟩ := hstraddled
          exact Nat.not_lt_zero _ hstart
        exact iff_of_true rfl hnone
      · -- the builder writes the front of a character of several bytes
        refine iff_of_false ?_ (not_not.mpr (straddled_head (by omega) (by omega)))
        obtain ⟨b, bs, henc, hb⟩ := encodeChar_head c (by omega)
        obtain ⟨m, rfl⟩ := Nat.exists_eq_succ_of_ne_zero hzero
        rw [henc]
        intro hsame
        exact hb (List.cons.inj hsame).1.symm

end Cut

/-! ## The fields -/

theorem toList_fixedBytes (text : List Char) (n : Nat) :
    (fixedBytes (stringOf text) n).toList = padded n (writeUtf8 n text) := by
  show padded n (writeUtf8 n (characters ((stringOf text).take n))) = _
  rw [writeUtf8_take (Nat.le_refl n)]

theorem toList_fixed (text : List Char) (n : Nat) :
    (Builders.fixed n text).toList = padded n ((utf8 text).take n) := by
  show (utf8 text).take (min (utf8 text).length n)
    ++ List.replicate (n - min (utf8 text).length n) 0 = _
  unfold padded
  rw [List.length_take, Nat.min_comm, ← List.take_eq_take_min]

theorem fixed_eq_iff (n : Nat) (text : List Char) :
    fixedBytes (stringOf text) n = Builders.fixed n text ↔ ¬Straddled n text := by
  rw [← Vector.toList_inj, toList_fixedBytes, toList_fixed]
  exact padded_write_iff n text

/-- The builder's `init_index`, given two strings. -/
def Builders.initNamed (lib : Library) (programId payer indexMint governor manager
    feeRecipient : Pubkey) (name symbol : List Char) (streamingFeeBps issueFeeBps redeemFeeBps
    maxPremiumBps : UInt16) (rebalanceDelay : UInt32) : Instruction :=
  Builders.initIndex lib programId payer indexMint governor manager feeRecipient
    { name := Builders.fixed 32 name, symbol := Builders.fixed 12 symbol
      streamingFeeBps, issueFeeBps, redeemFeeBps, maxPremiumBps, rebalanceDelay }

/-- A field, and with it `initIndex`, comes out the same on both sides just when no
character stands on the edge. -/
theorem names_encode_alike_iff (n : Nat) (text : List Char) (lib : Library)
    (programId payer indexMint governor manager feeRecipient : Pubkey) (name symbol : List Char)
    (streamingFeeBps issueFeeBps redeemFeeBps maxPremiumBps : UInt16) (rebalanceDelay : UInt32) :
    ((Writer.new.fixed (stringOf text) n).toBuffer = (Builders.fixed n text).toList ↔
      ¬Straddled n text) ∧
    ((∃ built, (Request.initIndex payer indexMint governor manager feeRecipient (stringOf name)
        (stringOf symbol) streamingFeeBps issueFeeBps redeemFeeBps maxPremiumBps
        rebalanceDelay).sdk lib programId = .ok built ∧
      Request.Built built (Builders.initNamed lib programId payer indexMint governor manager
        feeRecipient name symbol streamingFeeBps issueFeeBps redeemFeeBps maxPremiumBps
        rebalanceDelay)) ↔
      ¬Straddled 32 name ∧ ¬Straddled 12 symbol) := by
  constructor
  · rw [← fixed_eq_iff, ← Vector.toList_inj, Writer.fixed, Writer.toBuffer_push,
      Writer.toBuffer_new, List.nil_append]
  · rw [← fixed_eq_iff, ← fixed_eq_iff]
    obtain ⟨built, hsdk, hprogram, hkeys, hdata⟩ := Request.sdk_built lib programId
      (.initIndex payer indexMint governor manager feeRecipient (stringOf name) (stringOf symbol)
        streamingFeeBps issueFeeBps redeemFeeBps maxPremiumBps rebalanceDelay)
    have hbuilder : (Builders.initNamed lib programId payer indexMint governor manager feeRecipient
        name symbol streamingFeeBps issueFeeBps redeemFeeBps maxPremiumBps rebalanceDelay).data
        = (FlockInstruction.initIndex (Builders.fixed 32 name) (Builders.fixed 12 symbol)
          streamingFeeBps issueFeeBps redeemFeeBps maxPremiumBps rebalanceDelay).serialize := rfl
    rw [Request.program_data] at hdata
    constructor
    · -- one data decodes to one instruction, so the fields are the same
      intro hbuilt
      obtain ⟨built', hsdk', -, -, hdata'⟩ := hbuilt
      obtain rfl := Except.ok.inj (hsdk.symm.trans hsdk')
      have hfits : FlockInstruction.Fits (.initIndex (Builders.fixed 32 name)
        (Builders.fixed 12 symbol) streamingFeeBps issueFeeBps redeemFeeBps maxPremiumBps
        rebalanceDelay) := trivial
      have hread := FlockInstruction.tryFromSlice_iff.mpr ⟨hfits, hdata'.trans hbuilder⟩
      have hself := FlockInstruction.tryFromSlice_iff.mpr ⟨Request.instruction_fits _, hdata⟩
      injection Option.some.inj (hself.symm.trans hread) with hname hsymbol
      exact ⟨hname, hsymbol⟩
    · intro hfields
      obtain ⟨hname, hsymbol⟩ := hfields
      refine ⟨built, hsdk, hprogram, hkeys, ?_⟩
      rw [hdata, hbuilder, Request.instruction, hname, hsymbol]

/-- Thirty-one letters and an "é": the builder ends the field with the first byte of
it, the SDK with a zero. -/
theorem edge_letter_splits :
    (Writer.new.fixed (stringOf (List.replicate 31 'F' ++ ['é'])) 32).toBuffer
        = List.replicate 31 70 ++ [0] ∧
      (Builders.fixed 32 (List.replicate 31 'F' ++ ['é'])).toList
        = List.replicate 31 70 ++ [0xC3] ∧
      (Writer.new.fixed (stringOf (List.replicate 31 'F' ++ ['é'])) 32).toBuffer
        ≠ (Builders.fixed 32 (List.replicate 31 'F' ++ ['é'])).toList := by
  decide

end Flock
