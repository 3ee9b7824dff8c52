import Mathlib.Data.Nat.Basic
import Mathlib.Tactic.Common

/-!
# Decoding UTF-8

The decoder every JavaScript runtime has. It never fails: a byte that does not
continue what was begun, and a character the end cuts off, come out as U+FFFD, and
the offending byte is looked at again as the first of a new character. On the
UTF-8 of a text it gives the text back (`decode_encode`).
-/

namespace Utf8

/-- U+FFFD -/
def replacement : Char := Char.ofNat 0xFFFD

/-- A character begun: how many bytes it still needs, between what bounds the next
of them has to be, and the bits so far. -/
structure Pending where
  needed : Nat
  lower : Nat
  upper : Nat
  codePoint : Nat
  deriving DecidableEq, Repr

/-- The first byte of a character. The bounds on the second leave out what a
shorter form could write, the surrogates, and what is above U+10FFFF. -/
def lead (b : Nat) : List Char × Option Pending :=
  if b < 0x80 then ([Char.ofNat b], none)
  else if 0xC2 ≤ b ∧ b ≤ 0xDF then ([], some ⟨1, 0x80, 0xBF, b % 0x20⟩)
  else if 0xE0 ≤ b ∧ b ≤ 0xEF then
    ([], some ⟨2, if b = 0xE0 then 0xA0 else 0x80, if b = 0xED then 0x9F else 0xBF, b % 0x10⟩)
  else if 0xF0 ≤ b ∧ b ≤ 0xF4 then
    ([], some ⟨3, if b = 0xF0 then 0x90 else 0x80, if b = 0xF4 then 0x8F else 0xBF, b % 0x08⟩)
  else ([replacement], none)

def next : Option Pending → (b : Nat) → List Char × Option Pending
  | none, b => lead b
  | some p, b =>
    if p.lower ≤ b ∧ b ≤ p.upper then
      let codePoint := p.codePoint * 0x40 + b % 0x40
      if p.needed = 1 then ([Char.ofNat codePoint], none)
      else ([], some ⟨p.needed - 1, 0x80, 0xBF, codePoint⟩)
    -- the byte begins a character of its own
    else (replacement :: (lead b).1, (lead b).2)

def decodeFrom : Option Pending → List UInt8 → List Char
  | none, [] => []
  | some _, [] => [replacement]
  | s, b :: bs => (next s b.toNat).1 ++ decodeFrom (next s b.toNat).2 bs

def decode : List UInt8 → List Char := decodeFrom none

/-- Byte by byte. -/
theorem decodeFrom_cons (s : Option Pending) (b : UInt8) (bs : List UInt8) :
    decodeFrom s (b :: bs) = (next s b.toNat).1 ++ decodeFrom (next s b.toNat).2 bs := by
  cases s <;> rfl

/-! ## A character that was encoded -/

section Encoded

variable {b codePoint needed lower upper : Nat} (bs : List UInt8)

/-- A byte below 0x80 is its character. -/
theorem decode_ascii (h : b < 0x80) :
    decodeFrom none (UInt8.ofNat b :: bs) = Char.ofNat b :: decodeFrom none bs := by
  rw [decodeFrom_cons, UInt8.toNat_ofNat_of_lt' (by show b < 256; omega)]
  show (lead b).1 ++ decodeFrom (lead b).2 bs = _
  rw [lead, if_pos h]
  rfl

/-- The first of two bytes waits for one. -/
theorem decode_lead_two (hlow : 0xC2 ≤ b) (hhigh : b ≤ 0xDF) :
    decodeFrom none (UInt8.ofNat b :: bs) = decodeFrom (some ⟨1, 0x80, 0xBF, b % 0x20⟩) bs := by
  rw [decodeFrom_cons, UInt8.toNat_ofNat_of_lt' (by show b < 256; omega)]
  show (lead b).1 ++ decodeFrom (lead b).2 bs = _
  rw [lead, if_neg (by omega), if_pos ⟨hlow, hhigh⟩]
  rfl

/-- The first of three bytes waits for two, in the range its own value leaves. -/
theorem decode_lead_three (hlow : 0xE0 ≤ b) (hhigh : b ≤ 0xEF) :
    decodeFrom none (UInt8.ofNat b :: bs) = decodeFrom (some ⟨2, if b = 0xE0 then 0xA0 else 0x80,
      if b = 0xED then 0x9F else 0xBF, b % 0x10⟩) bs := by
  rw [decodeFrom_cons, UInt8.toNat_ofNat_of_lt' (by show b < 256; omega)]
  show (lead b).1 ++ decodeFrom (lead b).2 bs = _
  rw [lead, if_neg (by omega), if_neg (by omega), if_pos ⟨hlow, hhigh⟩]
  rfl

/-- The first of four bytes waits for three, in the range its own value leaves. -/
theorem decode_lead_four (hlow : 0xF0 ≤ b) (hhigh : b ≤ 0xF4) :
    decodeFrom none (UInt8.ofNat b :: bs) = decodeFrom (some ⟨3, if b = 0xF0 then 0x90 else 0x80,
      if b = 0xF4 then 0x8F else 0xBF, b % 0x08⟩) bs := by
  rw [decodeFrom_cons, UInt8.toNat_ofNat_of_lt' (by show b < 256; omega)]
  show (lead b).1 ++ decodeFrom (lead b).2 bs = _
  rw [lead, if_neg (by omega), if_neg (by omega), if_neg (by omega), if_pos ⟨hlow, hhigh⟩]
  rfl

/-- A byte in the middle adds six bits. -/
theorem decode_continue (hlow : lower ≤ b) (hhigh : b ≤ upper) (hb : b < 256)
    (hneeded : needed ≠ 1) :
    decodeFrom (some ⟨needed, lower, upper, codePoint⟩) (UInt8.ofNat b :: bs)
      = decodeFrom (some ⟨needed - 1, 0x80, 0xBF, codePoint * 0x40 + b % 0x40⟩) bs := by
  rw [decodeFrom_cons, UInt8.toNat_ofNat_of_lt' hb, next, if_pos ⟨hlow, hhigh⟩, if_neg hneeded]
  rfl

/-- The last byte adds six bits and makes the character. -/
theorem decode_last (hlow : lower ≤ b) (hhigh : b ≤ upper) (hb : b < 256) :
    decodeFrom (some ⟨1, lower, upper, codePoint⟩) (UInt8.ofNat b :: bs)
      = Char.ofNat (codePoint * 0x40 + b % 0x40) :: decodeFrom none bs := by
  rw [decodeFrom_cons, UInt8.toNat_ofNat_of_lt' hb, next, if_pos ⟨hlow, hhigh⟩, if_pos rfl]
  rfl

/-! What the bounds on the second byte ask for is what the shortest form and the
range of a character give. -/

variable {v : Nat}

/-- Two bytes are one character again. -/
theorem decode_two (hmin : 0x7f < v) (hmax : v ≤ 0x7ff) :
    decodeFrom none (UInt8.ofNat (v / 64 % 0x20 + 0xc0) :: UInt8.ofNat (v % 0x40 + 0x80) :: bs)
      = Char.ofNat v :: decodeFrom none bs := by
  have hvalue : (v / 64 % 0x20 + 0xc0) % 0x20 * 0x40 + (v % 0x40 + 0x80) % 0x40 = v := by omega
  rw [decode_lead_two _ (by omega) (by omega), decode_last _ (by omega) (by omega) (by omega),
    hvalue]

/-- Three bytes are one character again, surrogates apart. -/
theorem decode_three (hmin : 0x7ff < v) (hmax : v ≤ 0xffff) (hscalar : v < 0xD800 ∨ 0xDFFF < v) :
    decodeFrom none (UInt8.ofNat (v / 4096 % 0x10 + 0xe0) ::
        UInt8.ofNat (v / 64 % 0x40 + 0x80) :: UInt8.ofNat (v % 0x40 + 0x80) :: bs)
      = Char.ofNat v :: decodeFrom none bs := by
  have hvalue : ((v / 4096 % 0x10 + 0xe0) % 0x10 * 0x40 + (v / 64 % 0x40 + 0x80) % 0x40) * 0x40
      + (v % 0x40 + 0x80) % 0x40 = v := by omega
  have hlow : (if v / 4096 % 0x10 + 0xe0 = 0xE0 then 0xA0 else 0x80) ≤ v / 64 % 0x40 + 0x80 := by
    split <;> omega
  have hhigh : v / 64 % 0x40 + 0x80 ≤ if v / 4096 % 0x10 + 0xe0 = 0xED then 0x9F else 0xBF := by
    split <;> omega
  rw [decode_lead_three _ (by omega) (by omega), decode_continue _ hlow hhigh (by omega) (by decide),
    decode_last _ (by omega) (by omega) (by omega), hvalue]

/-- Four bytes are one character again. -/
theorem decode_four (hmin : 0xffff < v) (hmax : v < 0x110000) :
    decodeFrom none (UInt8.ofNat (v / 262144 % 0x08 + 0xf0) ::
        UInt8.ofNat (v / 4096 % 0x40 + 0x80) :: UInt8.ofNat (v / 64 % 0x40 + 0x80) ::
        UInt8.ofNat (v % 0x40 + 0x80) :: bs)
      = Char.ofNat v :: decodeFrom none bs := by
  have hvalue : (((v / 262144 % 0x08 + 0xf0) % 0x08 * 0x40 + (v / 4096 % 0x40 + 0x80) % 0x40) * 0x40
      + (v / 64 % 0x40 + 0x80) % 0x40) * 0x40 + (v % 0x40 + 0x80) % 0x40 = v := by omega
  have hlow : (if v / 262144 % 0x08 + 0xf0 = 0xF0 then 0x90 else 0x80)
      ≤ v / 4096 % 0x40 + 0x80 := by
    split <;> omega
  have hhigh : v / 4096 % 0x40 + 0x80
      ≤ if v / 262144 % 0x08 + 0xf0 = 0xF4 then 0x8F else 0xBF := by
    split <;> omega
  rw [decode_lead_four _ (by omega) (by omega), decode_continue _ hlow hhigh (by omega) (by decide),
    decode_continue _ (by omega) (by omega) (by omega) (by decide),
    decode_last _ (by omega) (by omega) (by omega), hvalue]

/-- An encoded character is decoded to itself. By its width. -/
theorem decode_encodeChar (c : Char) :
    decodeFrom none (String.utf8EncodeChar c ++ bs) = c :: decodeFrom none bs := by
  have hvalid : c.val.toNat < 0xD800 ∨ 0xDFFF < c.val.toNat ∧ c.val.toNat < 0x110000 := c.valid
  have hback : Char.ofNat c.val.toNat = c := Char.ofNat_toNat c
  rw [String.utf8EncodeChar]
  generalize c.val.toNat = v at hvalid hback
  -- one byte, two, three or four
  by_cases h1 : v ≤ 0x7f
  · rw [if_pos h1, ← hback]
    exact decode_ascii bs (by omega)
  · rw [if_neg h1, ← hback]
    by_cases h2 : v ≤ 0x7ff
    · rw [if_pos h2]
      exact decode_two bs (by omega) h2
    · rw [if_neg h2]
      by_cases h3 : v ≤ 0xffff
      · rw [if_pos h3]
        exact decode_three bs (by omega) h3 (by omega)
      · rw [if_neg h3]
        exact decode_four bs (by omega) (by omega)

end Encoded

/-- The decoder gives back every text. -/
theorem decode_encode (cs : List Char) : decode (cs.flatMap String.utf8EncodeChar) = cs := by
  induction cs with
  | nil => rfl
  | cons c cs ih =>
    rw [List.flatMap_cons, decode, decode_encodeChar]
    exact congrArg _ ih

/-- "€", whole, cut off after two bytes, and cut off by an "a". -/
example : decode [0xE2, 0x82, 0xAC] = ['€'] ∧ decode [0xE2, 0x82] = [replacement] ∧
    decode [0xE2, 0x82, 0x61] = [replacement, 'a'] := by decide

end Utf8
