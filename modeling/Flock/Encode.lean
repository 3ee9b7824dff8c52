import Flock.Borsh

/-!
# The SDK's encoder: `encode.ts`

A `Writer` collects chunks and joins them at the end. Every number goes through a
`Buffer`, which refuses what its width has no room for; that is the only way a
chunk is not written. A string is its UTF-16 code units, and `Buffer.write` turns
it into UTF-8 as far as the field goes, in whole characters.
-/

namespace Flock.Sdk

/-! ## Strings -/

/-- A JavaScript string: its UTF-16 code units. -/
abbrev JsString := List UInt16

def isHighSurrogate (u : UInt16) : Prop := 0xD800 ≤ u ∧ u < 0xDC00

def isLowSurrogate (u : UInt16) : Prop := 0xDC00 ≤ u ∧ u < 0xE000

instance (u : UInt16) : Decidable (isHighSurrogate u) := inferInstanceAs (Decidable (_ ∧ _))

instance (u : UInt16) : Decidable (isLowSurrogate u) := inferInstanceAs (Decidable (_ ∧ _))

/-- U+FFFD -/
def replacementCharacter : Char := Char.ofNat 0xFFFD

def joinSurrogates (high low : UInt16) : Char :=
  Char.ofNat (0x10000 + (high.toNat - 0xD800) * 0x400 + (low.toNat - 0xDC00))

/-- The characters of a string. A surrogate without its other half is replaced. -/
def characters : JsString → List Char
  | [] => []
  | [u] => [if isHighSurrogate u ∨ isLowSurrogate u then replacementCharacter
      else Char.ofNat u.toNat]
  | u :: v :: text =>
    if isHighSurrogate u ∧ isLowSurrogate v then joinSurrogates u v :: characters text
    else (if isHighSurrogate u ∨ isLowSurrogate u then replacementCharacter
      else Char.ofNat u.toNat) :: characters (v :: text)

/-- `Buffer.write` with `room` bytes left: whole characters, until one does not fit. -/
def writeUtf8 : (room : Nat) → List Char → List UInt8
  | _, [] => []
  | room, c :: cs =>
    if (String.utf8EncodeChar c).length ≤ room then
      String.utf8EncodeChar c ++ writeUtf8 (room - (String.utf8EncodeChar c).length) cs
    else []

theorem length_writeUtf8_le (room : Nat) (cs : List Char) : (writeUtf8 room cs).length ≤ room := by
  induction cs generalizing room with
  | nil => exact Nat.zero_le room
  | cons c cs ih =>
    rw [writeUtf8]
    split
    next hfits =>
      have hrest := ih (room - (String.utf8EncodeChar c).length)
      rw [List.length_append]
      omega
    next => exact Nat.zero_le room

/-- What `b.write(text.slice(0, length), "utf8")` leaves in a buffer of `length`
zeroes. -/
def fixedBytes (text : JsString) (length : Nat) : Vector UInt8 length :=
  ⟨(writeUtf8 length (characters (text.take length)) ++ List.replicate
    (length - (writeUtf8 length (characters (text.take length))).length) 0).toArray, by
    have hle := length_writeUtf8_le length (characters (text.take length))
    rw [List.size_toArray, List.length_append, List.length_replicate]
    omega⟩

/-! ## The writer -/

/-- `ERR_OUT_OF_RANGE`: a `Buffer` has no room for the value. -/
structure OutOfRange where
  value : Int
  deriving DecidableEq, Repr

structure Writer where
  chunks : List (List UInt8)
  deriving DecidableEq, Repr

namespace Writer

/-- `new Writer()` -/
def new : Writer := ⟨[]⟩

def push (w : Writer) (b : List UInt8) : Writer := ⟨w.chunks ++ [b]⟩

def toBuffer (w : Writer) : List UInt8 := w.chunks.flatten

/-- An unsigned number in `n` bytes. -/
def uint (w : Writer) (n : Nat) (value : Int) : Except OutOfRange Writer :=
  if 0 ≤ value ∧ value < 256 ^ n then .ok (w.push (leBytes n value.toNat)) else .error ⟨value⟩

/-- `writeUInt8` -/
def u8 (w : Writer) (value : Int) : Except OutOfRange Writer := w.uint 1 value

/-- `writeUInt16LE` -/
def u16 (w : Writer) (value : Int) : Except OutOfRange Writer := w.uint 2 value

/-- `writeInt16LE` -/
def i16 (w : Writer) (value : Int) : Except OutOfRange Writer :=
  if -0x8000 ≤ value ∧ value ≤ 0x7fff then .ok (w.push (leBytes 2 (value % 0x10000).toNat))
  else .error ⟨value⟩

/-- `writeUInt32LE` -/
def u32 (w : Writer) (value : Int) : Except OutOfRange Writer := w.uint 4 value

/-- `writeBigUInt64LE` -/
def u64 (w : Writer) (value : Int) : Except OutOfRange Writer := w.uint 8 value

def bytes (w : Writer) (value : List UInt8) : Writer := w.push value

/-- A fixed-width byte field, right-padded with zeroes. -/
def fixed (w : Writer) (text : JsString) (length : Nat) : Writer :=
  w.push (fixedBytes text length).toList

def vecU64 (w : Writer) (values : List Int) : Except OutOfRange Writer := do
  values.foldlM u64 (← w.u32 values.length)

/-! ### What each of them writes -/

@[simp] theorem toBuffer_new : new.toBuffer = [] := rfl

@[simp] theorem toBuffer_push (w : Writer) (b : List UInt8) :
    (w.push b).toBuffer = w.toBuffer ++ b := by
  simp [toBuffer, push]

variable {w w' : Writer} {value : Int}

theorem uint_ok_iff {n : Nat} : w.uint n value = .ok w' ↔
    ∃ x, x < 256 ^ n ∧ value = (x : Nat) ∧ w' = w.push (leBytes n x) := by
  unfold uint
  constructor
  · intro h
    split at h
    next hin =>
      obtain ⟨x, rfl⟩ := Int.eq_ofNat_of_zero_le hin.1
      exact ⟨x, by exact_mod_cast hin.2, rfl, (Except.ok.inj h).symm⟩
    next => cases h
  · rintro ⟨x, hx, rfl, rfl⟩
    have hin : (0 : Int) ≤ x ∧ (x : Int) < 256 ^ n := ⟨Int.natCast_nonneg x, by exact_mod_cast hx⟩
    rw [if_pos hin, Int.toNat_natCast]

theorem u8_toNat (w : Writer) (x : UInt8) : w.u8 x.toNat = .ok (w.push (Codec.u8.write x)) :=
  uint_ok_iff.mpr ⟨x.toNat, x.toNat_lt, rfl, rfl⟩

theorem u16_toNat (w : Writer) (x : UInt16) : w.u16 x.toNat = .ok (w.push (Codec.u16.write x)) :=
  uint_ok_iff.mpr ⟨x.toNat, x.toNat_lt, rfl, rfl⟩

theorem u32_toNat (w : Writer) (x : UInt32) : w.u32 x.toNat = .ok (w.push (Codec.u32.write x)) :=
  uint_ok_iff.mpr ⟨x.toNat, x.toNat_lt, rfl, rfl⟩

theorem u64_toNat (w : Writer) (x : UInt64) : w.u64 x.toNat = .ok (w.push (Codec.u64.write x)) :=
  uint_ok_iff.mpr ⟨x.toNat, x.toNat_lt, rfl, rfl⟩

theorem u64_ok_iff : w.u64 value = .ok w' ↔
    ∃ x : UInt64, value = x.toNat ∧ w' = w.push (Codec.u64.write x) := by
  refine uint_ok_iff.trans ?_
  constructor
  · rintro ⟨x, hx, rfl, rfl⟩
    have hx' : (UInt64.ofNat x).toNat = x := UInt64.toNat_ofNat_of_lt' hx
    refine ⟨UInt64.ofNat x, by rw [hx'], ?_⟩
    show w.push (leBytes 8 x) = w.push (leBytes 8 (UInt64.ofNat x).toNat)
    rw [hx']
  · rintro ⟨x, rfl, rfl⟩
    exact ⟨x.toNat, x.toNat_lt, rfl, rfl⟩

/-- Two's complement, also below zero. -/
theorem i16_toInt (w : Writer) (x : Int16) : w.i16 x.toInt = .ok (w.push (Codec.i16.write x)) := by
  have hge := x.le_toInt
  have hlt := x.toInt_lt
  have hin : -0x8000 ≤ x.toInt ∧ x.toInt ≤ 0x7fff := by omega
  have hmod : (x.toInt % 0x10000).toNat = x.toUInt16.toNat := by
    have hcond : x.toInt = if 2 * x.toUInt16.toNat < 2 ^ 16 then (x.toUInt16.toNat : Int)
        else (x.toUInt16.toNat : Int) - (2 ^ 16 : Nat) := BitVec.toInt_eq_toNat_cond x.toBitVec
    have hub := x.toUInt16.toNat_lt
    split at hcond <;> omega
  rw [i16, if_pos hin, hmod]
  rfl

/-- The loop of `vecU64`: it goes through just when every entry is a `u64`. -/
theorem foldlM_u64_ok_iff {values : List Int} : values.foldlM u64 w = .ok w' ↔
    ∃ xs : List UInt64, values = xs.map (fun x => (x.toNat : Int)) ∧
      w' = ⟨w.chunks ++ xs.map Codec.u64.write⟩ := by
  induction values generalizing w with
  | nil =>
    constructor
    · intro h
      obtain rfl := Except.ok.inj h
      exact ⟨[], rfl, by simp⟩
    · rintro ⟨xs, hxs, rfl⟩
      obtain rfl := List.map_eq_nil_iff.mp hxs.symm
      simp
      rfl
  | cons v values ih =>
    rw [List.foldlM_cons, Outcome.bind_ok_iff]
    constructor
    · rintro ⟨w₁, hv, hrest⟩
      obtain ⟨x, rfl, rfl⟩ := u64_ok_iff.mp hv
      obtain ⟨xs, rfl, rfl⟩ := ih.mp hrest
      exact ⟨x :: xs, rfl, by simp [push]⟩
    · rintro ⟨xs, hxs, rfl⟩
      obtain ⟨x, xs, rfl⟩ : ∃ x xs', xs = x :: xs' := by
        cases xs with
        | nil => cases hxs
        | cons x xs => exact ⟨x, xs, rfl⟩
      obtain ⟨rfl, rfl⟩ := List.cons.inj hxs
      exact ⟨_, u64_toNat w x, ih.mpr ⟨xs, rfl, by simp [push]⟩⟩

/-- A vector is written as the format has it, and nothing else is written. -/
theorem vecU64_ok_iff {values : List Int} : w.vecU64 values = .ok w' ↔
    ∃ xs : List UInt64, values = xs.map (fun x => (x.toNat : Int)) ∧ xs.length < 2 ^ 32 ∧
      w' = ⟨w.chunks ++ leBytes 4 xs.length :: xs.map Codec.u64.write⟩ := by
  rw [vecU64, Outcome.bind_ok_iff]
  constructor
  · rintro ⟨w₁, hlen, hrest⟩
    obtain ⟨n, hn, heq, rfl⟩ := uint_ok_iff.mp hlen
    obtain ⟨xs, rfl, rfl⟩ := foldlM_u64_ok_iff.mp hrest
    have hn' : xs.length = n := by
      rw [List.length_map] at heq
      exact_mod_cast heq
    subst hn'
    exact ⟨xs, rfl, hn, by simp [push]⟩
  · rintro ⟨xs, rfl, hlen, rfl⟩
    refine ⟨w.push (leBytes 4 xs.length), ?_, ?_⟩
    · rw [List.length_map]
      exact uint_ok_iff.mpr ⟨xs.length, hlen, rfl, rfl⟩
    · exact foldlM_u64_ok_iff.mpr ⟨xs, rfl, by simp [push]⟩

end Writer

end Flock.Sdk
