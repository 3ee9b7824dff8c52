import Mathlib.Algebra.Group.Nat.Defs
import Mathlib.Data.Nat.Basic
import Mathlib.Tactic.Common

/-!
# Byte formats

A `Codec` writes a value in front of whatever follows and reads it back off the
front. Its one law, `read_iff`, has both directions in it: what was written is
read back, and nothing else is read. Fields one after another (`pair`), a change
of representation (`map`) and counted lists (`vec`) keep the law.

Integers are little-endian, lowest byte first.

A reader that fails says nothing about why: the formats here have one way to fail, which
is that the bytes run out or have no value. A list is counted in four bytes, and one that
is longer does not fit, where a writer that casts the count would cut it.
-/

/-- The `n` lowest bytes of a number. -/
def leBytes : (n : Nat) → Nat → List UInt8
  | 0, _ => []
  | n + 1, x => UInt8.ofNat x :: leBytes n (x / 256)

/-- The number a byte list writes down. -/
def leNat : List UInt8 → Nat
  | [] => 0
  | b :: bs => b.toNat + 256 * leNat bs

/-- `n` bytes are `n` bytes. -/
@[simp] theorem length_leBytes (n x : Nat) : (leBytes n x).length = n := by
  induction n generalizing x with
  | zero => rfl
  | succ n ih => rw [leBytes, List.length_cons, ih]

/-- What `n` bytes write down is below 256 ^ n. -/
theorem leNat_lt (bs : List UInt8) : leNat bs < 256 ^ bs.length := by
  induction bs with
  | nil => exact Nat.one_pos
  | cons b bs ih =>
    have hb := b.toNat_lt
    rw [leNat, List.length_cons, Nat.pow_succ]
    omega

/-- A number that fits comes back from its bytes. -/
theorem leNat_leBytes {n x : Nat} (h : x < 256 ^ n) : leNat (leBytes n x) = x := by
  induction n generalizing x with
  | zero =>
    have h0 : x < 1 := h
    rw [leBytes, leNat]
    omega
  | succ n ih =>
    have hdiv : x / 256 < 256 ^ n := by
      rw [Nat.pow_succ] at h
      exact Nat.div_lt_of_lt_mul (by omega)
    rw [leBytes, leNat, ih hdiv, UInt8.toNat_ofNat']
    omega

/-- Bytes come back from their number. -/
theorem leBytes_leNat (bs : List UInt8) : leBytes bs.length (leNat bs) = bs := by
  induction bs with
  | nil => rfl
  | cons b bs ih =>
    have hb := b.toNat_lt
    have hlow : UInt8.ofNat (b.toNat + 256 * leNat bs) = b := by
      apply UInt8.toNat_inj.mp
      rw [UInt8.toNat_ofNat']
      omega
    have hhigh : (b.toNat + 256 * leNat bs) / 256 = leNat bs := by omega
    show UInt8.ofNat (b.toNat + 256 * leNat bs) ::
      leBytes bs.length ((b.toNat + 256 * leNat bs) / 256) = b :: bs
    rw [hlow, hhigh, ih]

/-- A writer and a reader of one format. -/
structure Codec (α : Type) where
  /-- The values the format has room for. -/
  Fits : α → Prop
  write : α → List UInt8
  /-- One value, and what follows it. -/
  read : List UInt8 → Option (α × List UInt8)
  read_iff : ∀ {bs a rest}, read bs = some (a, rest) ↔ Fits a ∧ bs = write a ++ rest

namespace Codec

variable {α β : Type}

/-- What was written is read back, whatever follows it. -/
theorem read_write (c : Codec α) {a : α} (h : c.Fits a) (rest : List UInt8) :
    c.read (c.write a ++ rest) = some (a, rest) := c.read_iff.mpr ⟨h, rfl⟩

/-- The first `n` bytes, all of them. -/
def bytes (n : Nat) : Codec (List UInt8) where
  Fits bs := bs.length = n
  write bs := bs
  read bs := if n ≤ bs.length then some (bs.take n, bs.drop n) else none
  read_iff := by
    intro bs a rest
    constructor
    · intro h
      split at h
      next hn =>
        obtain ⟨rfl, rfl⟩ := Prod.mk.inj (Option.some.inj h)
        exact ⟨List.length_take_of_le hn, (List.take_append_drop n bs).symm⟩
      next => cases h
    · rintro ⟨rfl, rfl⟩
      rw [if_pos (by simp), List.take_left, List.drop_left]

/-- Read a value and make something of it. -/
def readAs (c : Codec α) (f : α → β) (bs : List UInt8) : Option (β × List UInt8) :=
  (c.read bs).map fun r => (f r.1, r.2)

/-- The law of a codec for what was made of the value. -/
theorem readAs_iff (c : Codec α) {f : α → β} {bs rest : List UInt8} {b : β} :
    c.readAs f bs = some (b, rest) ↔ ∃ a, c.Fits a ∧ f a = b ∧ bs = c.write a ++ rest := by
  rw [readAs, Option.map_eq_some_iff]
  constructor
  · rintro ⟨⟨a, s⟩, hread, heq⟩
    obtain ⟨rfl, rfl⟩ := Prod.mk.inj heq
    obtain ⟨hfit, hbs⟩ := c.read_iff.mp hread
    exact ⟨a, hfit, rfl, hbs⟩
  · rintro ⟨a, hfit, rfl, hbs⟩
    exact ⟨(a, rest), c.read_iff.mpr ⟨hfit, hbs⟩, rfl⟩

/-- What was written is read back and made into the other value. -/
theorem readAs_write (c : Codec α) {f : α → β} (a : α) (h : c.Fits a) (rest : List UInt8) :
    c.readAs f (c.write a ++ rest) = some (f a, rest) :=
  c.readAs_iff.mpr ⟨a, h, rfl, rfl⟩

/-- The same bytes, read as another type. -/
def map (c : Codec α) (f : α → β) (g : β → α) (hfg : ∀ {b}, c.Fits (g b) → f (g b) = b)
    (hgf : ∀ {a}, c.Fits a → g (f a) = a) : Codec β where
  Fits b := c.Fits (g b)
  write b := c.write (g b)
  read := c.readAs f
  read_iff := by
    intro bs b rest
    rw [readAs_iff]
    constructor
    · rintro ⟨a, hfit, rfl, hbs⟩
      rw [hgf hfit]
      exact ⟨hfit, hbs⟩
    · rintro ⟨hfit, hbs⟩
      exact ⟨g b, hfit, hfg hfit, hbs⟩

/-- One field after another. -/
def pair (c : Codec α) (d : Codec β) : Codec (α × β) where
  Fits p := c.Fits p.1 ∧ d.Fits p.2
  write p := c.write p.1 ++ d.write p.2
  read bs := (c.read bs).bind fun r => (d.read r.2).map fun q => ((r.1, q.1), q.2)
  read_iff := by
    intro bs p rest
    rw [Option.bind_eq_some_iff]
    constructor
    · -- what the first leaves over is what the second reads
      rintro ⟨⟨a, s⟩, hread, hrest⟩
      obtain ⟨⟨b, s'⟩, hread', heq⟩ := Option.map_eq_some_iff.mp hrest
      obtain ⟨rfl, rfl⟩ := Prod.mk.inj heq
      obtain ⟨hfit, rfl⟩ := c.read_iff.mp hread
      obtain ⟨hfit', hs⟩ := d.read_iff.mp hread'
      refine ⟨⟨hfit, hfit'⟩, ?_⟩
      dsimp only at hs ⊢
      rw [hs, List.append_assoc]
    · rintro ⟨⟨hfit, hfit'⟩, rfl⟩
      refine ⟨(p.1, d.write p.2 ++ rest), ?_, ?_⟩
      · rw [List.append_assoc]
        exact c.read_write hfit _
      · rw [d.read_write hfit' rest]
        rfl

/-- There is room for both or for none. -/
@[simp] theorem pair_fits {c : Codec α} {d : Codec β} {p : α × β} :
    (c.pair d).Fits p ↔ c.Fits p.1 ∧ d.Fits p.2 := Iff.rfl

/-! ### Numbers -/

/-- A number in `n` bytes. -/
def nat (n : Nat) : Codec Nat where
  Fits x := x < 256 ^ n
  write x := leBytes n x
  read := (bytes n).readAs leNat
  read_iff := by
    intro bs x rest
    rw [readAs_iff]
    constructor
    · rintro ⟨a, hlen, rfl, hbs⟩
      have hlen' : a.length = n := hlen
      subst hlen'
      refine ⟨leNat_lt a, ?_⟩
      rw [leBytes_leNat]
      exact hbs
    · rintro ⟨hx, hbs⟩
      exact ⟨leBytes n x, length_leBytes n x, leNat_leBytes hx, hbs⟩

def u8 : Codec UInt8 := (nat 1).map UInt8.ofNat UInt8.toNat
  (fun _ => UInt8.ofNat_toNat) (fun h => UInt8.toNat_ofNat_of_lt' h)

def u16 : Codec UInt16 := (nat 2).map UInt16.ofNat UInt16.toNat
  (fun _ => UInt16.ofNat_toNat) (fun h => UInt16.toNat_ofNat_of_lt' h)

def u32 : Codec UInt32 := (nat 4).map UInt32.ofNat UInt32.toNat
  (fun _ => UInt32.ofNat_toNat) (fun h => UInt32.toNat_ofNat_of_lt' h)

def u64 : Codec UInt64 := (nat 8).map UInt64.ofNat UInt64.toNat
  (fun _ => UInt64.ofNat_toNat) (fun h => UInt64.toNat_ofNat_of_lt' h)

/-- Two's complement. -/
def i16 : Codec Int16 := u16.map UInt16.toInt16 Int16.toUInt16 (fun _ => rfl) (fun _ => rfl)

def i64 : Codec Int64 := u64.map UInt64.toInt64 Int64.toUInt64 (fun _ => rfl) (fun _ => rfl)

/-- One byte has room for every `UInt8`. -/
@[simp] theorem u8_fits (x : UInt8) : u8.Fits x := x.toNat_lt

/-- Two bytes have room for every `UInt16`. -/
@[simp] theorem u16_fits (x : UInt16) : u16.Fits x := x.toNat_lt

/-- Four bytes have room for every `UInt32`. -/
@[simp] theorem u32_fits (x : UInt32) : u32.Fits x := x.toNat_lt

/-- Eight bytes have room for every `UInt64`. -/
@[simp] theorem u64_fits (x : UInt64) : u64.Fits x := x.toNat_lt

/-- Two bytes have room for every `Int16`. -/
@[simp] theorem i16_fits (x : Int16) : i16.Fits x := u16_fits x.toUInt16

/-- Eight bytes have room for every `Int64`. -/
@[simp] theorem i64_fits (x : Int64) : i64.Fits x := u64_fits x.toUInt64

/-- One byte, zero or one. Any other byte is refused. -/
def bool : Codec Bool where
  Fits _ := True
  write b := [if b then 1 else 0]
  read
    | 0 :: rest => some (false, rest)
    | 1 :: rest => some (true, rest)
    | _ => none
  read_iff := by
    intro bs b rest
    constructor
    · intro h
      split at h
      next rest' =>
        obtain ⟨rfl, rfl⟩ := Prod.mk.inj (Option.some.inj h)
        exact ⟨trivial, rfl⟩
      next rest' =>
        obtain ⟨rfl, rfl⟩ := Prod.mk.inj (Option.some.inj h)
        exact ⟨trivial, rfl⟩
      next => cases h
    · rintro ⟨-, rfl⟩
      cases b <;> rfl

/-! ### Sequences -/

/-- `n` bytes at their own type. -/
def array (n : Nat) : Codec (Vector UInt8 n) where
  Fits _ := True
  write v := v.toList
  read bs := if h : n ≤ bs.length then
      some (⟨(bs.take n).toArray, List.length_take_of_le h⟩, bs.drop n)
    else none
  read_iff := by
    intro bs v rest
    constructor
    · intro h
      split at h
      next hn =>
        obtain ⟨rfl, rfl⟩ := Prod.mk.inj (Option.some.inj h)
        exact ⟨trivial, (List.take_append_drop n bs).symm⟩
      next => cases h
    · rintro ⟨-, rfl⟩
      have hlen : v.toList.length = n := Vector.length_toList
      rw [dif_pos (by simp)]
      congr 2
      · apply Vector.toList_inj.mp
        show (v.toList ++ rest).take n = v.toList
        rw [List.take_append_of_le_length (by omega), List.take_of_length_le (by omega)]
      · rw [List.drop_append_of_le_length (by omega), List.drop_of_length_le (by omega)]
        rfl

/-- An array of known length always fits. -/
@[simp] theorem array_fits {n : Nat} (v : Vector UInt8 n) : (array n).Fits v := trivial

/-- `n` values, one after another. -/
def readMany (c : Codec α) : Nat → List UInt8 → Option (List α × List UInt8)
  | 0, bs => some ([], bs)
  | n + 1, bs => (c.read bs).bind fun r => (readMany c n r.2).map fun q => (r.1 :: q.1, q.2)

/-- The law of a codec for `n` values in a row. By induction on `n`. -/
theorem readMany_iff (c : Codec α) {n : Nat} {bs rest : List UInt8} {as : List α} :
    readMany c n bs = some (as, rest) ↔
      (as.length = n ∧ ∀ a ∈ as, c.Fits a) ∧ bs = as.flatMap c.write ++ rest := by
  induction n generalizing bs as with
  | zero =>
    rw [readMany, Option.some.injEq, Prod.mk.injEq]
    constructor
    · rintro ⟨rfl, rfl⟩
      exact ⟨⟨rfl, fun a ha => absurd ha List.not_mem_nil⟩, rfl⟩
    · rintro ⟨⟨hlen, -⟩, rfl⟩
      obtain rfl := List.eq_nil_of_length_eq_zero hlen
      exact ⟨rfl, rfl⟩
  | succ n ih =>
    rw [readMany, Option.bind_eq_some_iff]
    constructor
    · rintro ⟨⟨a, s⟩, hread, hrest⟩
      obtain ⟨⟨as', s'⟩, hread', heq⟩ := Option.map_eq_some_iff.mp hrest
      obtain ⟨rfl, rfl⟩ := Prod.mk.inj heq
      obtain ⟨hfit, rfl⟩ := c.read_iff.mp hread
      obtain ⟨⟨hlen, hall⟩, hs⟩ := ih.mp hread'
      dsimp only at hs ⊢
      refine ⟨⟨by rw [List.length_cons, hlen], ?_⟩, ?_⟩
      · intro b hb
        rcases List.mem_cons.mp hb with rfl | hb
        · exact hfit
        · exact hall b hb
      · rw [hs, List.flatMap_cons, List.append_assoc]
    · -- the head is read first, the tail from what it leaves over
      rintro ⟨⟨hlen, hall⟩, rfl⟩
      obtain ⟨a, as', rfl⟩ := List.exists_cons_of_length_eq_add_one hlen
      refine ⟨(a, as'.flatMap c.write ++ rest), ?_, ?_⟩
      · rw [List.flatMap_cons, List.append_assoc]
        exact c.read_write (hall a List.mem_cons_self) _
      · rw [ih.mpr ⟨⟨Nat.succ.inj hlen, fun b hb => hall b (List.mem_cons_of_mem a hb)⟩, rfl⟩]
        rfl

/-- A list behind its length in four bytes. -/
def vec (c : Codec α) : Codec (List α) where
  Fits as := as.length < 256 ^ 4 ∧ ∀ a ∈ as, c.Fits a
  write as := leBytes 4 as.length ++ as.flatMap c.write
  read bs := ((nat 4).read bs).bind fun r => readMany c r.1 r.2
  read_iff := by
    intro bs as rest
    rw [Option.bind_eq_some_iff]
    constructor
    · rintro ⟨⟨n, s⟩, hread, hmany⟩
      obtain ⟨hn, rfl⟩ := (nat 4).read_iff.mp hread
      obtain ⟨⟨rfl, hall⟩, hs⟩ := (readMany_iff c).mp hmany
      dsimp only at hs
      refine ⟨⟨hn, hall⟩, ?_⟩
      rw [hs, List.append_assoc]
      rfl
    · rintro ⟨⟨hlen, hall⟩, rfl⟩
      refine ⟨(as.length, as.flatMap c.write ++ rest), ?_, ?_⟩
      · rw [List.append_assoc]
        exact (nat 4).read_write hlen _
      · exact (readMany_iff c).mpr ⟨⟨rfl, hall⟩, rfl⟩

/-- A counted list fits if its length does and every element does. -/
@[simp] theorem vec_fits {c : Codec α} {as : List α} :
    (vec c).Fits as ↔ as.length < 2 ^ 32 ∧ ∀ a ∈ as, c.Fits a := Iff.rfl

/-- `n` values at their own type. -/
def arrayOf (c : Codec α) (n : Nat) : Codec (Vector α n) where
  Fits v := ∀ a ∈ v.toList, c.Fits a
  write v := v.toList.flatMap c.write
  read bs := (readMany c n bs).bind fun r =>
    if h : r.1.length = n then some (⟨r.1.toArray, h⟩, r.2) else none
  read_iff := by
    intro bs v rest
    rw [Option.bind_eq_some_iff]
    constructor
    · intro h
      obtain ⟨⟨as, s⟩, hmany, hv⟩ := h
      obtain ⟨⟨hlen, hall⟩, hbs⟩ := (readMany_iff c).mp hmany
      rw [dif_pos hlen] at hv
      obtain ⟨rfl, rfl⟩ := Prod.mk.inj (Option.some.inj hv)
      exact ⟨hall, hbs⟩
    · intro h
      obtain ⟨hall, hbs⟩ := h
      have hlen : v.toList.length = n := Vector.length_toList
      exact ⟨(v.toList, rest), (readMany_iff c).mpr ⟨⟨hlen, hall⟩, hbs⟩, dif_pos hlen⟩

/-! ### Formats that refuse nothing -/

/-- Any `n` bytes are a value, and what is behind them is left over. -/
def Total (c : Codec α) (n : Nat) : Prop :=
  ∀ bs : List UInt8, n ≤ bs.length →
    ∃ a rest, c.read bs = some (a, rest) ∧ rest.length + n = bs.length

/-- The same bytes under another type. -/
theorem Total.readAs {c : Codec α} {d : Codec β} {n : Nat} {f : α → β} (h : c.Total n)
    (hread : d.read = c.readAs f) : d.Total n := by
  intro bs hbs
  obtain ⟨a, rest, ha, hlen⟩ := h bs hbs
  refine ⟨f a, rest, ?_, hlen⟩
  rw [hread]
  show (c.read bs).map _ = _
  rw [ha]
  rfl

/-- Two formats that refuse nothing refuse nothing together. -/
theorem Total.pair {c : Codec α} {d : Codec β} {m n : Nat} (hc : c.Total m) (hd : d.Total n) :
    (c.pair d).Total (m + n) := by
  intro bs hbs
  obtain ⟨a, rest, hread, hlen⟩ := hc bs (by omega)
  obtain ⟨b, rest', hread', hlen'⟩ := hd rest (by omega)
  refine ⟨(a, b), rest', ?_, by omega⟩
  show (c.read bs).bind _ = _
  rw [hread]
  show (d.read rest).map _ = _
  rw [hread']
  rfl

/-- Any `n` bytes are a number. -/
theorem nat_total (n : Nat) : (nat n).Total n := by
  intro bs hbs
  refine ⟨leNat (bs.take n), bs.drop n, ?_, by rw [List.length_drop]; omega⟩
  show (if n ≤ bs.length then some (bs.take n, bs.drop n) else none).map _ = _
  rw [if_pos hbs]
  rfl

/-- Any `n` bytes are an array. -/
theorem array_total (n : Nat) : (array n).Total n := by
  intro bs hbs
  exact ⟨_, bs.drop n, dif_pos hbs, by rw [List.length_drop]; omega⟩

/-- Enough bytes for `n` values are `n` values. -/
theorem readMany_total {c : Codec α} {w : Nat} (h : c.Total w) (n : Nat) (bs : List UInt8)
    (hbs : n * w ≤ bs.length) :
    ∃ as rest, readMany c n bs = some (as, rest) ∧ rest.length + n * w = bs.length := by
  induction n generalizing bs with
  | zero => exact ⟨[], bs, rfl, by rw [Nat.zero_mul, Nat.add_zero]⟩
  | succ n ih =>
    rw [Nat.succ_mul] at hbs
    obtain ⟨a, rest, hread, hlen⟩ := h bs (by omega)
    obtain ⟨as, rest', hmany, hlen'⟩ := ih rest (by omega)
    refine ⟨a :: as, rest', ?_, by rw [Nat.succ_mul]; omega⟩
    rw [readMany, hread]
    show (readMany c n rest).map _ = _
    rw [hmany]
    rfl

/-- An array of values refuses nothing if its element does not. -/
theorem Total.arrayOf {c : Codec α} {w : Nat} (h : c.Total w) (n : Nat) :
    (c.arrayOf n).Total (n * w) := by
  intro bs hbs
  obtain ⟨as, rest, hmany, hlen⟩ := readMany_total h n bs hbs
  have hn : as.length = n := ((readMany_iff c).mp hmany).1.1
  refine ⟨⟨as.toArray, hn⟩, rest, ?_, hlen⟩
  show (readMany c n bs).bind _ = _
  rw [hmany]
  exact dif_pos hn

end Codec
