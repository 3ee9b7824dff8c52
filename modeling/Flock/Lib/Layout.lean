import Mathlib.Algebra.GroupWithZero.Nat
import Mathlib.Data.List.Basic
import Mathlib.Tactic.Common

/-!
# Fields at fixed offsets

A record in memory is its fields one after another, each from a multiple of its
alignment on (`reprC`). Where every field falls on such a multiple by itself there
is no gap, and the offset of a field is the sum of the widths before it
(`extents`). Such fields never share a byte (`extents_apart`), and where the
concatenation of some pieces stands in a buffer, each piece stands at its own
offset (`Located.laid`).

A reader with literal offsets is a `Reads`: it gives a value and the extents it
looked at, so that what it looks at can be spoken of next to what it returns.
-/

/-- `width` bytes from `offset` on. -/
structure Extent where
  offset : Nat
  width : Nat
  deriving DecidableEq, Repr

namespace Extent

/-- The first byte behind. -/
def stop (e : Extent) : Nat := e.offset + e.width

/-- No byte in common. -/
def Apart (e f : Extent) : Prop := e.stop ≤ f.offset ∨ f.stop ≤ e.offset

/-- Apart is apart from either side. -/
theorem Apart.symm {e f : Extent} (h : e.Apart f) : f.Apart e := Or.symm h

end Extent

/-! ## Where fields stand -/

/-- Fields of these widths without a gap. -/
def extents : (offset : Nat) → List Nat → List Extent
  | _, [] => []
  | offset, w :: ws => ⟨offset, w⟩ :: extents (offset + w) ws

/-- Fields behind fields start where those stop. -/
theorem extents_append (offset : Nat) (ws ws' : List Nat) :
    extents offset (ws ++ ws') = extents offset ws ++ extents (offset + ws.sum) ws' := by
  induction ws generalizing offset with
  | nil => rfl
  | cons w ws ih =>
    show _ :: extents (offset + w) (ws ++ ws') = _
    rw [ih, List.sum_cons, ← Nat.add_assoc]
    rfl

/-- Every field stands between start and end. -/
theorem extents_within {offset : Nat} {ws : List Nat} {e : Extent} (h : e ∈ extents offset ws) :
    offset ≤ e.offset ∧ e.stop ≤ offset + ws.sum := by
  induction ws generalizing offset with
  | nil => cases h
  | cons w ws ih =>
    rw [List.sum_cons]
    rcases List.mem_cons.mp h with rfl | h
    · exact ⟨Nat.le_refl _, by show offset + w ≤ _; omega⟩
    · have := ih h
      omega

/-- Fields one after another share no byte. -/
theorem extents_apart (offset : Nat) (ws : List Nat) :
    (extents offset ws).Pairwise Extent.Apart := by
  induction ws generalizing offset with
  | nil => exact List.Pairwise.nil
  | cons w ws ih =>
    apply List.Pairwise.cons _ (ih _)
    intro e he
    exact Or.inl (extents_within he).1

/-- `n` records of one shape, one after another. -/
theorem extents_replicate (offset n : Nat) (ws : List Nat) :
    extents offset (List.replicate n ws).flatten
      = (List.range n).flatMap fun i => extents (offset + i * ws.sum) ws := by
  induction n with
  | zero => rfl
  | succ n ih =>
    have hsum : (List.replicate n ws).flatten.sum = n * ws.sum := by
      rw [List.sum_flatten, List.map_replicate, List.sum_replicate_nat]
    rw [List.replicate_succ', List.flatten_append, extents_append, ih, hsum, List.range_succ,
      List.flatMap_append]
    simp

/-- A field of a C record. -/
structure CField where
  width : Nat
  align : Nat
  deriving DecidableEq, Repr

/-- The C layout: each field from the next multiple of its alignment on. -/
def reprC : (offset : Nat) → List CField → List Extent
  | _, [] => []
  | offset, f :: fs =>
    let start := (offset + f.align - 1) / f.align * f.align
    ⟨start, f.width⟩ :: reprC (start + f.width) fs

/-! ## What stands there -/

/-- `bs` stands in `data` from `offset` on. -/
def Located (data : List UInt8) (offset : Nat) (bs : List UInt8) : Prop := bs <+: data.drop offset

/-- The pieces stand in `data` one after another. -/
def Laid (data : List UInt8) : (offset : Nat) → (pieces : List (List UInt8)) → Prop
  | _, [] => True
  | offset, p :: ps => Located data offset p ∧ Laid data (offset + p.length) ps

variable {data bs : List UInt8} {offset : Nat}

/-- Bytes stand at the start of themselves. -/
theorem Located.self (bs trailing : List UInt8) : Located (bs ++ trailing) 0 bs :=
  List.prefix_append bs trailing

/-- Both halves of what stands there stand there. -/
theorem Located.append {cs : List UInt8} (h : Located data offset (bs ++ cs)) :
    Located data offset bs ∧ Located data (offset + bs.length) cs := by
  obtain ⟨rest, hrest⟩ := h
  rw [List.append_assoc] at hrest
  refine ⟨⟨cs ++ rest, hrest⟩, ⟨rest, ?_⟩⟩
  rw [← List.drop_drop, ← hrest, List.drop_left]

/-- Pieces that stand there as a whole stand there one after another. -/
theorem Located.laid {pieces : List (List UInt8)} (h : Located data offset pieces.flatten) :
    Laid data offset pieces := by
  induction pieces generalizing offset with
  | nil => trivial
  | cons p ps ih =>
    obtain ⟨hp, hps⟩ := Located.append h
    exact ⟨hp, ih hps⟩

/-- Pieces of one width are found by their number. -/
theorem Laid.at_index {pieces : List (List UInt8)} (h : Laid data offset pieces) {w : Nat}
    (hw : ∀ p ∈ pieces, p.length = w) {i : Nat} {p : List UInt8} (hp : pieces[i]? = some p) :
    Located data (offset + i * w) p := by
  induction pieces generalizing offset i with
  | nil => cases hp
  | cons q ps ih =>
    obtain ⟨hq, hps⟩ := h
    cases i with
    | zero =>
      obtain rfl := Option.some.inj hp
      rwa [Nat.zero_mul, Nat.add_zero]
    | succ i =>
      -- past the first piece, which is `w` bytes wide
      rw [hw q List.mem_cons_self] at hps
      have hi := ih hps (fun p hp => hw p (List.mem_cons_of_mem q hp)) hp
      rwa [Nat.add_assoc, Nat.add_comm w, ← Nat.succ_mul] at hi

/-- What stands somewhere ends within the data. -/
theorem Located.fits (h : Located data offset bs) (hbs : bs ≠ []) :
    offset + bs.length ≤ data.length := by
  have hle := h.length_le
  have hpos := List.length_pos_of_ne_nil hbs
  rw [List.length_drop] at hle
  omega

/-- What stands somewhere is cut out again. -/
theorem Located.take (h : Located data offset bs) : (data.drop offset).take bs.length = bs :=
  (List.prefix_iff_eq_take.mp h).symm

/-! ## Reading -/

/-- A reader of a buffer, with a record of what it looked at. -/
def Reads (ε α : Type) : Type := List UInt8 → Except ε (α × List Extent)

namespace Reads

variable {ε α β : Type}

instance : Monad (Reads ε) where
  pure a := fun _ => .ok (a, [])
  bind r f := fun data => do
    let (a, log) ← r data
    let (b, log') ← f a data
    pure (b, log ++ log')

/-- The length of the buffer. -/
def size : Reads ε Nat := fun data => .ok (data.length, [])

def failIf (p : Prop) [Decidable p] (e : ε) : Reads ε Unit := fun _ =>
  if p then .error e else .ok ((), [])

def lift (x : Except ε α) : Reads ε α := fun _ => x.map fun a => (a, [])

/-- `width` bytes from `offset` on, or `e` where the buffer ends before. -/
def exactly (width : Nat) (e : ε) (offset : Nat) : Reads ε (List UInt8) := fun data =>
  if offset + width ≤ data.length then .ok ((data.drop offset).take width, [⟨offset, width⟩])
  else .error e

/-- `width` bytes from `offset` on, or as many of them as there are. -/
def upTo (width offset : Nat) : Reads ε (List UInt8) := fun data =>
  .ok ((data.drop offset).take width, [⟨offset, width⟩])

/-- `r` reads `a` from `data`, and looks at `log`. -/
def Yields (r : Reads ε α) (data : List UInt8) (a : α) (log : List Extent) : Prop :=
  r data = .ok (a, log)

section Rules

variable {r : Reads ε α} {a : α} {log : List Extent}

/-- Returning a value reads nothing. -/
theorem yields_pure (a : α) : Yields (pure a : Reads ε α) data a [] := rfl

/-- One reading after another reads both. -/
theorem Yields.bind {f : α → Reads ε β} {b : β} {log' : List Extent} (hr : r.Yields data a log)
    (hf : (f a).Yields data b log') : (r >>= f).Yields data b (log ++ log') := by
  show ((r data).bind fun p => ((f p.1 data).bind fun q => .ok (q.1, p.2 ++ q.2))) = _
  rw [show r data = _ from hr]
  show ((f a data).bind fun q => .ok (q.1, log ++ q.2)) = _
  rw [show f a data = _ from hf]
  rfl

/-- Making something of a value reads nothing more. -/
theorem Yields.map (f : α → β) (hr : r.Yields data a log) : (f <$> r).Yields data (f a) log := by
  have h : (r >>= fun a => pure (f a)).Yields data (f a) (log ++ []) := hr.bind (yields_pure _)
  rwa [List.append_nil] at h

/-- The length is known without reading. -/
theorem yields_size : Yields (size : Reads ε Nat) data data.length [] := rfl

/-- A check that passes reads nothing. -/
theorem yields_failIf {p : Prop} [Decidable p] {e : ε} (h : ¬p) :
    (failIf p e).Yields data () [] := if_neg h

/-- A result that is there reads nothing. -/
theorem yields_lift {x : Except ε α} (h : x = .ok a) : (lift x).Yields data a [] := by
  rw [h]
  rfl

/-- What a lifted result yields is the result. -/
theorem Yields.of_lift {x : Except ε α} (h : (lift x).Yields data a log) : x = .ok a := by
  have hmap : x.map (fun a => (a, [])) = .ok (a, log) := h
  cases x with
  | error e => cases hmap
  | ok b =>
    obtain ⟨rfl, -⟩ := Prod.mk.inj (Except.ok.inj hmap)
    rfl

/-- A strict reader returns the bytes that stand there. -/
theorem exactly_of_located (h : Located data offset bs) (hbs : bs ≠ []) (e : ε) :
    (Reads.exactly bs.length e offset).Yields data bs [⟨offset, bs.length⟩] := by
  show (if _ then _ else _) = _
  rw [if_pos (h.fits hbs), h.take]

/-- A lenient reader returns the bytes that stand there. -/
theorem upTo_of_located (h : Located data offset bs) :
    (Reads.upTo bs.length offset : Reads ε _).Yields data bs [⟨offset, bs.length⟩] := by
  show Except.ok _ = _
  rw [h.take]

/-- `r` reads something. -/
def Returns (r : Reads ε α) (data : List UInt8) : Prop := ∃ a log, r.Yields data a log

/-- What yields something returns. -/
theorem Yields.returns (h : r.Yields data a log) : r.Returns data := ⟨a, log, h⟩

/-- Past a step that is known to read `a`. -/
theorem Yields.bind_returns_iff {f : α → Reads ε β} (hr : r.Yields data a log) :
    (r >>= f).Returns data ↔ (f a).Returns data := by
  constructor
  · intro h
    obtain ⟨b, log', h⟩ := h
    have hstep : (r data).bind (fun p => (f p.1 data).bind fun q => .ok (q.1, p.2 ++ q.2))
        = .ok (b, log') := h
    rw [show r data = _ from hr] at hstep
    cases hf : f a data with
    | error e =>
      rw [show (Except.ok (a, log) : Except ε _).bind (fun p => (f p.1 data).bind fun q =>
        .ok (q.1, p.2 ++ q.2)) = (f a data).bind fun q => .ok (q.1, log ++ q.2) from rfl, hf] at hstep
      cases hstep
    | ok q => exact ⟨q.1, q.2, hf⟩
  · intro h
    obtain ⟨b, log', h⟩ := h
    exact ⟨b, _, hr.bind h⟩

/-- A reading returns if its first part does and its second does on that. -/
theorem Yields.andThen {f : α → Reads ε β} (hr : r.Yields data a log)
    (hf : (f a).Returns data) : (r >>= f).Returns data := hr.bind_returns_iff.mpr hf

/-- A step that has to return for the rest to. -/
theorem Returns.of_bind {f : α → Reads ε β} (h : (r >>= f).Returns data) :
    ∃ a, (∃ log, r.Yields data a log) ∧ (f a).Returns data := by
  cases hr : r data with
  | error e =>
    obtain ⟨b, log, h⟩ := h
    have hstep : (r data).bind (fun p => (f p.1 data).bind fun q => .ok (q.1, p.2 ++ q.2))
        = .ok (b, log) := h
    rw [hr] at hstep
    cases hstep
  | ok p =>
    have hp : r.Yields data p.1 p.2 := hr
    exact ⟨p.1, ⟨p.2, hp⟩, hp.bind_returns_iff.mp h⟩

/-- Making something of a value fails nowhere. -/
theorem returns_map_iff {f : α → β} : (f <$> r).Returns data ↔ r.Returns data := by
  constructor
  · intro h
    have hbind : (r >>= fun a => pure (f a)).Returns data := h
    obtain ⟨a, ha, -⟩ := hbind.of_bind
    exact ⟨a, ha⟩
  · intro h
    obtain ⟨a, log, h⟩ := h
    exact (h.map f).returns

/-- A check returns if it passes. -/
theorem returns_failIf_iff {p : Prop} [Decidable p] {e : ε} :
    (failIf p e).Returns data ↔ ¬p := by
  constructor
  · intro h hp
    obtain ⟨a, log, h⟩ := h
    have hfail : failIf p e data = .error e := if_pos hp
    cases hfail.symm.trans h
  · intro hp
    exact (yields_failIf hp).returns

/-- A strict reader returns if the data is long enough. -/
theorem returns_exactly_iff {width : Nat} {e : ε} :
    (Reads.exactly width e offset).Returns data ↔ offset + width ≤ data.length := by
  constructor
  · intro h
    obtain ⟨a, log, h⟩ := h
    by_contra hout
    have hfail : Reads.exactly width e offset data = .error e := if_neg hout
    cases hfail.symm.trans h
  · intro h
    exact ⟨_, _, if_pos h⟩

end Rules

end Reads
