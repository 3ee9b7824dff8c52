import Flock.Borsh
import Flock.Lib.Layout

/-!
# `state.rs`: the bytes of the record

The three `#[repr(C)]` structs as the account holds them: all sixteen slots, the
counter, and the padding, which can be anything. `RawIndex.layout` is where the C
layout puts each field, `RawIndex.image` the bytes. The paddings the source names
are all there are: no field needs to be moved to its alignment.

`RawIndex.index` is the record the rest of the development reads and writes.

Notes on the source:
- `bytemuck` casts the bytes in place; here they are written one field after another,
  little-endian as on the machine the program runs on.
- An empty slot is a component like any other, whatever it holds. Only the counter says
  where the table ends.
-/

namespace Flock

open Codec

/-- `Component` -/
structure RawComponent extends Component where
  pad : Vector UInt8 6
  deriving DecidableEq

/-- `Rebalance` -/
structure RawRebalance extends Rebalance where
  pad : Vector UInt8 1
  deriving DecidableEq

/-- `Index` -/
structure RawIndex where
  indexMint : Pubkey
  governor : Pubkey
  manager : Pubkey
  feeRecipient : Pubkey
  lastFeeAccrual : Int64
  createdAt : Int64
  rebalanceDelay : UInt32
  streamingFeeBps : UInt16
  issueFeeBps : UInt16
  redeemFeeBps : UInt16
  maxPremiumBps : UInt16
  tag : UInt8
  version : UInt8
  bump : UInt8
  state : UInt8
  decimals : UInt8
  componentCount : UInt8
  name : Vector UInt8 32
  symbol : Vector UInt8 12
  pad : Vector UInt8 2
  components : Vector RawComponent maxComponents
  rebalance : RawRebalance
  deriving DecidableEq

/-! ## Fields and their bytes, in the order of the source -/

def RawComponent.fields : List CField :=
  [⟨32, 1⟩, ⟨8, 8⟩, ⟨8, 8⟩, ⟨8, 8⟩, ⟨1, 1⟩, ⟨1, 1⟩, ⟨6, 1⟩]

def RawComponent.pieces (c : RawComponent) : List (List UInt8) :=
  [Pubkey.codec.write c.mint, u64.write c.units, u64.write c.targetUnits, u64.write c.refPriceE9,
    u8.write c.decimals, u8.write c.vaultBump, c.pad.toList]

def RawRebalance.fields : List CField :=
  [⟨32, 1⟩, ⟨8, 8⟩, ⟨8, 8⟩, ⟨8, 8⟩, ⟨8, 8⟩, ⟨2, 2⟩, ⟨2, 2⟩, ⟨2, 2⟩, ⟨1, 1⟩, ⟨1, 1⟩]

def RawRebalance.pieces (r : RawRebalance) : List (List UInt8) :=
  [Pubkey.codec.write r.proposer, i64.write r.proposedAt, i64.write r.startTs, i64.write r.endTs,
    u64.write r.navFloorE6, i16.write r.startPremiumBps, i16.write r.endPremiumBps,
    u16.write r.maxNavLossBps, u8.write r.active, r.pad.toList]

namespace RawIndex

/-- What stands before the table. -/
def headerFields : List CField :=
  [⟨32, 1⟩, ⟨32, 1⟩, ⟨32, 1⟩, ⟨32, 1⟩, ⟨8, 8⟩, ⟨8, 8⟩, ⟨4, 4⟩, ⟨2, 2⟩, ⟨2, 2⟩, ⟨2, 2⟩, ⟨2, 2⟩,
    ⟨1, 1⟩, ⟨1, 1⟩, ⟨1, 1⟩, ⟨1, 1⟩, ⟨1, 1⟩, ⟨1, 1⟩, ⟨32, 1⟩, ⟨12, 1⟩, ⟨2, 1⟩]

def headerPieces (r : RawIndex) : List (List UInt8) :=
  [Pubkey.codec.write r.indexMint, Pubkey.codec.write r.governor, Pubkey.codec.write r.manager,
    Pubkey.codec.write r.feeRecipient, i64.write r.lastFeeAccrual, i64.write r.createdAt,
    u32.write r.rebalanceDelay, u16.write r.streamingFeeBps, u16.write r.issueFeeBps,
    u16.write r.redeemFeeBps, u16.write r.maxPremiumBps, u8.write r.tag, u8.write r.version,
    u8.write r.bump, u8.write r.state, u8.write r.decimals, u8.write r.componentCount,
    r.name.toList, r.symbol.toList, r.pad.toList]

def fields : List CField :=
  headerFields ++ ((List.replicate maxComponents RawComponent.fields).flatten ++
    RawRebalance.fields)

def slotImages (r : RawIndex) : List (List UInt8) :=
  r.components.toList.map fun c => c.pieces.flatten

/-- The account data. -/
def image (r : RawIndex) : List UInt8 :=
  r.headerPieces.flatten ++ (r.slotImages.flatten ++ r.rebalance.pieces.flatten)

/-- Where the fields stand. The nested structs are 64 and 72 bytes long and start at
multiples of 8, which is their alignment, so their fields stand as if written out in
line. -/
def layout : List Extent := reprC 0 fields

/-- The record: the slots in use, without the padding. -/
def index (r : RawIndex) : Index where
  indexMint := r.indexMint
  governor := r.governor
  manager := r.manager
  feeRecipient := r.feeRecipient
  lastFeeAccrual := r.lastFeeAccrual
  createdAt := r.createdAt
  rebalanceDelay := r.rebalanceDelay
  streamingFeeBps := r.streamingFeeBps
  issueFeeBps := r.issueFeeBps
  redeemFeeBps := r.redeemFeeBps
  maxPremiumBps := r.maxPremiumBps
  tag := r.tag
  version := r.version
  bump := r.bump
  state := r.state
  decimals := r.decimals
  name := r.name
  symbol := r.symbol
  components := (r.components.toList.take r.componentCount.toNat).map RawComponent.toComponent
  rebalance := r.rebalance.toRebalance

end RawIndex

/-! ## Widths -/

/-- A key takes 32 bytes. -/
@[simp] theorem Pubkey.length_write (k : Pubkey) : (Pubkey.codec.write k).length = 32 :=
  length_leBytes 32 _

/-- A `u8` takes one byte. -/
@[simp] theorem length_write_u8 (x : UInt8) : (u8.write x).length = 1 := length_leBytes 1 _

/-- A `u16` takes two bytes. -/
@[simp] theorem length_write_u16 (x : UInt16) : (u16.write x).length = 2 := length_leBytes 2 _

/-- A `u32` takes four bytes. -/
@[simp] theorem length_write_u32 (x : UInt32) : (u32.write x).length = 4 := length_leBytes 4 _

/-- A `u64` takes eight bytes. -/
@[simp] theorem length_write_u64 (x : UInt64) : (u64.write x).length = 8 := length_leBytes 8 _

/-- An `i16` takes two bytes. -/
@[simp] theorem length_write_i16 (x : Int16) : (i16.write x).length = 2 := length_leBytes 2 _

/-- An `i64` takes eight bytes. -/
@[simp] theorem length_write_i64 (x : Int64) : (i64.write x).length = 8 := length_leBytes 8 _

/-- The pieces of an entry are as wide as the fields of the struct. -/
theorem RawComponent.pieces_width (c : RawComponent) :
    c.pieces.map List.length = RawComponent.fields.map CField.width := by
  simp [RawComponent.pieces, RawComponent.fields]

/-- The pieces of the rebalance are as wide as the fields of the struct. -/
theorem RawRebalance.pieces_width (r : RawRebalance) :
    r.pieces.map List.length = RawRebalance.fields.map CField.width := by
  simp [RawRebalance.pieces, RawRebalance.fields]

namespace RawIndex

variable (r : RawIndex)

/-- The pieces of the header are as wide as the fields of the struct. -/
theorem headerPieces_width : r.headerPieces.map List.length = headerFields.map CField.width := by
  simp [headerPieces, headerFields]

/-- The table starts at byte 208. -/
theorem length_header : r.headerPieces.flatten.length = 208 := by
  rw [List.length_flatten, headerPieces_width]
  rfl

/-- Every slot takes 64 bytes, in use or not. -/
theorem length_slot : ∀ p ∈ r.slotImages, p.length = 64 := by
  intro p hp
  obtain ⟨c, -, rfl⟩ := List.mem_map.mp hp
  rw [List.length_flatten, c.pieces_width]
  rfl

/-- Sixteen slots take 1024 bytes. -/
theorem length_slots : r.slotImages.flatten.length = 1024 := by
  have hwidths : r.slotImages.map List.length = List.replicate 16 64 := by
    refine List.eq_replicate_iff.mpr ⟨?_, ?_⟩
    · rw [List.length_map, slotImages, List.length_map, Vector.length_toList]
      rfl
    · intro n hn
      obtain ⟨p, hp, rfl⟩ := List.mem_map.mp hn
      exact r.length_slot p hp
  rw [List.length_flatten, hwidths]
  rfl

/-- The rebalance takes 72 bytes. -/
theorem length_rebalance : r.rebalance.pieces.flatten.length = 72 := by
  rw [List.length_flatten, r.rebalance.pieces_width]
  rfl

/-- The record takes 1304 bytes. -/
theorem length_image : r.image.length = 1304 := by
  rw [image, List.length_append, List.length_append, length_header, length_slots, length_rebalance]

/-! ## Places -/

/-- No gap: the fields of each part stand one behind the other. -/
theorem layout_eq : layout = extents 0 (headerFields.map CField.width) ++
    ((List.range maxComponents).flatMap (fun i =>
        extents (208 + i * 64) (RawComponent.fields.map CField.width)) ++
      extents 1232 (RawRebalance.fields.map CField.width)) := by
  have hpacked : layout = extents 0 (headerFields.map CField.width ++
      ((List.replicate maxComponents (RawComponent.fields.map CField.width)).flatten ++
        RawRebalance.fields.map CField.width)) := by decide
  rw [hpacked, extents_append, extents_append, extents_replicate]
  rfl

/-- No two fields share a byte. -/
theorem layout_apart : layout.Pairwise Extent.Apart := by
  have hpacked : layout = extents 0 (fields.map CField.width) := by decide
  rw [hpacked]
  exact extents_apart 0 _

variable (trailing : List UInt8)

/-- The fields of the header stand from byte 0 on. -/
theorem header_laid : Laid (r.image ++ trailing) 0 r.headerPieces :=
  (Located.self r.image trailing).append.1.laid

/-- The fields of slot `i` stand from byte 208 + 64 * i on. -/
theorem slot_laid {c : RawComponent} {i : Nat} (hc : r.components.toList[i]? = some c) :
    Laid (r.image ++ trailing) (208 + i * 64) c.pieces := by
  have hrest := (Located.self r.image trailing).append.2
  rw [length_header] at hrest
  have hslot : r.slotImages[i]? = some c.pieces.flatten := by
    rw [slotImages, List.getElem?_map, hc]
    rfl
  exact (hrest.append.1.laid.at_index r.length_slot hslot).laid

/-- The fields of the rebalance stand from byte 1232 on. -/
theorem rebalance_laid : Laid (r.image ++ trailing) 1232 r.rebalance.pieces := by
  have hrest := (Located.self r.image trailing).append.2.append.2
  rw [length_header, length_slots] at hrest
  exact hrest.laid

end RawIndex

end Flock
