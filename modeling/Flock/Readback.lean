import Flock.Decode
import Flock.Image
import Mathlib.Data.List.Flatten

/-!
# The decoder reads back what the program wrote

Forty literal offsets on one side, three `#[repr(C)]` structs on the other. Each
piece of the image stands at the sum of the widths before it, and there the
decoder's literal is; so every reader gets the bytes of its field, and the value out
of them. The reads are, each once, fields of the layout, so no two share a byte.

Notes on the source:
- An `i64` of the record becomes a `number`, which is a double. It is read back while it
  stays within 2 ^ 53, as any time a clock has shown does; `RawIndex.Stored` asks for that.
- Name and symbol are cut at their first zero and read as UTF-8. What the program stored
  need not be UTF-8, and `textBefore` is whatever the reader makes of it.
-/

namespace Flock

open Codec

namespace Sdk.State

/-! ## What the decoder is to return -/

def componentAccountOf (c : Component) : ComponentAccount where
  mint := c.mint
  units := c.units.toNat
  targetUnits := c.targetUnits.toNat
  refPriceE9 := c.refPriceE9.toNat
  decimals := c.decimals.toNat
  vaultBump := c.vaultBump.toNat

def rebalanceAccountOf (r : Rebalance) : RebalanceAccount where
  active := r.active ≠ 0
  proposer := r.proposer
  proposedAt := r.proposedAt.toInt
  startTs := r.startTs.toInt
  endTs := r.endTs.toInt
  navFloorE6 := r.navFloorE6.toNat
  startPremiumBps := r.startPremiumBps.toInt
  endPremiumBps := r.endPremiumBps.toInt
  maxNavLossBps := r.maxNavLossBps.toNat

/-- The text of a field padded with zeroes. -/
def textBefore (bs : List UInt8) : JsString := utf8ToString (bs.takeWhile (· != 0))

def accountOf (idx : Index) (st : IndexStateName) : IndexAccount where
  indexMint := idx.indexMint
  governor := idx.governor
  manager := idx.manager
  feeRecipient := idx.feeRecipient
  lastFeeAccrual := idx.lastFeeAccrual.toInt
  createdAt := idx.createdAt.toInt
  rebalanceDelay := idx.rebalanceDelay.toNat
  streamingFeeBps := idx.streamingFeeBps.toNat
  issueFeeBps := idx.issueFeeBps.toNat
  redeemFeeBps := idx.redeemFeeBps.toNat
  maxPremiumBps := idx.maxPremiumBps.toNat
  version := idx.version.toNat
  bump := idx.bump.toNat
  state := st
  decimals := idx.decimals.toNat
  name := textBefore idx.name.toList
  symbol := textBefore idx.symbol.toList
  components := idx.components.map componentAccountOf
  rebalance := rebalanceAccountOf idx.rebalance

/-! ## One field -/

variable {data : List UInt8} {offset : Nat}

/-- `Number(bigint)` keeps what stays below 2 ^ 53. -/
theorem number_eq {value : Int} (h : value.natAbs < 2 ^ 53) : number value = value := by
  unfold number
  rw [toDouble, if_pos h]
  split <;> omega

/-- Where `width` little-endian bytes stand, an unsigned reader of that width returns them, and
reads nothing else. -/
theorem readUInt_of_located {width x : Nat} (hwidth : 0 < width) (hx : x < 256 ^ width)
    (h : Located data offset (leBytes width x)) :
    (readUInt width offset).Yields data x [⟨offset, width⟩] := by
  have hne : leBytes width x ≠ [] := by
    intro hnil
    have hlen := length_leBytes width x
    rw [hnil] at hlen
    exact hwidth.ne hlen
  have hbytes := Reads.exactly_of_located h hne (DecodeError.outOfRange offset)
  rw [length_leBytes] at hbytes
  have hread := hbytes.map leNat
  rwa [leNat_leBytes hx] at hread

/-- The same for a signed reader, which takes the value modulo two to the width. -/
theorem readInt_of_located {width x : Nat} (hwidth : 0 < width) (hx : x < 256 ^ width)
    (h : Located data offset (leBytes width x)) :
    (readInt width offset).Yields data (signed width x) [⟨offset, width⟩] :=
  (readUInt_of_located hwidth hx h).map (signed width)

/-- A `u8` is read where one was written. -/
theorem readUInt8_of_located {x : UInt8} (h : Located data offset (u8.write x)) :
    (readUInt8 offset).Yields data x.toNat [⟨offset, 1⟩] :=
  readUInt_of_located (by decide) x.toNat_lt h

/-- A `u16` is read where one was written. -/
theorem readUInt16LE_of_located {x : UInt16} (h : Located data offset (u16.write x)) :
    (readUInt16LE offset).Yields data x.toNat [⟨offset, 2⟩] :=
  readUInt_of_located (by decide) x.toNat_lt h

/-- A `u32` is read where one was written. -/
theorem readUInt32LE_of_located {x : UInt32} (h : Located data offset (u32.write x)) :
    (readUInt32LE offset).Yields data x.toNat [⟨offset, 4⟩] :=
  readUInt_of_located (by decide) x.toNat_lt h

/-- A `u64` is read where one was written. -/
theorem readBigUInt64LE_of_located {x : UInt64} (h : Located data offset (u64.write x)) :
    (readBigUInt64LE offset).Yields data x.toNat [⟨offset, 8⟩] :=
  readUInt_of_located (by decide) x.toNat_lt h

/-- An `i16` is read where one was written, its sign included. -/
theorem readInt16LE_of_located {x : Int16} (h : Located data offset (i16.write x)) :
    (readInt16LE offset).Yields data x.toInt [⟨offset, 2⟩] := by
  have hvalue : signed 2 x.toUInt16.toNat = x.toInt := (BitVec.toInt_eq_toNat_cond x.toBitVec).symm
  rw [← hvalue]
  exact readInt_of_located (by decide) x.toUInt16.toNat_lt h

/-- An `i64` is read where one was written, its sign included. -/
theorem readBigInt64LE_of_located {x : Int64} (h : Located data offset (i64.write x)) :
    (readBigInt64LE offset).Yields data x.toInt [⟨offset, 8⟩] := by
  have hvalue : signed 8 x.toUInt64.toNat = x.toInt := (BitVec.toInt_eq_toNat_cond x.toBitVec).symm
  rw [← hvalue]
  exact readInt_of_located (by decide) x.toUInt64.toNat_lt h

/-- A key is made of its 32 bytes again. -/
theorem publicKey_write (k : Pubkey) : publicKey (Pubkey.codec.write k) = k := by
  have hvalue : leNat (leBytes 32 k.val.toNat) = k.val.toNat := leNat_leBytes k.val.isLt
  show Pubkey.mk (BitVec.ofNat 256 (leNat (List.replicate (32 - (Pubkey.codec.write k).length) 0
    ++ leBytes 32 k.val.toNat))) = k
  rw [Pubkey.length_write]
  show Pubkey.mk (BitVec.ofNat 256 (leNat (leBytes 32 k.val.toNat))) = k
  rw [hvalue, BitVec.ofNat_toNat, BitVec.setWidth_eq]

/-- A key is read where one was written. -/
theorem key_of_located {k : Pubkey} (h : Located data offset (Pubkey.codec.write k)) :
    (key offset).Yields data k [⟨offset, 32⟩] := by
  have hbytes : (Reads.upTo (Pubkey.codec.write k).length offset : Reads DecodeError _).Yields data
      (Pubkey.codec.write k) [⟨offset, (Pubkey.codec.write k).length⟩] := Reads.upTo_of_located h
  have hkey := hbytes.map publicKey
  rwa [publicKey_write, Pubkey.length_write] at hkey

/-- A padded text is read up to its first zero. -/
theorem text_of_located {n : Nat} {bs : Vector UInt8 n} (h : Located data offset bs.toList) :
    (text offset n).Yields data (textBefore bs.toList) [⟨offset, n⟩] := by
  have hbytes : (Reads.upTo bs.toList.length offset : Reads DecodeError _).Yields data bs.toList
      [⟨offset, bs.toList.length⟩] := Reads.upTo_of_located h
  have hstop : textBefore bs.toList
      = utf8ToString (bs.toList.take (bs.toList.findIdx (· == 0))) := by
    rw [textBefore, List.takeWhile_eq_take_findIdx_not]
    simp only [bne, Bool.not_not]
  rw [Vector.length_toList] at hbytes
  rw [hstop]
  exact hbytes.bind (Reads.yields_pure _)

/-! ## One part after another -/

/-- What `decodeComponent` looks at. -/
def componentReads (start : Nat) : List Extent :=
  [⟨start, 32⟩, ⟨start + 32, 8⟩, ⟨start + 40, 8⟩, ⟨start + 48, 8⟩, ⟨start + 56, 1⟩, ⟨start + 57, 1⟩]

/-- An entry of the table is read where its fields are laid out. -/
theorem decodeComponent_of_laid {start : Nat} {c : RawComponent} (h : Laid data start c.pieces) :
    (decodeComponent start).Yields data (componentAccountOf c.toComponent)
      (componentReads start) := by
  simp only [RawComponent.pieces, Laid, Pubkey.length_write, length_write_u64, length_write_u8,
    Nat.add_assoc, Nat.reduceAdd] at h
  obtain ⟨hmint, hunits, htarget, hprice, hdecimals, hbump, -⟩ := h
  exact (key_of_located hmint).bind <| (readBigUInt64LE_of_located hunits).bind <|
    (readBigUInt64LE_of_located htarget).bind <| (readBigUInt64LE_of_located hprice).bind <|
    (readUInt8_of_located hdecimals).bind <| (readUInt8_of_located hbump).bind <|
    Reads.yields_pure _

/-- What the loop over the table looks at. -/
def tableReads (i remaining : Nat) : List Extent :=
  (List.range' i remaining).flatMap fun i => componentReads (componentsOffset + i * componentLen)

/-- The table is read entry by entry. By induction on the entries that are left. -/
theorem decodeComponents_of_laid {i : Nat} {cs : List RawComponent}
    (h : ∀ j c, cs[j]? = some c → Laid data (componentsOffset + (i + j) * componentLen) c.pieces) :
    (decodeComponents i cs.length).Yields data
      (cs.map fun c => componentAccountOf c.toComponent) (tableReads i cs.length) := by
  induction cs generalizing i with
  | nil => exact Reads.yields_pure _
  | cons c cs ih =>
    have hrest : ∀ j c', cs[j]? = some c' →
        Laid data (componentsOffset + (i + 1 + j) * componentLen) c'.pieces := by
      intro j c' hc'
      have := h (j + 1) c' hc'
      rwa [Nat.add_comm j 1, ← Nat.add_assoc] at this
    have hlog : tableReads i (c :: cs).length = componentReads (componentsOffset + i * componentLen)
        ++ (tableReads (i + 1) cs.length ++ []) := by
      rw [List.append_nil]
      rfl
    rw [hlog]
    -- the entry at `i`, then the rest from `i + 1` on
    exact (decodeComponent_of_laid (h 0 c rfl)).bind <| (ih hrest).bind <| Reads.yields_pure _

def rebalanceReads : List Extent :=
  [⟨1232, 32⟩, ⟨1264, 8⟩, ⟨1272, 8⟩, ⟨1280, 8⟩, ⟨1288, 8⟩, ⟨1296, 2⟩, ⟨1298, 2⟩, ⟨1300, 2⟩,
    ⟨1302, 1⟩]

end Sdk.State

/-- A record as the program keeps it, with times a double can hold. -/
structure RawIndex.Stored (r : RawIndex) : Prop where
  tag : r.tag = accountTagIndex
  version : r.version = stateVersion
  state : r.state ≤ 2
  componentCount : r.componentCount ≤ 16
  active : r.rebalance.active = 0 ∨ r.rebalance.active = 1
  lastFeeAccrual : r.lastFeeAccrual.toInt.natAbs < 2 ^ 53
  createdAt : r.createdAt.toInt.natAbs < 2 ^ 53
  proposedAt : r.rebalance.proposedAt.toInt.natAbs < 2 ^ 53
  startTs : r.rebalance.startTs.toInt.natAbs < 2 ^ 53
  endTs : r.rebalance.endTs.toInt.natAbs < 2 ^ 53

namespace Sdk.State

variable {data : List UInt8} {r : RawIndex}

/-- The rebalance is read where its fields are laid out. -/
theorem decodeRebalance_of_laid (hr : r.Stored) (h : Laid data 1232 r.rebalance.pieces) :
    decodeRebalance.Yields data (rebalanceAccountOf r.rebalance.toRebalance) rebalanceReads := by
  simp only [RawRebalance.pieces, Laid, Pubkey.length_write, length_write_i64, length_write_u64,
    length_write_i16, length_write_u16, length_write_u8, Nat.reduceAdd] at h
  obtain ⟨hproposer, hproposed, hstart, hend, hfloor, hstartBps, hendBps, hloss, hactive, -⟩ := h
  have hyields : decodeRebalance.Yields data
      { active := r.rebalance.active.toNat = 1
        proposer := r.rebalance.proposer
        proposedAt := number r.rebalance.proposedAt.toInt
        startTs := number r.rebalance.startTs.toInt
        endTs := number r.rebalance.endTs.toInt
        navFloorE6 := r.rebalance.navFloorE6.toNat
        startPremiumBps := r.rebalance.startPremiumBps.toInt
        endPremiumBps := r.rebalance.endPremiumBps.toInt
        maxNavLossBps := r.rebalance.maxNavLossBps.toNat } rebalanceReads :=
    (key_of_located hproposer).bind <| (readBigInt64LE_of_located hproposed).bind <|
    (readBigInt64LE_of_located hstart).bind <| (readBigInt64LE_of_located hend).bind <|
    (readBigUInt64LE_of_located hfloor).bind <| (readInt16LE_of_located hstartBps).bind <|
    (readInt16LE_of_located hendBps).bind <| (readUInt16LE_of_located hloss).bind <|
    (readUInt8_of_located hactive).bind <| Reads.yields_pure _
  have hflag : decide (r.rebalance.active.toNat = 1) = decide (r.rebalance.active ≠ 0) := by
    rcases hr.active with h | h <;> rw [h] <;> rfl
  rw [number_eq hr.proposedAt, number_eq hr.startTs, number_eq hr.endTs, hflag] at hyields
  exact hyields

/-- The decoder finds the table in the image, and stops after the slots in use. -/
theorem decodeComponents_of_image (hr : r.Stored) (trailing : List UInt8) :
    (decodeComponents 0 r.componentCount.toNat).Yields (r.image ++ trailing)
      (r.index.components.map componentAccountOf) (tableReads 0 r.componentCount.toNat) := by
  have hcount : r.componentCount.toNat ≤ 16 := UInt8.le_iff_toNat_le.mp hr.componentCount
  have hlen : (r.components.toList.take r.componentCount.toNat).length = r.componentCount.toNat := by
    rw [List.length_take, Vector.length_toList]
    exact Nat.min_eq_left hcount
  have hlaid : ∀ j c, (r.components.toList.take r.componentCount.toNat)[j]? = some c →
      Laid (r.image ++ trailing) (componentsOffset + (0 + j) * componentLen) c.pieces := by
    intro j c hc
    rw [List.getElem?_take] at hc
    split at hc
    · rw [Nat.zero_add]
      exact r.slot_laid trailing hc
    · cases hc
  have hyields := decodeComponents_of_laid hlaid
  rw [hlen] at hyields
  rw [RawIndex.index, List.map_map]
  exact hyields

/-- What `decodeIndex` looks at after the table and before the rebalance. -/
def headerReads : List Extent :=
  [⟨0, 32⟩, ⟨32, 32⟩, ⟨64, 32⟩, ⟨96, 32⟩, ⟨128, 8⟩, ⟨136, 8⟩, ⟨144, 4⟩, ⟨148, 2⟩, ⟨150, 2⟩,
    ⟨152, 2⟩, ⟨154, 2⟩, ⟨157, 1⟩, ⟨158, 1⟩, ⟨159, 1⟩, ⟨160, 1⟩, ⟨162, 32⟩, ⟨194, 12⟩]

/-- The tag and the counter first. -/
def indexReads (componentCount : Nat) : List Extent :=
  [⟨156, 1⟩, ⟨161, 1⟩] ++ (tableReads 0 componentCount ++ (headerReads ++ rebalanceReads))

/-- The decoder reads the record out of its image, whatever comes after it. -/
theorem decodeIndex_of_image (hr : r.Stored) (trailing : List UInt8) {st : IndexStateName}
    (hst : stateName r.state = .ok st) :
    decodeIndex.Yields (r.image ++ trailing) (accountOf r.index st)
      (indexReads r.componentCount.toNat) := by
  have hheader := r.header_laid trailing
  simp only [RawIndex.headerPieces, Laid, Pubkey.length_write, length_write_i64, length_write_u32,
    length_write_u16, length_write_u8, Vector.length_toList, Nat.reduceAdd, Nat.zero_add] at hheader
  obtain ⟨hmint, hgovernor, hmanager, hrecipient, haccrual, hcreated, hdelay, hstreaming, hissue,
    hredeem, hpremium, htag, hversion, hbump, hstate, hdecimals, hcount, hname, hsymbol, -⟩ := hheader
  have hlength : ¬(r.image ++ trailing).length < indexAccountLen := by
    rw [List.length_append, r.length_image, indexAccountLen]
    omega
  have htag' : ¬r.tag.toNat ≠ accountTagIndex := by
    rw [hr.tag]
    decide
  have hstate' : (stateName (UInt8.ofNat r.state.toNat)).mapError DecodeError.sdk = .ok st := by
    rw [UInt8.ofNat_toNat, hst]
    rfl
  -- read by read, in the order of the decoder; the times still as doubles
  have hyields : decodeIndex.Yields (r.image ++ trailing)
      { accountOf r.index st with
        lastFeeAccrual := number r.lastFeeAccrual.toInt
        createdAt := number r.createdAt.toInt } (indexReads r.componentCount.toNat) :=
    Reads.yields_size.bind <| (Reads.yields_failIf hlength).bind <|
    (readUInt8_of_located htag).bind <| (Reads.yields_failIf htag').bind <|
    (readUInt8_of_located hcount).bind <| (decodeComponents_of_image hr trailing).bind <|
    (key_of_located hmint).bind <| (key_of_located hgovernor).bind <|
    (key_of_located hmanager).bind <| (key_of_located hrecipient).bind <|
    (readBigInt64LE_of_located haccrual).bind <| (readBigInt64LE_of_located hcreated).bind <|
    (readUInt32LE_of_located hdelay).bind <| (readUInt16LE_of_located hstreaming).bind <|
    (readUInt16LE_of_located hissue).bind <| (readUInt16LE_of_located hredeem).bind <|
    (readUInt16LE_of_located hpremium).bind <| (readUInt8_of_located hversion).bind <|
    (readUInt8_of_located hbump).bind <| (readUInt8_of_located hstate).bind <|
    (Reads.yields_lift hstate').bind <| (readUInt8_of_located hdecimals).bind <|
    (text_of_located hname).bind <| (text_of_located hsymbol).bind <|
    (decodeRebalance_of_laid hr (r.rebalance_laid trailing)).bind <| Reads.yields_pure _
  rw [number_eq hr.lastFeeAccrual, number_eq hr.createdAt] at hyields
  exact hyields

/-! ## No byte twice -/

/-- The reads are fields of the layout, each at most once. -/
theorem indexReads_subperm {n : Nat} (hn : n ≤ 16) : (indexReads n).Subperm RawIndex.layout := by
  have htable : (tableReads 0 n).Sublist ((List.range maxComponents).flatMap fun i =>
      extents (208 + i * 64) (RawComponent.fields.map CField.width)) := by
    rw [tableReads, ← List.range_eq_range']
    apply ((List.range_sublist.mpr hn).flatMap _).trans
    apply List.Sublist.flatMap_right
    intro i _
    -- all but the padding
    exact List.dropLast_sublist (extents (208 + i * 64) (RawComponent.fields.map CField.width))
  have hheader : ([⟨156, 1⟩, ⟨161, 1⟩] ++ headerReads : List Extent).Perm
      (extents 0 (RawIndex.headerFields.map CField.width)).dropLast := by decide
  have hrebalance : rebalanceReads.Sublist (extents 1232 (RawRebalance.fields.map CField.width)) :=
    List.dropLast_sublist (extents 1232 (RawRebalance.fields.map CField.width))
  -- the tag and the counter, which are read first, go back to their places
  have hperm : (indexReads n).Perm ((extents 0 (RawIndex.headerFields.map CField.width)).dropLast ++
      (tableReads 0 n ++ rebalanceReads)) := by
    have hmove := (List.perm_append_comm_assoc (tableReads 0 n) headerReads rebalanceReads).append_left
      [⟨156, 1⟩, ⟨161, 1⟩]
    rw [← List.append_assoc] at hmove
    exact hmove.trans (hheader.append_right _)
  rw [RawIndex.layout_eq]
  refine ⟨_, hperm.symm, ?_⟩
  exact (List.dropLast_sublist _).append (htable.append hrebalance)

/-- However many slots are in use, no two reads share a byte. -/
theorem indexReads_apart {n : Nat} (hn : n ≤ 16) : (indexReads n).Pairwise Extent.Apart := by
  obtain ⟨fields, hperm, hsub⟩ := indexReads_subperm hn
  exact (RawIndex.layout_apart.sublist hsub).perm hperm Extent.Apart.symm

/-! ## The account -/

/-- The three states of `state.rs` have a name. -/
theorem stateName_of_le {value : UInt8} (h : value ≤ 2) : ∃ st, stateName value = .ok st := by
  have hle : value.toNat ≤ 2 := UInt8.le_iff_toNat_le.mp h
  have hcases : value = 0 ∨ value = 1 ∨ value = 2 := by
    rw [← UInt8.toNat_inj, ← UInt8.toNat_inj, ← UInt8.toNat_inj]
    show value.toNat = 0 ∨ value.toNat = 1 ∨ value.toNat = 2
    omega
  rcases hcases with rfl | rfl | rfl <;> exact ⟨_, rfl⟩

/-- Bytes that encode text up to the first zero are read as that text. -/
theorem textBefore_encode {bs : List UInt8} {cs : List Char}
    (h : bs.takeWhile (· != 0) = cs.flatMap String.utf8EncodeChar) :
    textBefore bs = stringOf cs := by
  rw [textBefore, h, utf8ToString, Utf8.decode_encode]

/-- The decoder gives back every field of a stored record, whatever follows it in the
account and whatever the padding and the unused slots hold: the slots in use in their
order, the texts before the first zero, the times undamaged. It reads fields of the
layout, each at most once and no two with a byte in common. -/
theorem decodeIndex_reads_back (h : r.Stored) (trailing : List UInt8) :
    r.image.length = indexAccountLen ∧
    ∃ st reads, stateName r.state = .ok st ∧
      decodeIndex (r.image ++ trailing) = .ok (accountOf r.index st, reads) ∧
      (accountOf r.index st).components.length = r.componentCount.toNat ∧
      (∀ cs, r.name.toList.takeWhile (· != 0) = cs.flatMap String.utf8EncodeChar →
        (accountOf r.index st).name = stringOf cs) ∧
      (∀ cs, r.symbol.toList.takeWhile (· != 0) = cs.flatMap String.utf8EncodeChar →
        (accountOf r.index st).symbol = stringOf cs) ∧
      reads.Subperm RawIndex.layout ∧ RawIndex.layout.Pairwise Extent.Apart ∧
      reads.Pairwise Extent.Apart := by
  have hcount : r.componentCount.toNat ≤ 16 := UInt8.le_iff_toNat_le.mp h.componentCount
  obtain ⟨st, hst⟩ := stateName_of_le h.state
  refine ⟨r.length_image, st, indexReads r.componentCount.toNat, hst,
    decodeIndex_of_image h trailing hst, ?_, fun _ => textBefore_encode, fun _ => textBefore_encode,
    indexReads_subperm hcount, RawIndex.layout_apart, indexReads_apart hcount⟩
  show (r.index.components.map componentAccountOf).length = _
  rw [List.length_map, RawIndex.index, List.length_map, List.length_take, Vector.length_toList]
  exact Nat.min_eq_left hcount

/-- Two components, a name outside ASCII, and rubbish in the padding. -/
def localRecord : RawIndex where
  indexMint := 1
  governor := 2
  manager := 3
  feeRecipient := 4
  lastFeeAccrual := 1767225600
  createdAt := 1756684800
  rebalanceDelay := 86400
  streamingFeeBps := 95
  issueFeeBps := 10
  redeemFeeBps := 15
  maxPremiumBps := 300
  tag := 0xF1
  version := 1
  bump := 254
  state := 1
  decimals := 9
  componentCount := 2
  name := ⟨⟨[0xC3, 0x96, 0x4B] ++ List.replicate 29 0⟩, rfl⟩
  symbol := ⟨⟨[0x46, 0x44, 0x49] ++ List.replicate 9 0⟩, rfl⟩
  pad := #v[7, 7]
  components := ⟨⟨[⟨⟨5, 1234567, 2000000, 1050000000, 6, 253⟩, #v[9, 9, 9, 9, 9, 9]⟩,
    ⟨⟨6, 987654321, 987654321, 103930000000, 9, 252⟩, #v[0, 0, 0, 0, 0, 0]⟩] ++
    List.replicate 14 ⟨⟨0, 0, 0, 0, 0, 0⟩, #v[0, 0, 0, 0, 0, 0]⟩⟩, rfl⟩
  rebalance := ⟨⟨3, 1767000000, 1767086400, 1767093600, 998500000, -50, 150, 100, 1⟩, #v[0]⟩

/-- The record of the example is one the program can have stored. -/
theorem localRecord_stored : localRecord.Stored where
  tag := rfl
  version := rfl
  state := by decide
  componentCount := by decide
  active := by decide
  lastFeeAccrual := by decide
  createdAt := by decide
  proposedAt := by decide
  startTs := by decide
  endTs := by decide

/-- An index with two components and an umlaut in its name, with a byte behind the record. -/
theorem decodeIndex_reads_back_local : ∃ account reads,
    decodeIndex (localRecord.image ++ [7]) = .ok (account, reads) ∧
      account.components.length = 2 ∧ account.name = stringOf ['Ö', 'K'] ∧
      reads.Pairwise Extent.Apart := by
  obtain ⟨-, st, reads, -, hdecode, hcomponents, hname, -, -, -, hapart⟩ :=
    decodeIndex_reads_back localRecord_stored [7]
  exact ⟨_, reads, hdecode, hcomponents, hname ['Ö', 'K'] (by decide), hapart⟩

/-! ## The decoder of the record -/

/-- Cut down to what quotes and keeper read, the decoded record is that of the model. -/
theorem brief_accountOf {idx : Index} (hactive : idx.rebalance.active = 0 ∨ idx.rebalance.active = 1)
    {st : IndexStateName} (htag : idx.tag = 0xf1) (hst : stateName idx.state = .ok st) :
    Sdk.decodeIndex idx = .ok (accountOf idx st).brief := by
  have hflag : decide (idx.rebalance.active = 1) = decide (idx.rebalance.active ≠ 0) := by
    rcases hactive with h | h <;> rw [h] <;> rfl
  have hcomponents : idx.components.map Sdk.decodeComponent
      = (idx.components.map componentAccountOf).map ComponentAccount.brief := by
    rw [List.map_map]
    rfl
  have hrebalance : Sdk.decodeRebalance idx.rebalance = (rebalanceAccountOf idx.rebalance).brief := by
    rw [Sdk.decodeRebalance, hflag]
    rfl
  rw [Sdk.decodeIndex, if_neg (not_not.mpr htag), hst, hcomponents, hrebalance]
  rfl

/-- What the quotes and the keeper take for the account of a record is what the
decoder makes of its bytes. -/
theorem decodeIndex_brief (h : r.Stored) (trailing : List UInt8) : ∃ account reads,
    decodeIndex (r.image ++ trailing) = .ok (account, reads) ∧
      Sdk.decodeIndex r.index = .ok account.brief := by
  obtain ⟨st, hst⟩ := stateName_of_le h.state
  exact ⟨_, _, decodeIndex_of_image h trailing hst, brief_accountOf h.active h.tag hst⟩

end Sdk.State

end Flock
