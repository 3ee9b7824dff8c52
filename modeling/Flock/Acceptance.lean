import Flock.Readback
import Flock.Lifecycle
import Flock.Localnet

/-!
# Which accounts the two decoders take

`decode_index` looks at the length, the tag and the version and then takes any
bytes: the record is plain old data. `decodeIndex` of the SDK looks at the length
and the tag, at every field where it stands, and at the state, whose name it needs.

Every buffer of the right length is the image of exactly one raw record with
something behind it, so both lists of conditions are conditions on that record.
They differ in one: the version, which the SDK reads and does not look at.
-/

namespace Flock

open Codec Outcome

/-! ## The program's decoder -/

/-- `Component` as plain old data. -/
def RawComponent.codec : Codec RawComponent :=
  (Pubkey.codec.pair (u64.pair (u64.pair (u64.pair (u8.pair (u8.pair (array 6))))))).map
    (fun ⟨mint, units, targetUnits, refPriceE9, decimals, vaultBump, pad⟩ =>
      { mint, units, targetUnits, refPriceE9, decimals, vaultBump, pad })
    (fun c => (c.mint, c.units, c.targetUnits, c.refPriceE9, c.decimals, c.vaultBump, c.pad))
    (fun _ => rfl) (fun _ => rfl)

/-- `Rebalance` as plain old data. -/
def RawRebalance.codec : Codec RawRebalance :=
  (Pubkey.codec.pair (i64.pair (i64.pair (i64.pair (u64.pair (i16.pair (i16.pair
      (u16.pair (u8.pair (array 1)))))))))).map
    (fun ⟨proposer, proposedAt, startTs, endTs, navFloorE6, startPremiumBps, endPremiumBps,
        maxNavLossBps, active, pad⟩ =>
      { proposer, proposedAt, startTs, endTs, navFloorE6, startPremiumBps, endPremiumBps,
        maxNavLossBps, active, pad })
    (fun r => (r.proposer, r.proposedAt, r.startTs, r.endTs, r.navFloorE6, r.startPremiumBps,
      r.endPremiumBps, r.maxNavLossBps, r.active, r.pad))
    (fun _ => rfl) (fun _ => rfl)

/-- `Index` as plain old data. -/
def RawIndex.codec : Codec RawIndex :=
  (Pubkey.codec.pair (Pubkey.codec.pair (Pubkey.codec.pair (Pubkey.codec.pair (i64.pair (i64.pair
    (u32.pair (u16.pair (u16.pair (u16.pair (u16.pair (u8.pair (u8.pair (u8.pair (u8.pair (u8.pair
    (u8.pair ((array 32).pair ((array 12).pair ((array 2).pair
    ((RawComponent.codec.arrayOf maxComponents).pair
      RawRebalance.codec))))))))))))))))))))).map
    (fun ⟨indexMint, governor, manager, feeRecipient, lastFeeAccrual, createdAt, rebalanceDelay,
        streamingFeeBps, issueFeeBps, redeemFeeBps, maxPremiumBps, tag, version, bump, state,
        decimals, componentCount, name, symbol, pad, components, rebalance⟩ =>
      { indexMint, governor, manager, feeRecipient, lastFeeAccrual, createdAt, rebalanceDelay,
        streamingFeeBps, issueFeeBps, redeemFeeBps, maxPremiumBps, tag, version, bump, state,
        decimals, componentCount, name, symbol, pad, components, rebalance })
    (fun r => (r.indexMint, r.governor, r.manager, r.feeRecipient, r.lastFeeAccrual, r.createdAt,
      r.rebalanceDelay, r.streamingFeeBps, r.issueFeeBps, r.redeemFeeBps, r.maxPremiumBps, r.tag,
      r.version, r.bump, r.state, r.decimals, r.componentCount, r.name, r.symbol, r.pad,
      r.components, r.rebalance))
    (fun _ => rfl) (fun _ => rfl)

/-- `decode_index` -/
def decodeIndex (data : List UInt8) : Except ProgramError RawIndex :=
  if data.length < 1304 then .error .accountDataTooSmall
  else
    -- `pod_read_unaligned`: any bytes of that length are a record
    match RawIndex.codec.read data with
    | some (idx, _) =>
      if idx.tag ≠ accountTagIndex ∨ idx.version ≠ stateVersion then
        .error FlockError.invalidAccountOwner
      else .ok idx
    | none => .error .panicked

/-- Any 32 bytes are a key. -/
theorem Pubkey.codec_total : Pubkey.codec.Total 32 := by
  apply (nat_total 32).readAs
  unfold Pubkey.codec Codec.map
  dsimp only

/-- Any byte is a `u8`. -/
theorem u8_total : u8.Total 1 := (nat_total 1).readAs rfl

/-- Any two bytes are a `u16`. -/
theorem u16_total : u16.Total 2 := (nat_total 2).readAs rfl

/-- Any four bytes are a `u32`. -/
theorem u32_total : u32.Total 4 := (nat_total 4).readAs rfl

/-- Any eight bytes are a `u64`. -/
theorem u64_total : u64.Total 8 := (nat_total 8).readAs rfl

/-- Any two bytes are an `i16`. -/
theorem i16_total : i16.Total 2 := u16_total.readAs rfl

/-- Any eight bytes are an `i64`. -/
theorem i64_total : i64.Total 8 := u64_total.readAs rfl

/-- Any 64 bytes are an entry. -/
theorem RawComponent.codec_total : RawComponent.codec.Total 64 := by
  have htuple := Pubkey.codec_total.pair <| u64_total.pair <| u64_total.pair <| u64_total.pair <|
    u8_total.pair <| u8_total.pair <| array_total 6
  apply htuple.readAs
  unfold RawComponent.codec Codec.map
  dsimp only

/-- Any 72 bytes are a rebalance. -/
theorem RawRebalance.codec_total : RawRebalance.codec.Total 72 := by
  have htuple := Pubkey.codec_total.pair <| i64_total.pair <| i64_total.pair <| i64_total.pair <|
    u64_total.pair <| i16_total.pair <| i16_total.pair <| u16_total.pair <| u8_total.pair <|
    array_total 1
  apply htuple.readAs
  unfold RawRebalance.codec Codec.map
  dsimp only

namespace RawIndex

/-- Any 1304 bytes are a record. -/
theorem codec_total : RawIndex.codec.Total 1304 := by
  have htuple := Pubkey.codec_total.pair <| Pubkey.codec_total.pair <| Pubkey.codec_total.pair <|
    Pubkey.codec_total.pair <| i64_total.pair <| i64_total.pair <| u32_total.pair <|
    u16_total.pair <| u16_total.pair <| u16_total.pair <| u16_total.pair <| u8_total.pair <|
    u8_total.pair <| u8_total.pair <| u8_total.pair <| u8_total.pair <| u8_total.pair <|
    (array_total 32).pair <| (array_total 12).pair <| (array_total 2).pair <|
    (RawComponent.codec_total.arrayOf maxComponents).pair RawRebalance.codec_total
  apply htuple.readAs
  unfold RawIndex.codec Codec.map
  dsimp only

/-- The format is the image. -/
theorem codec_write (r : RawIndex) : codec.write r = r.image := by
  have hslot : ∀ c : RawComponent, RawComponent.codec.write c = c.pieces.flatten := by
    intro c
    simp only [RawComponent.pieces, List.flatten_cons, List.flatten_nil, List.append_nil]
    rfl
  have hslots : r.slotImages.flatten = r.components.toList.flatMap RawComponent.codec.write := by
    rw [slotImages, List.flatMap]
    exact congrArg List.flatten (List.map_congr_left fun c _ => (hslot c).symm)
  have hrebalance : RawRebalance.codec.write r.rebalance = r.rebalance.pieces.flatten := by
    simp only [RawRebalance.pieces, List.flatten_cons, List.flatten_nil, List.append_nil]
    rfl
  rw [image, hslots, ← hrebalance]
  simp only [headerPieces, List.flatten_cons, List.flatten_nil, List.append_assoc,
    List.nil_append]
  rfl

/-- The format has room for every record. -/
theorem codec_fits (r : RawIndex) : codec.Fits r := by
  have hslot : ∀ c : RawComponent, RawComponent.codec.Fits c := fun c =>
    ⟨Pubkey.codec_fits _, u64_fits _, u64_fits _, u64_fits _, u8_fits _, u8_fits _, trivial⟩
  have hrebalance : RawRebalance.codec.Fits r.rebalance :=
    ⟨Pubkey.codec_fits _, i64_fits _, i64_fits _, i64_fits _, u64_fits _, i16_fits _, i16_fits _,
      u16_fits _, u8_fits _, trivial⟩
  exact ⟨Pubkey.codec_fits _, Pubkey.codec_fits _, Pubkey.codec_fits _, Pubkey.codec_fits _,
    i64_fits _, i64_fits _, u32_fits _, u16_fits _, u16_fits _, u16_fits _, u16_fits _, u8_fits _,
    u8_fits _, u8_fits _, u8_fits _, u8_fits _, u8_fits _, trivial, trivial, trivial,
    fun c _ => hslot c, hrebalance⟩

/-- Every buffer that is long enough is the image of a record and something behind it. -/
theorem exists_image {data : List UInt8} (h : 1304 ≤ data.length) :
    ∃ r trailing, RawIndex.codec.read data = some (r, trailing) ∧ data = r.image ++ trailing := by
  obtain ⟨r, trailing, hread, -⟩ := codec_total data h
  refine ⟨r, trailing, hread, ?_⟩
  rw [← codec_write]
  exact (codec.read_iff.mp hread).2

end RawIndex

variable {data : List UInt8} {r : RawIndex}

/-- The program reads no record out of too few bytes. -/
theorem decodeIndex_of_short (h : data.length < 1304) :
    decodeIndex data = .error .accountDataTooSmall := if_pos h

/-- What the program takes, and as what. -/
theorem decodeIndex_image_ok_iff (trailing : List UInt8) {idx : RawIndex} :
    decodeIndex (r.image ++ trailing) = .ok idx ↔
      r.tag = accountTagIndex ∧ r.version = stateVersion ∧ idx = r := by
  have hlen : ¬ (r.image ++ trailing).length < 1304 := by
    rw [List.length_append, r.length_image]
    omega
  have hread : RawIndex.codec.read (r.image ++ trailing) = some (r, trailing) := by
    rw [← RawIndex.codec_write]
    exact RawIndex.codec.read_write r.codec_fits trailing
  rw [decodeIndex, if_neg hlen, hread]
  show (if _ then _ else _) = _ ↔ _
  by_cases h : r.tag ≠ accountTagIndex ∨ r.version ≠ stateVersion
  · rw [if_pos h]
    refine iff_of_false (fun herr => nomatch herr) fun hok => ?_
    rcases h with h | h
    · exact h hok.1
    · exact h hok.2.1
  · rw [if_neg h, Except.ok.injEq]
    obtain ⟨htag, hversion⟩ := not_or.mp h
    constructor
    · intro heq
      exact ⟨not_not.mp htag, not_not.mp hversion, heq.symm⟩
    · intro hok
      exact hok.2.2.symm

/-! ## The SDK's decoder -/

namespace Sdk.State

/-- An unsigned reader returns the number that stands there. -/
theorem readUInt_yields (width offset : Nat) (h : offset + width ≤ data.length) :
    (readUInt width offset).Yields data (leNat ((data.drop offset).take width))
      [⟨offset, width⟩] :=
  Reads.Yields.map leNat (if_pos h)

/-- An unsigned reader returns if the data is long enough. -/
theorem readUInt_returns_iff {width offset : Nat} :
    (readUInt width offset).Returns data ↔ offset + width ≤ data.length :=
  Reads.returns_map_iff.trans Reads.returns_exactly_iff

/-- A signed reader returns the number that stands there. -/
theorem readInt_yields (width offset : Nat) (h : offset + width ≤ data.length) :
    (readInt width offset).Yields data (signed width (leNat ((data.drop offset).take width)))
      [⟨offset, width⟩] :=
  (readUInt_yields width offset h).map (signed width)

/-- A key is made of whatever stands there. -/
theorem key_yields (offset : Nat) :
    (key offset).Yields data (publicKey ((data.drop offset).take 32)) [⟨offset, 32⟩] :=
  Reads.Yields.map publicKey rfl

/-- A component is read where all of it but the padding is there. -/
theorem decodeComponent_returns_iff {start : Nat} :
    (decodeComponent start).Returns data ↔ start + 58 ≤ data.length := by
  constructor
  · intro h
    obtain ⟨mint, -, h⟩ := h.of_bind
    obtain ⟨units, -, h⟩ := h.of_bind
    obtain ⟨targetUnits, -, h⟩ := h.of_bind
    obtain ⟨refPriceE9, -, h⟩ := h.of_bind
    obtain ⟨decimals, -, h⟩ := h.of_bind
    obtain ⟨vaultBump, hread, -⟩ := h.of_bind
    have hlast : (readUInt 1 (start + 57)).Returns data := ⟨vaultBump, hread⟩
    have hend := readUInt_returns_iff.mp hlast
    omega
  · intro h
    exact (key_yields start).andThen <|
      (readUInt_yields 8 (start + 32) (by omega)).andThen <|
      (readUInt_yields 8 (start + 40) (by omega)).andThen <|
      (readUInt_yields 8 (start + 48) (by omega)).andThen <|
      (readUInt_yields 1 (start + 56) (by omega)).andThen <|
      (readUInt_yields 1 (start + 57) (by omega)).andThen <| (Reads.yields_pure _).returns

/-- The table is read if every entry of it is within the data. By induction on `n`. -/
theorem decodeComponents_returns_iff {i n : Nat} :
    (decodeComponents i n).Returns data ↔
      ∀ j, i ≤ j → j < i + n → componentsOffset + j * componentLen + 58 ≤ data.length := by
  induction n generalizing i with
  | zero => exact iff_of_true (Reads.yields_pure _).returns fun j hl hr => by omega
  | succ n ih =>
    constructor
    · intro h j hl hr
      obtain ⟨component, hfirst, h⟩ := h.of_bind
      obtain ⟨components, hrest, -⟩ := h.of_bind
      by_cases hj : j = i
      · rw [hj]
        exact decodeComponent_returns_iff.mp ⟨component, hfirst⟩
      · exact ih.mp ⟨components, hrest⟩ j (by omega) (by omega)
    · intro h
      obtain ⟨component, log, hfirst⟩ :=
        decodeComponent_returns_iff.mpr (h i (Nat.le_refl i) (by omega))
      have htail : (decodeComponents (i + 1) n).Returns data :=
        ih.mpr fun j hl hr => h j (by omega) (by omega)
      obtain ⟨components, log', hrest⟩ := htail
      exact hfirst.andThen <| hrest.andThen <| (Reads.yields_pure _).returns

/-- A whole record has room for its rebalance. -/
theorem decodeRebalance_returns (h : 1304 ≤ data.length) : decodeRebalance.Returns data :=
  (key_yields 1232).andThen <|
    (readInt_yields 8 1264 (by omega)).andThen <| (readInt_yields 8 1272 (by omega)).andThen <|
    (readInt_yields 8 1280 (by omega)).andThen <| (readUInt_yields 8 1288 (by omega)).andThen <|
    (readInt_yields 2 1296 (by omega)).andThen <| (readInt_yields 2 1298 (by omega)).andThen <|
    (readUInt_yields 2 1300 (by omega)).andThen <| (readUInt_yields 1 1302 (by omega)).andThen <|
    (Reads.yields_pure _).returns

/-- The states with a name are the three of `state.rs`. -/
theorem stateName_ok_iff {value : UInt8} : (∃ st, stateName value = .ok st) ↔ value ≤ 2 := by
  constructor
  · intro h
    obtain ⟨st, hst⟩ := h
    unfold stateName at hst
    split at hst
    next h0 => rw [h0]; decide
    next =>
      split at hst
      next h1 => rw [h1]; decide
      next =>
        split at hst
        next h2 => rw [h2]; decide
        next => cases hst
  · exact stateName_of_le

/-- What the SDK takes: the tag, a state it has a name for, and a table it can read to
the end. -/
theorem decodeIndex_image_returns_iff (trailing : List UInt8) :
    decodeIndex.Returns (r.image ++ trailing) ↔
      r.tag = 0xf1 ∧ r.state ≤ 2 ∧
        ∀ i < r.componentCount.toNat, 208 + i * 64 + 58 ≤ (r.image ++ trailing).length := by
  have hlen : 1304 ≤ (r.image ++ trailing).length := by
    rw [List.length_append, r.length_image]
    omega
  have hheader := r.header_laid trailing
  simp only [RawIndex.headerPieces, Laid, Pubkey.length_write, length_write_i64, length_write_u32,
    length_write_u16, length_write_u8, Vector.length_toList, Nat.reduceAdd, Nat.zero_add] at hheader
  obtain ⟨hmint, hgovernor, hmanager, hrecipient, haccrual, hcreated, hdelay, hstreaming, hissue,
    hredeem, hpremium, htag, hversion, hbump, hstate, hdecimals, hcount, hname, hsymbol, -⟩ := hheader
  have htable : (decodeComponents 0 r.componentCount.toNat).Returns (r.image ++ trailing) ↔
      ∀ i < r.componentCount.toNat, 208 + i * 64 + 58 ≤ (r.image ++ trailing).length := by
    rw [decodeComponents_returns_iff, Nat.zero_add]
    exact ⟨fun h i hi => h i (Nat.zero_le i) hi, fun h i _ hi => h i hi⟩
  have hshort : ¬(r.image ++ trailing).length < indexAccountLen := Nat.not_lt.mpr hlen
  have htagged : (¬r.tag.toNat ≠ accountTagIndex) ↔ r.tag = 0xf1 := by
    rw [not_not, ← UInt8.toNat_inj]
    rfl
  constructor
  · intro h
    have h := Reads.yields_size.bind_returns_iff.mp h
    have h := (Reads.yields_failIf hshort).bind_returns_iff.mp h
    have h := (readUInt8_of_located htag).bind_returns_iff.mp h
    obtain ⟨u, hpass, h⟩ := h.of_bind
    have h := (readUInt8_of_located hcount).bind_returns_iff.mp h
    obtain ⟨components, hcomponents, h⟩ := h.of_bind
    have h := (key_of_located hmint).bind_returns_iff.mp h
    have h := (key_of_located hgovernor).bind_returns_iff.mp h
    have h := (key_of_located hmanager).bind_returns_iff.mp h
    have h := (key_of_located hrecipient).bind_returns_iff.mp h
    have h := (readBigInt64LE_of_located haccrual).bind_returns_iff.mp h
    have h := (readBigInt64LE_of_located hcreated).bind_returns_iff.mp h
    have h := (readUInt32LE_of_located hdelay).bind_returns_iff.mp h
    have h := (readUInt16LE_of_located hstreaming).bind_returns_iff.mp h
    have h := (readUInt16LE_of_located hissue).bind_returns_iff.mp h
    have h := (readUInt16LE_of_located hredeem).bind_returns_iff.mp h
    have h := (readUInt16LE_of_located hpremium).bind_returns_iff.mp h
    have h := (readUInt8_of_located hversion).bind_returns_iff.mp h
    have h := (readUInt8_of_located hbump).bind_returns_iff.mp h
    have h := (readUInt8_of_located hstate).bind_returns_iff.mp h
    obtain ⟨st, ⟨log, hst⟩, -⟩ := h.of_bind
    have hname' := mapError_ok_iff.mp hst.of_lift
    rw [UInt8.ofNat_toNat] at hname'
    exact ⟨htagged.mp (Reads.returns_failIf_iff.mp ⟨u, hpass⟩), stateName_ok_iff.mp ⟨st, hname'⟩,
      htable.mp ⟨components, hcomponents⟩⟩
  · intro h
    obtain ⟨htag', hstate', htable'⟩ := h
    obtain ⟨components, log, hcomponents⟩ := htable.mpr htable'
    obtain ⟨st, hst⟩ := stateName_of_le hstate'
    obtain ⟨rebalance, log', hrebalance⟩ := decodeRebalance_returns hlen
    have hname' : (stateName (UInt8.ofNat r.state.toNat)).mapError DecodeError.sdk = .ok st := by
      rw [UInt8.ofNat_toNat, hst]
      rfl
    exact Reads.yields_size.andThen <| (Reads.yields_failIf hshort).andThen <|
      (readUInt8_of_located htag).andThen <| (Reads.yields_failIf (htagged.mpr htag')).andThen <|
      (readUInt8_of_located hcount).andThen <| hcomponents.andThen <|
      (key_of_located hmint).andThen <| (key_of_located hgovernor).andThen <|
      (key_of_located hmanager).andThen <| (key_of_located hrecipient).andThen <|
      (readBigInt64LE_of_located haccrual).andThen <| (readBigInt64LE_of_located hcreated).andThen <|
      (readUInt32LE_of_located hdelay).andThen <| (readUInt16LE_of_located hstreaming).andThen <|
      (readUInt16LE_of_located hissue).andThen <| (readUInt16LE_of_located hredeem).andThen <|
      (readUInt16LE_of_located hpremium).andThen <| (readUInt8_of_located hversion).andThen <|
      (readUInt8_of_located hbump).andThen <| (readUInt8_of_located hstate).andThen <|
      (Reads.yields_lift hname').andThen <| (readUInt8_of_located hdecimals).andThen <|
      (text_of_located hname).andThen <| (text_of_located hsymbol).andThen <|
      hrebalance.andThen <| (Reads.yields_pure _).returns

/-- The SDK reads no record out of too few bytes either. -/
theorem not_returns_of_short (h : data.length < indexAccountLen) : ¬decodeIndex.Returns data := by
  intro hreturns
  obtain ⟨u, hpass, -⟩ := (Reads.yields_size.bind_returns_iff.mp hreturns).of_bind
  exact Reads.returns_failIf_iff.mp ⟨u, hpass⟩ h

end Sdk.State

/-! ## The two together -/

/-- The buffer holds a record some run of the program leaves, and the counter says how
many slots are in use. -/
def HoldsReachable (ch : Chain) (r : RawIndex) : Prop :=
  r.componentCount.toNat = r.index.components.length ∧
    ∃ w k, Reachable ch w ∧ w.index? k = some r.index

/-- What the SDK reads as an account the program takes, and every record of the
program's the SDK reads. -/
structure DecodersAgree (ch : Chain) (data : List UInt8) : Prop where
  sdk : ∀ account reads, Sdk.State.decodeIndex data = .ok (account, reads) →
    ∃ r, decodeIndex data = .ok r
  program : ∀ r, decodeIndex data = .ok r → HoldsReachable ch r →
    ∃ account reads, Sdk.State.decodeIndex data = .ok (account, reads)

/-- Too short, the wrong tag, a state without a name, or a table that is not all there. -/
def Unreadable (data : List UInt8) : Prop :=
  data.length < 1304 ∨ data[156]? ≠ some 0xf1 ∨ (∃ state, data[159]? = some state ∧ 2 < state) ∨
    ∃ componentCount, data[161]? = some componentCount ∧
      ∃ i < componentCount.toNat, data.length < 208 + i * 64 + 58

/-- A byte that stands somewhere is the byte there. -/
theorem getElem?_of_located {offset : Nat} {x : UInt8} (h : Located data offset (u8.write x)) :
    data[offset]? = some x := by
  have hwrite : u8.write x = [x] := congrArg (fun b => [b]) UInt8.ofNat_toNat
  rw [hwrite] at h
  obtain ⟨rest, hrest⟩ := h
  have hhead : (data.drop offset)[0]? = some x := by rw [← hrest]; rfl
  rwa [List.getElem?_drop, Nat.add_zero] at hhead

/-- A record of the program's is one the SDK reads. -/
theorem sdk_reads_reachable {ch : Chain} (h : HoldsReachable ch r) (htag : r.tag = accountTagIndex)
    (trailing : List UInt8) : Sdk.State.decodeIndex.Returns (r.image ++ trailing) := by
  obtain ⟨hcount, w, k, hreach, hidx⟩ := h
  obtain ⟨hwf, -⟩ := reachable_wellFormed hreach hidx
  have hroom := hwf.room
  refine (Sdk.State.decodeIndex_image_returns_iff trailing).mpr ⟨htag, ?_, fun i hi => ?_⟩
  · have hstate : r.state = stateBootstrapping ∨ r.state = stateLive ∨ r.state = statePaused :=
      hwf.state
    rcases hstate with h | h | h <;> rw [h] <;> decide
  · rw [List.length_append, r.length_image]
    omega

/-- The bytes the conditions are about, in a buffer that holds a record. -/
theorem getElem?_image (r : RawIndex) (trailing : List UInt8) :
    (r.image ++ trailing)[156]? = some r.tag ∧ (r.image ++ trailing)[157]? = some r.version ∧
      (r.image ++ trailing)[159]? = some r.state ∧
      (r.image ++ trailing)[161]? = some r.componentCount := by
  have hheader := r.header_laid trailing
  simp only [RawIndex.headerPieces, Laid, Pubkey.length_write, length_write_i64, length_write_u32,
    length_write_u16, length_write_u8, Vector.length_toList, Nat.reduceAdd, Nat.zero_add] at hheader
  obtain ⟨-, -, -, -, -, -, -, -, -, -, -, hheader⟩ := hheader
  obtain ⟨htag, hversion, -, hstate, -, hcount, -⟩ := hheader
  exact ⟨getElem?_of_located htag, getElem?_of_located hversion, getElem?_of_located hstate,
    getElem?_of_located hcount⟩

/-- Of an image with anything behind it, the SDK does not read just what is unreadable. -/
theorem unreadable_image_iff (trailing : List UInt8) : Unreadable (r.image ++ trailing) ↔
    ¬Sdk.State.decodeIndex.Returns (r.image ++ trailing) := by
  obtain ⟨htag, -, hstate, hcount⟩ := getElem?_image r trailing
  have hlen : ¬(r.image ++ trailing).length < 1304 := by
    rw [List.length_append, r.length_image]
    omega
  rw [Sdk.State.decodeIndex_image_returns_iff, Unreadable, htag, hstate, hcount]
  simp only [hlen, false_or, ne_eq, Option.some.injEq, exists_eq_left', not_and_or, UInt8.not_le,
    not_forall, Nat.not_le, exists_prop]

/-- The two decoders take the same accounts exactly when the version is the program's
or the SDK throws anyway. -/
theorem decoders_agree_iff (ch : Chain) (data : List UInt8) :
    DecodersAgree ch data ↔ data[157]? = some 1 ∨ Unreadable data := by
  by_cases hlen : data.length < 1304
  · refine iff_of_true ⟨fun account reads h => ?_, fun r h => ?_⟩ (.inr (.inl hlen))
    · exact absurd ⟨account, reads, h⟩ (Sdk.State.not_returns_of_short hlen)
    · rw [decodeIndex_of_short hlen] at h
      cases h
  obtain ⟨r, trailing, -, rfl⟩ := RawIndex.exists_image (Nat.le_of_not_lt hlen)
  obtain ⟨-, hversion, -, -⟩ := getElem?_image r trailing
  rw [hversion, Option.some.injEq, unreadable_image_iff]
  constructor
  · intro h
    by_cases hreturns : Sdk.State.decodeIndex.Returns (r.image ++ trailing)
    · obtain ⟨account, reads, hdecode⟩ := hreturns
      obtain ⟨r', hr'⟩ := h.sdk account reads hdecode
      exact .inl ((decodeIndex_image_ok_iff trailing).mp hr').2.1
    · exact .inr hreturns
  · intro h
    refine ⟨fun account reads hdecode => ?_, fun r' hr' hholds => ?_⟩
    · have hreturns : Sdk.State.decodeIndex.Returns (r.image ++ trailing) :=
        ⟨account, reads, hdecode⟩
      have htag := ((Sdk.State.decodeIndex_image_returns_iff trailing).mp hreturns).1
      exact ⟨r, (decodeIndex_image_ok_iff trailing).mpr
        ⟨htag, h.resolve_right (not_not.mpr hreturns), rfl⟩⟩
    · obtain ⟨htag, -, rfl⟩ := (decodeIndex_image_ok_iff trailing).mp hr'
      exact sdk_reads_reachable hholds htag trailing

/-- The record of the round trip, a version later. -/
def laterRecord : RawIndex := { Sdk.State.localRecord with version := 2 }

/-- The SDK reads it as an account, the program refuses it. -/
theorem sdk_reads_later_record :
    (∃ account reads, Sdk.State.decodeIndex laterRecord.image = .ok (account, reads)) ∧
      (∀ r, decodeIndex laterRecord.image ≠ .ok r) ∧ ¬DecodersAgree localnet laterRecord.image := by
  have himage : laterRecord.image = laterRecord.image ++ [] := (List.append_nil _).symm
  have hreads : Sdk.State.decodeIndex.Returns laterRecord.image := by
    rw [himage, Sdk.State.decodeIndex_image_returns_iff, List.length_append,
      RawIndex.length_image]
    decide
  have hrefuses : ∀ r, decodeIndex laterRecord.image ≠ .ok r := by
    intro r h
    rw [himage, decodeIndex_image_ok_iff] at h
    exact absurd h.2.1 (by decide)
  refine ⟨hreads, hrefuses, fun h => ?_⟩
  obtain ⟨account, reads, hdecode⟩ := hreads
  obtain ⟨r, hr⟩ := h.sdk account reads hdecode
  exact hrefuses r hr

end Flock
