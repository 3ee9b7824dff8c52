import Flock.Processor
import Flock.Lib.Codec

/-!
# `FlockInstruction` on the wire

What `derive(BorshSerialize, BorshDeserialize)` makes of the enumeration: the
number of the variant in declaration order, in one byte, and then its fields in
theirs. Integers are little-endian, arrays and keys are their bytes, a vector
stands behind its length, a boolean is one byte that is zero or one, and
`try_from_slice` takes nothing that leaves bytes over.
-/

namespace Flock

/-- The 32 bytes of an address. -/
def Pubkey.codec : Codec Pubkey := (Codec.nat 32).map (fun x => ⟨BitVec.ofNat 256 x⟩)
  (fun k => k.val.toNat) (fun _ => congrArg Pubkey.mk (by simp))
  (fun h => Nat.mod_eq_of_lt h)

@[simp] theorem Pubkey.codec_fits (k : Pubkey) : Pubkey.codec.Fits k := k.val.isLt

namespace FlockInstruction

open Codec

/-! ### The fields of each variant -/

def initIndexFields : Codec (Vector UInt8 32 × Vector UInt8 12 × UInt16 × UInt16 × UInt16 ×
    UInt16 × UInt32) :=
  (array 32).pair ((array 12).pair (u16.pair (u16.pair (u16.pair (u16.pair u32)))))

def issueFields : Codec (UInt64 × List UInt64) := u64.pair (vec u64)

def proposeRebalanceFields : Codec (List UInt64 × List UInt64 × UInt32 × Int16 × Int16 × UInt16) :=
  (vec u64).pair ((vec u64).pair (u32.pair (i16.pair (i16.pair u16))))

def bidFields : Codec (UInt8 × UInt8 × UInt64 × UInt64) := u8.pair (u8.pair (u64.pair u64))

def setParamsFields : Codec (UInt16 × UInt16 × UInt16 × UInt16 × UInt32) :=
  u16.pair (u16.pair (u16.pair (u16.pair u32)))

def setAuthorityFields : Codec (UInt8 × Pubkey) := u8.pair Pubkey.codec

/-! ### The enumeration -/

/-- A vector has room for fewer than `2 ^ 32` entries, everything else for what it is. -/
def Fits : FlockInstruction → Prop
  | .issue _ maxIn => maxIn.length < 2 ^ 32
  | .redeem _ minOut => minOut.length < 2 ^ 32
  | .proposeRebalance targetUnits refPricesE9 _ _ _ _ =>
    targetUnits.length < 2 ^ 32 ∧ refPricesE9.length < 2 ^ 32
  | _ => True

/-- `borsh::to_vec`. -/
def serialize : FlockInstruction → List UInt8
  | .initIndex name symbol streamingFeeBps issueFeeBps redeemFeeBps maxPremiumBps rebalanceDelay =>
    0 :: initIndexFields.write (name, symbol, streamingFeeBps, issueFeeBps, redeemFeeBps,
      maxPremiumBps, rebalanceDelay)
  | .addComponent units => 1 :: u64.write units
  | .sealIndex => [2]
  | .issue amount maxIn => 3 :: issueFields.write (amount, maxIn)
  | .redeem amount minOut => 4 :: issueFields.write (amount, minOut)
  | .accrueFees => [5]
  | .proposeRebalance targetUnits refPricesE9 duration startPremiumBps endPremiumBps
      maxNavLossBps =>
    6 :: proposeRebalanceFields.write (targetUnits, refPricesE9, duration, startPremiumBps,
      endPremiumBps, maxNavLossBps)
  | .bid sellComponent buyComponent sellAmount maxBuyAmount =>
    7 :: bidFields.write (sellComponent, buyComponent, sellAmount, maxBuyAmount)
  | .endRebalance => [8]
  | .setParams streamingFeeBps issueFeeBps redeemFeeBps maxPremiumBps rebalanceDelay =>
    9 :: setParamsFields.write (streamingFeeBps, issueFeeBps, redeemFeeBps, maxPremiumBps,
      rebalanceDelay)
  | .setAuthority role newAuthority => 10 :: setAuthorityFields.write (role, newAuthority)
  | .setPaused paused => 11 :: bool.write paused

/-- The variant with this number, its fields off the front of the bytes. -/
def deserializeVariant (bs : List UInt8) : Nat → Option (FlockInstruction × List UInt8)
  | 0 => initIndexFields.readAs (fun (name, symbol, streamingFeeBps, issueFeeBps, redeemFeeBps,
      maxPremiumBps, rebalanceDelay) => .initIndex name symbol streamingFeeBps issueFeeBps
        redeemFeeBps maxPremiumBps rebalanceDelay) bs
  | 1 => u64.readAs .addComponent bs
  | 2 => some (.sealIndex, bs)
  | 3 => issueFields.readAs (fun (amount, maxIn) => .issue amount maxIn) bs
  | 4 => issueFields.readAs (fun (amount, minOut) => .redeem amount minOut) bs
  | 5 => some (.accrueFees, bs)
  | 6 => proposeRebalanceFields.readAs (fun (targetUnits, refPricesE9, duration, startPremiumBps,
      endPremiumBps, maxNavLossBps) => .proposeRebalance targetUnits refPricesE9 duration
        startPremiumBps endPremiumBps maxNavLossBps) bs
  | 7 => bidFields.readAs (fun (sellComponent, buyComponent, sellAmount, maxBuyAmount) =>
      .bid sellComponent buyComponent sellAmount maxBuyAmount) bs
  | 8 => some (.endRebalance, bs)
  | 9 => setParamsFields.readAs (fun (streamingFeeBps, issueFeeBps, redeemFeeBps, maxPremiumBps,
      rebalanceDelay) => .setParams streamingFeeBps issueFeeBps redeemFeeBps maxPremiumBps
        rebalanceDelay) bs
  | 10 => setAuthorityFields.readAs (fun (role, newAuthority) => .setAuthority role newAuthority) bs
  | 11 => bool.readAs .setPaused bs
  | _ => none

def deserialize : List UInt8 → Option (FlockInstruction × List UInt8)
  | [] => none
  | variant :: bs => deserializeVariant bs variant.toNat

/-- `try_from_slice`. -/
def tryFromSlice (bs : List UInt8) : Option FlockInstruction :=
  match deserialize bs with
  | some (ix, []) => some ix
  | _ => none

/-! ### Both directions -/

section

variable {ix ix' : FlockInstruction} {bs rest : List UInt8}

theorem deserialize_serialize (h : ix.Fits) :
    deserialize (ix.serialize ++ rest) = some (ix, rest) := by
  cases ix with
  | initIndex name symbol streamingFeeBps issueFeeBps redeemFeeBps maxPremiumBps rebalanceDelay =>
    show deserializeVariant (initIndexFields.write (name, symbol, streamingFeeBps, issueFeeBps,
      redeemFeeBps, maxPremiumBps, rebalanceDelay) ++ rest) 0 = _
    rw [deserializeVariant, readAs_write _ _ (by simp [initIndexFields])]
  | addComponent units =>
    show deserializeVariant (u64.write units ++ rest) 1 = _
    rw [deserializeVariant, readAs_write _ _ (u64_fits units)]
  | sealIndex => rfl
  | issue amount maxIn =>
    show deserializeVariant (issueFields.write (amount, maxIn) ++ rest) 3 = _
    rw [deserializeVariant, issueFields.readAs_write (amount, maxIn) ⟨u64_fits amount, h, by simp⟩]
  | redeem amount minOut =>
    show deserializeVariant (issueFields.write (amount, minOut) ++ rest) 4 = _
    rw [deserializeVariant,
      issueFields.readAs_write (amount, minOut) ⟨u64_fits amount, h, by simp⟩]
  | accrueFees => rfl
  | proposeRebalance targetUnits refPricesE9 duration startPremiumBps endPremiumBps
      maxNavLossBps =>
    show deserializeVariant (proposeRebalanceFields.write (targetUnits, refPricesE9, duration,
      startPremiumBps, endPremiumBps, maxNavLossBps) ++ rest) 6 = _
    have hvecs : (vec u64).Fits targetUnits ∧ (vec u64).Fits refPricesE9 :=
      ⟨⟨h.1, by simp⟩, ⟨h.2, by simp⟩⟩
    rw [deserializeVariant, readAs_write _ _ (by simp [proposeRebalanceFields, -vec_fits, hvecs])]
  | bid sellComponent buyComponent sellAmount maxBuyAmount =>
    show deserializeVariant (bidFields.write (sellComponent, buyComponent, sellAmount,
      maxBuyAmount) ++ rest) 7 = _
    rw [deserializeVariant, readAs_write _ _ (by simp [bidFields])]
  | endRebalance => rfl
  | setParams streamingFeeBps issueFeeBps redeemFeeBps maxPremiumBps rebalanceDelay =>
    show deserializeVariant (setParamsFields.write (streamingFeeBps, issueFeeBps, redeemFeeBps,
      maxPremiumBps, rebalanceDelay) ++ rest) 9 = _
    rw [deserializeVariant, readAs_write _ _ (by simp [setParamsFields])]
  | setAuthority role newAuthority =>
    show deserializeVariant (setAuthorityFields.write (role, newAuthority) ++ rest) 10 = _
    rw [deserializeVariant, readAs_write _ _ (by simp [setAuthorityFields])]
  | setPaused paused =>
    show deserializeVariant (bool.write paused ++ rest) 11 = _
    rw [deserializeVariant, readAs_write _ _ trivial]

/-- Nothing is accepted that `serialize` does not write. -/
theorem deserialize_eq_some (h : deserialize bs = some (ix, rest)) :
    ix.Fits ∧ bs = ix.serialize ++ rest := by
  cases bs with
  | nil => cases h
  | cons variant bs =>
    obtain ⟨n, hn, rfl⟩ : ∃ n, n < 256 ∧ variant = UInt8.ofNat n :=
      ⟨variant.toNat, variant.toNat_lt, UInt8.ofNat_toNat.symm⟩
    have hd : deserializeVariant bs n = some (ix, rest) := by
      rwa [deserialize, UInt8.toNat_ofNat_of_lt' hn] at h
    unfold deserializeVariant at hd
    split at hd
    -- no fields, no such variant, and one rule for every variant with fields
    case h_3 | h_6 | h_9 =>
      obtain ⟨rfl, rfl⟩ := Prod.mk.inj (Option.some.inj hd)
      exact ⟨trivial, rfl⟩
    case h_13 => cases hd
    all_goals
      obtain ⟨fields, hfit, rfl, rfl⟩ := (readAs_iff _).mp hd
    case h_4 | h_5 => exact ⟨hfit.2.1, rfl⟩
    case h_7 => exact ⟨⟨hfit.1.1, hfit.2.1.1⟩, rfl⟩
    all_goals exact ⟨trivial, rfl⟩

/-- The format of the whole enumeration. -/
def codec : Codec FlockInstruction where
  Fits := Fits
  write := serialize
  read := deserialize
  read_iff := by
    intro bs ix rest
    constructor
    · exact deserialize_eq_some
    · rintro ⟨hfit, rfl⟩
      exact deserialize_serialize hfit

theorem tryFromSlice_iff : tryFromSlice bs = some ix ↔ ix.Fits ∧ bs = ix.serialize := by
  have hread : tryFromSlice bs = some ix ↔ deserialize bs = some (ix, []) := by
    unfold tryFromSlice
    split
    next ix' hd => simp [hd]
    next hd =>
      constructor
      · intro h
        cases h
      · intro h
        exact absurd h (hd ix)
  rw [hread]
  refine codec.read_iff.trans ?_
  rw [List.append_nil]
  rfl

end

end FlockInstruction

/-- `process`: decode, then run the handler. -/
def processData (ch : Chain) (w : World) (accounts : List AccountInfo) (data : List UInt8) :
    Except ProgramError World :=
  match FlockInstruction.tryFromSlice data with
  | some ix => process ch w accounts ix
  | none => .error .invalidInstructionData

theorem processData_serialize {ch : Chain} {w : World} {accounts : List AccountInfo}
    {ix : FlockInstruction} (h : ix.Fits) :
    processData ch w accounts ix.serialize = process ch w accounts ix := by
  rw [processData, FlockInstruction.tryFromSlice_iff.mpr ⟨h, rfl⟩]

end Flock
