import Flock.Instructions

/-!
# One wire format

The SDK writes by hand what the program reads with a derived decoder. A `Request`
is a call of a builder with arguments in range; it becomes an instruction of the
SDK (`sdk`), one of the program's own builders (`program`), and a value of the
enumeration (`instruction`). The data of the first two decodes to the third, and
their account lists are one.
-/

namespace Flock

open Sdk Outcome

/-- A JavaScript array. Its length is a `u32`. -/
abbrev JsArray (α : Type) := { entries : List α // entries.length < 2 ^ 32 }

/-- The numbers of an array of `u64`. -/
def JsArray.numbers (a : JsArray UInt64) : List Int := a.val.map fun x => (x.toNat : Int)

inductive Request where
  | initIndex (payer indexMint governor manager feeRecipient : Pubkey) (name symbol : JsString)
      (streamingFeeBps issueFeeBps redeemFeeBps maxPremiumBps : UInt16) (rebalanceDelay : UInt32)
  | addComponent (manager payer indexMint componentMint : Pubkey) (units : UInt64)
  | sealIndex (manager indexMint : Pubkey)
  | issue (user indexMint userIndexAccount feeAccount : Pubkey) (components : List ComponentPair)
      (amount : UInt64) (maxIn : JsArray UInt64)
  | redeem (user indexMint userIndexAccount feeAccount : Pubkey) (components : List ComponentPair)
      (amount : UInt64) (minOut : JsArray UInt64)
  | accrueFees (indexMint feeAccount : Pubkey) (componentMints : List Pubkey)
  | proposeRebalance (manager indexMint : Pubkey) (componentMints : List Pubkey)
      (targetUnits refPricesE9 : JsArray UInt64) (duration : UInt32)
      (startPremiumBps endPremiumBps : Int16) (maxNavLossBps : UInt16)
  | bid (bidder indexMint : Pubkey) (componentMints : List Pubkey)
      (bidderReceiveAccount bidderPayAccount : Pubkey) (sellComponent buyComponent : UInt8)
      (sellAmount maxBuyAmount : UInt64)
  | endRebalance (caller indexMint : Pubkey) (componentMints : List Pubkey)
  | setParams (governor indexMint : Pubkey)
      (streamingFeeBps issueFeeBps redeemFeeBps maxPremiumBps : UInt16) (rebalanceDelay : UInt32)
  | setAuthority (governor indexMint : Pubkey) (role : UInt8) (newAuthority : Pubkey)
  | setPaused (caller indexMint : Pubkey) (paused : Bool)

namespace Request

/-- What is asked of the program. -/
def instruction : Request → FlockInstruction
  | initIndex _ _ _ _ _ name symbol streamingFeeBps issueFeeBps redeemFeeBps maxPremiumBps
      rebalanceDelay =>
    .initIndex (fixedBytes name 32) (fixedBytes symbol 12) streamingFeeBps issueFeeBps redeemFeeBps
      maxPremiumBps rebalanceDelay
  | addComponent _ _ _ _ units => .addComponent units
  | sealIndex _ _ => .sealIndex
  | issue _ _ _ _ _ amount maxIn => .issue amount maxIn.val
  | redeem _ _ _ _ _ amount minOut => .redeem amount minOut.val
  | accrueFees _ _ _ => .accrueFees
  | proposeRebalance _ _ _ targetUnits refPricesE9 duration startPremiumBps endPremiumBps
      maxNavLossBps =>
    .proposeRebalance targetUnits.val refPricesE9.val duration startPremiumBps endPremiumBps
      maxNavLossBps
  | bid _ _ _ _ _ sellComponent buyComponent sellAmount maxBuyAmount =>
    .bid sellComponent buyComponent sellAmount maxBuyAmount
  | endRebalance _ _ _ => .endRebalance
  | setParams _ _ streamingFeeBps issueFeeBps redeemFeeBps maxPremiumBps rebalanceDelay =>
    .setParams streamingFeeBps issueFeeBps redeemFeeBps maxPremiumBps rebalanceDelay
  | setAuthority _ _ role newAuthority => .setAuthority role newAuthority
  | setPaused _ _ paused => .setPaused paused

section

variable (lib : Library) (programId : Pubkey)

/-- The SDK's builder, called. -/
def sdk : Request → Except OutOfRange TransactionInstruction
  | initIndex payer indexMint governor manager feeRecipient name symbol streamingFeeBps issueFeeBps
      redeemFeeBps maxPremiumBps rebalanceDelay =>
    Sdk.initIndex lib
      { programId, payer, indexMint, governor, manager, feeRecipient, name, symbol
        streamingFeeBps := streamingFeeBps.toNat
        issueFeeBps := issueFeeBps.toNat
        redeemFeeBps := redeemFeeBps.toNat
        maxPremiumBps := maxPremiumBps.toNat
        rebalanceDelay := rebalanceDelay.toNat }
  | addComponent manager payer indexMint componentMint units =>
    Sdk.addComponent lib
      { programId, manager, payer, indexMint, componentMint, units := units.toNat }
  | sealIndex manager indexMint => Sdk.sealIndex lib { programId, manager, indexMint }
  | issue user indexMint userIndexAccount feeAccount components amount maxIn =>
    Sdk.issue lib
      { programId, user, indexMint, userIndexAccount, feeAccount, components
        amount := amount.toNat
        maxIn := maxIn.numbers }
  | redeem user indexMint userIndexAccount feeAccount components amount minOut =>
    Sdk.redeem lib
      { programId, user, indexMint, userIndexAccount, feeAccount, components
        amount := amount.toNat
        minOut := minOut.numbers }
  | accrueFees indexMint feeAccount componentMints =>
    Sdk.accrueFees lib { programId, indexMint, feeAccount, componentMints }
  | proposeRebalance manager indexMint componentMints targetUnits refPricesE9 duration
      startPremiumBps endPremiumBps maxNavLossBps =>
    Sdk.proposeRebalance lib
      { programId, manager, indexMint, componentMints
        targetUnits := targetUnits.numbers
        refPricesE9 := refPricesE9.numbers
        duration := duration.toNat
        startPremiumBps := startPremiumBps.toInt
        endPremiumBps := endPremiumBps.toInt
        maxNavLossBps := maxNavLossBps.toNat }
  | bid bidder indexMint componentMints bidderReceiveAccount bidderPayAccount sellComponent
      buyComponent sellAmount maxBuyAmount =>
    Sdk.bid lib
      { programId, bidder, indexMint, componentMints, bidderReceiveAccount, bidderPayAccount
        sellComponent := sellComponent.toNat
        buyComponent := buyComponent.toNat
        sellAmount := sellAmount.toNat
        maxBuyAmount := maxBuyAmount.toNat }
  | endRebalance caller indexMint componentMints =>
    Sdk.endRebalance lib { programId, caller, indexMint, componentMints }
  | setParams governor indexMint streamingFeeBps issueFeeBps redeemFeeBps maxPremiumBps
      rebalanceDelay =>
    Sdk.setParams lib
      { programId, governor, indexMint
        streamingFeeBps := streamingFeeBps.toNat
        issueFeeBps := issueFeeBps.toNat
        redeemFeeBps := redeemFeeBps.toNat
        maxPremiumBps := maxPremiumBps.toNat
        rebalanceDelay := rebalanceDelay.toNat }
  | setAuthority governor indexMint role newAuthority =>
    Sdk.setAuthority lib { programId, governor, indexMint, role := role.toNat, newAuthority }
  | setPaused caller indexMint paused => Sdk.setPaused lib { programId, caller, indexMint, paused }

/-- The program's builder of the same name. -/
def program : Request → Instruction
  | initIndex payer indexMint governor manager feeRecipient name symbol streamingFeeBps issueFeeBps
      redeemFeeBps maxPremiumBps rebalanceDelay =>
    Builders.initIndex lib programId payer indexMint governor manager feeRecipient
      { name := fixedBytes name 32, symbol := fixedBytes symbol 12
        streamingFeeBps, issueFeeBps, redeemFeeBps, maxPremiumBps, rebalanceDelay }
  | addComponent manager payer indexMint componentMint units =>
    Builders.addComponent lib programId manager payer indexMint componentMint units
  | sealIndex manager indexMint => Builders.sealIndex lib programId manager indexMint
  | issue user indexMint userIndexAccount feeAccount components amount maxIn =>
    Builders.issue lib programId user indexMint userIndexAccount feeAccount
      (components.map fun c => (c.mint, c.tokenAccount)) amount maxIn.val
  | redeem user indexMint userIndexAccount feeAccount components amount minOut =>
    Builders.redeem lib programId user indexMint userIndexAccount feeAccount
      (components.map fun c => (c.mint, c.tokenAccount)) amount minOut.val
  | accrueFees indexMint feeAccount componentMints =>
    Builders.accrueFees lib programId indexMint feeAccount componentMints
  | proposeRebalance manager indexMint componentMints targetUnits refPricesE9 duration
      startPremiumBps endPremiumBps maxNavLossBps =>
    Builders.proposeRebalance lib programId manager indexMint componentMints targetUnits.val
      refPricesE9.val { duration, startPremiumBps, endPremiumBps, maxNavLossBps }
  | bid bidder indexMint componentMints bidderReceiveAccount bidderPayAccount sellComponent
      buyComponent sellAmount maxBuyAmount =>
    Builders.bid lib programId bidder indexMint componentMints bidderReceiveAccount
      bidderPayAccount sellComponent buyComponent sellAmount maxBuyAmount
  | endRebalance caller indexMint componentMints =>
    Builders.endRebalance lib programId caller indexMint componentMints
  | setParams governor indexMint streamingFeeBps issueFeeBps redeemFeeBps maxPremiumBps
      rebalanceDelay =>
    Builders.setParams lib programId governor indexMint streamingFeeBps issueFeeBps redeemFeeBps
      maxPremiumBps rebalanceDelay
  | setAuthority governor indexMint role newAuthority =>
    Builders.setAuthority lib programId governor indexMint role newAuthority
  | setPaused caller indexMint paused => Builders.setPaused lib programId caller indexMint paused

end

/-! ## The builders agree -/

theorem instruction_fits (r : Request) : r.instruction.Fits := by
  cases r with
  | issue _ _ _ _ _ _ maxIn => exact maxIn.property
  | redeem _ _ _ _ _ _ minOut => exact minOut.property
  | proposeRebalance _ _ _ targetUnits refPricesE9 =>
    exact ⟨targetUnits.property, refPricesE9.property⟩
  | _ => trivial

/-- The SDK built what the program's builder builds. -/
def Built (built : TransactionInstruction) (ix : Instruction) : Prop :=
  built.programId = ix.programId ∧ built.keys = ix.accounts ∧ built.data = ix.data

theorem numbers_written (w : Writer) (a : JsArray UInt64) :
    ∃ w', w.vecU64 a.numbers = .ok w' ∧
      w'.toBuffer = w.toBuffer ++ (Codec.vec Codec.u64).write a.val := by
  refine ⟨_, Writer.vecU64_ok_iff.mpr ⟨a.val, rfl, a.property, rfl⟩, ?_⟩
  simp [Writer.toBuffer, Codec.vec, List.flatMap]

/-- The accounts of `issue` and `redeem`. -/
theorem componentMetas_eq (lib : Library) (programId indexMint : Pubkey)
    (accounts : List AccountMeta) (components : List ComponentPair) :
    accounts ++ componentMetas lib programId indexMint components
      = Builders.pushPairs lib programId indexMint accounts
          (components.map fun c => (c.mint, c.tokenAccount)) := by
  rw [Builders.pushPairs_eq, List.flatMap_map]
  rfl

theorem sdk_built (lib : Library) (programId : Pubkey) (r : Request) :
    ∃ built, r.sdk lib programId = .ok built ∧ Built built (r.program lib programId) := by
  cases r with
  | initIndex payer indexMint governor manager feeRecipient name symbol streamingFeeBps issueFeeBps
      redeemFeeBps maxPremiumBps rebalanceDelay =>
    have hv : Writer.new.u8 variant.initIndex = .ok (Writer.new.push [0]) := rfl
    simp only [sdk, Sdk.initIndex, hv, ok_bind, Writer.u16_toNat, Writer.u32_toNat]
    refine ⟨_, rfl, rfl, rfl, ?_⟩
    simp only [Writer.fixed, Writer.toBuffer_push, List.append_assoc]
    rfl
  | addComponent manager payer indexMint componentMint units =>
    have hv : Writer.new.u8 variant.addComponent = .ok (Writer.new.push [1]) := rfl
    simp only [sdk, Sdk.addComponent, hv, ok_bind, Writer.u64_toNat]
    refine ⟨_, rfl, rfl, rfl, ?_⟩
    simp only [Writer.toBuffer_push]
    rfl
  | sealIndex manager indexMint =>
    have hv : Writer.new.u8 variant.sealIndex = .ok (Writer.new.push [2]) := rfl
    simp only [sdk, Sdk.sealIndex, hv, ok_bind]
    exact ⟨_, rfl, rfl, rfl, rfl⟩
  | issue user indexMint userIndexAccount feeAccount components amount maxIn =>
    exact ⟨_, (Sdk.issue_ok_iff lib).mpr ⟨amount, maxIn.val, rfl, rfl, maxIn.property, rfl⟩, rfl,
      componentMetas_eq .., rfl⟩
  | redeem user indexMint userIndexAccount feeAccount components amount minOut =>
    exact ⟨_, (Sdk.redeem_ok_iff lib).mpr ⟨amount, minOut.val, rfl, rfl, minOut.property, rfl⟩, rfl,
      componentMetas_eq .., rfl⟩
  | accrueFees indexMint feeAccount componentMints =>
    have hv : Writer.new.u8 variant.accrueFees = .ok (Writer.new.push [5]) := rfl
    simp only [sdk, Sdk.accrueFees, hv, ok_bind]
    exact ⟨_, rfl, rfl, (Builders.pushVaults_eq ..).symm, rfl⟩
  | proposeRebalance manager indexMint componentMints targetUnits refPricesE9 duration
      startPremiumBps endPremiumBps maxNavLossBps =>
    have hv : Writer.new.u8 variant.proposeRebalance = .ok (Writer.new.push [6]) := rfl
    -- the writer does not compute on the two vectors, so bind by bind
    obtain ⟨w, hw, hdata⟩ := numbers_written (Writer.new.push [6]) targetUnits
    obtain ⟨w', hw', hdata'⟩ := numbers_written w refPricesE9
    refine ⟨_, bind_ok_iff.mpr ⟨_, hv, bind_ok_iff.mpr ⟨_, hw, bind_ok_iff.mpr ⟨_, hw',
      bind_ok_iff.mpr ⟨_, Writer.u32_toNat _ duration, bind_ok_iff.mpr ⟨_, Writer.i16_toInt _
        startPremiumBps, bind_ok_iff.mpr ⟨_, Writer.i16_toInt _ endPremiumBps, bind_ok_iff.mpr ⟨_,
          Writer.u16_toNat _ maxNavLossBps, rfl⟩⟩⟩⟩⟩⟩⟩, rfl, (Builders.pushVaults_eq ..).symm, ?_⟩
    simp only [Writer.toBuffer_push, hdata', hdata, List.append_assoc]
    rfl
  | bid bidder indexMint componentMints bidderReceiveAccount bidderPayAccount sellComponent
      buyComponent sellAmount maxBuyAmount =>
    have hv : Writer.new.u8 variant.bid = .ok (Writer.new.push [7]) := rfl
    simp only [sdk, Sdk.bid, hv, ok_bind, Writer.u8_toNat, Writer.u64_toNat]
    refine ⟨_, rfl, rfl, (Builders.pushVaults_eq ..).symm, ?_⟩
    simp only [Writer.toBuffer_push, List.append_assoc]
    rfl
  | endRebalance caller indexMint componentMints =>
    have hv : Writer.new.u8 variant.endRebalance = .ok (Writer.new.push [8]) := rfl
    simp only [sdk, Sdk.endRebalance, hv, ok_bind]
    exact ⟨_, rfl, rfl, (Builders.pushVaults_eq ..).symm, rfl⟩
  | setParams governor indexMint streamingFeeBps issueFeeBps redeemFeeBps maxPremiumBps
      rebalanceDelay =>
    have hv : Writer.new.u8 variant.setParams = .ok (Writer.new.push [9]) := rfl
    simp only [sdk, Sdk.setParams, hv, ok_bind, Writer.u16_toNat, Writer.u32_toNat]
    refine ⟨_, rfl, rfl, rfl, ?_⟩
    simp only [Writer.toBuffer_push, List.append_assoc]
    rfl
  | setAuthority governor indexMint role newAuthority =>
    have hv : Writer.new.u8 variant.setAuthority = .ok (Writer.new.push [10]) := rfl
    simp only [sdk, Sdk.setAuthority, hv, ok_bind, Writer.u8_toNat, Writer.bytes]
    refine ⟨_, rfl, rfl, rfl, ?_⟩
    simp only [Writer.toBuffer_push, List.append_assoc]
    rfl
  | setPaused caller indexMint paused =>
    have hv : Writer.new.u8 variant.setPaused = .ok (Writer.new.push [11]) := rfl
    have hb : (Writer.new.push [11]).u8 (if paused then 1 else 0)
        = .ok ((Writer.new.push [11]).push (Codec.bool.write paused)) := by
      cases paused <;> rfl
    simp only [sdk, Sdk.setPaused, hv, ok_bind, hb]
    refine ⟨_, rfl, rfl, rfl, ?_⟩
    simp only [Writer.toBuffer_push]
    rfl

/-- The program's builder packs what was asked. -/
theorem program_data (lib : Library) (programId : Pubkey) (r : Request) :
    (r.program lib programId).data = r.instruction.serialize := by
  cases r <;> rfl

theorem program_programId (lib : Library) (programId : Pubkey) (r : Request) :
    (r.program lib programId).programId = programId := by
  cases r <;> rfl

end Request

/-- Every builder of the SDK, on every request: the program decodes its data to
what was asked, and its accounts are those of the program's own builder. Different
instructions have different data. -/
theorem sdk_speaks_wire_format (lib : Library) (programId : Pubkey) :
    (∀ r : Request, ∃ built, r.sdk lib programId = .ok built ∧
      FlockInstruction.tryFromSlice built.data = some r.instruction ∧
      built.programId = programId ∧ built.keys = (r.program lib programId).accounts) ∧
    ∀ (r r' : Request) (built built' : TransactionInstruction),
      r.sdk lib programId = .ok built → r'.sdk lib programId = .ok built' →
      r.instruction ≠ r'.instruction → built.data ≠ built'.data := by
  have hdecodes : ∀ (r : Request) (built : TransactionInstruction),
      r.sdk lib programId = .ok built →
      FlockInstruction.tryFromSlice built.data = some r.instruction := by
    intro r built hr
    obtain ⟨built', hr', -, -, hdata⟩ := r.sdk_built lib programId
    obtain rfl := Except.ok.inj (hr.symm.trans hr')
    rw [hdata, r.program_data]
    exact FlockInstruction.tryFromSlice_iff.mpr ⟨r.instruction_fits, rfl⟩
  constructor
  · intro r
    obtain ⟨built, hr, hprogram, hkeys, -⟩ := r.sdk_built lib programId
    refine ⟨built, hr, hdecodes r built hr, ?_, hkeys⟩
    exact hprogram.trans (r.program_programId lib programId)
  · -- one data would decode to two instructions
    intro r r' built built' hr hr' hne hsame
    have hdec := hdecodes r built hr
    rw [hsame, hdecodes r' built' hr'] at hdec
    exact hne (Option.some.inj hdec).symm

end Flock
