import Flock.Encode
import Flock.Sdk
import Flock.Lib.Layout
import Flock.Lib.Utf8

/-!
# The SDK's account decoder: `state.ts`

`decodeIndex` is a list of literal byte offsets. It reads from a `Buffer`, which
refuses a number that starts too close to the end, while `subarray` gives what there
is. Next to the account it gives the extents it read, in the order of the reads.

A `number` is a double: what was an `i64` in the record goes through `Number`, which
rounds. A `bigint` keeps every digit.
-/

namespace Flock.Sdk.State

inductive DecodeError where
  /-- `Index account is ${length} bytes, expected at least 1304` -/
  | tooShort (length : Nat)
  /-- `ERR_OUT_OF_RANGE`: the buffer ends before a number read at `offset` does. -/
  | outOfRange (offset : Nat)
  /-- The wrong tag and the unknown state. -/
  | sdk (e : SdkError)
  deriving DecidableEq, Repr

/-- `INDEX_ACCOUNT_LEN` -/
def indexAccountLen : Nat := 1304

/-- `ACCOUNT_TAG_INDEX` -/
def accountTagIndex : Nat := 0xf1

/-- `COMPONENT_LEN` -/
def componentLen : Nat := 64

/-- `COMPONENTS_OFFSET` -/
def componentsOffset : Nat := 208

/-- `REBALANCE_OFFSET` -/
def rebalanceOffset : Nat := componentsOffset + componentLen * 16

structure ComponentAccount where
  mint : Pubkey
  units : Int
  targetUnits : Int
  refPriceE9 : Int
  decimals : Nat
  vaultBump : Nat
  deriving DecidableEq, Repr

structure RebalanceAccount where
  active : Bool
  proposer : Pubkey
  proposedAt : Int
  startTs : Int
  endTs : Int
  navFloorE6 : Int
  startPremiumBps : Int
  endPremiumBps : Int
  maxNavLossBps : Int
  deriving DecidableEq, Repr

structure IndexAccount where
  indexMint : Pubkey
  governor : Pubkey
  manager : Pubkey
  feeRecipient : Pubkey
  lastFeeAccrual : Int
  createdAt : Int
  rebalanceDelay : Int
  streamingFeeBps : Int
  issueFeeBps : Int
  redeemFeeBps : Int
  maxPremiumBps : Int
  version : Nat
  bump : Nat
  state : IndexStateName
  decimals : Nat
  name : JsString
  symbol : JsString
  components : List ComponentAccount
  rebalance : RebalanceAccount
  deriving DecidableEq, Repr

/-! ### What the quotes and the keeper use of an account -/

def ComponentAccount.brief (c : ComponentAccount) : Sdk.ComponentAccount where
  mint := c.mint
  units := c.units
  targetUnits := c.targetUnits
  refPriceE9 := c.refPriceE9
  decimals := c.decimals

def RebalanceAccount.brief (r : RebalanceAccount) : Sdk.RebalanceAccount where
  active := r.active
  startTs := r.startTs
  endTs := r.endTs
  startPremiumBps := r.startPremiumBps
  endPremiumBps := r.endPremiumBps

def IndexAccount.brief (account : IndexAccount) : Sdk.IndexAccount where
  feeRecipient := account.feeRecipient
  lastFeeAccrual := account.lastFeeAccrual
  streamingFeeBps := account.streamingFeeBps
  issueFeeBps := account.issueFeeBps
  redeemFeeBps := account.redeemFeeBps
  maxPremiumBps := account.maxPremiumBps
  state := account.state
  components := account.components.map ComponentAccount.brief
  rebalance := account.rebalance.brief

/-! ## Numbers -/

/-- `n / 2 ^ k` to the nearest integer, and to the even one of two. -/
def roundHalfEven (n k : Nat) : Nat :=
  let q := n / 2 ^ k
  let r := n % 2 ^ k
  if 2 ^ k < 2 * r ∨ 2 * r = 2 ^ k ∧ q % 2 = 1 then q + 1 else q

/-- A natural number with the 53 bits a double has for it. -/
def toDouble (n : Nat) : Nat :=
  if n < 2 ^ 53 then n else roundHalfEven n (n.log2 - 52) * 2 ^ (n.log2 - 52)

/-- `Number(value)` -/
def number (value : Int) : Int :=
  if 0 ≤ value then toDouble value.natAbs else -(toDouble value.natAbs : Int)

/-- The number a two's complement of `width` bytes stands for. -/
def signed (width value : Nat) : Int :=
  if 2 * value < 256 ^ width then value else (value : Int) - (256 ^ width : Nat)

/-! ## Text -/

/-- The UTF-16 code units of a character. -/
def codeUnits (c : Char) : JsString :=
  if c.toNat < 0x10000 then [UInt16.ofNat c.toNat]
  else [UInt16.ofNat (0xD800 + (c.toNat - 0x10000) / 0x400),
    UInt16.ofNat (0xDC00 + (c.toNat - 0x10000) % 0x400)]

def stringOf (cs : List Char) : JsString := cs.flatMap codeUnits

theorem characters_cons {u : UInt16} (h : ¬isHighSurrogate u) (text : JsString) :
    characters (u :: text) = (if isHighSurrogate u ∨ isLowSurrogate u then replacementCharacter
      else Char.ofNat u.toNat) :: characters text := by
  cases text with
  | nil => rfl
  | cons v text =>
    rw [characters, if_neg]
    exact fun hpair => h hpair.1

theorem characters_codeUnits (c : Char) (text : JsString) :
    characters (codeUnits c ++ text) = c :: characters text := by
  have hvalid : c.toNat < 0xD800 ∨ 0xDFFF < c.toNat ∧ c.toNat < 0x110000 := c.valid
  have hback : Char.ofNat c.toNat = c := Char.ofNat_toNat c
  unfold codeUnits
  split
  next hone =>
    -- a character is no surrogate
    have hu : (UInt16.ofNat c.toNat).toNat = c.toNat := UInt16.toNat_ofNat_of_lt' hone
    have hhigh : ¬isHighSurrogate (UInt16.ofNat c.toNat) := by
      show ¬(0xD800 ≤ (UInt16.ofNat c.toNat).toNat ∧ (UInt16.ofNat c.toNat).toNat < 0xDC00)
      omega
    have hlow : ¬isLowSurrogate (UInt16.ofNat c.toNat) := by
      show ¬(0xDC00 ≤ (UInt16.ofNat c.toNat).toNat ∧ (UInt16.ofNat c.toNat).toNat < 0xE000)
      omega
    show characters (UInt16.ofNat c.toNat :: text) = _
    rw [characters_cons hhigh, if_neg (not_or.mpr ⟨hhigh, hlow⟩), hu, hback]
  next hpair =>
    have hu : (UInt16.ofNat (0xD800 + (c.toNat - 0x10000) / 0x400)).toNat
        = 0xD800 + (c.toNat - 0x10000) / 0x400 :=
      UInt16.toNat_ofNat_of_lt' (by show _ < 65536; omega)
    have hv : (UInt16.ofNat (0xDC00 + (c.toNat - 0x10000) % 0x400)).toNat
        = 0xDC00 + (c.toNat - 0x10000) % 0x400 :=
      UInt16.toNat_ofNat_of_lt' (by show _ < 65536; omega)
    have hhigh : isHighSurrogate (UInt16.ofNat (0xD800 + (c.toNat - 0x10000) / 0x400)) := by
      show 0xD800 ≤ UInt16.toNat _ ∧ UInt16.toNat _ < 0xDC00
      omega
    have hlow : isLowSurrogate (UInt16.ofNat (0xDC00 + (c.toNat - 0x10000) % 0x400)) := by
      show 0xDC00 ≤ UInt16.toNat _ ∧ UInt16.toNat _ < 0xE000
      omega
    have hvalue : 0x10000 + (0xD800 + (c.toNat - 0x10000) / 0x400 - 0xD800) * 0x400
        + (0xDC00 + (c.toNat - 0x10000) % 0x400 - 0xDC00) = c.toNat := by omega
    show characters (_ :: _ :: text) = _
    rw [characters, if_pos ⟨hhigh, hlow⟩, joinSurrogates, hu, hv, hvalue, hback]

/-- No character is lost in the string of its code units. -/
theorem characters_stringOf (cs : List Char) : characters (stringOf cs) = cs := by
  induction cs with
  | nil => rfl
  | cons c cs ih =>
    rw [stringOf, List.flatMap_cons, characters_codeUnits]
    exact congrArg _ ih

/-- `toString("utf8")` -/
def utf8ToString (bs : List UInt8) : JsString := stringOf (Utf8.decode bs)

/-! ## `Buffer` -/

def readUInt (width offset : Nat) : Reads DecodeError Nat :=
  leNat <$> Reads.exactly width (.outOfRange offset) offset

def readInt (width offset : Nat) : Reads DecodeError Int :=
  signed width <$> readUInt width offset

def readUInt8 (offset : Nat) : Reads DecodeError Nat := readUInt 1 offset

def readUInt16LE (offset : Nat) : Reads DecodeError Nat := readUInt 2 offset

def readUInt32LE (offset : Nat) : Reads DecodeError Nat := readUInt 4 offset

def readBigUInt64LE (offset : Nat) : Reads DecodeError Nat := readUInt 8 offset

def readInt16LE (offset : Nat) : Reads DecodeError Int := readInt 2 offset

def readBigInt64LE (offset : Nat) : Reads DecodeError Int := readInt 8 offset

/-- `new PublicKey(bytes)`, of at most 32 of them: a big-endian number, so zeroes go
in front of too few. -/
def publicKey (bs : List UInt8) : Pubkey :=
  ⟨BitVec.ofNat 256 (leNat (List.replicate (32 - bs.length) 0 ++ bs))⟩

/-! ## The decoder -/

def key (offset : Nat) : Reads DecodeError Pubkey := publicKey <$> Reads.upTo 32 offset

def text (offset length : Nat) : Reads DecodeError JsString := do
  let raw ← Reads.upTo length offset
  -- without a zero this is the length of `raw`
  let stop := raw.findIdx (· == 0)
  pure (utf8ToString (raw.take stop))

def decodeComponent (start : Nat) : Reads DecodeError ComponentAccount := do
  let mint ← key start
  let units ← readBigUInt64LE (start + 32)
  let targetUnits ← readBigUInt64LE (start + 40)
  let refPriceE9 ← readBigUInt64LE (start + 48)
  let decimals ← readUInt8 (start + 56)
  let vaultBump ← readUInt8 (start + 57)
  pure { mint, units, targetUnits, refPriceE9, decimals, vaultBump }

/-- The loop over the table, from entry `i` on. -/
def decodeComponents : (i remaining : Nat) → Reads DecodeError (List ComponentAccount)
  | _, 0 => pure []
  | i, remaining + 1 => do
    let component ← decodeComponent (componentsOffset + i * componentLen)
    let components ← decodeComponents (i + 1) remaining
    pure (component :: components)

def decodeRebalance : Reads DecodeError RebalanceAccount := do
  let proposer ← key rebalanceOffset
  let proposedAt ← readBigInt64LE (rebalanceOffset + 32)
  let startTs ← readBigInt64LE (rebalanceOffset + 40)
  let endTs ← readBigInt64LE (rebalanceOffset + 48)
  let navFloorE6 ← readBigUInt64LE (rebalanceOffset + 56)
  let startPremiumBps ← readInt16LE (rebalanceOffset + 64)
  let endPremiumBps ← readInt16LE (rebalanceOffset + 66)
  let maxNavLossBps ← readUInt16LE (rebalanceOffset + 68)
  let active ← readUInt8 (rebalanceOffset + 70)
  pure
    { active := active = 1
      proposer
      proposedAt := number proposedAt
      startTs := number startTs
      endTs := number endTs
      navFloorE6
      startPremiumBps
      endPremiumBps
      maxNavLossBps }

def decodeIndex : Reads DecodeError IndexAccount := do
  let length ← Reads.size
  Reads.failIf (length < indexAccountLen) (.tooShort length)
  let tag ← readUInt8 156
  Reads.failIf (tag ≠ accountTagIndex) (.sdk .wrongTag)
  let componentCount ← readUInt8 161
  let components ← decodeComponents 0 componentCount
  let indexMint ← key 0
  let governor ← key 32
  let manager ← key 64
  let feeRecipient ← key 96
  let lastFeeAccrual ← readBigInt64LE 128
  let createdAt ← readBigInt64LE 136
  let rebalanceDelay ← readUInt32LE 144
  let streamingFeeBps ← readUInt16LE 148
  let issueFeeBps ← readUInt16LE 150
  let redeemFeeBps ← readUInt16LE 152
  let maxPremiumBps ← readUInt16LE 154
  let version ← readUInt8 157
  let bump ← readUInt8 158
  let stateByte ← readUInt8 159
  let state ← Reads.lift ((stateName (UInt8.ofNat stateByte)).mapError .sdk)
  let decimals ← readUInt8 160
  let name ← text 162 32
  let symbol ← text 194 12
  let rebalance ← decodeRebalance
  pure
    { indexMint
      governor
      manager
      feeRecipient
      lastFeeAccrual := number lastFeeAccrual
      createdAt := number createdAt
      rebalanceDelay
      streamingFeeBps
      issueFeeBps
      redeemFeeBps
      maxPremiumBps
      version
      bump
      state
      decimals
      name
      symbol
      components
      rebalance }

end Flock.Sdk.State
