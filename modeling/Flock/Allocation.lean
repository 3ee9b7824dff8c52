import Flock.Lib.Base58
import Flock.Lib.Double
import Flock.Lib.LastWins
import Flock.Readback
import Mathlib.Algebra.BigOperators.Ring.Finset

/-!
# The weights of a proposal: `parseWeights` and `propose`

The CLI checks that the weights of a specification add up to 10000, then reads the
weight of each component from a map of them. Of several entries for one mint the map
keeps the last, while the sum took in all of them; and nothing looks at a sign.

So the vector is a rearrangement of the entries no later one replaces, and it is
fully allocated just when none of these is negative and the replaced ones cancel out.
The sum is of doubles. That matters only from 2 ^ 53 on.
-/

namespace Flock.Cli

open Sdk Outcome Double

/-- What the CLI takes from `@solana/web3.js`. -/
structure KeyText where
  /-- `new PublicKey(text)`, when it does not throw -/
  newPublicKey : JsString → Option Pubkey
  toBase58 : Pubkey → JsString

inductive CliError where
  /-- `Bad weight "${entry}", expected MINT=BPS` -/
  | badWeight (entry : JsString)
  /-- What `new PublicKey(text)` throws. -/
  | invalidKey (text : JsString)
  /-- `Weights add up to ${total} bps, not 10000. An index must be fully allocated.` -/
  | notAllocated (total : Double)
  /-- `Weighting is missing component ${mint}` -/
  | missingComponent (mint : JsString)
  /-- `Weighting names a mint this index does not hold; components are fixed at seal` -/
  | unheldMint
  deriving DecidableEq

structure Weight where
  mint : Pubkey
  bps : Double
  deriving DecidableEq

variable (keys : KeyText)

/-- One entry. What comes after a second `=` is dropped. -/
def parseWeight (entry : JsString) : Except CliError Weight :=
  let pieces := entry.splitOn (unit '=')
  -- a missing piece is `undefined`, and as false as an empty one
  let mint := pieces.getD 0 []
  let bps := pieces.getD 1 []
  if mint = [] ∨ bps = [] then .error (.badWeight entry)
  else match keys.newPublicKey (trim mint) with
    | none => .error (.invalidKey (trim mint))
    | some mint => .ok { mint, bps := ofText bps }

/-- The double the weights add up to, one after the other. -/
def total (weights : List Weight) : Double := (weights.map Weight.bps).foldl add (.finite 0)

def parseWeights (spec : JsString) : Except CliError (List Weight) := do
  let parts := ((spec.splitOn (unit ',')).map trim).filter (· ≠ [])
  let weights ← parts.mapM (parseWeight keys)
  if total weights ≠ .finite 10000 then throw (.notAllocated (total weights))
  pure weights

/-- `new Map(weights.map((w) => [w.mint.toBase58(), w.bps]))` -/
def byMint (weights : List Weight) : AList fun _ : JsString => Double :=
  LastWins.table (keys.toBase58 ∘ Weight.mint) Weight.bps weights

/-- The weights `propose` passes to `unitsForWeights` for an index of `mints`. -/
def weightsBps (weights : List Weight) (mints : List Pubkey) : Except CliError (List Double) :=
  let order := mints.map keys.toBase58
  let byMint := byMint keys weights
  match order.find? fun mint => mint ∉ byMint with
  | some mint => .error (.missingComponent mint)
  | none =>
    if byMint.keys.length ≠ order.length then .error .unheldMint
    -- all of them are there by now
    else .ok (order.map fun mint => (byMint.lookup mint).getD .nan)

/-! ## What the checks leave -/

/-- The number of a finite double. -/
def bpsOf (x : Double) : ℚ :=
  match x with
  | .finite q => q
  | _ => 0

def IsInteger (x : Double) : Prop := ∃ n : ℤ, x = .finite n

/-- No weight is negative, and they sum to 10000. -/
def FullyAllocated (vector : List Double) : Prop :=
  (∀ x ∈ vector, ∃ q, x = .finite q ∧ 0 ≤ q) ∧ (vector.map bpsOf).sum = 10000

/-- What a later entry for the same mint replaces. -/
def superseded (weights : List Weight) : List Weight := LastWins.superseded Weight.mint weights

/-- The last entry for every mint. -/
def surviving (weights : List Weight) : List Weight := LastWins.surviving Weight.mint weights

/-- By how much the sum is more than its double. -/
def roundedAway (weights : List Weight) : ℚ :=
  (weights.map fun w => bpsOf w.bps).sum - bpsOf (total weights)

section

variable {keys} {spec : JsString} {weights : List Weight} {mints : List Pubkey}
  {vector : List Double}

theorem total_of_parsed (h : parseWeights keys spec = .ok weights) :
    total weights = .finite 10000 := by
  obtain ⟨parsed, -, hrest⟩ := bind_ok_iff.mp h
  by_cases htotal : total parsed = .finite 10000
  · rw [if_neg (not_not.mpr htotal)] at hrest
    obtain rfl := Except.ok.inj hrest
    exact htotal
  · rw [if_pos htotal] at hrest
    cases hrest

theorem weightsBps_ok (h : weightsBps keys weights mints = .ok vector) :
    (∀ mint ∈ mints.map keys.toBase58, mint ∈ byMint keys weights) ∧
      (byMint keys weights).keys.length = (mints.map keys.toBase58).length ∧
      vector = (mints.map keys.toBase58).map fun mint =>
        ((byMint keys weights).lookup mint).getD .nan := by
  unfold weightsBps at h
  dsimp only at h
  split at h
  next => cases h
  next hnone =>
    split at h
    next => cases h
    next hsize =>
      refine ⟨?_, not_not.mp hsize, (Except.ok.inj h).symm⟩
      intro mint hmint
      have hfound := List.find?_eq_none.mp hnone mint hmint
      simpa using hfound

/-- The vector is the surviving entries, in the order of the index. -/
theorem weightsBps_perm (hbase58 : Function.Injective keys.toBase58) (hdistinct : mints.Nodup)
    (h : weightsBps keys weights mints = .ok vector) :
    List.Perm vector ((surviving weights).map Weight.bps) := by
  obtain ⟨hall, hsize, rfl⟩ := weightsBps_ok h
  rw [surviving, ← LastWins.surviving_comp Weight.mint hbase58]
  exact LastWins.lookup_perm_surviving _ _ .nan (hdistinct.map hbase58) hall hsize

theorem sum_surviving (weights : List Weight) :
    ((surviving weights).map fun w => bpsOf w.bps).sum
      + ((superseded weights).map fun w => bpsOf w.bps).sum
      = (weights.map fun w => bpsOf w.bps).sum := by
  have hperm := LastWins.surviving_superseded_perm Weight.mint weights
  rw [← (hperm.map _).sum_eq, List.map_append, List.sum_append]
  rfl

theorem mem_of_surviving {w : Weight} (h : w ∈ surviving weights) : w ∈ weights :=
  (LastWins.surviving_superseded_perm Weight.mint weights).subset (List.mem_append_left _ h)

/-- The weights as integers. -/
theorem bps_eq_integers (hinteger : ∀ w ∈ weights, IsInteger w.bps) :
    weights.map Weight.bps
      = (weights.map fun w => ⌊bpsOf w.bps⌋).map fun n : ℤ => Double.finite n := by
  rw [List.map_map]
  refine List.map_congr_left fun w hw => ?_
  obtain ⟨n, hn⟩ := hinteger w hw
  show w.bps = .finite (⌊bpsOf w.bps⌋ : ℤ)
  rw [hn]
  show Double.finite n = .finite (⌊(n : ℚ)⌋ : ℤ)
  rw [Int.floor_intCast]

/-- Nothing is rounded away while the sizes sum to at most 2 ^ 53. -/
theorem roundedAway_eq_zero (hinteger : ∀ w ∈ weights, IsInteger w.bps)
    (hsmall : (weights.map fun w => |bpsOf w.bps|).sum ≤ 2 ^ 53) : roundedAway weights = 0 := by
  have hns := bps_eq_integers hinteger
  generalize (weights.map fun w => ⌊bpsOf w.bps⌋) = ns at hns
  have hvalues : ∀ f : Double → ℚ, (weights.map fun w => f w.bps)
      = ns.map fun n : ℤ => f (.finite n) := by
    intro f
    have hmap := congrArg (List.map f) hns
    rwa [List.map_map, List.map_map] at hmap
  have hsizes : (ns.map Int.natAbs).sum ≤ 2 ^ 53 := by
    have hcast : (((ns.map Int.natAbs).sum : ℕ) : ℚ) ≤ 2 ^ 53 := by
      rw [hvalues fun x => |bpsOf x|] at hsmall
      rw [Nat.cast_list_sum, List.map_map]
      refine le_of_eq_of_le (congrArg List.sum (List.map_congr_left fun n _ => ?_)) hsmall
      show ((n.natAbs : ℕ) : ℚ) = |(n : ℚ)|
      rw [← Int.cast_abs, Int.abs_eq_natAbs]
      rfl
    exact_mod_cast hcast
  have htotal : total weights = .finite (ns.sum : ℤ) := by
    have hexact := @foldl_add_exact 0 ns (by simpa using hsizes)
    rw [total, hns]
    simpa using hexact
  rw [roundedAway, htotal, hvalues bpsOf]
  show (ns.map fun n : ℤ => (n : ℚ)).sum - ((ns.sum : ℤ) : ℚ) = 0
  rw [Int.cast_list_sum]
  exact sub_self _

end

/-- What `propose` works with is fully allocated just when no last entry of a mint is
negative, and the entries later ones replace sum to what the doubles lost: to zero,
unless the sizes go past 2 ^ 53. -/
theorem proposal_allocated_iff {keys : KeyText} (hbase58 : Function.Injective keys.toBase58)
    {spec : JsString} {weights : List Weight} {mints : List Pubkey} {vector : List Double}
    (hparse : parseWeights keys spec = .ok weights) (hinteger : ∀ w ∈ weights, IsInteger w.bps)
    (hdistinct : mints.Nodup) (hvector : weightsBps keys weights mints = .ok vector) :
    (FullyAllocated vector ↔ (∀ w ∈ surviving weights, 0 ≤ bpsOf w.bps) ∧
      ((superseded weights).map fun w => bpsOf w.bps).sum = roundedAway weights) ∧
    ((weights.map fun w => |bpsOf w.bps|).sum ≤ 2 ^ 53 → roundedAway weights = 0) := by
  have hperm := weightsBps_perm hbase58 hdistinct hvector
  have htotal := total_of_parsed hparse
  constructor
  · have hsum : (vector.map bpsOf).sum = ((surviving weights).map fun w => bpsOf w.bps).sum := by
      rw [(hperm.map bpsOf).sum_eq, List.map_map]
      rfl
    have hsplit := sum_surviving weights
    have hlost : roundedAway weights = (weights.map fun w => bpsOf w.bps).sum - 10000 := by
      rw [roundedAway, htotal]
      rfl
    have hsigns : (∀ x ∈ vector, ∃ q, x = .finite q ∧ 0 ≤ q) ↔
        ∀ w ∈ surviving weights, 0 ≤ bpsOf w.bps := by
      constructor
      · intro h w hw
        obtain ⟨q, hq, hnonneg⟩ := h w.bps (hperm.mem_iff.mpr (List.mem_map_of_mem hw))
        rw [hq]
        exact hnonneg
      · intro h x hx
        obtain ⟨w, hw, rfl⟩ := List.mem_map.mp (hperm.mem_iff.mp hx)
        obtain ⟨n, hn⟩ := hinteger w (mem_of_surviving hw)
        have hnonneg := h w hw
        rw [hn] at hnonneg
        exact ⟨n, hn, hnonneg⟩
    unfold FullyAllocated
    rw [hsigns, hsum, hlost]
    refine and_congr_right fun _ => ?_
    constructor
    · intro h
      linarith
    · intro h
      linarith
  · exact roundedAway_eq_zero hinteger

/-! ## Keys in base 58 -/

/-- The number the bytes of a key are, the first of them the highest. -/
def keyNumber (key : Pubkey) : ℕ := leNat (Pubkey.codec.write key).reverse

/-- The texts of the library: 32 bytes in base 58. -/
def web3 : KeyText where
  newPublicKey text :=
    (Base58.decode? 32 text).map fun n => State.publicKey (leBytes 32 n).reverse
  toBase58 key := Base58.encode 32 (keyNumber key)

theorem length_keyBytes (key : Pubkey) : (Pubkey.codec.write key).reverse.length = 32 := by
  rw [List.length_reverse, Pubkey.length_write]

theorem keyNumber_lt (key : Pubkey) : keyNumber key < 256 ^ 32 := by
  have h := leNat_lt (Pubkey.codec.write key).reverse
  rwa [length_keyBytes] at h

theorem keyNumber_injective : Function.Injective keyNumber := by
  intro a b h
  have hbytes : (Pubkey.codec.write a).reverse = (Pubkey.codec.write b).reverse := by
    have ha := leBytes_leNat (Pubkey.codec.write a).reverse
    have hb := leBytes_leNat (Pubkey.codec.write b).reverse
    rw [length_keyBytes] at ha hb
    rw [← ha, ← hb]
    exact congrArg (leBytes 32) h
  calc a = State.publicKey (Pubkey.codec.write a) := (State.publicKey_write a).symm
    _ = State.publicKey (Pubkey.codec.write b) :=
      congrArg State.publicKey (List.reverse_injective hbytes)
    _ = b := State.publicKey_write b

/-- Different keys have different texts. -/
theorem web3_injective : Function.Injective web3.toBase58 := by
  intro a b h
  have htexts : Base58.encode 32 (keyNumber a) = Base58.encode 32 (keyNumber b) := by
    simpa only [web3] using h
  exact keyNumber_injective (Base58.encode_injective (keyNumber_lt a) (keyNumber_lt b) htexts)

/-- JUPyiwrYJFskUPiHa7hkeR8VUtAeFoSYbKedZNsDvCN -/
def jup : Pubkey := State.publicKey (leBytes 32
  2024542954648266455336943548940310255965425390683016837918675200100409160487).reverse

/-- DezXAZ8z7PnrnRJjz3wXBoRgixCa6xjnB7YaB1pPB263 -/
def bonk : Pubkey := State.publicKey (leBytes 32
  85048546082913227323667290623264700301187008575333850562817773852681585980312).reverse

def jupText : JsString := "JUPyiwrYJFskUPiHa7hkeR8VUtAeFoSYbKedZNsDvCN".toList.map unit

def bonkText : JsString := "DezXAZ8z7PnrnRJjz3wXBoRgixCa6xjnB7YaB1pPB263".toList.map unit

/-- `${a}=6000,${b}=4000` -/
theorem full_weighting_is_allocated :
    parseWeights web3 (jupText ++ "=6000,".toList.map unit ++ bonkText ++ "=4000".toList.map unit)
        = .ok [⟨jup, .finite 6000⟩, ⟨bonk, .finite 4000⟩] ∧
      weightsBps web3 [⟨jup, .finite 6000⟩, ⟨bonk, .finite 4000⟩] [bonk, jup]
        = .ok [.finite 4000, .finite 6000] ∧
      FullyAllocated [.finite 4000, .finite 6000] := by
  have hparse : parseWeights web3 (jupText ++ "=6000,".toList.map unit ++ bonkText
      ++ "=4000".toList.map unit) = .ok [⟨jup, .finite 6000⟩, ⟨bonk, .finite 4000⟩] := by
    decide +kernel
  have hvector : weightsBps web3 [⟨jup, .finite 6000⟩, ⟨bonk, .finite 4000⟩] [bonk, jup]
      = .ok [.finite 4000, .finite 6000] := by
    decide +kernel
  have hinteger : ∀ w ∈ [(⟨jup, .finite 6000⟩ : Weight), ⟨bonk, .finite 4000⟩],
      IsInteger w.bps := by
    intro w hw
    rcases List.mem_pair.mp hw with rfl | rfl
    · exact ⟨6000, rfl⟩
    · exact ⟨4000, rfl⟩
  have hdistinct : [bonk, jup].Nodup := by decide +kernel
  obtain ⟨hiff, hexact⟩ :=
    proposal_allocated_iff web3_injective hparse hinteger hdistinct hvector
  have hnone : superseded [(⟨jup, .finite 6000⟩ : Weight), ⟨bonk, .finite 4000⟩] = [] := by
    decide +kernel
  refine ⟨hparse, hvector, hiff.mpr ⟨?_, ?_⟩⟩
  · intro w hw
    rcases List.mem_pair.mp (mem_of_surviving hw) with rfl | rfl
    · exact (by norm_num : (0 : ℚ) ≤ 6000)
    · exact (by norm_num : (0 : ℚ) ≤ 4000)
  · rw [hnone, hexact]
    · rfl
    · show (|(6000 : ℚ)| + (|(4000 : ℚ)| + 0)) ≤ 2 ^ 53
      norm_num

/-- `${a}=5000,${a}=2000,${b}=3000` is accepted, and half of it is proposed; so is
`${a}=15000,${b}=-5000`. -/
theorem repeated_mint_is_not_allocated :
    (∃ weights, parseWeights web3 (jupText ++ "=5000,".toList.map unit ++ jupText
        ++ "=2000,".toList.map unit ++ bonkText ++ "=3000".toList.map unit) = .ok weights ∧
      (∀ w ∈ weights, IsInteger w.bps) ∧ [jup, bonk].Nodup ∧
      weightsBps web3 weights [jup, bonk] = .ok [.finite 2000, .finite 3000]) ∧
    ¬FullyAllocated [.finite 2000, .finite 3000] ∧
    (∃ weights, parseWeights web3 (jupText ++ "=15000,".toList.map unit ++ bonkText
        ++ "=-5000".toList.map unit) = .ok weights ∧
      (∀ w ∈ weights, IsInteger w.bps) ∧ [jup, bonk].Nodup ∧
      weightsBps web3 weights [jup, bonk] = .ok [.finite 15000, .finite (-5000)]) ∧
    ¬FullyAllocated [.finite 15000, .finite (-5000)] := by
  refine ⟨⟨[⟨jup, .finite 5000⟩, ⟨jup, .finite 2000⟩, ⟨bonk, .finite 3000⟩], by decide +kernel, ?_,
    by decide +kernel, by decide +kernel⟩, ?_, ⟨[⟨jup, .finite 15000⟩, ⟨bonk, .finite (-5000)⟩],
    by decide +kernel, ?_, by decide +kernel, by decide +kernel⟩, ?_⟩
  · intro w hw
    rcases List.mem_cons.mp hw with rfl | hw
    · exact ⟨5000, rfl⟩
    · rcases List.mem_pair.mp hw with rfl | rfl
      · exact ⟨2000, rfl⟩
      · exact ⟨3000, rfl⟩
  · intro ⟨_, hsum⟩
    have hsum : (2000 : ℚ) + (3000 + 0) = 10000 := hsum
    norm_num at hsum
  · intro w hw
    rcases List.mem_pair.mp hw with rfl | rfl
    · exact ⟨15000, rfl⟩
    · exact ⟨-5000, rfl⟩
  · intro ⟨hsigns, _⟩
    obtain ⟨q, hq, hnonneg⟩ := hsigns (.finite (-5000)) (by decide +kernel)
    obtain rfl := Double.finite.inj hq
    norm_num at hnonneg

end Flock.Cli
