import Flock.Curves
import Flock.Interposed
import Flock.Lifecycle
import Flock.Watched

/-!
# No step leaves its range

In a reachable world a watched handler never traps. Every function of `math.rs` but one
is safe on all its inputs, by the guard in front of the step. What the others rest on is
kept by the record: a table of at most sixteen entries, a premium ceiling of at most
1000, an auction window that is neither empty nor longer than a week.

Only the size of the tables is asked for again after a handler has begun to write:
`TablesFit` goes along every step.
-/

namespace Flock

open Outcome MachineInt Trap

namespace Watched

/-- A watched function of `math.rs` does what the function does. -/
abbrev Computes {α : Type} (c : Watched α) (x : Except FlockError α) : Prop :=
  Tracks (Trap.fails ∘ ProgramError.custom) c x

/-- A watched handler does what the handler does. -/
abbrev Follows {α : Type} (c : Watched α) (x : Except ProgramError α) : Prop :=
  Tracks Trap.fails c x

/-- A check lifted as it is traps nowhere. -/
theorem computes_lift {α : Type} (x : Except FlockError α) : Computes (liftM x) x := by
  cases x <;> rfl

/-- `?` on a result of `math.rs`. -/
theorem Computes.follows {α : Type} {c : Watched α} {x : Except FlockError α}
    (h : Computes c x) : Follows c (liftM x) :=
  Tracks.mapError h

/-! ## `math.rs` -/

/-- `mul_div_floor` in words that trap returns what it returns in numbers. -/
theorem mulDivFloor_computes (a b d : Nat) : Computes (mulDivFloor a b d)
    (Flock.mulDivFloor a b d) := by
  refine (tracks_failIf _ _ _).bind fun _ hd => ?_
  refine (computes_lift _).bind fun x _ => ?_
  exact given_of (failIf_ok_iff.mp hd)

/-- `mul_div_ceil` the same. The remainder is looked at, so adding one is safe. -/
theorem mulDivCeil_computes (a b d : Nat) : Computes (mulDivCeil a b d)
    (Flock.mulDivCeil a b d) := by
  refine (tracks_failIf _ _ _).bind fun _ hd => ?_
  refine (computes_lift _).bind fun x _ => ?_
  exact Tracks.after (given_of (failIf_ok_iff.mp hd)) rfl

/-- `units_in` is a `mul_div_ceil` and a cast. -/
theorem unitsIn_computes (units amount : UInt64) : Computes (unitsIn units amount)
    (Flock.unitsIn units amount) :=
  (mulDivCeil_computes _ _ _).bind fun _ _ => computes_lift _

/-- `units_out` is a `mul_div_floor` and a cast. -/
theorem unitsOut_computes (units amount : UInt64) : Computes (unitsOut units amount)
    (Flock.unitsOut units amount) :=
  (mulDivFloor_computes _ _ _).bind fun _ _ => computes_lift _

/-- `units_from_balance` refuses a supply of zero before it divides. -/
theorem unitsFromBalance_computes (balance supply : UInt64) :
    Computes (unitsFromBalance balance supply) (Flock.unitsFromBalance balance supply) := by
  refine (tracks_failIf _ _ _).bind fun _ _ => ?_
  exact (mulDivFloor_computes _ _ _).bind fun _ _ => computes_lift _

/-- `value_e9` divides by a power of ten, which is never zero. -/
theorem valueE9_computes (balance : UInt64) (decimals : UInt8) (priceE9 : UInt64) :
    Computes (valueE9 balance decimals priceE9) (Flock.valueE9 balance decimals priceE9) := by
  refine (tracks_failIf _ _ _).bind fun _ _ => ?_
  exact mulDivFloor_computes _ _ _

/-- `amount_from_value_ceil` refuses a price of zero before it divides. -/
theorem amountFromValueCeil_computes (value : Nat) (decimals : UInt8) (priceE9 : UInt64) :
    Computes (amountFromValueCeil value decimals priceE9)
      (Flock.amountFromValueCeil value decimals priceE9) := by
  refine (tracks_failIf _ _ _).bind fun _ _ => ?_
  refine (tracks_failIf _ _ _).bind fun _ _ => ?_
  exact (mulDivCeil_computes _ _ _).bind fun _ _ => computes_lift _

/-- The cast of `dt` stands behind `dt <= 0`, and `den - num` behind `num >= den`. -/
theorem streamingFeeTokens_computes (supply : UInt64) (feeBps : UInt16) (dt : Int64) :
    Computes (streamingFeeTokens supply feeBps dt)
      (Flock.streamingFeeTokens supply feeBps dt) := by
  refine Tracks.ite (fun _ => rfl) fun hearly => ?_
  obtain ⟨-, hearly⟩ := not_or.mp hearly
  obtain ⟨-, hdt⟩ := not_or.mp hearly
  have hpos : 0 < dt.toInt := Int64.lt_iff_toInt_lt.mp (Int64.not_le.mp hdt)
  refine Tracks.after (given_of hpos.le) ?_
  refine (computes_lift _).bind fun num _ => ?_
  refine (computes_lift _).bind fun den _ => ?_
  refine (tracks_failIf _ _ _).bind fun _ hnum => ?_
  have hlt : num ≤ den := Nat.le_of_lt (Nat.lt_of_not_le (failIf_ok_iff.mp hnum))
  refine Tracks.after (given_of hlt) ?_
  exact (mulDivFloor_computes _ _ _).bind fun _ _ => computes_lift _

/-- What is in the range of an `i128` is not trapped on. -/
theorem i128_of {x : Int} (hlow : -2 ^ 127 ≤ x) (hhigh : x < 2 ^ 127) :
    (i128 x : Watched Int) = .ok x := given_of ⟨hlow, hhigh⟩

/-- `premium_at` within a window of at most a week and a band of at most 1000. -/
theorem premiumAt_computes {idx : Index} (h : AuctionInOrder idx) (now : Int64) :
    Computes (premiumAt idx.rebalance.startPremiumBps idx.rebalance.endPremiumBps
        idx.rebalance.startTs idx.rebalance.endTs now)
      (Flock.premiumAt idx.rebalance.startPremiumBps idx.rebalance.endPremiumBps
        idx.rebalance.startTs idx.rebalance.endTs now) := by
  obtain ⟨-, -, hopens, hshort, hlowest, hrising, hhighest, -⟩ := h
  generalize idx.rebalance.startPremiumBps = startBps at hlowest hrising ⊢
  generalize idx.rebalance.endPremiumBps = endBps at hrising hhighest ⊢
  generalize idx.rebalance.startTs = startTs at hopens hshort ⊢
  generalize idx.rebalance.endTs = endTs at hopens hshort ⊢
  refine (tracks_failIf _ _ _).bind fun _ hopen => ?_
  refine (tracks_failIf _ _ _).bind fun _ _ => ?_
  obtain ⟨hstart, hend⟩ := not_or.mp (failIf_ok_iff.mp hopen)
  have hstart := Int64.not_lt.mp hstart
  have hend := Int64.le_iff_toInt_le.mp (Int64.not_lt.mp hend)
  have hfrom := Int64.le_iff_toInt_le.mp hstart
  have hwide := Int64.lt_iff_toInt_lt.mp hopens
  have hspan : (endTs - startTs).toInt = endTs.toInt - startTs.toInt := by
    rw [toInt_sub_of_le (Int64.le_of_lt hopens), if_pos (by omega)]
  have helapsed : (now - startTs).toInt = now.toInt - startTs.toInt := by
    rw [toInt_sub_of_le hstart, if_pos (by omega)]
  refine Tracks.after (given_of ⟨by omega, by omega⟩) ?_
  refine Tracks.after (given_of ⟨by omega, by omega⟩) ?_
  rw [hspan, helapsed]
  -- at most 2000 basis points, times a week
  have hrise : endBps.toInt - startBps.toInt ≤ 2000 := by omega
  have hproduct : (endBps.toInt - startBps.toInt) * (now.toInt - startTs.toInt)
      ≤ 2000 * 604800 := Int.mul_le_mul hrise (by omega) (by omega) (by decide)
  have hnonneg : 0 ≤ (endBps.toInt - startBps.toInt) * (now.toInt - startTs.toInt) :=
    Int.mul_nonneg (by omega) (by omega)
  have hdelta := Int.tdiv_nonneg hnonneg (by omega : 0 ≤ endTs.toInt - startTs.toInt)
  have hdelta' := Int.tdiv_le_self (endTs.toInt - startTs.toInt) hnonneg
  have hdivides : (divI128 ((endBps.toInt - startBps.toInt) * (now.toInt - startTs.toInt))
      (endTs.toInt - startTs.toInt) : Watched Int) = .ok (((endBps.toInt - startBps.toInt)
        * (now.toInt - startTs.toInt)).tdiv (endTs.toInt - startTs.toInt)) :=
    bind_ok_iff.mpr ⟨_, given_of (by omega), i128_of (by omega) (by omega)⟩
  refine Tracks.after (i128_of (by omega) (by omega)) ?_
  refine Tracks.after (i128_of (by omega) (by omega)) ?_
  refine Tracks.after hdivides ?_
  refine Tracks.after (i128_of (by omega) (by omega)) ?_
  exact computes_lift _

/-! ## The table -/

/-- A slot of the table that is in use can be indexed. -/
theorem tableAt_of {α : Type} {table : List α} {i : Nat} {x : α} (hi : i < maxComponents)
    (hx : table[i]? = some x) : tableAt table i = .ok x :=
  bind_ok_iff.mpr ⟨i, given_of hi, index_of hx⟩

/-- The entry a loop is at, and the entries it has before it. -/
theorem exists_entry {α : Type} {xs : List α} {i : Nat} (h : i < xs.length) :
    ∃ x, xs[i]? = some x ∧ xs.drop i = x :: xs.drop (i + 1) :=
  ⟨xs[i], List.getElem?_eq_getElem h, List.drop_eq_getElem_cons h⟩

/-- `for i in 0..n` over the table does what a walk along it does, when one round does. -/
theorem eachComponent_tracks {ε : Type} {t : ε → Trap ProgramError} {components : List Component}
    {f : Nat → Component → Watched Component} (walk : Nat → Except ε (List Component))
    (hroom : components.length ≤ maxComponents) (hend : walk components.length = pure [])
    (hround : ∀ i c, components[i]? = some c → ∃ x, Tracks t (f i c) x ∧
      walk i = (do let c ← x; let rest ← walk (i + 1); pure (c :: rest)))
    (remaining i : Nat) (h : i + remaining = components.length) :
    Tracks t (eachComponent components f remaining i) (walk i) := by
  induction remaining generalizing i with
  | zero =>
    obtain rfl : i = components.length := h
    rw [hend]
    rfl
  | succ remaining ih =>
    obtain ⟨c, hc, -⟩ := exists_entry (show i < components.length by omega)
    obtain ⟨x, hx, hwalk⟩ := hround i c hc
    rw [hwalk]
    refine Tracks.after (tableAt_of (by omega) hc) ?_
    refine hx.bind fun c' _ => ?_
    refine (ih (i + 1) (by omega)).bind fun rest _ => ?_
    rfl

/-- An entry has a position in the list. -/
theorem lt_of_entry {α : Type} {xs : List α} {i : Nat} {x : α} (h : xs[i]? = some x) :
    i < xs.length := (List.getElem?_eq_some_iff.mp h).1

/-- From an entry on, a list is the entry and what is behind it. -/
theorem drop_of_entry {α : Type} {xs : List α} {i : Nat} {x : α} (h : xs[i]? = some x) :
    xs.drop i = x :: xs.drop (i + 1) := by
  obtain ⟨hi, rfl⟩ := List.getElem?_eq_some_iff.mp h
  exact List.drop_eq_getElem_cons hi

section Loops

variable {components : List Component} {balances : List UInt64}

/-- The loop of `sync_units`. -/
theorem syncEach_computes (hroom : components.length ≤ maxComponents)
    (hlen : balances.length = components.length) (supply : UInt64) :
    Computes (eachComponent components
        (fun i c => do pure { c with units := ← unitsFromBalance (← tableAt balances i) supply })
        components.length 0)
      (syncEach supply components balances) := by
  refine eachComponent_tracks (fun i =>
    syncEach supply (components.drop i) (balances.drop i)) hroom ?_ ?_ _ 0 (Nat.zero_add _)
  · show syncEach supply (components.drop components.length) _ = _
    rw [List.drop_length]
    rfl
  · intro i c hc
    have hi := lt_of_entry hc
    obtain ⟨b, hb, hdrop⟩ := exists_entry (hlen.symm ▸ hi : i < balances.length)
    refine ⟨do pure { c with units := ← Flock.unitsFromBalance b supply }, ?_, ?_⟩
    · refine Tracks.after (tableAt_of (by omega) hb) ?_
      exact (unitsFromBalance_computes b supply).bind fun _ _ => rfl
    · show syncEach supply (components.drop i) (balances.drop i) = _
      rw [drop_of_entry hc, hdrop, syncEach]
      simp only [bind_assoc, pure_bind]

/-- The loop of `propose_rebalance`. -/
theorem writeTargets_follows (hroom : components.length ≤ maxComponents)
    {targets prices : List UInt64} (htargets : targets.length = components.length)
    (hprices : prices.length = components.length) :
    Follows (eachComponent components
        (fun i c => do
          let refPriceE9 ← index prices i
          let targetUnits ← index targets i
          pure { c with refPriceE9, targetUnits })
        components.length 0)
      (pure (writeTargets components targets prices)) := by
  refine eachComponent_tracks (fun i =>
    pure (writeTargets (components.drop i) (targets.drop i) (prices.drop i))) hroom ?_ ?_ _ 0
    (Nat.zero_add _)
  · show pure (writeTargets (components.drop components.length) _ _) = _
    rw [List.drop_length]
    rfl
  · intro i c hc
    have hi := lt_of_entry hc
    obtain ⟨target, ht, hdropt⟩ := exists_entry (htargets.symm ▸ hi : i < targets.length)
    obtain ⟨price, hp, hdropp⟩ := exists_entry (hprices.symm ▸ hi : i < prices.length)
    refine ⟨pure { c with refPriceE9 := price, targetUnits := target }, ?_, ?_⟩
    · exact Tracks.after (index_of hp) (Tracks.after (index_of ht) rfl)
    · show pure (writeTargets (components.drop i) _ _) = _
      rw [drop_of_entry hc, hdropt, hdropp]
      rfl

/-- The loop of `end_rebalance`. -/
theorem close_follows (hroom : components.length ≤ maxComponents) :
    Follows (eachComponent components (fun _ c => pure { c with targetUnits := c.units })
        components.length 0)
      (pure (components.map fun c => { c with targetUnits := c.units })) := by
  refine eachComponent_tracks (fun i =>
    pure ((components.drop i).map fun c => { c with targetUnits := c.units })) hroom ?_ ?_ _ 0
    (Nat.zero_add _)
  · show pure ((components.drop components.length).map _) = _
    rw [List.drop_length]
    rfl
  · intro i c hc
    refine ⟨pure { c with targetUnits := c.units }, rfl, ?_⟩
    show pure ((components.drop i).map _) = _
    rw [drop_of_entry hc]
    rfl

/-- The loop of `nav_e6`. -/
theorem navSum_computes (hroom : components.length ≤ maxComponents)
    (hlen : balances.length = components.length) (remaining i total : Nat)
    (h : i + remaining = components.length) :
    Computes (navSum components balances remaining i total)
      (Flock.navSum (components.drop i) (balances.drop i) total) := by
  induction remaining generalizing i total with
  | zero =>
    obtain rfl : i = components.length := h
    rw [List.drop_length]
    rfl
  | succ remaining ih =>
    obtain ⟨c, hc, hdropc⟩ := exists_entry (show i < components.length by omega)
    obtain ⟨b, hb, hdropb⟩ := exists_entry (show i < balances.length by omega)
    rw [hdropc, hdropb, Flock.navSum]
    refine Tracks.after (tableAt_of (by omega) hc) ?_
    refine Tracks.after (tableAt_of (by omega) hb) ?_
    refine (valueE9_computes b c.decimals c.refPriceE9).bind fun value _ => ?_
    refine (tracks_failIf _ _ _).bind fun _ _ => ?_
    exact ih (i + 1) (total + value) (by omega)

/-- The loop of `verify_vaults`. -/
theorem verifyEach_follows (ch : Chain) (w : World) (indexKey indexMint : Pubkey)
    (hroom : components.length ≤ maxComponents) (i : Nat) (vaults : List AccountInfo)
    (h : i + vaults.length = components.length) :
    Follows (verifyEach ch w indexKey indexMint components i vaults)
      (Flock.verifyEach ch w indexKey indexMint (components.drop i) vaults) := by
  induction vaults generalizing i with
  | nil =>
    obtain rfl : i = components.length := h
    rw [List.drop_length]
    rfl
  | cons vault vaults ih =>
    rw [List.length_cons] at h
    obtain ⟨c, hc, hdrop⟩ := exists_entry (show i < components.length by omega)
    rw [hdrop, Flock.verifyEach]
    refine Tracks.after (tableAt_of (by omega) hc) ?_
    refine (tracks_lift _).bind fun _ _ => ?_
    refine (tracks_lift _).bind fun acct _ => ?_
    refine Tracks.after (given_of (by omega)) ?_
    refine (ih (i + 1) (by omega)).bind fun _ _ => ?_
    rfl

end Loops

/-- There is a balance for every component that was verified. -/
theorem verifyEach_length {ch : Chain} {w : World} {indexKey indexMint : Pubkey}
    {components : List Component} {vaults : List AccountInfo} {balances : List UInt64}
    (h : Flock.verifyEach ch w indexKey indexMint components vaults = .ok balances)
    (hlen : vaults.length = components.length) : balances.length = components.length := by
  induction components generalizing vaults balances with
  | nil =>
    obtain rfl := List.length_eq_zero_iff.mp hlen
    obtain rfl := Except.ok.inj h
    rfl
  | cons c components ih =>
    cases vaults with
    | nil => cases hlen
    | cons vault vaults =>
      obtain ⟨_, -, h⟩ := bind_ok_iff.mp h
      obtain ⟨acct, -, h⟩ := bind_ok_iff.mp h
      obtain ⟨rest, hrest, h⟩ := bind_ok_iff.mp h
      obtain rfl := Except.ok.inj h
      rw [List.length_cons, List.length_cons, ih hrest (Nat.succ.inj hlen)]

/-! ## The account list -/

/-- A list of pairs that is not empty has a first pair. -/
theorem exists_cons_cons {n : Nat} {rest : List AccountInfo} (h : rest.length = (n + 1) * 2) :
    ∃ a b rest', rest = a :: b :: rest' ∧ rest'.length = n * 2 := by
  rcases rest with - | ⟨a, - | ⟨b, rest'⟩⟩
  · exact absurd h (by simp)
  · exact absurd h (by rw [List.length_singleton]; omega)
  · rw [List.length_cons, List.length_cons] at h
    exact ⟨a, b, rest', rfl, by omega⟩

/-- The accounts of component `i`. -/
theorem exists_pair {n i : Nat} {rest : List AccountInfo} (hlen : rest.length = n * 2)
    (h : i < n) : ∃ vault other, rest[i * 2]? = some vault ∧ rest[i * 2 + 1]? = some other ∧
      (pairs rest)[i]? = some (vault, other) := by
  induction n generalizing i rest with
  | zero => exact absurd h (Nat.not_lt_zero i)
  | succ n ih =>
    obtain ⟨a, b, rest, rfl, hrest⟩ := exists_cons_cons hlen
    cases i with
    | zero => exact ⟨a, b, rfl, rfl, rfl⟩
    | succ i =>
      obtain ⟨vault, other, hv, ho, hp⟩ := ih hrest (Nat.lt_of_succ_lt_succ h)
      exact ⟨vault, other, by rw [Nat.succ_mul]; exact hv, by rw [Nat.succ_mul]; exact ho, hp⟩

/-- A list of `n * 2` accounts is `n` pairs. -/
theorem length_pairs {n : Nat} {rest : List AccountInfo} (hlen : rest.length = n * 2) :
    (pairs rest).length = n := by
  induction n generalizing rest with
  | zero =>
    obtain rfl := List.length_eq_zero_iff.mp (hlen.trans (Nat.zero_mul 2))
    rfl
  | succ n ih =>
    obtain ⟨a, b, rest, rfl, hrest⟩ := exists_cons_cons hlen
    rw [pairs, List.length_cons, ih hrest]

section Accounts

variable {rest : List AccountInfo} {n : Nat}

/-- What is in the range of a `usize` is not trapped on. -/
theorem usize_of {x : Nat} (h : x < 2 ^ 64) : (usize x : Watched Nat) = .ok x := given_of h

/-- The even positions are the vaults. By induction on what remains. -/
theorem evenAccounts_ok (hlen : rest.length = n * 2) (hroom : n ≤ maxComponents)
    (remaining i : Nat) (h : i + remaining = n) :
    evenAccounts rest remaining i = .ok (((pairs rest).drop i).map Prod.fst) := by
  have hsmall : maxComponents = 16 := rfl
  induction remaining generalizing i with
  | zero =>
    obtain rfl : i = n := h
    rw [List.drop_of_length_le (length_pairs hlen).le]
    rfl
  | succ remaining ih =>
    obtain ⟨vault, other, hv, -, hp⟩ := exists_pair hlen (show i < n by omega)
    rw [drop_of_entry hp, evenAccounts, usize_of (by omega), ok_bind, index_of hv, ok_bind,
      ih (i + 1) (by omega)]
    rfl

/-- The odd position of a pair can be computed and indexed. -/
theorem oddAccount_ok {i : Nat} {other : AccountInfo} (hi : i < maxComponents)
    (h : rest[i * 2 + 1]? = some other) : oddAccount rest i = .ok other := by
  have hsmall : maxComponents = 16 := rfl
  rw [oddAccount, usize_of (by omega), ok_bind, usize_of (by omega), ok_bind, index_of h]

/-- The arity check multiplies a component count, which is small. -/
theorem checkArity_follows {xs : List UInt64} (hroom : n ≤ maxComponents) :
    Follows (checkArity xs rest n)
      (failIf (xs.length ≠ n ∨ rest.length ≠ n * 2) FlockError.arityMismatch) := by
  have hsmall : maxComponents = 16 := rfl
  rw [failIf_or]
  refine (tracks_failIf _ _ _).bind fun _ _ => ?_
  refine Tracks.after (usize_of (by omega)) ?_
  exact tracks_failIf _ _ _

end Accounts

/-! ## Room in the tables -/

/-- No record has more components than a table has room for. -/
def TablesFit (w : World) : Prop :=
  ∀ k idx, w.index? k = some idx → idx.components.length ≤ maxComponents

namespace TablesFit

variable {ch : Chain} {w w' : World} {indexInfo indexMintInfo feeAta : AccountInfo}

/-- A record that is found has no more entries than slots. -/
theorem room (h : TablesFit w) {info : AccountInfo} {idx : Index}
    (hidx : indexRef w info = .ok idx) : idx.components.length ≤ maxComponents :=
  h _ idx (indexRef_ok_iff.mp hidx).1

/-- What leaves the records alone leaves their tables alone. -/
theorem of_records (h : TablesFit w) (heq : w'.index? = w.index?) : TablesFit w' := by
  intro k idx hidx
  rw [heq] at hidx
  exact h k idx hidx

/-- A record with few enough entries may be written. -/
theorem setIndex (h : TablesFit w) (k : Pubkey) {i : Index}
    (hi : i.components.length ≤ maxComponents) : TablesFit (w.setIndex k i) := by
  intro j idx hidx
  rw [World.index?_setIndex] at hidx
  split at hidx
  next =>
    obtain rfl := Option.some.inj hidx
    exact hi
  next => exact h j idx hidx

/-- An accrual keeps the table. -/
theorem accrue (h : TablesFit w) {now : Int64} {owed : UInt64}
    (hok : Flock.accrue ch w indexInfo indexMintInfo feeAta now = .ok (owed, w')) :
    TablesFit w' := by
  obtain ⟨idx, mi, hidx, -, -, hok⟩ := accrue_ok hok
  have hroom := h.room hidx
  have hset : TablesFit (w.setIndex indexInfo.key (idx.accrued now)) := h.setIndex _ hroom
  rcases hok with ⟨-, rfl⟩ | ⟨-, -, hmint⟩
  · exact hset
  · exact hset.of_records (mintIndexTokens_leg hmint rfl).2

/-- A sync changes units, not how many there are. -/
theorem syncUnits (h : TablesFit w) {balances : List UInt64} {supply : UInt64}
    (hok : Flock.syncUnits w indexInfo balances supply = .ok w') : TablesFit w' := by
  unfold Flock.syncUnits at hok
  split at hok
  next =>
    obtain rfl := Except.ok.inj hok
    exact h
  next =>
    obtain ⟨idx, hidx, hok⟩ := bind_ok_iff.mp hok
    obtain ⟨components, hsync, hok⟩ := bind_ok_iff.mp hok
    obtain rfl := Except.ok.inj hok
    have hmints := congrArg List.length (syncEach_mints (lift_ok_iff.mp hsync))
    rw [List.length_map, List.length_map] at hmints
    exact h.setIndex _ (hmints.le.trans (h.room hidx))

/-- The sync at the end of a handler is one too. -/
theorem resync (h : TablesFit w) {vaults : List AccountInfo}
    (hok : Flock.resync ch w indexInfo indexMintInfo vaults = .ok w') : TablesFit w' := by
  obtain ⟨balances, -, hok⟩ := bind_ok_iff.mp hok
  obtain ⟨mint, -, hok⟩ := bind_ok_iff.mp hok
  exact h.syncUnits hok

/-- A delivery writes no record. -/
theorem transferFromUser (h : TablesFit w) {source vault user : AccountInfo} {x : UInt64}
    (hok : Flock.transferFromUser ch w source vault user x = .ok w') : TablesFit w' := by
  unfold Flock.transferFromUser at hok
  split at hok
  next =>
    obtain rfl := Except.ok.inj hok
    exact h
  next => exact h.of_records (transfer_flow hok).2.1

/-- A payout writes no record. -/
theorem transferFromVault (h : TablesFit w) {vault recipient : AccountInfo} {x : UInt64}
    (hok : Flock.transferFromVault ch w vault recipient indexInfo x = .ok w') :
    TablesFit w' := by
  unfold Flock.transferFromVault at hok
  split at hok
  next =>
    obtain rfl := Except.ok.inj hok
    exact h
  next => exact h.of_records (transfer_flow hok).2.1

/-- Minting writes no record. -/
theorem mintIndexTokens (h : TablesFit w) {recipient : AccountInfo} {x : UInt64}
    (hok : Flock.mintIndexTokens ch w indexMintInfo recipient indexInfo x = .ok w') :
    TablesFit w' := h.of_records (mintIndexTokens_leg hok rfl).2

/-- Burning writes no record. -/
theorem burnIndexTokens (h : TablesFit w) {source user : AccountInfo} {x : UInt64}
    (hok : Flock.burnIndexTokens ch w indexMintInfo source user x = .ok w') : TablesFit w' :=
  h.of_records (burn_flow hok).2.1

/-- A trade fee writes no record. -/
theorem mintFee (h : TablesFit w) {x : UInt64}
    (hok : Flock.mintFee ch w indexInfo indexMintInfo feeAta x = .ok w') : TablesFit w' :=
  h.of_records (mintFee_leg hok rfl).2

/-- The delivery loop writes no record. By induction on the pairs. -/
theorem issueLoop (h : TablesFit w) {user : AccountInfo} {gross : UInt64} {i : Nat}
    {maxIn : List UInt64} {ps : List (AccountInfo × AccountInfo)}
    (hok : Flock.issueLoop ch user indexInfo gross w i maxIn ps = .ok w') : TablesFit w' := by
  induction ps generalizing w i maxIn with
  | nil =>
    cases maxIn <;> (obtain rfl := Except.ok.inj hok; exact h)
  | cons p ps ih =>
    cases maxIn with
    | nil =>
      obtain rfl := Except.ok.inj hok
      exact h
    | cons limit maxIn =>
      obtain ⟨component, -, hok⟩ := bind_ok_iff.mp hok
      obtain ⟨required, -, hok⟩ := bind_ok_iff.mp hok
      obtain ⟨_, -, hok⟩ := bind_ok_iff.mp hok
      obtain ⟨_, -, hok⟩ := bind_ok_iff.mp hok
      obtain ⟨w₁, hpaid, hok⟩ := bind_ok_iff.mp hok
      exact ih (h.transferFromUser hpaid) hok

/-- The payout loop writes no record. By induction on the pairs. -/
theorem redeemLoop (h : TablesFit w) {net : UInt64} {i : Nat} {minOut : List UInt64}
    {ps : List (AccountInfo × AccountInfo)}
    (hok : Flock.redeemLoop ch indexInfo net w i minOut ps = .ok w') : TablesFit w' := by
  induction ps generalizing w i minOut with
  | nil =>
    cases minOut <;> (obtain rfl := Except.ok.inj hok; exact h)
  | cons p ps ih =>
    cases minOut with
    | nil =>
      obtain rfl := Except.ok.inj hok
      exact h
    | cons limit minOut =>
      obtain ⟨component, -, hok⟩ := bind_ok_iff.mp hok
      obtain ⟨payout, -, hok⟩ := bind_ok_iff.mp hok
      obtain ⟨_, -, hok⟩ := bind_ok_iff.mp hok
      obtain ⟨_, -, hok⟩ := bind_ok_iff.mp hok
      obtain ⟨w₁, hpaid, hok⟩ := bind_ok_iff.mp hok
      exact ih (h.transferFromVault hpaid) hok

end TablesFit

/-! ## The helpers of the processor -/

section Helpers

variable {ch : Chain} {w : World} {indexInfo indexMintInfo feeAta : AccountInfo}

/-- An entry is looked up after its position was checked against the count. -/
theorem component_follows {idx : Index} (hroom : idx.components.length ≤ maxComponents) (i : Nat) :
    Follows (component idx i) (idx.component i) := by
  unfold component Index.component
  by_cases hi : i < idx.components.length
  · obtain ⟨c, hc, -⟩ := exists_entry hi
    refine Tracks.after (failIf_of_not _ (Nat.not_le.mpr hi)) ?_
    rw [tableAt_of (by omega) hc, hc]
    rfl
  · rw [failIf, if_pos (Nat.not_lt.mp hi), List.getElem?_eq_none (Nat.not_lt.mp hi)]
    rfl

/-- The same for an entry of the record at an account. -/
theorem componentAt_follows (hT : TablesFit w) (i : Nat) :
    Follows (componentAt w indexInfo i) (Flock.componentAt w indexInfo i) :=
  (tracks_lift _).bind fun _ hidx => component_follows (hT.room hidx) i

/-- `verify_vaults` indexes the table up to the count it checked. -/
theorem verifyVaults_follows (hT : TablesFit w) (indexMint : Pubkey) (vaults : List AccountInfo) :
    Follows (verifyVaults ch w indexInfo indexMint vaults)
      (Flock.verifyVaults ch w indexInfo indexMint vaults) := by
  refine (tracks_lift _).bind fun idx hidx => ?_
  refine (tracks_failIf _ _ _).bind fun _ hlen => ?_
  have hlen := not_not.mp (failIf_ok_iff.mp hlen)
  exact verifyEach_follows ch w _ _ (hT.room hidx) 0 vaults (by omega)

/-- There is a vault and a balance for every component. -/
theorem verifyVaults_lengths {indexMint : Pubkey} {vaults : List AccountInfo}
    {balances : List UInt64} {idx : Index}
    (h : Flock.verifyVaults ch w indexInfo indexMint vaults = .ok balances)
    (hidx : indexRef w indexInfo = .ok idx) :
    vaults.length = idx.components.length ∧ balances.length = idx.components.length := by
  obtain ⟨idx', hidx', h⟩ := bind_ok_iff.mp h
  obtain rfl := Except.ok.inj (hidx.symm.trans hidx')
  obtain ⟨_, hlen, h⟩ := bind_ok_iff.mp h
  have hlen := not_not.mp (failIf_ok_iff.mp hlen)
  exact ⟨hlen, verifyEach_length h hlen⟩

/-- `sync_units` has a balance for every entry it indexes. -/
theorem syncUnits_follows (hT : TablesFit w) {indexMint : Pubkey} {vaults : List AccountInfo}
    {balances : List UInt64}
    (hread : Flock.verifyVaults ch w indexInfo indexMint vaults = .ok balances)
    (supply : UInt64) :
    Follows (syncUnits w indexInfo balances supply)
      (Flock.syncUnits w indexInfo balances supply) := by
  refine Tracks.ite (fun _ => rfl) fun _ => ?_
  refine (tracks_lift _).bind fun idx hidx => ?_
  have hlen := (verifyVaults_lengths hread hidx).2
  refine (syncEach_computes (hT.room hidx) hlen supply).follows.bind fun _ _ => ?_
  rfl

/-- `nav_e6` has a balance for every entry it indexes. -/
theorem navE6_follows (hT : TablesFit w) {balances : List UInt64}
    (hlen : ∀ idx, indexRef w indexInfo = .ok idx → balances.length = idx.components.length) :
    Follows (navE6 w indexInfo balances) (Flock.navE6 w indexInfo balances) := by
  refine (tracks_lift _).bind fun idx hidx => ?_
  have hsum := navSum_computes (hT.room hidx) (hlen idx hidx) _ 0 0 (Nat.zero_add _)
  refine hsum.follows.bind fun total _ => ?_
  exact Tracks.after (given_of (by decide)) (computes_lift _).follows

/-- `accrue` has the fee formula for its only arithmetic. -/
theorem accrue_follows (now : Int64) :
    Follows (accrue ch w indexInfo indexMintInfo feeAta now)
      (Flock.accrue ch w indexInfo indexMintInfo feeAta now) := by
  refine (tracks_lift _).bind fun idx _ => ?_
  refine (tracks_lift _).bind fun mint _ => ?_
  refine (streamingFeeTokens_computes _ _ _).follows.bind fun owed _ => ?_
  refine Tracks.ite (fun _ => rfl) fun _ => ?_
  refine (tracks_lift _).bind fun _ _ => ?_
  refine (tracks_lift _).bind fun _ _ => ?_
  rfl

/-- The sync at the end of a handler indexes what it verified. -/
theorem resync_follows (hT : TablesFit w) (vaults : List AccountInfo) :
    Follows (resync ch w indexInfo indexMintInfo vaults)
      (Flock.resync ch w indexInfo indexMintInfo vaults) := by
  refine (verifyVaults_follows hT _ vaults).bind fun balances hread => ?_
  refine (tracks_lift _).bind fun mint _ => ?_
  exact syncUnits_follows hT hread _

end Helpers

/-! ## The delivery and the payout loop -/

section Loops

variable {ch : Chain} {user indexInfo : AccountInfo} {rest : List AccountInfo} {n : Nat}

/-- What a round reads: its limit, its vault, and the account of the user. -/
theorem exists_round {limits : List UInt64} (hlimits : limits.length = n)
    (hrest : rest.length = n * 2) (hroom : n ≤ maxComponents) {i : Nat} (h : i < n) :
    ∃ limit vault other, (index limits i : Watched UInt64) = .ok limit ∧
      (index ((pairs rest).map Prod.fst) i : Watched AccountInfo) = .ok vault ∧
      oddAccount rest i = .ok other ∧
      limits.drop i = limit :: limits.drop (i + 1) ∧
      (pairs rest).drop i = (vault, other) :: (pairs rest).drop (i + 1) := by
  obtain ⟨limit, hlimit, hdrop⟩ := exists_entry (show i < limits.length by omega)
  obtain ⟨vault, other, -, hother, hpair⟩ := exists_pair hrest h
  have hvault : ((pairs rest).map Prod.fst)[i]? = some vault := by
    rw [List.getElem?_map, hpair]
    rfl
  exact ⟨limit, vault, other, index_of hlimit, index_of hvault,
    oddAccount_ok (by omega) hother, hdrop, drop_of_entry hpair⟩

/-- The delivery loop indexes accounts and limits whose number was checked. By induction on
what remains. -/
theorem issueLoop_follows (gross : UInt64) {maxIn : List UInt64} (hmax : maxIn.length = n)
    (hrest : rest.length = n * 2) (hroom : n ≤ maxComponents) (remaining : Nat) (w : World)
    (hT : TablesFit w) (i : Nat) (h : i + remaining = n) :
    Follows (issueLoop ch user indexInfo gross maxIn rest ((pairs rest).map Prod.fst) remaining w i)
      (Flock.issueLoop ch user indexInfo gross w i (maxIn.drop i) ((pairs rest).drop i)) := by
  induction remaining generalizing w i with
  | zero =>
    obtain rfl : i = n := h
    rw [List.drop_of_length_le hmax.le]
    rfl
  | succ remaining ih =>
    obtain ⟨limit, vault, source, hlimit, hvault, hodd, hlimits, hpairs⟩ :=
      exists_round hmax hrest hroom (show i < n by omega)
    rw [hlimits, hpairs, Flock.issueLoop]
    refine (componentAt_follows hT i).bind fun component _ => ?_
    refine (unitsIn_computes _ _).follows.bind fun required _ => ?_
    refine Tracks.after hlimit ?_
    refine (tracks_failIf _ _ _).bind fun _ _ => ?_
    refine Tracks.after hodd ?_
    refine (tracks_lift _).bind fun _ _ => ?_
    refine Tracks.after hodd (Tracks.after hvault ?_)
    refine (tracks_lift _).bind fun w' hpaid => ?_
    exact ih w' (hT.transferFromUser hpaid) (i + 1) (by omega)

/-- The payout loop the same. -/
theorem redeemLoop_follows (net : UInt64) {minOut : List UInt64} (hmin : minOut.length = n)
    (hrest : rest.length = n * 2) (hroom : n ≤ maxComponents) (remaining : Nat) (w : World)
    (hT : TablesFit w) (i : Nat) (h : i + remaining = n) :
    Follows (redeemLoop ch indexInfo net minOut rest ((pairs rest).map Prod.fst) remaining w i)
      (Flock.redeemLoop ch indexInfo net w i (minOut.drop i) ((pairs rest).drop i)) := by
  induction remaining generalizing w i with
  | zero =>
    obtain rfl : i = n := h
    rw [List.drop_of_length_le hmin.le]
    rfl
  | succ remaining ih =>
    obtain ⟨limit, vault, recipient, hlimit, hvault, hodd, hlimits, hpairs⟩ :=
      exists_round hmin hrest hroom (show i < n by omega)
    rw [hlimits, hpairs, Flock.redeemLoop]
    refine (componentAt_follows hT i).bind fun component _ => ?_
    refine (unitsOut_computes _ _).follows.bind fun payout _ => ?_
    refine Tracks.after hlimit ?_
    refine (tracks_failIf _ _ _).bind fun _ _ => ?_
    refine Tracks.after hodd ?_
    refine (tracks_lift _).bind fun _ _ => ?_
    refine Tracks.after hvault (Tracks.after hodd ?_)
    refine (tracks_lift _).bind fun w' hpaid => ?_
    exact ih w' (hT.transferFromVault hpaid) (i + 1) (by omega)

/-- What the loops take from the list of accounts. -/
theorem loop_inputs {xs : List UInt64} (hcheck : failIf (xs.length ≠ n ∨ rest.length ≠ n * 2)
    (FlockError.arityMismatch : ProgramError) = .ok ()) :
    xs.length = n ∧ rest.length = n * 2 := by
  obtain ⟨hxs, hrest⟩ := not_or.mp (failIf_ok_iff.mp hcheck)
  exact ⟨not_not.mp hxs, not_not.mp hrest⟩

end Loops

/-! ## The proposal and the bid -/

section Auction

/-- `max_premium_bps as i16` and its negation keep a ceiling of at most 1000. -/
theorem checkBand_follows {maxPremiumBps : UInt16} (h : maxPremiumBps.toNat ≤ 1000)
    (p : AuctionParams) :
    Follows (checkBand maxPremiumBps p)
      (failIf (p.startPremiumBps > p.endPremiumBps ∨
        p.endPremiumBps > maxPremiumBps.toInt16 ∨
        p.startPremiumBps < -maxPremiumBps.toInt16 ∨
        p.maxNavLossBps > maxPremiumBps) FlockError.invalidPremium) := by
  have hcast : (asI16 maxPremiumBps : Watched Int16) = .ok maxPremiumBps.toInt16 :=
    given_of (by omega)
  have hneg : (negI16 maxPremiumBps.toInt16 : Watched Int16) = .ok (-maxPremiumBps.toInt16) :=
    given_of (by rw [toInt_toInt16 h]; omega)
  rw [failIf_or, failIf_or, failIf_or]
  refine (tracks_failIf _ _ _).bind fun _ _ => ?_
  refine Tracks.after hcast ?_
  refine (tracks_failIf _ _ _).bind fun _ _ => ?_
  refine Tracks.after hcast (Tracks.after hneg ?_)
  refine (tracks_failIf _ _ _).bind fun _ _ => ?_
  exact tracks_failIf _ _ _

/-- The target of a leg is a `units_out`. -/
theorem legTarget_computes (c : Component) (supply : UInt64) :
    Computes (legTarget c supply) (Flock.legTarget c supply) :=
  (mulDivFloor_computes _ _ _).bind fun _ _ => computes_lift _

/-- The cap of a leg is its target and a `mul_div_floor` of it, added with a check. -/
theorem legCap_computes (target : UInt64) (maxPremiumBps : UInt16) :
    Computes (legCap target maxPremiumBps) (Flock.legCap target maxPremiumBps) := by
  refine (mulDivFloor_computes _ _ _).bind fun _ _ => ?_
  exact (computes_lift _).bind fun _ _ => computes_lift _

/-- The price of a fill goes through checked helpers, and the mark is an `i128`. -/
theorem bidPrice_computes (sell buy : Component) (premium : Int32) (sellAmount : UInt64) :
    Computes (bidPrice sell buy premium sellAmount)
      (Flock.bidPrice sell buy premium sellAmount) := by
  have hlow := premium.le_toInt
  have hhigh := premium.toInt_lt
  have hbps : bps = 10000 := rfl
  refine (valueE9_computes _ _ _).bind fun _ _ => ?_
  refine Tracks.after (i128_of (by omega) (by omega)) ?_
  refine (computes_lift _).bind fun _ _ => ?_
  exact (mulDivCeil_computes _ _ _).bind fun _ _ => amountFromValueCeil_computes _ _ _

/-- Both subtractions of `bid` stand behind the comparison that allows them. -/
theorem bidSizing_computes (sell buy : Component) (maxPremiumBps : UInt16) (premium : Int32)
    (supply sellAmount maxBuyAmount : UInt64) {balances : List UInt64} {s b : Nat}
    {sellBalance buyBalance : UInt64} (hs : tableAt balances s = .ok sellBalance)
    (hb : tableAt balances b = .ok buyBalance) :
    Computes (bidSizing sell buy maxPremiumBps premium supply balances s b sellAmount maxBuyAmount)
      (Flock.bidSizing sell buy maxPremiumBps premium supply sellBalance buyBalance sellAmount
        maxBuyAmount) := by
  refine (legTarget_computes sell supply).bind fun sellTarget _ => ?_
  refine (legTarget_computes buy supply).bind fun buyTarget _ => ?_
  refine (legCap_computes buyTarget maxPremiumBps).bind fun buyCap _ => ?_
  refine Tracks.after hs ?_
  refine (tracks_failIf _ _ _).bind fun _ hexcess => ?_
  have hexcess := UInt64.le_of_lt (UInt64.not_le.mp (failIf_ok_iff.mp hexcess))
  refine Tracks.after hs (Tracks.after (given_of hexcess) ?_)
  refine (tracks_failIf _ _ _).bind fun _ _ => ?_
  refine Tracks.after hb ?_
  refine (tracks_failIf _ _ _).bind fun _ hspace => ?_
  have hspace := UInt64.le_of_lt (UInt64.not_le.mp (failIf_ok_iff.mp hspace))
  refine (bidPrice_computes sell buy premium sellAmount).bind fun buyAmount _ => ?_
  refine (tracks_failIf _ _ _).bind fun _ _ => ?_
  refine Tracks.after hb (Tracks.after (given_of hspace) ?_)
  refine (tracks_failIf _ _ _).bind fun _ _ => ?_
  rfl

end Auction

/-! ## The handlers -/

section Handlers

variable {ch : Chain} {w : World} {accounts : List AccountInfo}

/-- The count is below sixteen where it is raised, and the entry it counts is inside the
table. -/
theorem addComponent_follows (units : UInt64) :
    Follows (addComponent ch w accounts units) (Flock.addComponent ch w accounts units) := by
  match accounts with
  | manager :: payer :: indexInfo :: indexMintInfo :: componentMintInfo :: vaultInfo ::
      systemProgram :: tokenProgram :: _ =>
    unfold addComponent Flock.addComponent
    refine (tracks_lift _).bind fun _ _ => ?_
    refine (tracks_lift _).bind fun _ _ => ?_
    refine (tracks_lift _).bind fun _ _ => ?_
    refine (tracks_lift _).bind fun _ _ => ?_
    refine (tracks_lift _).bind fun _ _ => ?_
    refine (tracks_failIf _ _ _).bind fun _ _ => ?_
    refine (tracks_lift _).bind fun idx hidx => ?_
    refine (tracks_failIf _ _ _).bind fun _ _ => ?_
    refine (tracks_failIf _ _ _).bind fun _ _ => ?_
    refine (tracks_failIf _ _ _).bind fun _ hfull => ?_
    have hfull := Nat.lt_of_not_le (failIf_ok_iff.mp hfull)
    have hfind : findComponent idx componentMintInfo.key
        = .ok (idx.findComponent componentMintInfo.key) :=
      bind_ok_iff.mpr ⟨(), given_of (Nat.le_of_lt hfull), rfl⟩
    refine Tracks.after hfind ?_
    refine (tracks_failIf _ _ _).bind fun _ _ => ?_
    refine (tracks_lift _).bind fun mint _ => ?_
    rcases ch.vaultPda indexMintInfo.key componentMintInfo.key with ⟨vaultKey, vaultBump⟩
    refine (tracks_lift _).bind fun _ _ => ?_
    refine (tracks_lift _).bind fun w₁ hcreate => ?_
    refine (tracks_lift _).bind fun w₂ hinit => ?_
    refine (tracks_lift _).bind fun idx' hidx' => ?_
    -- the two calls left the record as it was read
    have hrecords : w₂.index? = w.index? :=
      (initializeAccount3_flow hinit).2.1.trans (createAccount_flow hcreate).2.1
    have hsame : idx' = idx := by
      have h' := (indexRef_ok_iff.mp hidx').1
      rw [hrecords] at h'
      exact Option.some.inj (h'.symm.trans (indexRef_ok_iff.mp hidx).1)
    subst hsame
    have hsmall : maxComponents = 16 := rfl
    refine Tracks.after (given_of hfull) ?_
    refine Tracks.after (given_of (by omega)) ?_
    rfl
  | [] | [_] | [_, _] | [_, _, _] | [_, _, _, _] | [_, _, _, _, _] | [_, _, _, _, _, _] |
    [_, _, _, _, _, _, _] => rfl

/-- `issue` never traps. -/
theorem issue_follows (hT : TablesFit w) (amount : UInt64) (maxIn : List UInt64) :
    Follows (issue ch w accounts amount maxIn) (Flock.issue ch w accounts amount maxIn) := by
  match accounts with
  | user :: indexInfo :: indexMintInfo :: userIndexAta :: feeAta :: tokenProgram :: rest =>
    unfold issue Flock.issue
    refine (tracks_lift _).bind fun _ _ => ?_
    refine (tracks_lift _).bind fun _ _ => ?_
    refine (tracks_lift _).bind fun _ _ => ?_
    refine (tracks_failIf _ _ _).bind fun _ _ => ?_
    refine (tracks_lift _).bind fun idx hidx => ?_
    refine (tracks_lift _).bind fun _ _ => ?_
    have hroom := hT.room hidx
    refine (checkArity_follows hroom).bind fun _ hcheck => ?_
    obtain ⟨hmax, hrest⟩ := loop_inputs hcheck
    refine (tracks_lift _).bind fun _ _ => ?_
    refine (accrue_follows _).bind fun (_, w₁) haccrue => ?_
    have hT₁ := hT.accrue haccrue
    refine Tracks.after (evenAccounts_ok hrest hroom _ 0 (Nat.zero_add _)) ?_
    refine (resync_follows hT₁ _).bind fun w₂ hsync => ?_
    have hT₂ := hT₁.resync hsync
    refine (mulDivCeil_computes _ _ _).follows.bind fun _ _ => ?_
    refine (computes_lift _).follows.bind fun feeTokens _ => ?_
    refine (computes_lift _).follows.bind fun gross _ => ?_
    refine (issueLoop_follows gross hmax hrest hroom _ w₂ hT₂ 0 (Nat.zero_add _)).bind
      fun w₃ hloop => ?_
    have hT₃ := hT₂.issueLoop hloop
    refine (tracks_lift _).bind fun w₄ hmint => ?_
    refine (tracks_lift _).bind fun w₅ hfee => ?_
    exact resync_follows ((hT₃.mintIndexTokens hmint).mintFee hfee) _
  | [] | [_] | [_, _] | [_, _, _] | [_, _, _, _] | [_, _, _, _, _] => rfl

/-- `redeem` never traps. -/
theorem redeem_follows (hT : TablesFit w) (amount : UInt64) (minOut : List UInt64) :
    Follows (redeem ch w accounts amount minOut) (Flock.redeem ch w accounts amount minOut) := by
  match accounts with
  | user :: indexInfo :: indexMintInfo :: userIndexAta :: feeAta :: tokenProgram :: rest =>
    unfold redeem Flock.redeem
    refine (tracks_lift _).bind fun _ _ => ?_
    refine (tracks_lift _).bind fun _ _ => ?_
    refine (tracks_lift _).bind fun _ _ => ?_
    refine (tracks_failIf _ _ _).bind fun _ _ => ?_
    refine (tracks_lift _).bind fun idx hidx => ?_
    refine (tracks_failIf _ _ _).bind fun _ _ => ?_
    have hroom := hT.room hidx
    refine (checkArity_follows hroom).bind fun _ hcheck => ?_
    obtain ⟨hmin, hrest⟩ := loop_inputs hcheck
    refine (tracks_lift _).bind fun _ _ => ?_
    refine (accrue_follows _).bind fun (_, w₁) haccrue => ?_
    have hT₁ := hT.accrue haccrue
    refine Tracks.after (evenAccounts_ok hrest hroom _ 0 (Nat.zero_add _)) ?_
    refine (verifyVaults_follows hT₁ _ _).bind fun balances hread => ?_
    refine (tracks_lift _).bind fun mint _ => ?_
    refine (tracks_failIf _ _ _).bind fun _ _ => ?_
    refine (syncUnits_follows hT₁ hread _).bind fun w₂ hsync => ?_
    have hT₂ := hT₁.syncUnits hsync
    refine (mulDivCeil_computes _ _ _).follows.bind fun _ _ => ?_
    refine (computes_lift _).follows.bind fun feeTokens _ => ?_
    refine (computes_lift _).follows.bind fun net _ => ?_
    refine (tracks_lift _).bind fun w₃ hburn => ?_
    refine (tracks_lift _).bind fun w₄ hfee => ?_
    have hT₄ := (hT₂.burnIndexTokens hburn).mintFee hfee
    refine (redeemLoop_follows net hmin hrest hroom _ w₄ hT₄ 0 (Nat.zero_add _)).bind
      fun w₅ hloop => ?_
    exact resync_follows (hT₄.redeemLoop hloop) _
  | [] | [_] | [_, _] | [_, _, _] | [_, _, _, _] | [_, _, _, _, _] => rfl

/-- `accrue_fees` never traps. -/
theorem accrueFees_follows (hT : TablesFit w) :
    Follows (accrueFees ch w accounts) (Flock.accrueFees ch w accounts) := by
  match accounts with
  | indexInfo :: indexMintInfo :: feeAta :: tokenProgram :: vaults =>
    unfold accrueFees Flock.accrueFees
    refine (tracks_lift _).bind fun _ _ => ?_
    refine (tracks_lift _).bind fun _ _ => ?_
    refine (tracks_lift _).bind fun idx _ => ?_
    refine (tracks_failIf _ _ _).bind fun _ _ => ?_
    refine (accrue_follows _).bind fun (_, w₁) haccrue => ?_
    exact resync_follows (hT.accrue haccrue) _
  | [] | [_] | [_, _] | [_, _, _] => rfl

/-- `end_rebalance` never traps. -/
theorem endRebalance_follows (hT : TablesFit w) :
    Follows (endRebalance ch w accounts) (Flock.endRebalance ch w accounts) := by
  match accounts with
  | caller :: indexInfo :: indexMintInfo :: vaults =>
    unfold endRebalance Flock.endRebalance
    refine (tracks_lift _).bind fun _ _ => ?_
    refine (tracks_lift _).bind fun _ _ => ?_
    refine (tracks_lift _).bind fun idx _ => ?_
    refine (tracks_failIf _ _ _).bind fun _ _ => ?_
    refine (tracks_failIf _ _ _).bind fun _ _ => ?_
    refine (resync_follows hT _).bind fun w₁ hsync => ?_
    refine (tracks_lift _).bind fun idx' hidx' => ?_
    have hclose : eachComponent idx'.components
        (fun _ c => pure { c with targetUnits := c.units }) idx'.components.length 0
        = .ok (idx'.components.map fun c => { c with targetUnits := c.units }) :=
      close_follows ((hT.resync hsync).room hidx')
    exact Tracks.after hclose rfl
  | [] | [_] | [_, _] => rfl

/-- What the record of an index has to keep for its handlers to stay in range. -/
structure Contained (w : World) : Prop where
  tables : TablesFit w
  ceiling : ∀ k idx, w.index? k = some idx → idx.maxPremiumBps.toNat ≤ 1000
  auction : ∀ k idx, w.index? k = some idx → idx.rebalance.active ≠ 0 → AuctionInOrder idx

/-- `propose_rebalance` never traps where the record is in bounds. -/
theorem proposeRebalance_follows (h : Contained w) (targetUnits refPricesE9 : List UInt64)
    (p : AuctionParams) :
    Follows (proposeRebalance ch w accounts targetUnits refPricesE9 p)
      (Flock.proposeRebalance ch w accounts targetUnits refPricesE9 p) := by
  match accounts with
  | manager :: indexInfo :: indexMintInfo :: vaults =>
    unfold proposeRebalance Flock.proposeRebalance
    refine (tracks_lift _).bind fun _ _ => ?_
    refine (tracks_lift _).bind fun _ _ => ?_
    refine (tracks_lift _).bind fun idx hidx => ?_
    refine (tracks_failIf _ _ _).bind fun _ _ => ?_
    refine (tracks_lift _).bind fun _ _ => ?_
    refine (tracks_failIf _ _ _).bind fun _ _ => ?_
    refine (tracks_failIf _ _ _).bind fun _ hlists => ?_
    obtain ⟨htargets, hprices⟩ := not_or.mp (failIf_ok_iff.mp hlists)
    have htargets := not_not.mp htargets
    have hprices := not_not.mp hprices
    refine (tracks_failIf _ _ _).bind fun _ _ => ?_
    have hceiling := h.ceiling _ idx (indexRef_ok_iff.mp hidx).1
    refine (checkBand_follows hceiling p).bind fun _ hband => ?_
    -- no proposal may lose more than the ceiling, so 10000 covers it
    have hloss : p.maxNavLossBps.toNat ≤ bps := by
      obtain ⟨-, hband⟩ := not_or.mp (failIf_ok_iff.mp hband)
      obtain ⟨-, hband⟩ := not_or.mp hband
      obtain ⟨-, hband⟩ := not_or.mp hband
      have hle := UInt16.le_iff_toNat_le.mp (UInt16.not_lt.mp hband)
      unfold bps
      omega
    refine (tracks_failIf _ _ _).bind fun _ _ => ?_
    refine (verifyVaults_follows h.tables _ _).bind fun balances hread => ?_
    have hroom := h.tables.room hidx
    have hwritten : eachComponent idx.components
        (fun i c => do
          let refPriceE9 ← index refPricesE9 i
          let targetUnits ← index targetUnits i
          pure { c with refPriceE9, targetUnits })
        idx.components.length 0 = .ok (writeTargets idx.components targetUnits refPricesE9) :=
      writeTargets_follows hroom htargets hprices
    refine Tracks.after hwritten ?_
    have hlength : (writeTargets idx.components targetUnits refPricesE9).length
        = idx.components.length := by
      have hmap := congrArg List.length
        (writeTargets_map Component.mint (fun _ _ _ => rfl) idx.components targetUnits refPricesE9)
      rwa [List.length_map, List.length_map] at hmap
    have hT₁ : TablesFit (w.setIndex indexInfo.key
        { idx with components := writeTargets idx.components targetUnits refPricesE9 }) :=
      h.tables.setIndex _ (hlength.le.trans hroom)
    refine (navE6_follows hT₁ ?_).bind fun nav _ => ?_
    · intro idx' hidx'
      have hrecord := (indexRef_ok_iff.mp hidx').1
      rw [World.index?_setIndex_self] at hrecord
      obtain rfl := Option.some.inj hrecord
      exact (verifyVaults_lengths hread hidx).2.trans hlength.symm
    refine (computes_lift _).follows.bind fun startTs _ => ?_
    refine (computes_lift _).follows.bind fun endTs _ => ?_
    refine (tracks_lift _).bind fun idx' _ => ?_
    refine Tracks.after (given_of hloss) ?_
    rw [wrappingSub_of_le hloss (by decide)]
    refine (mulDivFloor_computes _ _ _).follows.bind fun _ _ => ?_
    refine (computes_lift _).follows.bind fun navFloor _ => ?_
    rfl
  | [] | [_] | [_, _] => rfl

/-- `bid` never traps where the record is in bounds. -/
theorem bid_follows (h : Contained w) (sellComponent buyComponent : UInt8)
    (sellAmount maxBuyAmount : UInt64) :
    Follows (bid ch w accounts sellComponent buyComponent sellAmount maxBuyAmount)
      (Flock.bid ch w accounts sellComponent buyComponent sellAmount maxBuyAmount) := by
  match accounts with
  | bidder :: indexInfo :: indexMintInfo :: bidderReceive :: bidderPay :: tokenProgram :: vaults =>
    unfold bid Flock.bid
    refine (tracks_lift _).bind fun _ _ => ?_
    refine (tracks_lift _).bind fun _ _ => ?_
    refine (tracks_lift _).bind fun _ _ => ?_
    refine (tracks_failIf _ _ _).bind fun _ _ => ?_
    refine (tracks_failIf _ _ _).bind fun _ _ => ?_
    refine (tracks_lift _).bind fun idx hidx => ?_
    refine (tracks_lift _).bind fun _ _ => ?_
    refine (tracks_failIf _ _ _).bind fun _ hactive => ?_
    have horder := h.auction _ idx (indexRef_ok_iff.mp hidx).1 (failIf_ok_iff.mp hactive)
    have hroom := h.tables.room hidx
    refine (premiumAt_computes horder _).follows.bind fun premium _ => ?_
    refine (tracks_failIf _ _ _).bind fun _ _ => ?_
    refine (component_follows hroom _).bind fun sell hsell => ?_
    refine (component_follows hroom _).bind fun buy hbuy => ?_
    refine (verifyVaults_follows h.tables _ _).bind fun balances hread => ?_
    obtain ⟨hvaults, hbalances⟩ := verifyVaults_lengths hread hidx
    have hs := lt_of_entry (Index.component_ok_iff.mp hsell)
    have hb := lt_of_entry (Index.component_ok_iff.mp hbuy)
    obtain ⟨sellBalance, hsellBalance, -⟩ := exists_entry (hbalances.symm ▸ hs)
    obtain ⟨buyBalance, hbuyBalance, -⟩ := exists_entry (hbalances.symm ▸ hb)
    obtain ⟨sellVault, hsellVault, -⟩ := exists_entry (hvaults.symm ▸ hs)
    obtain ⟨buyVault, hbuyVault, -⟩ := exists_entry (hvaults.symm ▸ hb)
    refine (tracks_lift _).bind fun mint _ => ?_
    refine (tracks_failIf _ _ _).bind fun _ _ => ?_
    refine (tracks_lift _).bind fun _ _ => ?_
    refine (tracks_lift _).bind fun _ _ => ?_
    refine Tracks.before (nth_ok_iff.mpr hsellBalance) ?_
    refine Tracks.before (nth_ok_iff.mpr hbuyBalance) ?_
    refine (bidSizing_computes sell buy _ premium _ sellAmount maxBuyAmount
      (tableAt_of (by omega) hsellBalance) (tableAt_of (by omega) hbuyBalance)).follows.bind
      fun buyAmount _ => ?_
    refine Tracks.before (nth_ok_iff.mpr hbuyVault) ?_
    refine Tracks.before (nth_ok_iff.mpr hsellVault) ?_
    refine Tracks.after (index_of hbuyVault) ?_
    refine (tracks_lift _).bind fun w₁ hpaid => ?_
    refine Tracks.after (index_of hsellVault) ?_
    refine (tracks_lift _).bind fun w₂ hsold => ?_
    have hT₂ := (h.tables.transferFromUser hpaid).transferFromVault hsold
    refine (verifyVaults_follows hT₂ _ _).bind fun balances' hread' => ?_
    refine (navE6_follows hT₂ fun idx' hidx' => (verifyVaults_lengths hread' hidx').2).bind
      fun nav _ => ?_
    refine (tracks_lift _).bind fun idx' _ => ?_
    refine (tracks_failIf _ _ _).bind fun _ _ => ?_
    exact syncUnits_follows hT₂ hread' _
  | [] | [_] | [_, _] | [_, _, _] | [_, _, _, _] | [_, _, _, _, _] => rfl

/-- No instruction traps. By cases on the instruction. -/
theorem process_follows (h : Contained w) (accounts : List AccountInfo) (ix : FlockInstruction) :
    Follows (process ch w accounts ix) (Flock.process ch w accounts ix) := by
  cases ix with
  | addComponent units => exact addComponent_follows units
  | issue amount maxIn => exact issue_follows h.tables amount maxIn
  | redeem amount minOut => exact redeem_follows h.tables amount minOut
  | accrueFees => exact accrueFees_follows h.tables
  | proposeRebalance targetUnits refPricesE9 =>
    exact proposeRebalance_follows h targetUnits refPricesE9 _
  | bid sellComponent buyComponent sellAmount maxBuyAmount =>
    exact bid_follows h sellComponent buyComponent sellAmount maxBuyAmount
  | endRebalance => exact endRebalance_follows h.tables
  | _ => exact tracks_lift _

end Handlers

/-- Every record of a reachable world is contained. -/
theorem contained_of_reachable {ch : Chain} {w : World} (h : Reachable ch w) : Contained w where
  tables _ _ hidx := (reachable_wellFormed h hidx).1.room
  ceiling _ _ hidx := (reachable_wellFormed h hidx).1.premium
  auction _ _ hidx := (reachable_wellFormed h hidx).1.auction

end Watched

/-- In a reachable world, and whatever the accounts, the instruction and the clock, no
unchecked step of a handler leaves its range: watched or not, the answer is the same. -/
theorem unchecked_steps_stay_in_range {ch : Chain} {w : World} (h : Reachable ch w) (now : Int64)
    (accounts : List AccountInfo) (ix : FlockInstruction) :
    Watched.process ch { w with clock := now } accounts ix ≠ .error .outOfRange ∧
      Watched.process ch { w with clock := now } accounts ix
        = (process ch { w with clock := now } accounts ix).mapError Trap.fails := by
  have hcontained := Watched.contained_of_reachable h
  have hnow : Watched.Contained { w with clock := now } :=
    ⟨hcontained.tables, hcontained.ceiling, hcontained.auction⟩
  have hfollows : Watched.Follows (Watched.process ch { w with clock := now } accounts ix)
      (process ch { w with clock := now } accounts ix) := Watched.process_follows hnow accounts ix
  exact ⟨hfollows.ne_outOfRange, hfollows⟩

/-- A bid on the open auction of the local fund goes through watched as it does
unwatched. -/
theorem unchecked_steps_stay_in_range_local : ∃ (w w' : World), Reachable localnet w ∧
    Watched.process localnet w bidAccounts (.bid 1 0 5000000 10000000000) ≠ .error .outOfRange ∧
    Watched.process localnet w bidAccounts (.bid 1 0 5000000 10000000000) = .ok w' := by
  obtain ⟨w, idx, hreach, -, hp⟩ := exists_of_run
    (openFund ⟨0, 0, 0, 100⟩ 2000000 333333333 ++ [localIssue 5000000000,
      localPropose 2050000 330000000 1000000000 30000000000 0 0, .tick 300])
    (fun w _ => (process localnet w bidAccounts (.bid 1 0 5000000 10000000000)).toBool)
    (by decide +kernel)
  obtain ⟨hin, hsame⟩ := unchecked_steps_stay_in_range hreach w.clock bidAccounts
    (.bid 1 0 5000000 10000000000)
  cases hresult : process localnet w bidAccounts (.bid 1 0 5000000 10000000000) with
  | error e => rw [hresult] at hp; cases hp
  | ok w' => exact ⟨w, w', hreach, hin, hsame.trans (congrArg _ hresult)⟩

end Flock
