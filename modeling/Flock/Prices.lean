import Flock.Amounts
import Mathlib.Data.List.AList

/-!
# Prices: `prices.ts`

A price arrives as a double inside a JSON answer and leaves as 1e9 fixed point. The mints
that are asked for go out in batches, each mint once; a batch is asked for up to three
times; and what the answers say ends up in one map.

`toPriceE9` is rounding, with a floor of one. The rest is plumbing that must not show:
against a server that knows one value for each mint, the prices are those of the mints one
by one (`fetchPricesE9_listed`).
-/

namespace Flock.Sdk

open Double Outcome

/-! ## One price -/

/-- What a `fetch` or a `json()` throws. -/
structure FetchError where
  message : JsString
  deriving DecidableEq

inductive PriceError where
  /-- `cannot price a token at ${usdPrice}` -/
  | cannotPrice (usdPrice : Double)
  | range (e : RangeError)
  /-- A property of `null` is read. -/
  | nullEntry (mint : JsString)
  | fetch (e : FetchError)
  /-- `Jupiter returned ${status} for ${url}` -/
  | rejected (status : ℕ) (url : JsString)
  /-- `Jupiter returned ${status}` -/
  | unavailable (status : ℕ)
  /-- `String(undefined)`, had there been no attempt -/
  | unattempted
  /-- `No price for ${mint}; refusing to value an index without one` -/
  | noPrice (mint : JsString)
  deriving DecidableEq

/-- USD per whole token as 1e9 fixed point. -/
def toPriceE9 (usdPrice : Double) : Except PriceError ℤ :=
  match usdPrice with
  | .finite q =>
    if q ≤ 0 then .error (.cannotPrice usdPrice)
    else do
      let scaled ← (toBigInt (mathRound (mul usdPrice (.finite 1000000000)))).mapError .range
      pure (if scaled = 0 then 1 else scaled)
  | _ => .error (.cannotPrice usdPrice)

/-- What the price is scaled and rounded to. -/
def roundedE9 (q : ℚ) : ℤ := ⌊nearest (q * 1000000000) + 1 / 2⌋

/-- A positive number that does not overflow when scaled converts, to 1 at least. -/
theorem toPriceE9_ok_iff {x : Double} {v : ℤ} : toPriceE9 x = .ok v ↔
    ∃ q, x = .finite q ∧ 0 < q ∧ nearest (q * 1000000000) < 2 ^ 1024 ∧ v = max 1 (roundedE9 q) := by
  cases x with
  | nan | infinity negative =>
    constructor
    · intro h
      cases h
    · rintro ⟨q, hq, -⟩
      cases hq
  | finite q =>
    rw [toPriceE9]
    by_cases hpos : q ≤ 0
    · rw [if_pos hpos]
      constructor
      · intro h
        cases h
      · rintro ⟨q', hq', hpos', -⟩
        obtain rfl := Double.finite.inj hq'
        exact absurd hpos' (not_lt.mpr hpos)
    · rw [if_neg hpos]
      have hq : 0 < q := not_le.mp hpos
      have hscaled : 0 ≤ q * 1000000000 := by positivity
      by_cases hfits : nearest (q * 1000000000) < 2 ^ 1024
      · have hrounded : 0 ≤ roundedE9 q := by
          have hnonneg := nearest_nonneg hscaled
          apply Int.floor_nonneg.mpr
          linarith
        have hvalue : (if roundedE9 q = 0 then 1 else roundedE9 q) = max 1 (roundedE9 q) := by
          split <;> omega
        have hmul : mul (.finite q) (.finite 1000000000)
            = .finite (nearest (q * 1000000000)) := round_of_nonneg hscaled hfits
        rw [hmul, toBigInt_mathRound]
        show Except.ok (if roundedE9 q = 0 then 1 else roundedE9 q) = .ok v ↔ _
        rw [hvalue]
        constructor
        · intro h
          exact ⟨q, rfl, hq, hfits, (Except.ok.inj h).symm⟩
        · rintro ⟨q', hq', -, -, rfl⟩
          rw [Double.finite.inj hq']
      · have hmul : mul (.finite q) (.finite 1000000000) = .infinity (q * 1000000000 < 0) := by
          rw [mul, Double.round, abs_of_nonneg hscaled, if_neg hfits]
        rw [hmul]
        constructor
        · intro h
          cases h
        · rintro ⟨q', hq', -, hfits', -⟩
          obtain rfl := Double.finite.inj hq'
          exact absurd hfits' hfits

/-- A larger price is not rounded to less. -/
theorem roundedE9_mono {q r : ℚ} (hq : 0 ≤ q) (h : q ≤ r) : roundedE9 q ≤ roundedE9 r := by
  have hscaled : q * 1000000000 ≤ r * 1000000000 := by linarith
  have hnearest := nearest_mono (by positivity) hscaled
  apply Int.floor_le_floor
  linarith

/-- Half a unit is no tie for the rounding to a double: it stays half a unit. -/
theorem nearest_half : nearest (2 ^ (-1 : ℤ)) = 2 ^ (-1 : ℤ) := by
  have hlog : Int.log 2 ((2 : ℚ) ^ (-1 : ℤ)) = -1 := Int.log_zpow (by decide) _
  have hplace : lastPlace (2 ^ (-1 : ℤ)) ≤ -1 := by
    rw [lastPlace, hlog]
    decide
  exact le_antisymm (nearest_le_zpow (le_refl _) hplace) (zpow_le_nearest (le_refl _) hplace)

/-- A price of half a unit or more is rounded to the nearest unit, but for the last bit of
a double. -/
theorem abs_roundedE9_sub_le {q : ℚ} (hlarge : 1 / 2 ≤ q * 1000000000) :
    1 ≤ roundedE9 q ∧
      |(roundedE9 q : ℚ) - q * 1000000000| ≤ 1 / 2 + q * 1000000000 / 2 ^ 53 := by
  have hhalf : (2 : ℚ) ^ (-1 : ℤ) = 1 / 2 := by norm_num
  have hmin := nearest_mono (by norm_num) (hhalf ▸ hlarge)
  rw [nearest_half, hhalf] at hmin
  have herror := abs_nearest_sub_le (le_of_one_le (le_trans (by norm_num) hlarge))
  obtain ⟨hbelow, habove⟩ := abs_le.mp herror
  have hfloor := Int.floor_le (nearest (q * 1000000000) + 1 / 2)
  have hlt := Int.lt_floor_add_one (nearest (q * 1000000000) + 1 / 2)
  constructor
  · apply Int.le_floor.mpr
    push_cast
    linarith
  · rw [abs_le, roundedE9]
    constructor <;> linarith

/-- What is below half a unit is rounded to one unit at most. -/
theorem roundedE9_le_one {q : ℚ} (hq : 0 ≤ q) (hsmall : q * 1000000000 < 1 / 2) :
    roundedE9 q ≤ 1 := by
  have hhalf : (2 : ℚ) ^ (-1 : ℤ) = 1 / 2 := by norm_num
  have hmax := nearest_mono (show 0 ≤ q * 1000000000 by positivity) (hhalf ▸ hsmall.le)
  rw [nearest_half, hhalf] at hmax
  have hfloor : roundedE9 q ≤ ⌊(1 : ℚ)⌋ := by
    apply Int.floor_le_floor
    linarith
  rwa [Int.floor_one] at hfloor

/-- A decimal price of nine places is the double nearest to it, and converted it is itself. -/
theorem toPriceE9_decimal {n : ℕ} (hpos : 0 < n) (hn : n < 2 ^ 51) :
    toPriceE9 (Double.round (n / 1000000000)) = .ok n := by
  have hscaled := mathRound_scaled hn (show 0 < 1000000000 by decide) (by decide)
  have hcast : ((1000000000 : ℕ) : ℚ) = 1000000000 := by norm_num
  rw [hcast] at hscaled
  obtain ⟨q, hq⟩ := finite_of_scaled hscaled
  rw [hq] at hscaled
  have hqpos : ¬ q ≤ 0 := by
    have hone : (1 : ℚ) ≤ n := by exact_mod_cast hpos
    have hfraction : 1 / 2 ^ 53 ≤ (n : ℚ) / 1000000000 := by
      calc (1 : ℚ) / 2 ^ 53 ≤ 1 / 1000000000 := by norm_num
        _ ≤ n / 1000000000 := by gcongr
    by_cases hfits : nearest ((n : ℚ) / 1000000000) < 2 ^ 1024
    · rw [round_of_nonneg (by positivity) hfits] at hq
      rw [← Double.finite.inj hq]
      exact not_le.mpr (nearest_pos hfraction)
    · rw [Double.round, abs_of_nonneg (by positivity), if_neg hfits] at hq
      cases hq
  have hexact : toBigInt (.finite (n : ℚ)) = .ok (n : ℤ) := toBigInt_intCast n
  rw [hq, toPriceE9, if_neg hqpos, hscaled, hexact]
  show Except.ok (if (n : ℤ) = 0 then 1 else (n : ℤ)) = .ok (n : ℤ)
  rw [if_neg (by omega)]

/-- The conversion is never zero, keeps the order, is off by half a unit and the last bit
of the double at most, and takes a decimal of nine places to itself. -/
theorem toPriceE9_faithful :
    (∀ x v, toPriceE9 x = .ok v → 1 ≤ v) ∧
    (∀ q v, toPriceE9 (.finite q) = .ok v →
      (1 / 2 ≤ q * 1000000000 →
        |(v : ℚ) - q * 1000000000| ≤ 1 / 2 + q * 1000000000 / 2 ^ 53) ∧
      (q * 1000000000 < 1 / 2 → v = 1)) ∧
    (∀ q r v w, q ≤ r → toPriceE9 (.finite q) = .ok v → toPriceE9 (.finite r) = .ok w → v ≤ w) ∧
    (∀ n : ℕ, 0 < n → n < 2 ^ 51 → toPriceE9 (Double.round (n / 1000000000)) = .ok n) := by
  refine ⟨?_, ?_, ?_, fun n hpos hn => toPriceE9_decimal hpos hn⟩
  · intro x v h
    obtain ⟨q, -, -, -, rfl⟩ := toPriceE9_ok_iff.mp h
    exact le_max_left _ _
  · intro q v h
    obtain ⟨q', hq', hpos, -, rfl⟩ := toPriceE9_ok_iff.mp h
    obtain rfl := Double.finite.inj hq'
    constructor
    · intro hlarge
      obtain ⟨hone, herror⟩ := abs_roundedE9_sub_le hlarge
      rw [max_eq_right hone]
      exact herror
    · intro hsmall
      exact max_eq_left (roundedE9_le_one hpos.le hsmall)
  · intro q r v w hle hv hw
    obtain ⟨q', hq', hpos, -, rfl⟩ := toPriceE9_ok_iff.mp hv
    obtain ⟨r', hr', -, -, rfl⟩ := toPriceE9_ok_iff.mp hw
    obtain rfl := Double.finite.inj hq'
    obtain rfl := Double.finite.inj hr'
    exact max_le_max_left 1 (roundedE9_mono hpos.le hle)

/-- A price too small to show, one of a 64th, and a cent. -/
theorem toPriceE9_faithful_cent : ∃ v w : ℤ, toPriceE9 (.finite (1 / 2 ^ 40)) = .ok v ∧
    toPriceE9 (.finite (1 / 64)) = .ok w ∧ 1 ≤ w ∧ v = 1 ∧ v ≤ w ∧
    |(w : ℚ) - 1 / 64 * 1000000000| ≤ 1 / 2 + 1 / 64 * 1000000000 / 2 ^ 53 ∧
    toPriceE9 (Double.round ((10000000 : ℕ) / 1000000000)) = .ok 10000000 := by
  have hv : toPriceE9 (.finite (1 / 2 ^ 40)) = .ok 1 := by decide +kernel
  have hw : toPriceE9 (.finite (1 / 64)) = .ok 15625000 := by decide +kernel
  obtain ⟨hone, herror, hmono, hexact⟩ := toPriceE9_faithful
  exact ⟨1, 15625000, hv, hw, hone _ _ hw, (herror _ _ hv).2 (by norm_num),
    hmono _ _ _ _ (by norm_num) hv hw, (herror _ _ hw).1 (by norm_num),
    hexact 10000000 (by decide) (by decide)⟩

/-! ## Reading an answer -/

/-- What `json()` gives. The fields of an object stand in the order of `Object.entries`. -/
inductive Json where
  | null
  | bool (b : Bool)
  | number (x : Double)
  | string (text : JsString)
  | array (items : List Json)
  | object (fields : List (JsString × Json))

/-- `value[key]` of a value that is not `null`, if it is not `undefined`. -/
def Json.get? : Json → JsString → Option Json
  | .object fields, key => (fields.find? fun f => f.1 = key).map Prod.snd
  | _, _ => none

/-- `Object.entries(value)` of an object, and nothing of what is none. -/
def Json.entries : Json → List (JsString × Json)
  | .object fields => fields
  | .array items => items.zipIdx.map fun (item, i) => (Cli.bigintText i, item)
  | _ => []

def ascii (text : String) : JsString := text.toList.map unit

structure PriceQuote where
  mint : JsString
  usdPrice : Double
  priceE9 : ℤ
  decimals : Double
  liquidityUsd : Double
  priceChange24h : Double
  blockId : Double
  deriving DecidableEq

abbrev Quotes := AList fun _ : JsString => PriceQuote

section

-- `Number` of an array or of an object
variable (ofObject : Json → Double)

/-- `Number(value)` -/
def numberOf : Option Json → Double
  | none => .nan
  | some .null => .finite 0
  | some (.bool b) => .finite (if b then 1 else 0)
  | some (.number x) => x
  | some (.string text) => ofText text
  | some value => ofObject value

/-- `Number(value ?? 0)` -/
def numberOr0 : Option Json → Double
  | none | some .null => .finite 0
  | value => numberOf ofObject value

/-- The body of the loop in `parsePriceResponse`: the quote, or nothing where the loop
goes on. -/
def quoteEntry (mint : JsString) (value : Json) : Except PriceError (Option PriceQuote) :=
  match value with
  | .null => .error (.nullEntry mint)
  | value =>
    let usdPrice := numberOf ofObject (value.get? (ascii "usdPrice"))
    match usdPrice with
    | .finite q =>
      if q ≤ 0 then .ok none
      else do
        let priceE9 ← toPriceE9 usdPrice
        pure (some
          { mint
            usdPrice
            priceE9
            decimals := numberOr0 ofObject (value.get? (ascii "decimals"))
            liquidityUsd := numberOr0 ofObject (value.get? (ascii "liquidity"))
            priceChange24h := numberOr0 ofObject (value.get? (ascii "priceChange24h"))
            blockId := numberOr0 ofObject (value.get? (ascii "blockId")) })
    | _ => .ok none

def parseEntries : List (JsString × Json) → Quotes → Except PriceError Quotes
  | [], out => .ok out
  | (mint, value) :: entries, out => do
    match ← quoteEntry ofObject mint value with
    | some quote => parseEntries entries (out.insert mint quote)
    | none => parseEntries entries out

def parsePriceResponse (payload : Json) : Except PriceError Quotes :=
  parseEntries ofObject payload.entries ∅

/-! ## Asking -/

structure Response where
  ok : Bool
  status : ℕ
  json : Except FetchError Json

/-- What comes back for a URL may depend on all that was asked before. -/
abbrev FetchLike := (earlier : List JsString) → (url : JsString) → Except FetchError Response

variable (fetchImpl : FetchLike)

/-- `getJson`, with the attempts that are left, the last error and the requests so far. -/
def getJson (url : JsString) : (attempts : ℕ) → (lastError : PriceError) → List JsString →
    Except PriceError Json × List JsString
  | 0, lastError, sent => (.error lastError, sent)
  | attempts + 1, _, sent =>
    match fetchImpl sent url with
    | .error e => getJson url attempts (.fetch e) (sent ++ [url])
    | .ok response =>
      if response.ok then
        match response.json with
        | .ok payload => (.ok payload, sent ++ [url])
        | .error e => getJson url attempts (.fetch e) (sent ++ [url])
      -- what is thrown here is caught by the `catch` of the same attempt
      else if response.status < 500 ∧ response.status ≠ 429 then
        getJson url attempts (.rejected response.status url) (sent ++ [url])
      else getJson url attempts (.unavailable response.status) (sent ++ [url])

def chunk {α : Type} (items : List α) (size : ℕ) : List (List α) :=
  (List.range ((items.length + size - 1) / size)).map fun k => (items.drop (k * size)).take size

/-- `${PRICE_ENDPOINT}?ids=${batch.join(",")}` -/
def priceUrl (batch : List JsString) : JsString :=
  ascii "https://lite-api.jup.ag/price/v3?ids=" ++ [unit ','].intercalate batch

/-- The loop of `fetchPrices` over the batches. -/
def fetchBatches : List (List JsString) → Quotes → List JsString →
    Except PriceError Quotes × List JsString
  | [], out, sent => (.ok out, sent)
  | batch :: batches, out, sent =>
    match getJson fetchImpl (priceUrl batch) 3 .unattempted sent with
    | (.error e, sent) => (.error e, sent)
    | (.ok payload, sent) =>
      match parsePriceResponse ofObject payload with
      | .error e => (.error e, sent)
      -- what is quoted later replaces what was quoted before
      | .ok quotes => fetchBatches batches (quotes ∪ out) sent

/-- `fetchPrices`, from the requests that have been sent before. -/
def fetchPrices (mints : List JsString) (sent : List JsString) :
    Except PriceError Quotes × List JsString :=
  fetchBatches ofObject fetchImpl (chunk mints.eraseDups 50) ∅ sent

/-- `quotes.get(mint)`, or the error. -/
def priceOf (quotes : Quotes) (mint : JsString) : Except PriceError ℤ :=
  match quotes.lookup mint with
  | some quote => .ok quote.priceE9
  | none => .error (.noPrice mint)

def fetchPricesE9 (mints : List JsString) (sent : List JsString) :
    Except PriceError (List ℤ) × List JsString :=
  match fetchPrices ofObject fetchImpl mints sent with
  | (.ok quotes, sent) => (mints.mapM (priceOf quotes), sent)
  | (.error e, sent) => (.error e, sent)

/-! ## The requests -/

/-- A request after the earlier ones brings a payload. -/
def Answered (earlier : List JsString) (url : JsString) : Prop :=
  ∃ response payload, fetchImpl earlier url = .ok response ∧ response.ok = true ∧
    response.json = .ok payload

/-- An attempt brings the payload, or it is lost and the next one follows. -/
theorem getJson_succ (url : JsString) (attempts : ℕ) (e : PriceError) (sent : List JsString) :
    (∃ response payload, fetchImpl sent url = .ok response ∧ response.ok = true ∧
      response.json = .ok payload ∧
      getJson fetchImpl url (attempts + 1) e sent = (.ok payload, sent ++ [url])) ∨
    (¬ Answered fetchImpl sent url ∧ ∃ e', getJson fetchImpl url (attempts + 1) e sent
      = getJson fetchImpl url attempts e' (sent ++ [url])) := by
  rw [getJson]
  rcases hfetch : fetchImpl sent url with thrown | response
  · refine .inr ⟨?_, _, rfl⟩
    rintro ⟨response, -, hresponse, -⟩
    rw [hfetch] at hresponse
    cases hresponse
  · by_cases hok : response.ok = true
    · show _ ∨ _ ∧ ∃ e', (if response.ok then _ else _) = _
      rcases hjson : response.json with thrown | payload
      · refine .inr ⟨?_, .fetch thrown, by rw [if_pos hok]⟩
        rintro ⟨response', payload, hresponse, -, hpayload⟩
        rw [hfetch] at hresponse
        obtain rfl := Except.ok.inj hresponse
        rw [hjson] at hpayload
        cases hpayload
      · exact .inl ⟨response, payload, rfl, hok, hjson, by simp only [if_pos hok, hjson]⟩
    · refine .inr ⟨?_, ?_⟩
      · rintro ⟨response', -, hresponse, hok', -⟩
        rw [hfetch] at hresponse
        obtain rfl := Except.ok.inj hresponse
        exact hok hok'
      · show ∃ e', (if response.ok then _ else _) = _
        rw [if_neg hok]
        by_cases hwrong : response.status < 500 ∧ response.status ≠ 429
        · exact ⟨.rejected response.status url, if_pos hwrong⟩
        · exact ⟨.unavailable response.status, if_neg hwrong⟩

/-- What was sent is one URL, as often as was tried. -/
theorem getJson_sent (url : JsString) (attempts : ℕ) (e : PriceError) (sent : List JsString) :
    ∃ k ≤ attempts,
      (getJson fetchImpl url attempts e sent).2 = sent ++ List.replicate k url := by
  induction attempts generalizing e sent with
  | zero => exact ⟨0, le_refl 0, (List.append_nil sent).symm⟩
  | succ attempts ih =>
    obtain ⟨_, _, _, _, _, hget⟩ | ⟨-, e', hget⟩ := getJson_succ fetchImpl url attempts e sent
    · rw [hget]
      exact ⟨1, by omega, rfl⟩
    · obtain ⟨k, hk, hsent⟩ := ih e' (sent ++ [url])
      refine ⟨k + 1, by omega, ?_⟩
      rw [hget, hsent, List.append_assoc]
      rfl

/-- A payload that is returned came with an answer that was in order. -/
theorem getJson_ok {url : JsString} {attempts : ℕ} {e : PriceError} {sent : List JsString}
    {payload : Json} (h : (getJson fetchImpl url attempts e sent).1 = .ok payload) :
    ∃ earlier response, fetchImpl earlier url = .ok response ∧ response.ok = true ∧
      response.json = .ok payload := by
  induction attempts generalizing e sent with
  | zero => cases h
  | succ attempts ih =>
    obtain ⟨response, payload', hfetch, hok, hjson, hget⟩ | ⟨-, e', hget⟩ :=
      getJson_succ fetchImpl url attempts e sent
    · rw [hget] at h
      obtain rfl := Except.ok.inj h
      exact ⟨sent, response, hfetch, hok, hjson⟩
    · rw [hget] at h
      exact ih h

/-- If one of the attempts is answered, so is the request. -/
theorem getJson_answered {url : JsString} {attempts k : ℕ} {e : PriceError}
    {sent : List JsString} (hk : k < attempts)
    (h : Answered fetchImpl (sent ++ List.replicate k url) url) :
    ∃ payload, (getJson fetchImpl url attempts e sent).1 = .ok payload := by
  induction attempts generalizing k e sent with
  | zero => omega
  | succ attempts ih =>
    obtain ⟨_, payload, _, _, _, hget⟩ | ⟨hlost, e', hget⟩ :=
      getJson_succ fetchImpl url attempts e sent
    · rw [hget]
      exact ⟨payload, rfl⟩
    · -- so it is a later attempt that brings it
      cases k with
      | zero =>
        rw [List.replicate_zero, List.append_nil] at h
        exact absurd h hlost
      | succ k =>
        rw [hget]
        refine ih (k := k) (by omega) ?_
        rwa [List.append_assoc]

/-- The batches are the list, cut up. -/
theorem flatten_chunk {α : Type} (items : List α) {size : ℕ} (hsize : 0 < size) :
    (chunk items size).flatten = items := by
  have htake : ∀ n, ((List.range n).map fun k => (items.drop (k * size)).take size).flatten
      = items.take (n * size) := by
    intro n
    induction n with
    | zero => rw [zero_mul, List.take_zero, List.range_zero, List.map_nil, List.flatten_nil]
    | succ n ih =>
      rw [List.range_succ, List.map_append, List.flatten_append, ih, add_mul, one_mul,
        List.take_add, List.map_singleton, List.flatten_singleton]
  rw [chunk, htake]
  apply List.take_of_length_le
  have hdiv := Nat.div_add_mod (items.length + size - 1) size
  have hmod := Nat.mod_lt (items.length + size - 1) hsize
  rw [Nat.mul_comm] at hdiv
  omega

/-- No batch is longer than its size. -/
theorem length_le_of_mem_chunk {α : Type} {items batch : List α} {size : ℕ}
    (h : batch ∈ chunk items size) : batch.length ≤ size := by
  obtain ⟨k, -, rfl⟩ := List.mem_map.mp h
  exact List.length_take_le _ _

/-- No batch is empty. -/
theorem ne_nil_of_mem_chunk {α : Type} {items batch : List α} {size : ℕ}
    (h : batch ∈ chunk items size) : batch ≠ [] := by
  obtain ⟨k, hk, rfl⟩ := List.mem_map.mp h
  have hk := List.mem_range.mp hk
  have hsize : 0 < size := by
    by_contra hzero
    obtain rfl : size = 0 := by omega
    rw [Nat.div_zero] at hk
    omega
  have hbegin : k * size < items.length := by
    have hle := (Nat.le_div_iff_mul_le hsize).mp (Nat.succ_le_of_lt hk)
    rw [Nat.succ_mul] at hle
    omega
  apply List.ne_nil_of_length_pos
  rw [List.length_take, List.length_drop]
  omega

/-- Every batch is asked for three times at most, one batch after the other. -/
theorem fetchBatches_sent (batches : List (List JsString)) (out : Quotes)
    (sent : List JsString) :
    ∃ ks : List ℕ, ks.length ≤ batches.length ∧ (∀ k ∈ ks, k ≤ 3) ∧
      (fetchBatches ofObject fetchImpl batches out sent).2
        = sent ++ (List.zipWith (fun batch k => List.replicate k (priceUrl batch))
            batches ks).flatten := by
  induction batches generalizing out sent with
  | nil => exact ⟨[], le_refl 0, nofun, (List.append_nil sent).symm⟩
  | cons batch batches ih =>
    obtain ⟨k, hk, hsent⟩ := getJson_sent fetchImpl (priceUrl batch) 3 .unattempted sent
    have hlast : ∃ ks : List ℕ, ks.length ≤ (batch :: batches).length ∧ (∀ k ∈ ks, k ≤ 3) ∧
        sent ++ List.replicate k (priceUrl batch)
          = sent ++ (List.zipWith (fun batch k => List.replicate k (priceUrl batch))
              (batch :: batches) ks).flatten := by
      refine ⟨[k], by simp, by simpa using hk, ?_⟩
      rw [List.zipWith_cons_cons, List.zipWith_nil_right, List.flatten_singleton]
    unfold fetchBatches
    split
    · next e sent' hget =>
      rw [hget] at hsent
      obtain rfl : sent' = _ := hsent
      exact hlast
    · next payload sent' hget =>
      rw [hget] at hsent
      obtain rfl : sent' = _ := hsent
      split
      · exact hlast
      · next quotes _ =>
        obtain ⟨ks, hlength, hks, hrest⟩ :=
          ih (quotes ∪ out) (sent ++ List.replicate k (priceUrl batch))
        refine ⟨k :: ks, Nat.succ_le_succ hlength, ?_, ?_⟩
        · rintro l (_ | ⟨_, hl⟩)
          · exact hk
          · exact hks l hl
        · rw [hrest, List.zipWith_cons_cons, List.flatten_cons, List.append_assoc]

/-! ## The quotes -/

/-- An entry is taken, or passed over, and then the rest. -/
theorem parseEntries_cons_ok_iff {mint : JsString} {value : Json}
    {fields : List (JsString × Json)} {out quotes : Quotes} :
    parseEntries ofObject ((mint, value) :: fields) out = .ok quotes ↔
      (∃ quote, quoteEntry ofObject mint value = .ok (some quote) ∧
        parseEntries ofObject fields (out.insert mint quote) = .ok quotes) ∨
      (quoteEntry ofObject mint value = .ok none ∧
        parseEntries ofObject fields out = .ok quotes) := by
  rw [parseEntries]
  rcases hquote : quoteEntry ofObject mint value with e | quote | quote
  · constructor
    · intro h
      cases h
    · rintro (⟨quote, h, hrest⟩ | ⟨h, hrest⟩)
      all_goals cases h
  · constructor
    · intro h
      exact .inr ⟨rfl, h⟩
    · rintro (⟨quote, h, hrest⟩ | ⟨-, hrest⟩)
      · cases h
      · exact hrest
  · constructor
    · intro h
      exact .inl ⟨quote, rfl, h⟩
    · rintro (⟨quote', h, hrest⟩ | ⟨h, -⟩)
      · obtain rfl := Option.some.inj (Except.ok.inj h)
        exact hrest
      · cases h

/-- What is quoted for a mint is what its own entry says, and without one it stays. -/
theorem lookup_parseEntries {fields : List (JsString × Json)} {out quotes : Quotes}
    (hdistinct : (fields.map Prod.fst).Nodup)
    (h : parseEntries ofObject fields out = .ok quotes) (mint : JsString) :
    (∀ value, (mint, value) ∈ fields → ∃ found,
      quoteEntry ofObject mint value = .ok found ∧
        quotes.lookup mint = found.or (out.lookup mint)) ∧
    (mint ∉ fields.map Prod.fst → quotes.lookup mint = out.lookup mint) := by
  induction fields generalizing out with
  | nil =>
    obtain rfl := Except.ok.inj h
    exact ⟨nofun, fun _ => rfl⟩
  | cons field fields ih =>
    obtain ⟨key, value⟩ := field
    obtain ⟨hkey, hdistinct⟩ := List.nodup_cons.mp hdistinct
    -- either way the table that the rest starts from, at this key and at the others
    obtain ⟨found, out', hquote, hrest, hhere, helsewhere⟩ : ∃ found out',
        quoteEntry ofObject key value = .ok found ∧
        parseEntries ofObject fields out' = .ok quotes ∧
        out'.lookup key = found.or (out.lookup key) ∧
        ∀ k, k ≠ key → out'.lookup k = out.lookup k := by
      obtain ⟨quote, hquote, hrest⟩ | ⟨hquote, hrest⟩ :=
        (parseEntries_cons_ok_iff ofObject).mp h
      · exact ⟨some quote, out.insert key quote, hquote, hrest, AList.lookup_insert out,
          fun k hk => AList.lookup_insert_ne hk⟩
      · exact ⟨none, out, hquote, hrest, rfl, fun _ _ => rfl⟩
    obtain ⟨hentry, hnone⟩ := ih hdistinct hrest
    by_cases hmint : mint = key
    · subst hmint
      constructor
      · intro value' hvalue'
        obtain heq | hlater := List.mem_cons.mp hvalue'
        · obtain rfl := (Prod.mk.inj heq).2
          exact ⟨found, hquote, (hnone hkey).trans hhere⟩
        · exact absurd (List.mem_map_of_mem hlater) hkey
      · intro hnot
        exact absurd List.mem_cons_self hnot
    · constructor
      · intro value' hvalue'
        obtain heq | hlater := List.mem_cons.mp hvalue'
        · exact absurd (Prod.mk.inj heq).1 hmint
        · obtain ⟨found', hfound', hlookup⟩ := hentry value' hlater
          exact ⟨found', hfound', by rw [hlookup, helsewhere mint hmint]⟩
      · intro hnot
        rw [hnone fun hlater => hnot (List.mem_cons_of_mem _ hlater), helsewhere mint hmint]

/-- Where every entry can be read, the answer can. -/
theorem parseEntries_ok {fields : List (JsString × Json)} (out : Quotes)
    (h : ∀ field ∈ fields, ∃ found, quoteEntry ofObject field.1 field.2 = .ok found) :
    ∃ quotes, parseEntries ofObject fields out = .ok quotes := by
  induction fields generalizing out with
  | nil => exact ⟨out, rfl⟩
  | cons field fields ih =>
    obtain ⟨found, hfound⟩ := h field List.mem_cons_self
    have hlater : ∀ out, ∃ quotes, parseEntries ofObject fields out = .ok quotes :=
      fun out => ih out fun f hf => h f (List.mem_cons_of_mem _ hf)
    rcases found with _ | quote
    · obtain ⟨quotes, hquotes⟩ := hlater out
      exact ⟨quotes, (parseEntries_cons_ok_iff ofObject).mpr (.inr ⟨hfound, hquotes⟩)⟩
    · obtain ⟨quotes, hquotes⟩ := hlater (out.insert field.1 quote)
      exact ⟨quotes, (parseEntries_cons_ok_iff ofObject).mpr (.inl ⟨quote, hfound, hquotes⟩)⟩

variable (listing : JsString → Option Json)

/-- What is listed for a mint can be read. -/
def Readable (mint : JsString) : Prop :=
  ∀ value, listing mint = some value → ∃ found, quoteEntry ofObject mint value = .ok found

/-- The quote of a mint, from the listing alone. -/
def quoteOf (mint : JsString) : Option PriceQuote :=
  match listing mint with
  | none => none
  | some value =>
    match quoteEntry ofObject mint value with
    | .ok found => found
    | .error _ => none

/-- The quotes are those of the listing, for what has been asked for. -/
def Quoted (asked : List JsString) (quotes : Quotes) : Prop :=
  ∀ mint, quotes.lookup mint = if mint ∈ asked then quoteOf ofObject listing mint else none

/-- An answer in order holds what is listed for the mints that were asked for. -/
def Serves : Prop :=
  ∀ earlier batch response payload, batch ≠ [] → (∀ mint ∈ batch, unit ',' ∉ mint) →
    fetchImpl earlier (priceUrl batch) = .ok response → response.ok = true →
    response.json = .ok payload →
    ∃ fields, payload = .object fields ∧ (fields.map Prod.fst).Nodup ∧
      ∀ mint value, (mint, value) ∈ fields ↔ mint ∈ batch ∧ listing mint = some value

/-- Of three attempts in a row one is answered. -/
def Reliable : Prop :=
  ∀ earlier url, ∃ k < 3, Answered fetchImpl (earlier ++ List.replicate k url) url

variable {ofObject fetchImpl listing}

/-- What was parsed are the quotes of the batch, when each mint is answered once. -/
theorem quoted_parse {batch : List JsString} {fields : List (JsString × Json)} {quotes : Quotes}
    (hdistinct : (fields.map Prod.fst).Nodup)
    (hfields : ∀ mint value, (mint, value) ∈ fields ↔ mint ∈ batch ∧ listing mint = some value)
    (h : parseEntries ofObject fields ∅ = .ok quotes) : Quoted ofObject listing batch quotes := by
  intro mint
  obtain ⟨hentry, hnone⟩ := lookup_parseEntries ofObject hdistinct h mint
  by_cases hlisted : mint ∈ batch ∧ ∃ value, listing mint = some value
  · obtain ⟨hmem, value, hvalue⟩ := hlisted
    obtain ⟨found, hfound, hlookup⟩ := hentry value ((hfields mint value).mpr ⟨hmem, hvalue⟩)
    rw [hlookup, AList.lookup_empty, Option.or_none, if_pos hmem, quoteOf, hvalue]
    show found = match quoteEntry ofObject mint value with | .ok found => found | .error _ => none
    rw [hfound]
  · have hkey : mint ∉ fields.map Prod.fst := by
      intro hkey
      obtain ⟨⟨key, value⟩, hfield, rfl⟩ := List.mem_map.mp hkey
      obtain ⟨hmem, hvalue⟩ := (hfields key value).mp hfield
      exact hlisted ⟨hmem, value, hvalue⟩
    rw [hnone hkey, AList.lookup_empty]
    by_cases hmem : mint ∈ batch
    · have hunlisted : listing mint = none := by
        rcases hvalue : listing mint with _ | value
        · rfl
        · exact absurd ⟨hmem, value, hvalue⟩ hlisted
      rw [if_pos hmem, quoteOf, hunlisted]
    · rw [if_neg hmem]

/-- Quotes of one more batch are quotes of all asked so far. -/
theorem Quoted.union {asked batch : List JsString} {out quotes : Quotes}
    (hquotes : Quoted ofObject listing batch quotes) (hout : Quoted ofObject listing asked out) :
    Quoted ofObject listing (asked ++ batch) (quotes ∪ out) := by
  intro mint
  have hasked : mint ∈ asked ++ batch ↔ mint ∈ asked ∨ mint ∈ batch := List.mem_append
  have hnew := hquotes mint
  have hold := hout mint
  by_cases hmem : mint ∈ quotes
  · obtain ⟨quote, hquote⟩ := Option.isSome_iff_exists.mp (AList.lookup_isSome.mpr hmem)
    rw [AList.lookup_union_left hmem]
    by_cases hbatch : mint ∈ batch
    · rw [hnew, if_pos hbatch, if_pos (hasked.mpr (.inr hbatch))]
    · rw [hquote, if_neg hbatch] at hnew
      cases hnew
  · rw [AList.lookup_union_right hmem, hold]
    by_cases hbatch : mint ∈ batch
    · -- it was asked for and is not there, so it is not quoted at all
      have hunquoted : quoteOf ofObject listing mint = none := by
        rw [if_pos hbatch] at hnew
        exact hnew.symm.trans (AList.lookup_eq_none.mpr hmem)
      rw [hunquoted, ite_self, ite_self]
    · by_cases holder : mint ∈ asked
      · rw [if_pos holder, if_pos (hasked.mpr (.inl holder))]
      · rw [if_neg holder, if_neg]
        exact fun h => (hasked.mp h).elim holder hbatch

/-- Batch by batch the quotes are those of the listing. By induction on the batches. -/
theorem fetchBatches_quoted (hserves : Serves fetchImpl listing)
    {batches : List (List JsString)} (hne : ∀ batch ∈ batches, batch ≠ [])
    (hcomma : ∀ batch ∈ batches, ∀ mint ∈ batch, unit ',' ∉ mint)
    {asked : List JsString} {out quotes : Quotes} {sent : List JsString}
    (hout : Quoted ofObject listing asked out)
    (h : (fetchBatches ofObject fetchImpl batches out sent).1 = .ok quotes) :
    Quoted ofObject listing (asked ++ batches.flatten) quotes := by
  induction batches generalizing asked out sent with
  | nil =>
    obtain rfl := Except.ok.inj h
    rwa [List.flatten_nil, List.append_nil]
  | cons batch batches ih =>
    rw [fetchBatches] at h
    rcases hget : getJson fetchImpl (priceUrl batch) 3 .unattempted sent with ⟨e | payload, sent'⟩
    · rw [hget] at h
      cases h
    · rw [hget] at h
      obtain ⟨earlier, response, hfetch, hok, hjson⟩ := getJson_ok fetchImpl (by rw [hget])
      obtain ⟨fields, rfl, hdistinct, hfields⟩ := hserves earlier batch response payload
        (hne batch List.mem_cons_self) (hcomma batch List.mem_cons_self) hfetch hok hjson
      rcases hparse : parsePriceResponse ofObject (.object fields) with e | quotes'
      · simp only [hparse] at h
        cases h
      · simp only [hparse] at h
        have hnew := (quoted_parse hdistinct hfields hparse).union hout
        have hrest := ih (fun b hb => hne b (List.mem_cons_of_mem _ hb))
          (fun b hb => hcomma b (List.mem_cons_of_mem _ hb)) hnew h
        rwa [List.append_assoc] at hrest

/-- A reliable server whose values can be read answers every batch. By induction on the
batches. -/
theorem fetchBatches_ok (hserves : Serves fetchImpl listing) (hreliable : Reliable fetchImpl)
    {batches : List (List JsString)} (hne : ∀ batch ∈ batches, batch ≠ [])
    (hcomma : ∀ batch ∈ batches, ∀ mint ∈ batch, unit ',' ∉ mint)
    (hreadable : ∀ batch ∈ batches, ∀ mint ∈ batch, Readable ofObject listing mint)
    (out : Quotes) (sent : List JsString) :
    ∃ quotes, (fetchBatches ofObject fetchImpl batches out sent).1 = .ok quotes := by
  induction batches generalizing out sent with
  | nil => exact ⟨out, rfl⟩
  | cons batch batches ih =>
    rw [fetchBatches]
    obtain ⟨k, hk, hanswered⟩ := hreliable sent (priceUrl batch)
    obtain ⟨payload, hpayload⟩ := getJson_answered fetchImpl (e := .unattempted) hk hanswered
    obtain ⟨earlier, response, hfetch, hok, hjson⟩ := getJson_ok fetchImpl hpayload
    obtain ⟨fields, rfl, -, hfields⟩ := hserves earlier batch response payload
      (hne batch List.mem_cons_self) (hcomma batch List.mem_cons_self) hfetch hok hjson
    have hentries : ∀ field ∈ fields, ∃ found,
        quoteEntry ofObject field.1 field.2 = .ok found := by
      rintro ⟨mint, value⟩ hfield
      obtain ⟨hmem, hvalue⟩ := (hfields mint value).mp hfield
      exact hreadable batch List.mem_cons_self mint hmem value hvalue
    obtain ⟨quotes, hquotes⟩ := parseEntries_ok ofObject ∅ hentries
    have hparse : parsePriceResponse ofObject (.object fields) = .ok quotes := hquotes
    rcases hget : getJson fetchImpl (priceUrl batch) 3 .unattempted sent with ⟨result, sent'⟩
    rw [hget] at hpayload
    obtain rfl : result = _ := hpayload
    simp only [hparse]
    exact ih (fun b hb => hne b (List.mem_cons_of_mem _ hb))
      (fun b hb => hcomma b (List.mem_cons_of_mem _ hb))
      (fun b hb => hreadable b (List.mem_cons_of_mem _ hb)) _ _

/-- All mints are priced, or the request fails. -/
theorem mapM_priceOf_ok_iff {quotes : Quotes} {mints : List JsString} {prices : List ℤ} :
    mints.mapM (priceOf quotes) = .ok prices ↔
      mints.map (fun mint => (quotes.lookup mint).map PriceQuote.priceE9) = prices.map some := by
  induction mints generalizing prices with
  | nil =>
    cases prices with
    | nil => exact iff_of_true rfl rfl
    | cons price prices => exact iff_of_false nofun nofun
  | cons mint mints ih =>
    rw [List.mapM_cons, List.map_cons, priceOf]
    rcases quotes.lookup mint with _ | quote
    · cases prices with
      | nil => exact iff_of_false nofun nofun
      | cons price prices => exact iff_of_false nofun (by simp)
    · show (do let rest ← mints.mapM (priceOf quotes); pure (quote.priceE9 :: rest)) = _ ↔ _
      rw [bind_ok_iff]
      cases prices with
      | nil => exact iff_of_false (by rintro ⟨rest, -, h⟩; cases h) nofun
      | cons price prices =>
        constructor
        · rintro ⟨rest, hrest, h⟩
          obtain ⟨rfl, rfl⟩ := List.cons.inj (Except.ok.inj h)
          rw [ih.mp hrest]
          rfl
        · intro h
          obtain ⟨hprice, hrest⟩ := List.cons.inj h
          obtain rfl := Option.some.inj hprice
          exact ⟨prices, ih.mpr hrest, rfl⟩

/-- Batches, repeated attempts and the order of the answers do not show: the prices are
those the listing has for the mints, one by one, or there are none. And each mint is asked
for in one batch, of fifty at most and three times at most. -/
theorem fetchPricesE9_listed (hserves : Serves fetchImpl listing) {mints : List JsString}
    (hcomma : ∀ mint ∈ mints, unit ',' ∉ mint) (sent : List JsString) :
    (∀ prices, (fetchPricesE9 ofObject fetchImpl mints sent).1 = .ok prices →
      mints.map (fun mint => (quoteOf ofObject listing mint).map PriceQuote.priceE9)
        = prices.map some) ∧
    (Reliable fetchImpl → (∀ mint ∈ mints, Readable ofObject listing mint) → ∀ prices,
      mints.map (fun mint => (quoteOf ofObject listing mint).map PriceQuote.priceE9)
        = prices.map some →
      (fetchPricesE9 ofObject fetchImpl mints sent).1 = .ok prices) ∧
    (∃ batches : List (List JsString), ∃ ks : List ℕ, batches.flatten = mints.eraseDups ∧
      (∀ batch ∈ batches, batch ≠ [] ∧ batch.length ≤ 50) ∧
      ks.length ≤ batches.length ∧ (∀ k ∈ ks, k ≤ 3) ∧
      (fetchPricesE9 ofObject fetchImpl mints sent).2
        = sent ++ (List.zipWith (fun batch k => List.replicate k (priceUrl batch))
            batches ks).flatten) := by
  have hflatten : (chunk mints.eraseDups 50).flatten = mints.eraseDups :=
    flatten_chunk _ (by decide)
  have hmints : ∀ batch ∈ chunk mints.eraseDups 50, ∀ mint ∈ batch, mint ∈ mints := by
    intro batch hbatch mint hmint
    apply List.mem_eraseDups.mp
    rw [← hflatten]
    exact List.mem_flatten.mpr ⟨batch, hbatch, hmint⟩
  have hne : ∀ batch ∈ chunk mints.eraseDups 50, batch ≠ [] := fun _ => ne_nil_of_mem_chunk
  have hcommas : ∀ batch ∈ chunk mints.eraseDups 50, ∀ mint ∈ batch, unit ',' ∉ mint :=
    fun batch hbatch mint hmint => hcomma mint (hmints batch hbatch mint hmint)
  have hquoted : ∀ {quotes}, (fetchPrices ofObject fetchImpl mints sent).1 = .ok quotes →
      mints.map (fun mint => (quotes.lookup mint).map PriceQuote.priceE9)
        = mints.map fun mint => (quoteOf ofObject listing mint).map PriceQuote.priceE9 := by
    intro quotes h
    have hnone : Quoted ofObject listing [] ∅ := fun mint => AList.lookup_empty mint
    have hall := fetchBatches_quoted hserves hne hcommas hnone h
    rw [List.nil_append, hflatten] at hall
    refine List.map_congr_left fun mint hmint => ?_
    rw [hall mint, if_pos (List.mem_eraseDups.mpr hmint)]
  refine ⟨?_, ?_, ?_⟩
  · intro prices h
    rw [fetchPricesE9] at h
    rcases hfetch : fetchPrices ofObject fetchImpl mints sent with ⟨e | quotes, sent'⟩
    · rw [hfetch] at h
      cases h
    · rw [hfetch] at h
      rw [← hquoted (by rw [hfetch])]
      exact mapM_priceOf_ok_iff.mp h
  · intro hreliable hreadable prices hprices
    obtain ⟨quotes, hquotes⟩ := fetchBatches_ok hserves hreliable hne hcommas
      (fun batch hbatch mint hmint => hreadable mint (hmints batch hbatch mint hmint)) ∅ sent
    have hquotes : (fetchPrices ofObject fetchImpl mints sent).1 = .ok quotes := hquotes
    have hlookup := hquoted hquotes
    rw [fetchPricesE9]
    rcases hfetch : fetchPrices ofObject fetchImpl mints sent with ⟨result, sent'⟩
    rw [hfetch] at hquotes
    obtain rfl : result = _ := hquotes
    exact mapM_priceOf_ok_iff.mpr (hlookup.trans hprices)
  · obtain ⟨ks, hlength, hks, hsent⟩ :=
      fetchBatches_sent ofObject fetchImpl (chunk mints.eraseDups 50) ∅ sent
    refine ⟨chunk mints.eraseDups 50, ks, hflatten,
      fun batch hbatch => ⟨hne batch hbatch, length_le_of_mem_chunk hbatch⟩, hlength, hks, ?_⟩
    rw [← hsent, fetchPricesE9, fetchPrices]
    rcases fetchBatches ofObject fetchImpl (chunk mints.eraseDups 50) ∅ sent
      with ⟨e | quotes, sent'⟩
    · rfl
    · rfl

end

/-! ### A server -/

/-- It turns every request away once, and then answers it. -/
def market (listing : JsString → Option Json) : FetchLike := fun earlier url =>
  if earlier.getLast? = some url then
    let ids := (url.drop (priceUrl []).length).splitOn (unit ',')
    let fields := ids.dedup.filterMap fun id => (listing id).map fun value => (id, value)
    .ok { ok := true, status := 200, json := .ok (.object fields) }
  else .ok { ok := false, status := 503, json := .ok .null }

/-- The server of the example serves its listing. -/
theorem market_serves (listing : JsString → Option Json) : Serves (market listing) listing := by
  intro earlier batch response payload hne hcomma hfetch hok hjson
  rw [market] at hfetch
  by_cases hagain : earlier.getLast? = some (priceUrl batch)
  · rw [if_pos hagain] at hfetch
    have hids : ((priceUrl batch).drop (priceUrl []).length).splitOn (unit ',') = batch := by
      have hbegin : priceUrl [] = ascii "https://lite-api.jup.ag/price/v3?ids=" :=
        List.append_nil _
      rw [hbegin, priceUrl, List.drop_left, List.splitOn_intercalate _ hcomma hne]
    obtain rfl := Except.ok.inj hfetch
    obtain rfl := Except.ok.inj hjson
    refine ⟨_, rfl, ?_, ?_⟩
    · rw [hids, List.map_filterMap]
      refine List.Nodup.filterMap ?_ (List.nodup_dedup batch)
      intro id id' key hid hid'
      rw [Option.map_map] at hid hid'
      obtain ⟨value, -, rfl⟩ := Option.map_eq_some_iff.mp hid
      obtain ⟨value', -, heq⟩ := Option.map_eq_some_iff.mp hid'
      exact heq.symm
    · intro mint value
      rw [hids, List.mem_filterMap]
      constructor
      · rintro ⟨id, hid, hentry⟩
        obtain ⟨value', hvalue, heq⟩ := Option.map_eq_some_iff.mp hentry
        obtain ⟨rfl, rfl⟩ := Prod.mk.inj heq
        exact ⟨List.mem_dedup.mp hid, hvalue⟩
      · rintro ⟨hmem, hvalue⟩
        exact ⟨mint, List.mem_dedup.mpr hmem, by rw [hvalue]; rfl⟩
  · rw [if_neg hagain] at hfetch
    obtain rfl := Except.ok.inj hfetch
    cases hok

/-- The server of the example answers every time. -/
theorem market_reliable (listing : JsString → Option Json) : Reliable (market listing) := by
  intro earlier url
  refine ⟨1, by decide, ?_⟩
  have hlast : (earlier ++ List.replicate 1 url).getLast? = some url := List.getLast?_concat
  exact ⟨_, _, if_pos hlast, rfl, rfl⟩

/-- An entry with a plain number as its price is a quote at that price. -/
theorem quoteEntry_number {mint : JsString} {value : Json} {x : Double} {price : ℤ}
    (hvalue : value.get? (ascii "usdPrice") = some (.number x)) (hprice : toPriceE9 x = .ok price) :
    ∃ quote, quoteEntry ofObject mint value = .ok (some quote) ∧ quote.priceE9 = price := by
  obtain ⟨q, rfl, hpos, -⟩ := toPriceE9_ok_iff.mp hprice
  cases value with
  | object fields =>
    unfold quoteEntry
    simp only [hvalue, numberOf, if_neg (not_le.mpr hpos), hprice]
    exact ⟨_, rfl, rfl⟩
  | null | bool b | number y | string text | array items => cases hvalue

/-- Two tokens with a price. -/
def twoTokens : JsString → Option Json := fun mint =>
  if mint = ascii "SOL" then
    some (.object [(ascii "usdPrice", .number (Double.round ((160250000000 : ℕ) / 1000000000)))])
  else if mint = ascii "USDC" then
    some (.object [(ascii "usdPrice", .number (Double.round ((999800000 : ℕ) / 1000000000)))])
  else none

/-- Two mints, one of them asked for twice. -/
theorem fetchPricesE9_listed_twice :
    (fetchPricesE9 (fun _ => .nan) (market twoTokens)
      [ascii "SOL", ascii "USDC", ascii "SOL"] []).1
      = .ok [160250000000, 999800000, 160250000000] := by
  have hsol : ∃ quote, quoteEntry (fun _ => .nan) (ascii "SOL") (.object [(ascii "usdPrice",
      .number (Double.round ((160250000000 : ℕ) / 1000000000)))]) = .ok (some quote) ∧
      quote.priceE9 = 160250000000 :=
    quoteEntry_number (by rfl) (toPriceE9_decimal (by decide) (by decide))
  have husdc : ∃ quote, quoteEntry (fun _ => .nan) (ascii "USDC") (.object [(ascii "usdPrice",
      .number (Double.round ((999800000 : ℕ) / 1000000000)))]) = .ok (some quote) ∧
      quote.priceE9 = 999800000 :=
    quoteEntry_number (by rfl) (toPriceE9_decimal (by decide) (by decide))
  obtain ⟨solQuote, hsol, hsolPrice⟩ := hsol
  obtain ⟨usdcQuote, husdc, husdcPrice⟩ := husdc
  have hsolListed : twoTokens (ascii "SOL") = some _ := if_pos rfl
  have husdcListed : twoTokens (ascii "USDC") = some _ :=
    (if_neg (by decide)).trans (if_pos rfl)
  refine (fetchPricesE9_listed (market_serves twoTokens) (by decide) []).2.1
    (market_reliable twoTokens) ?_ _ ?_
  · intro mint hmint value hvalue
    simp only [List.mem_cons, List.not_mem_nil, or_false] at hmint
    obtain rfl | rfl | rfl := hmint
    · rw [hsolListed] at hvalue
      obtain rfl := Option.some.inj hvalue
      exact ⟨_, hsol⟩
    · rw [husdcListed] at hvalue
      obtain rfl := Option.some.inj hvalue
      exact ⟨_, husdc⟩
    · rw [hsolListed] at hvalue
      obtain rfl := Option.some.inj hvalue
      exact ⟨_, hsol⟩
  · have h1 : quoteOf (fun _ => .nan) twoTokens (ascii "SOL") = some solQuote := by
      simp only [quoteOf, hsolListed, hsol]
    have h2 : quoteOf (fun _ => .nan) twoTokens (ascii "USDC") = some usdcQuote := by
      simp only [quoteOf, husdcListed, husdc]
    simp only [List.map_cons, List.map_nil, h1, h2, Option.map_some, hsolPrice, husdcPrice]

end Flock.Sdk
