import Flock.Lib.Base58
import Flock.Lib.Double

/-!
# Decimal numerals

Digits with the first one first, as they are written, and what they are worth. Text made of
them, with a point in it or not, is read by `Number` as the double of what it says.
-/

namespace Decimal

open Double

/-! ## Digits -/

def value (ds : List ℕ) : ℕ := ds.foldl (fun acc d => acc * 10 + d) 0

/-- The digits of a number. Zero has one. -/
def digitsOf (n : ℕ) : List ℕ := if n = 0 then [0] else (Base58.digits 10 n n).reverse

/-- `padStart(width, "0")` -/
def padStart (width : ℕ) (ds : List ℕ) : List ℕ := List.replicate (width - ds.length) 0 ++ ds

/-- Reading on from a number puts it in front. -/
theorem foldl_value (acc : ℕ) (ds : List ℕ) :
    ds.foldl (fun acc d => acc * 10 + d) acc = acc * 10 ^ ds.length + value ds := by
  induction ds generalizing acc with
  | nil => rw [List.foldl_nil, List.length_nil, pow_zero, mul_one]; rfl
  | cons d ds ih =>
    have hd : value (d :: ds) = d * 10 ^ ds.length + value ds := by
      rw [value, List.foldl_cons, ih, Nat.zero_mul, Nat.zero_add]
    rw [List.foldl_cons, ih, hd, List.length_cons, pow_succ]
    ring

/-- Digits behind digits move them up. -/
theorem value_append (as bs : List ℕ) : value (as ++ bs) = value as * 10 ^ bs.length + value bs := by
  rw [value, List.foldl_append, foldl_value]
  rfl

/-- With the last digit first it is the value Mathlib knows. -/
theorem value_reverse (ds : List ℕ) : value ds.reverse = Nat.ofDigits 10 ds := by
  induction ds with
  | nil => rfl
  | cons d ds ih =>
    rw [List.reverse_cons, value_append, ih, Nat.ofDigits_cons, List.length_singleton, pow_one]
    show Nat.ofDigits 10 ds * 10 + (0 * 10 + d) = _
    omega

/-- `n` digits are worth less than 10 ^ n. -/
theorem value_lt {ds : List ℕ} (h : ∀ d ∈ ds, d < 10) : value ds < 10 ^ ds.length := by
  have hrev := value_reverse ds.reverse
  rw [List.reverse_reverse] at hrev
  rw [hrev, ← List.length_reverse]
  apply Nat.ofDigits_lt_base_pow_length (by decide)
  intro d hd
  exact h d (List.mem_reverse.mp hd)

/-- The digits of a number are worth the number. -/
theorem value_digitsOf (n : ℕ) : value (digitsOf n) = n := by
  unfold digitsOf
  by_cases hzero : n = 0
  · rw [if_pos hzero, hzero]
    rfl
  · rw [if_neg hzero, value_reverse]
    exact Base58.ofDigits_digits (by decide) (Nat.lt_pow_self (by decide))

/-- Digits are below ten. -/
theorem digitsOf_lt (n : ℕ) : ∀ d ∈ digitsOf n, d < 10 := by
  intro d hd
  unfold digitsOf at hd
  by_cases hzero : n = 0
  · rw [if_pos hzero, List.mem_singleton] at hd
    omega
  · rw [if_neg hzero, List.mem_reverse] at hd
    exact Base58.digits_lt (by decide) n n d hd

/-- Every number has a digit. -/
theorem digitsOf_ne_nil (n : ℕ) : digitsOf n ≠ [] := by
  unfold digitsOf
  by_cases hzero : n = 0
  · rw [if_pos hzero]
    exact List.cons_ne_nil 0 []
  · rw [if_neg hzero]
    intro hnil
    have hfuel : n < 10 ^ n := Nat.lt_pow_self (by decide)
    have hvalue := Base58.ofDigits_digits (by decide) hfuel
    rw [List.reverse_eq_nil_iff.mp hnil] at hvalue
    exact hzero hvalue.symm

/-- A number below 10 ^ k has at most `k` digits, whatever the fuel. -/
theorem length_digits_le {k n : ℕ} (h : n < 10 ^ k) (fuel : ℕ) :
    (Base58.digits 10 fuel n).length ≤ k := by
  induction fuel generalizing k n with
  | zero => exact Nat.zero_le k
  | succ fuel ih =>
    rw [Base58.digits]
    by_cases hzero : n = 0
    · rw [if_pos hzero]
      exact Nat.zero_le k
    · rw [if_neg hzero, List.length_cons]
      cases k with
      | zero => omega
      | succ k =>
        apply Nat.succ_le_succ
        apply ih
        rw [pow_succ] at h
        omega

/-- A number below 10 ^ k has at most `k` digits, zero included. -/
theorem length_digitsOf_le {k n : ℕ} (hk : 0 < k) (h : n < 10 ^ k) : (digitsOf n).length ≤ k := by
  unfold digitsOf
  by_cases hzero : n = 0
  · rw [if_pos hzero]
    exact hk
  · rw [if_neg hzero, List.length_reverse]
    exact length_digits_le h n

section Padded

variable {width : ℕ} {ds : List ℕ}

/-- What is short enough is padded to the width. -/
theorem length_padStart (h : ds.length ≤ width) : (padStart width ds).length = width := by
  rw [padStart, List.length_append, List.length_replicate]
  omega

/-- Zeroes in front are worth nothing. -/
theorem value_padStart (width : ℕ) (ds : List ℕ) : value (padStart width ds) = value ds := by
  have hzeroes : ∀ n, value (List.replicate n 0) = 0 := by
    intro n
    induction n with
    | zero => rfl
    | succ n ih =>
      rw [List.replicate_succ', value_append, ih]
      rfl
  rw [padStart, value_append, hzeroes, Nat.zero_mul, Nat.zero_add]

/-- Padding is made of digits. -/
theorem padStart_lt (h : ∀ d ∈ ds, d < 10) : ∀ d ∈ padStart width ds, d < 10 := by
  intro d hd
  rcases List.mem_append.mp hd with hzero | hin
  · rw [List.eq_of_mem_replicate hzero]
    decide
  · exact h d hin

/-- The first digits of a number are the number without its last ones. -/
theorem value_take (k : ℕ) (h : ∀ d ∈ ds, d < 10) :
    value (ds.take k) = value ds / 10 ^ (ds.length - k) := by
  have hsplit := value_append (ds.take k) (ds.drop k)
  rw [List.take_append_drop, List.length_drop] at hsplit
  have hlow : value (ds.drop k) < 10 ^ (ds.length - k) := by
    have hlt : value (ds.drop k) < 10 ^ (ds.drop k).length :=
      value_lt fun d hd => h d (List.mem_of_mem_drop hd)
    rwa [List.length_drop] at hlt
  rw [hsplit, Nat.mul_comm, Nat.mul_add_div (by positivity), Nat.div_eq_of_lt hlow, Nat.add_zero]

end Padded

/-! ## Text -/

def digitUnit (d : ℕ) : UInt16 := UInt16.ofNat (48 + d)

def numeral (ds : List ℕ) : List UInt16 := ds.map digitUnit

/-- A digit or a point. -/
def Plain (u : UInt16) : Prop := u = unit '.' ∨ ∃ d < 10, u = digitUnit d

/-- A numeral is plain. -/
theorem plain_numeral {ds : List ℕ} (h : ∀ d ∈ ds, d < 10) : ∀ u ∈ numeral ds, Plain u := by
  intro u hu
  obtain ⟨d, hd, rfl⟩ := List.mem_map.mp hu
  exact .inr ⟨d, h d hd, rfl⟩

/-- No digit is a point. -/
theorem digitUnit_ne_point {d : ℕ} (h : d < 10) : digitUnit d ≠ unit '.' := by
  have hall : ∀ d < 10, digitUnit d ≠ unit '.' := by decide
  exact hall d h

/-- Nothing of what else `Number` looks for. -/
theorem Plain.ordinary {u : UInt16} (h : Plain u) : isWhite u = false ∧ u ≠ unit '-' ∧
    u ≠ unit '+' ∧ u ≠ unit 'e' ∧ u ≠ unit 'E' ∧ u ≠ unit 'I' ∧ u ≠ unit 'x' ∧ u ≠ unit 'X' ∧
    u ≠ unit 'o' ∧ u ≠ unit 'O' ∧ u ≠ unit 'b' ∧ u ≠ unit 'B' := by
  rcases h with rfl | ⟨d, hd, rfl⟩
  · decide
  · have hall : ∀ d < 10, isWhite (digitUnit d) = false ∧ digitUnit d ≠ unit '-' ∧
        digitUnit d ≠ unit '+' ∧ digitUnit d ≠ unit 'e' ∧ digitUnit d ≠ unit 'E' ∧
        digitUnit d ≠ unit 'I' ∧ digitUnit d ≠ unit 'x' ∧ digitUnit d ≠ unit 'X' ∧
        digitUnit d ≠ unit 'o' ∧ digitUnit d ≠ unit 'O' ∧ digitUnit d ≠ unit 'b' ∧
        digitUnit d ≠ unit 'B' := by decide
    exact hall d hd

section Reading

variable {text : List UInt16} (h : ∀ u ∈ text, Plain u)

include h

/-- There is nothing to trim. -/
theorem trim_plain : trim text = text := by
  have hblack : ∀ u ∈ text, ¬ isWhite u = true := by
    intro u hu hw
    rw [(h u hu).ordinary.1] at hw
    cases hw
  have hleft : text.dropWhile isWhite = text := by
    cases text with
    | nil => rfl
    | cons u text => exact List.dropWhile_cons_of_neg (hblack u List.mem_cons_self)
  rw [trim, hleft]
  apply List.rdropWhile_eq_self_iff.mpr
  intro hne
  exact hblack _ (List.getLast_mem hne)

/-- There is no `0x` in front, nor its like. -/
theorem radix_plain : radix? text = none := by
  match text, h with
  | [], _ => rfl
  | [_], _ => rfl
  | u :: v :: text, h =>
    obtain ⟨-, -, -, -, -, -, hx, hX, ho, hO, hb, hB⟩ := (h v (by simp)).ordinary
    rw [radix?]
    split
    · rfl
    · rw [if_neg (by rintro (h | h) <;> contradiction), if_neg (by rintro (h | h) <;> contradiction),
        if_neg (by rintro (h | h) <;> contradiction)]

/-- There is no sign in front. -/
theorem sign_plain : sign text = (false, text) := by
  cases text with
  | nil => rfl
  | cons u text =>
    obtain ⟨-, hminus, hplus, -⟩ := (h u List.mem_cons_self).ordinary
    rw [sign, if_neg hminus, if_neg hplus]

/-- There is no exponent behind. -/
theorem decimal_plain : decimal? text
    = (mantissa? text).map fun p : ℕ × ℕ => (p.1 : ℚ) * 10 ^ (-(p.2 : ℤ)) := by
  have hsplit : (text.splitOnP fun u => u = unit 'e' ∨ u = unit 'E') = [text] := by
    apply List.splitOnP_eq_singleton
    intro u hu
    obtain ⟨-, -, -, he, hE, -⟩ := (h u hu).ordinary
    simp [he, hE]
  rw [decimal?, hsplit]

/-- `Number` of a plain numeral. -/
theorem ofText_plain (hne : text ≠ []) : ofText text
    = ((mantissa? text).map fun p : ℕ × ℕ => Double.round (p.1 * 10 ^ (-(p.2 : ℤ)))).getD .nan := by
  have hfinite : text ≠ "Infinity".toList.map unit := by
    intro hinf
    have hfirst : unit 'I' ∈ text := by
      rw [hinf]
      decide
    obtain ⟨-, -, -, -, -, hI, -⟩ := (h _ hfirst).ordinary
    exact hI rfl
  rw [ofText, trim_plain h]
  dsimp only
  rw [if_neg hne, radix_plain h]
  dsimp only
  rw [sign_plain h]
  dsimp only
  rw [if_neg hfinite, decimal_plain h, Option.map_map]
  rfl

end Reading

/-- A numeral is read as its value. -/
theorem digits?_numeral {ds : List ℕ} (hne : ds ≠ []) (h : ∀ d ∈ ds, d < 10) :
    digits? 10 (numeral ds) = some (value ds) := by
  have hone : ∀ d < 10, digit? 10 (digitUnit d) = some d := by decide
  have hfold : ∀ (ds : List ℕ) (acc : ℕ), (∀ d ∈ ds, d < 10) →
      (numeral ds).foldlM (fun acc u => (digit? 10 u).map (acc * 10 + ·)) acc
        = some (ds.foldl (fun acc d => acc * 10 + d) acc) := by
    intro ds
    induction ds with
    | nil => exact fun acc _ => rfl
    | cons d ds ih =>
      intro acc h
      rw [numeral, List.map_cons, List.foldlM_cons, hone d (h d List.mem_cons_self)]
      exact ih (acc * 10 + d) fun d' hd' => h d' (List.mem_cons_of_mem d hd')
  rw [digits?, if_neg]
  · exact hfold ds 0 h
  · intro hnil
    exact hne (List.map_eq_nil_iff.mp hnil)

/-- There is no point in a numeral. -/
theorem point_not_mem {ds : List ℕ} (h : ∀ d ∈ ds, d < 10) : unit '.' ∉ numeral ds := by
  intro hmem
  obtain ⟨d, hd, heq⟩ := List.mem_map.mp hmem
  exact digitUnit_ne_point (h d hd) heq

/-- What is written of a decimal: digits, or digits around a point. There may be none on one
side of the point. -/
def written (ws : List ℕ) : Option (List ℕ) → List UInt16
  | none => numeral ws
  | some fs => numeral ws ++ unit '.' :: numeral fs

section Numerals

variable {ws : List ℕ}

/-- Digits without a point: the double of the number they are. -/
theorem ofText_whole (hws : ∀ d ∈ ws, d < 10) (hne : ws ≠ []) :
    ofText (numeral ws) = Double.round (value ws) := by
  have htext : numeral ws ≠ [] := fun hnil => hne (List.map_eq_nil_iff.mp hnil)
  rw [ofText_plain (plain_numeral hws) htext, mantissa?,
    List.splitOn_eq_singleton (point_not_mem hws)]
  dsimp only
  rw [digits?_numeral hne hws]
  simp

/-- Digits with a point among them, before them or behind them: the double of the fraction
they are. -/
theorem ofText_point {fs : List ℕ} (hdigits : ∀ d ∈ ws ++ fs, d < 10) (hne : ws ++ fs ≠ []) :
    ofText (numeral ws ++ unit '.' :: numeral fs)
      = Double.round ((value (ws ++ fs) : ℚ) / 10 ^ fs.length) := by
  have hws : ∀ d ∈ ws, d < 10 := fun d hd => hdigits d (List.mem_append_left fs hd)
  have hfs : ∀ d ∈ fs, d < 10 := fun d hd => hdigits d (List.mem_append_right ws hd)
  have hsplit : (numeral ws ++ unit '.' :: numeral fs).splitOn (unit '.')
      = [numeral ws, numeral fs] := by
    rw [List.splitOn_append_cons_self_of_not_mem (point_not_mem hws),
      List.splitOn_eq_singleton (point_not_mem hfs)]
  have hplain : ∀ u ∈ numeral ws ++ unit '.' :: numeral fs, Plain u := by
    intro u hu
    rcases List.mem_append.mp hu with hw | hf
    · exact plain_numeral hws u hw
    · rcases List.mem_cons.mp hf with rfl | hf
      · exact .inl rfl
      · exact plain_numeral hfs u hf
  have hread : digits? 10 (numeral ws ++ numeral fs) = some (value (ws ++ fs)) := by
    have hread := digits?_numeral hne hdigits
    rwa [numeral, List.map_append] at hread
  rw [ofText_plain hplain (by simp), mantissa?, hsplit]
  dsimp only
  rw [hread, Option.map_some, Option.map_some, Option.getD_some]
  have hlen : (numeral fs).length = fs.length := List.length_map digitUnit
  rw [hlen, zpow_neg, zpow_natCast, div_eq_mul_inv]

/-- Both at once, a missing fraction having no digits. -/
theorem ofText_written {fraction : Option (List ℕ)}
    (hdigits : ∀ d ∈ ws ++ fraction.getD [], d < 10) (hne : ws ++ fraction.getD [] ≠ []) :
    ofText (written ws fraction)
      = Double.round ((value (ws ++ fraction.getD []) : ℚ) / 10 ^ (fraction.getD []).length) := by
  cases fraction with
  | none =>
    rw [Option.getD_none, List.append_nil] at hdigits hne ⊢
    rw [written, ofText_whole hdigits hne, List.length_nil, pow_zero, div_one]
  | some fs => exact ofText_point hdigits hne

end Numerals

end Decimal
