import Flock.Lib.Rounding
import Mathlib.Data.List.Chain
import Mathlib.Logic.Relation

/-!
# A pool that quotes itself in whole units

A pool holds `assets` against `shares`, and quotes how much of the asset stands
behind `e` shares, as a whole number. Whoever enters pays at a quote, rounded
up; whoever leaves is paid at a quote, rounded down; anybody may give assets
away or destroy shares.

`Covers e u p` says the pool can honour the quote `u` for all its shares. No move
at a quote takes that away (`Move.covers`), so the pool's own quote never falls.
Rounding the quote itself down can still cost the pool a little on an entry,
which is why no inequality of one step says that trading is no free lunch. What
holds is a statement on runs (`assets_le_of_run`): while the quote stands still
the pool's surplus over it does not fall, and once the quote has risen the pool
holds more than at the start for the same number of shares. Of exits alone more
can be said (`richer_of_isChain`): they leave an exact share to whoever stays.
-/

namespace Pool

structure State where
  shares : ℕ
  assets : ℕ

variable {e u : ℕ} {p q : State}

/-- What stands behind `e` shares, in whole units. -/
def rate (e : ℕ) (p : State) : ℕ := p.assets * e / p.shares

def Covers (e u : ℕ) (p : State) : Prop := u * p.shares ≤ p.assets * e

theorem covers_iff_le_rate (hp : 0 < p.shares) : Covers e u p ↔ u ≤ rate e p :=
  (Nat.le_div_iff_mul_le hp).symm

/-- The pool quotes `u`. -/
def Quotes (e u : ℕ) (p : State) : Prop :=
  u * p.shares ≤ p.assets * e ∧ p.assets * e < (u + 1) * p.shares

instance (e u : ℕ) (p : State) : Decidable (Quotes e u p) := inferInstanceAs (Decidable (_ ∧ _))

theorem quotes_iff (hp : 0 < p.shares) : Quotes e u p ↔ u = rate e p := by
  constructor
  · intro h
    exact (Nat.div_eq_of_lt_le h.1 h.2).symm
  · intro h
    subst h
    refine ⟨Nat.div_mul_le_self _ _, ?_⟩
    rw [Nat.mul_comm (rate e p + 1)]
    exact Nat.lt_mul_div_succ _ hp

theorem covers_rate (e : ℕ) (p : State) : Covers e (rate e p) p := Nat.div_mul_le_self _ _

/-- One move at the quote `u`. -/
inductive Move (e u : ℕ) (p q : State) : Prop where
  /-- `g` shares were issued against the quote, rounded up. -/
  | enter (g : ℕ) (shares : q.shares = p.shares + g)
      (assets : p.assets + (u * g) ⌈/⌉ e ≤ q.assets)
  /-- `n` shares were retired against the quote, rounded down. -/
  | leave (n : ℕ) (shares : q.shares + n = p.shares)
      (assets : p.assets ≤ q.assets + u * n / e)
  /-- Assets came in and shares went out, for nothing. -/
  | gift (shares : q.shares ≤ p.shares) (assets : p.assets ≤ q.assets)

/-- Against the quote it was made at, a move does not lower the surplus
`assets * e - u * shares`. -/
theorem Move.surplus (he : 0 < e) (h : Move e u p q) :
    p.assets * e + u * q.shares ≤ q.assets * e + u * p.shares := by
  cases h with
  | enter g shares assets =>
    have hceil := Rounding.le_ceilDiv_mul he (u * g)
    have hassets := Nat.mul_le_mul_right e assets
    rw [shares]
    linarith [Nat.add_mul p.assets ((u * g) ⌈/⌉ e) e, Nat.mul_add u p.shares g]
  | leave n shares assets =>
    have hfloor := Nat.div_mul_le_self (u * n) e
    have hassets := Nat.mul_le_mul_right e assets
    rw [← shares]
    linarith [Nat.add_mul q.assets (u * n / e) e, Nat.mul_add u q.shares n]
  | gift shares assets =>
    exact Nat.add_le_add (Nat.mul_le_mul_right e assets) (Nat.mul_le_mul_left u shares)

/-- A move at a quote that was covered leaves it covered. -/
theorem Move.covers (he : 0 < e) (h : Move e u p q) (hu : Covers e u p) : Covers e u q := by
  have hsur := h.surplus he
  unfold Covers at *
  omega

/-- A move at the pool's own quote, between states with shares outstanding. -/
structure Trade (e : ℕ) (p q : State) : Prop where
  before : 0 < p.shares
  after : 0 < q.shares
  move : Move e (rate e p) p q

theorem Trade.rate_le (he : 0 < e) (h : Trade e p q) : rate e p ≤ rate e q :=
  (covers_iff_le_rate h.after).mp (h.move.covers he (covers_rate e p))

theorem rate_le_of_run (he : 0 < e) (h : Relation.ReflTransGen (Trade e) p q) :
    rate e p ≤ rate e q := by
  induction h with
  | refl => exact le_refl _
  | tail _ ht ih => exact ih.trans (ht.rate_le he)

/-- While the quote stands still, the surplus over it does not fall. -/
theorem surplus_of_run (he : 0 < e) (h : Relation.ReflTransGen (Trade e) p q)
    (hr : rate e q = rate e p) :
    p.assets * e + rate e p * q.shares ≤ q.assets * e + rate e p * p.shares := by
  induction h with
  | refl => exact le_refl _
  | @tail b c hrun ht ih =>
    have hb : rate e b = rate e p :=
      le_antisymm ((ht.rate_le he).trans hr.le) (rate_le_of_run he hrun)
    have hstep := ht.move.surplus he
    rw [hb] at hstep
    have := ih hb
    omega

/-- No free lunch: a run that does not lower the shares does not lower the
assets. -/
theorem assets_le_of_run (he : 0 < e) (h : Relation.ReflTransGen (Trade e) p q)
    (hp : 0 < p.shares) (hs : p.shares ≤ q.shares) : p.assets ≤ q.assets := by
  refine Nat.le_of_mul_le_mul_right ?_ he
  rcases Nat.eq_or_lt_of_le (rate_le_of_run he h) with hr | hr
  · have hsur := surplus_of_run he h hr.symm
    have := Nat.mul_le_mul_left (rate e p) hs
    omega
  · have hlt : p.assets * e < (rate e p + 1) * p.shares := by
      rw [Nat.mul_comm (rate e p + 1)]
      exact Nat.lt_mul_div_succ (p.assets * e) hp
    calc p.assets * e ≤ (rate e p + 1) * p.shares := hlt.le
      _ ≤ rate e q * q.shares := Nat.mul_le_mul hr hs
      _ ≤ q.assets * e := Nat.div_mul_le_self _ _

/-- Whoever enters at the pool's own quote pays no less than at one that it covers,
and leaves that one covered. -/
theorem covers_of_enter (he : 0 < e) {g : ℕ} (hp : 0 < p.shares) (hu : Covers e u p)
    (shares : q.shares = p.shares + g) (assets : q.assets = p.assets + (rate e p * g) ⌈/⌉ e) :
    Covers e u q ∧ p.assets + (u * g) ⌈/⌉ e ≤ q.assets := by
  have hle : u * g ≤ rate e p * g := Nat.mul_le_mul_right g ((covers_iff_le_rate hp).mp hu)
  have hceil := Rounding.ceilDiv_le_ceilDiv he hle
  have hpaid : p.assets + (u * g) ⌈/⌉ e ≤ q.assets := by omega
  exact ⟨(Move.enter g shares hpaid).covers he hu, hpaid⟩

/-! ## What stands behind a share, exactly -/

/-- At least as much stands behind each share, with nothing rounded. -/
def Richer (p q : State) : Prop := p.assets * q.shares ≤ q.assets * p.shares

/-- What the quote leaves out by being rounded down, in `e`-th units per share. -/
def quoteDust (e : ℕ) (p : State) : ℕ := p.assets * e % p.shares

/-- What the price of `g` shares adds by being rounded up, in `e`-th units. -/
def priceDust (e u g : ℕ) : ℕ := (u * g) ⌈/⌉ e * e - u * g

/-- Who leaves at the pool's own quote takes no more than an exact share. -/
theorem richer_of_leave (he : 0 < e) {n : ℕ} (shares : q.shares + n = p.shares)
    (assets : p.assets ≤ q.assets + rate e p * n / e) : Richer p q := by
  have hpaid : rate e p * n / e * p.shares ≤ p.assets * n := by
    refine Nat.le_of_mul_le_mul_right ?_ he
    calc rate e p * n / e * p.shares * e
        = rate e p * n / e * e * p.shares := Nat.mul_right_comm _ _ _
      _ ≤ rate e p * n * p.shares := Nat.mul_le_mul_right _ (Nat.div_mul_le_self _ _)
      _ = rate e p * p.shares * n := Nat.mul_right_comm _ _ _
      _ ≤ p.assets * e * n := Nat.mul_le_mul_right _ (covers_rate e p)
      _ = p.assets * n * e := Nat.mul_right_comm _ _ _
  have hle := Nat.mul_le_mul_right p.shares assets
  have hsplit : p.assets * p.shares = p.assets * q.shares + p.assets * n := by
    rw [← shares, Nat.mul_add]
  rw [Nat.add_mul] at hle
  unfold Richer
  omega

/-- Who enters at the pool's own quote delivers an exact share exactly when what
the price was rounded up by makes good what the quote was rounded down by. -/
theorem richer_enter_iff (he : 0 < e) {g : ℕ} (shares : q.shares = p.shares + g)
    (assets : q.assets = p.assets + (rate e p * g) ⌈/⌉ e) :
    Richer p q ↔ quoteDust e p * g ≤ priceDust e (rate e p) g * p.shares := by
  have hquote : p.shares * rate e p + quoteDust e p = p.assets * e :=
    Nat.div_add_mod (p.assets * e) p.shares
  have hprice : (rate e p * g) ⌈/⌉ e * e = rate e p * g + priceDust e (rate e p) g :=
    (Nat.add_sub_cancel' (Rounding.le_ceilDiv_mul he _)).symm
  have howed : p.assets * g * e = p.shares * rate e p * g + quoteDust e p * g := by
    rw [Nat.mul_right_comm, ← hquote, Nat.add_mul]
  have hpaid : (rate e p * g) ⌈/⌉ e * p.shares * e
      = p.shares * rate e p * g + priceDust e (rate e p) g * p.shares := by
    rw [Nat.mul_right_comm, hprice]
    ring
  have hmargin : Richer p q ↔ p.assets * g ≤ (rate e p * g) ⌈/⌉ e * p.shares := by
    unfold Richer
    rw [shares, assets, Nat.mul_add, Nat.add_mul p.assets]
    omega
  rw [hmargin, ← Nat.mul_le_mul_right_iff he, howed, hpaid]
  omega

/-! ## How far a quote is from turning over

`margin e u p` is what the assets are over `u` for every share, in `e`-th units. A pool quotes
`u` while its margin over `u` is not negative and less than a unit for every share
(`quotes_iff_margin`). Shares minted for nothing take `u` each off it; whoever trades at another
quote takes or brings the difference, and every rounding adds to it. -/

def margin (e u : ℕ) (p : State) : ℤ := p.assets * e - u * p.shares

/-- The quote is `u` just while the margin over `u` makes no unit more and none less. -/
theorem quotes_iff_margin :
    Quotes e u p ↔ 0 ≤ margin e u p ∧ margin e u p < p.shares := by
  unfold Quotes margin
  rw [sub_nonneg, sub_lt_iff_lt_add']
  have hnext : (u : ℤ) * p.shares + p.shares = ((u + 1) * p.shares : ℕ) := by
    push_cast
    ring
  rw [hnext]
  norm_cast

/-- The quote is `u` and as many units as the margin over `u` makes. -/
theorem rate_eq_add_margin (hp : 0 < p.shares) :
    (rate e p : ℤ) = u + margin e u p / p.shares := by
  have hsplit : (p.assets : ℤ) * e = u * p.shares + margin e u p := by
    unfold margin
    ring
  rw [rate, Int.natCast_ediv, Nat.cast_mul, hsplit, Int.add_comm,
    Int.add_mul_ediv_right _ _ (by omega), Int.add_comm]

/-- Shares for nothing take the quote off the margin, each of them. -/
theorem margin_dilute (e u x : ℕ) (p : State) :
    margin e u { p with shares := p.shares + x } = margin e u p - u * x := by
  unfold margin
  push_cast
  ring

/-- Whoever enters at the quote `v` brings the difference to `u`, and the rounding. -/
theorem margin_enter (he : 0 < e) (u v g : ℕ) (p : State) :
    margin e u { shares := p.shares + g, assets := p.assets + (v * g) ⌈/⌉ e } =
      margin e u p + (v - u) * g + priceDust e v g := by
  have hprice : (((v * g) ⌈/⌉ e : ℕ) : ℤ) * e = v * g + priceDust e v g := by
    have h : (v * g) ⌈/⌉ e * e = v * g + priceDust e v g :=
      (Nat.add_sub_cancel' (Rounding.le_ceilDiv_mul he _)).symm
    exact_mod_cast h
  unfold margin
  push_cast
  rw [add_mul, hprice]
  ring

/-- Whoever leaves with `n` shares and is paid `out`. -/
theorem margin_leave {n out : ℕ} (hn : n ≤ p.shares) (hout : out ≤ p.assets) :
    margin e u { shares := p.shares - n, assets := p.assets - out } =
      margin e u p + u * n - out * e := by
  unfold margin
  rw [Nat.cast_sub hn, Nat.cast_sub hout]
  ring

/-- At the quote `v`, rounded down, that is the difference to `u` and the rounding. -/
theorem margin_leave_at (u : ℕ) {v n : ℕ} (hn : n ≤ p.shares) (hout : v * n / e ≤ p.assets) :
    margin e u { shares := p.shares - n, assets := p.assets - v * n / e } =
      margin e u p - (v - u) * n + (v * n % e : ℕ) := by
  have hpaid : ((v * n / e : ℕ) : ℤ) * e + (v * n % e : ℕ) = v * n := by
    exact_mod_cast Nat.div_add_mod' (v * n) e
  rw [margin_leave hn hout]
  linarith

/-- Everybody can leave: the whole pool covers its quote. -/
theorem rate_mul_div_le {n : ℕ} (hn : n ≤ p.shares) :
    rate e p * n / e ≤ p.assets := by
  refine Nat.div_le_of_le_mul ?_
  calc rate e p * n ≤ rate e p * p.shares := Nat.mul_le_mul_left _ hn
    _ ≤ p.assets * e := covers_rate e p
    _ = e * p.assets := Nat.mul_comm _ _

/-- Whoever leaves with all the shares leaves behind what the quote was rounded
down by, in whole assets and rounded up. -/
theorem rate_mul_div_add (he : 0 < e) (p : State) :
    rate e p * p.shares / e + quoteDust e p ⌈/⌉ e = p.assets := by
  have hquote : rate e p * p.shares + quoteDust e p = p.assets * e :=
    Nat.div_add_mod' (p.assets * e) p.shares
  have hge := Rounding.le_ceilDiv_mul he (quoteDust e p)
  have hlt := Rounding.ceilDiv_mul_lt he (quoteDust e p)
  have hle : quoteDust e p ⌈/⌉ e ≤ p.assets := by
    rw [ceilDiv_le_iff_le_mul he, Nat.mul_comm e]
    omega
  have hsplit : (p.assets - quoteDust e p ⌈/⌉ e) * e + quoteDust e p ⌈/⌉ e * e = p.assets * e := by
    rw [← Nat.add_mul, Nat.sub_add_cancel hle]
  have hpaid : rate e p * p.shares / e = p.assets - quoteDust e p ⌈/⌉ e := by
    refine Nat.div_eq_of_lt_le ?_ ?_
    · omega
    · rw [Nat.succ_mul]
      omega
  omega

/-- Transitive, but for a pool without shares in the middle. -/
theorem Richer.trans {r : State} (h : Richer p q) (h' : Richer q r)
    (hq : q.shares = 0 → r.shares = 0) : Richer p r := by
  unfold Richer at *
  by_cases h0 : q.shares = 0
  · rw [hq h0]
    omega
  · refine Nat.le_of_mul_le_mul_right ?_ (Nat.pos_of_ne_zero h0)
    calc p.assets * r.shares * q.shares = p.assets * q.shares * r.shares := Nat.mul_right_comm _ _ _
      _ ≤ q.assets * p.shares * r.shares := Nat.mul_le_mul_right _ h
      _ = q.assets * r.shares * p.shares := Nat.mul_right_comm _ _ _
      _ ≤ r.assets * q.shares * p.shares := Nat.mul_le_mul_right _ h'
      _ = r.assets * p.shares * q.shares := Nat.mul_right_comm _ _ _

/-- Somebody leaves at the pool's own quote, and nothing comes in. -/
structure Leaves (e : ℕ) (p q : State) : Prop where
  shares : q.shares ≤ p.shares
  falls : q.assets ≤ p.assets
  assets : p.assets ≤ q.assets + rate e p * (p.shares - q.shares) / e

theorem Leaves.richer (he : 0 < e) (h : Leaves e p q) : Richer p q :=
  richer_of_leave he (Nat.add_sub_cancel' h.shares) h.assets

/-- The run lemma: however many leave, whoever stays has an exact share. -/
theorem richer_of_isChain (he : 0 < e) {ps : List State} (h : (p :: ps).IsChain (Leaves e)) :
    ∀ q ∈ p :: ps, Richer p q ∧ q.shares ≤ p.shares := by
  induction ps generalizing p with
  | nil =>
    intro q hq
    rw [List.mem_singleton.mp hq]
    exact ⟨le_refl _, le_refl _⟩
  | cons p₁ ps ih =>
    obtain ⟨hstep, hrest⟩ := List.isChain_cons_cons.mp h
    intro q hq
    rcases List.mem_cons.mp hq with rfl | hq
    · exact ⟨le_refl _, le_refl _⟩
    obtain ⟨hrich, hshares⟩ := ih hrest q hq
    refine ⟨(hstep.richer he).trans hrich fun h0 => ?_, hshares.trans hstep.shares⟩
    omega

/-! ## The first entry

The pool an entry of `g` shares makes of an empty one is quoted again from what
was delivered, and what was delivered was rounded up. -/

def founded (e u g : ℕ) : State := { shares := g, assets := (u * g) ⌈/⌉ e }

theorem le_rate_founded (he : 0 < e) {g : ℕ} (hg : 0 < g) : u ≤ rate e (founded e u g) :=
  (covers_iff_le_rate (p := founded e u g) hg).mp (Rounding.le_ceilDiv_mul he (u * g))

/-- The first quote is above the one paid by less than `e / g`. -/
theorem rate_founded_mul_lt (he : 0 < e) (g : ℕ) :
    rate e (founded e u g) * g < u * g + e := by
  exact lt_of_le_of_lt (covers_rate e (founded e u g)) (Rounding.ceilDiv_mul_lt he _)

/-- An entry of `e` shares or more is quoted as it was paid. -/
theorem rate_founded_eq (he : 0 < e) {g : ℕ} (hg : e ≤ g) : rate e (founded e u g) = u := by
  have hge := le_rate_founded (u := u) he (lt_of_lt_of_le he hg)
  have hlt : rate e (founded e u g) * g < (u + 1) * g := by
    have := rate_founded_mul_lt (u := u) he g
    rw [Nat.add_mul]
    omega
  have := Nat.lt_of_mul_lt_mul_right hlt
  omega

theorem rate_founded_le_iff {g k : ℕ} (hg : 0 < g) :
    rate e (founded e u g) ≤ u + k ↔ (u * g) ⌈/⌉ e * e < (u + k + 1) * g := by
  rw [← Nat.lt_succ_iff, rate, founded, Nat.div_lt_iff_lt_mul hg]

end Pool
