import Mathlib.Tactic.Common

/-!
# Reading a fallible computation backwards

A handler is a `do` block in `Except`: a list of checks, some reads and some
steps that may fail. What a proof needs from such a block is the same every
time: *it returned, so each of its parts returned*. `bind_ok_iff` and
`failIf_ok_iff` turn a successful block into the conjunction of its parts, and
`bind_succeeds` is the other direction, for proving that a block cannot fail.
-/

namespace Outcome

variable {ε : Type*} {α β : Type}

/-- A block returned exactly when its first step did and the rest did on that
step's value. -/
theorem bind_ok_iff {x : Except ε α} {f : α → Except ε β} {b : β} :
    (x >>= f) = .ok b ↔ ∃ a, x = .ok a ∧ f a = .ok b := by
  cases x <;> simp [bind, Except.bind]

/-- A value returned is the value. -/
theorem pure_ok_iff {a b : α} : (pure a : Except ε α) = .ok b ↔ a = b := by
  simp [pure, Except.pure]

/-- What follows a value goes on with it. -/
theorem ok_bind (a : α) (f : α → Except ε β) : (Except.ok a >>= f) = f a := rfl

/-- A failure under another name is no success. -/
theorem mapError_ok_iff {ε' : Type*} {x : Except ε α} {f : ε → ε'} {a : α} :
    x.mapError f = .ok a ↔ x = .ok a := by
  cases x <;> simp [Except.mapError]

/-- Stop with `e` when `c` holds: `if c { return Err(e); }`. -/
def failIf (c : Prop) [Decidable c] (e : ε) : Except ε Unit :=
  if c then .error e else .ok ()

/-- A check passes if its condition does not hold. -/
theorem failIf_ok_iff {c : Prop} [Decidable c] {e : ε} {u : Unit} :
    failIf c e = .ok u ↔ ¬ c := by
  unfold failIf
  split <;> simp_all

/-- A check whose condition does not hold passes. -/
theorem failIf_of_not {c : Prop} [Decidable c] (e : ε) (h : ¬ c) :
    failIf c e = .ok () := if_neg h

/-- Two reasons to stop are asked for one after the other. -/
theorem failIf_or {p q : Prop} [Decidable p] [Decidable q] (e : ε) :
    failIf (p ∨ q) e = (failIf p e >>= fun _ => failIf q e) := by
  unfold failIf
  by_cases hp : p
  · rw [if_pos (.inl hp), if_pos hp]
    rfl
  · rw [if_neg hp, ok_bind]
    simp only [hp, false_or]

/-- The computation returns something. -/
def Succeeds (x : Except ε α) : Prop := ∃ a, x = .ok a

/-- A value succeeds. -/
theorem succeeds_ok (a : α) : Succeeds (.ok a : Except ε α) := ⟨a, rfl⟩

/-- A block cannot fail when its first step cannot and the rest cannot on any
value the first step returns. -/
theorem bind_succeeds {x : Except ε α} {f : α → Except ε β} (hx : Succeeds x)
    (hf : ∀ a, x = .ok a → Succeeds (f a)) : Succeeds (x >>= f) := by
  obtain ⟨a, ha⟩ := hx
  obtain ⟨b, hb⟩ := hf a ha
  exact ⟨b, bind_ok_iff.mpr ⟨a, ha, hb⟩⟩

/-- A first step that is known to return. -/
theorem pass_succeeds {x : Except ε α} {f : α → Except ε β} {a : α} (hx : x = .ok a)
    (hf : Succeeds (f a)) : Succeeds (x >>= f) := by
  rw [hx]
  exact hf

/-! ### A step for each element of a list -/

/-- If every element succeeds, the list does. -/
theorem exists_mapM {f : α → Except ε β} {l : List α} (h : ∀ a ∈ l, ∃ b, f a = .ok b) :
    ∃ bs, l.mapM f = .ok bs := by
  induction l with
  | nil => exact ⟨_, rfl⟩
  | cons a l ih =>
    obtain ⟨b, hb⟩ := h a (List.mem_cons_self ..)
    obtain ⟨bs, hbs⟩ := ih fun c hc => h c (List.mem_cons_of_mem _ hc)
    rw [List.mapM_cons, hb, hbs]
    exact ⟨_, rfl⟩

/-- A map that fails on no element is a map. -/
theorem mapM_map_ok {γ : Type} {f : β → Except ε γ} {h : α → β} {g : α → γ} {l : List α}
    (hf : ∀ a ∈ l, f (h a) = .ok (g a)) : (l.map h).mapM f = .ok (l.map g) := by
  induction l with
  | nil => rfl
  | cons a l ih =>
    rw [List.map_cons, List.mapM_cons, hf a (List.mem_cons_self ..),
      ih fun b hb => hf b (List.mem_cons_of_mem _ hb)]
    rfl

/-- A step that returns a function of its element maps it. -/
theorem mapM_eq_map {f : α → Except ε β} {g : α → β} {l : List α}
    (hf : ∀ a ∈ l, f a = .ok (g a)) : l.mapM f = .ok (l.map g) := by
  have h := mapM_map_ok (h := id) hf
  rwa [List.map_id] at h

/-- A list that went through is the map of it. -/
theorem mapM_ok {f : α → Except ε β} {g : α → β} {l : List α} {bs : List β}
    (hf : ∀ {a b}, f a = .ok b → b = g a) (h : l.mapM f = .ok bs) : bs = l.map g := by
  induction l generalizing bs with
  | nil => exact (Except.ok.inj h).symm
  | cons a l ih =>
    rw [List.mapM_cons] at h
    obtain ⟨b, hb, h⟩ := bind_ok_iff.mp h
    obtain ⟨bs', hbs', h⟩ := bind_ok_iff.mp h
    obtain rfl := Except.ok.inj h
    rw [List.map_cons, hf hb, ih hbs']

/-- There is a result for every element. -/
theorem length_of_mapM_ok {f : α → Except ε β} {l : List α} {bs : List β}
    (h : l.mapM f = .ok bs) : bs.length = l.length := by
  induction l generalizing bs with
  | nil =>
    rw [← Except.ok.inj h]
    rfl
  | cons a l ih =>
    rw [List.mapM_cons] at h
    obtain ⟨b, -, h⟩ := bind_ok_iff.mp h
    obtain ⟨bs', hbs', h⟩ := bind_ok_iff.mp h
    rw [← Except.ok.inj h, List.length_cons, List.length_cons, ih hbs']

/-! ### A test of what returned -/

/-- The computation returned, and what it returned passes a test. -/
def okAnd (x : Except ε α) (p : α → Bool) : Bool := x.toOption.any p

/-- The test of a result, as a statement about it. -/
theorem okAnd_iff {x : Except ε α} {p : α → Bool} :
    okAnd x p = true ↔ ∃ a, x = .ok a ∧ p a = true := by
  cases x <;> simp [okAnd, Except.toOption]

/-! ### Which error -/

/-- The computation does not stop with `e`. -/
def Avoids (e : ε) (x : Except ε α) : Prop := x ≠ .error e

/-- The computation stops with no errors but these. -/
def Only (E : ε → Prop) (x : Except ε α) : Prop := ∀ e, x = .error e → E e

/-- A value is no error at all. -/
theorem only_ok (E : ε → Prop) (a : α) : Only E (.ok a : Except ε α) := fun _ h => by cases h

/-- The error is the one it is. -/
theorem only_error {E : ε → Prop} {e : ε} (h : E e) : Only E (.error e : Except ε α) :=
  fun _ he => Except.error.inj he ▸ h

/-- What succeeds has no error at all. -/
theorem Succeeds.only {x : Except ε α} (E : ε → Prop) (h : Succeeds x) : Only E x := by
  obtain ⟨a, rfl⟩ := h
  exact only_ok E a

/-- Whatever is not among the errors of a computation, it avoids. -/
theorem Only.avoids {E : ε → Prop} {e : ε} {x : Except ε α} (h : Only E x) (he : ¬ E e) :
    Avoids e x := fun hx => he (h e hx)

/-- A block stops with the errors of its steps. -/
theorem bind_only {E : ε → Prop} {x : Except ε α} {f : α → Except ε β} (hx : Only E x)
    (hf : ∀ a, x = .ok a → Only E (f a)) : Only E (x >>= f) := by
  cases x with
  | error e => exact only_error (hx e rfl)
  | ok a => exact hf a rfl

/-- A check that is known to pass. -/
theorem pass_only {E : ε → Prop} {x : Except ε α} {f : α → Except ε β} {a : α} (hx : x = .ok a)
    (hf : Only E (f a)) : Only E (x >>= f) := by
  rw [hx]
  exact hf

/-- A check has the one error. -/
theorem failIf_only {E : ε → Prop} {c : Prop} [Decidable c] {e : ε} (h : c → E e) :
    Only E (failIf c e) := by
  unfold failIf
  split
  next hc => exact only_error (h hc)
  next => exact only_ok E ()

/-- What does not stop with the errors it is left with returns. -/
theorem Only.succeeds {E : ε → Prop} {x : Except ε α} (h : Only E x)
    (hE : ∀ e, E e → x ≠ .error e) : Succeeds x := by
  cases x with
  | ok a => exact succeeds_ok a
  | error e => exact absurd rfl (hE e (h e rfl))

/-! ### A step taken once more

`f` in front of `g` is absorbed when it changes neither whether `g` returns nor
what. A step that begins the way `f` ends, and asks first for nothing that `f`
could change, absorbs it. -/

/-- Taking `f` before `g` is as good as taking `g` alone. -/
def Absorbs (g f : α → Except ε α) : Prop := ∀ a c, (f a >>= g) = .ok c ↔ g a = .ok c

/-- Both steps run `common` behind a guard: `f` behind `A` and then stops, `g`
behind `P` and then goes on with `rest`. -/
theorem absorbs_of_guarded {f g common : α → Except ε α} (rest : α → Except ε α)
    {A P : α → Prop}
    (again : ∀ {a b}, common a = .ok b → common b = .ok b)
    (kept : ∀ {a b}, common a = .ok b → (P b ↔ P a)) (weaker : ∀ {a}, P a → A a)
    (hf : ∀ {a b}, f a = .ok b ↔ A a ∧ common a = .ok b)
    (hg : ∀ {a c}, g a = .ok c ↔ P a ∧ ∃ b, common a = .ok b ∧ rest b = .ok c) :
    Absorbs g f := by
  intro a c
  simp only [bind_ok_iff, hf, hg]
  constructor
  · intro h
    obtain ⟨b, ⟨-, hb⟩, hP, b', hb', hc⟩ := h
    obtain rfl := Except.ok.inj ((again hb).symm.trans hb')
    exact ⟨(kept hb).mp hP, b, hb, hc⟩
  · intro h
    obtain ⟨hP, b, hb, hc⟩ := h
    exact ⟨b, ⟨weaker hP, hb⟩, (kept hb).mpr hP, b, again hb, hc⟩

end Outcome
