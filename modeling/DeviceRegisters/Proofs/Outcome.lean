/-!
# DeviceRegisters.Proofs.Outcome

Speaking about computations that may fail: about their value if they have one
(`bind_eq_ok_iff`), about value and error together (`Outcome`), or about two
computations side by side (`Matches`).
-/

namespace DeviceRegisters

variable {ε α β : Type}

/-- Two steps succeed if the first does and the second does with its value. -/
theorem bind_eq_ok_iff {x : Except ε α} {f : α → Except ε β} {b : β} :
    x >>= f = .ok b ↔ ∃ a, x = .ok a ∧ f a = .ok b := by
  cases x with
  | error e => simp [bind, Except.bind]
  | ok a => simp [bind, Except.bind]

theorem eq_ok_of_toOption {x : Except ε α} {a : α} (h : x.toOption = some a) : x = .ok a := by
  cases x with
  | error e => simp [Except.toOption] at h
  | ok b =>
      obtain rfl : b = a := Option.some.inj h
      rfl

/-- `P` holds of the value if there is one, and `Q` of the error if not. -/
def Outcome (P : α → Prop) (Q : ε → Prop) : Except ε α → Prop
  | .ok a => P a
  | .error e => Q e

namespace Outcome

variable {P P' : α → Prop} {Q : ε → Prop} {R : β → Prop} {x : Except ε α}

theorem ok {a : α} (h : P a) : Outcome P Q (.ok a) := h

/-- The second step starts from what the first gives. -/
theorem bind {f : α → Except ε β} (hx : Outcome P Q x) (hf : ∀ a, P a → Outcome R Q (f a)) :
    Outcome R Q (x >>= f) := by
  cases x with
  | error e => exact hx
  | ok a => exact hf a hx

/-- Nothing is asked of errors, nor of what the first step gives. -/
theorem bind_any {f : α → Except ε β} (hf : ∀ a, Outcome R (fun _ => True) (f a)) :
    Outcome R (fun _ => True) (x >>= f) := by
  cases x with
  | error e => trivial
  | ok a => exact hf a

theorem of_ok {a : α} (hx : Outcome P Q x) (h : x = .ok a) : P a := by
  subst h
  exact hx

theorem of_error {e : ε} (hx : Outcome P Q x) (h : x = .error e) : Q e := by
  subst h
  exact hx

end Outcome

/-! ## two computations -/

/-- The values of two computations are related, if both have one.  If the first alone
has a value, that is lost; the second alone has one only if `P` fails. -/
def Matches (P : Prop) (R : α → β → Prop) (lost : α → Prop) : Except ε α → Except ε β → Prop
  | .ok a, .ok b => R a b
  | .ok a, .error _ => lost a
  | .error _, .ok _ => ¬ P
  | .error _, .error _ => True

namespace Matches

variable {γ δ : Type} {P : Prop} {R : α → β → Prop} {S : γ → δ → Prop} {lost : α → Prop}
  {lost' : γ → Prop} {x : Except ε α} {y : Except ε β}

theorem ok {a : α} {b : β} (h : R a b) :
    Matches P R lost (.ok a : Except ε α) (.ok b : Except ε β) := h

/-- Computations that have the same value, if any. -/
theorem of_iff {x y : Except ε α} {lost : α → Prop} (h : ∀ a, x = .ok a ↔ y = .ok a) :
    Matches P (fun a b => b = a) lost x y := by
  cases x with
  | error e =>
      cases y with
      | error e' => trivial
      | ok b => exact absurd ((h b).mpr rfl) nofun
  | ok a =>
      rw [(h a).mp rfl]
      exact ok rfl

/-- If `P` fails, the first may fail. -/
theorem of_not (h : ¬ P) (e : ε) (y : Except ε β) : Matches P R lost (.error e) y := by
  cases y with
  | error e' => trivial
  | ok b => exact h

/-- The second may fail if what the first gives is lost. -/
theorem of_lost (h : ∀ a, x = .ok a → lost a) (e : ε) : Matches P R lost x (.error e : Except ε β) := by
  cases x with
  | error e' => trivial
  | ok a => exact h a rfl

/-- The second steps start from related values. -/
theorem bind {f : α → Except ε γ} {g : β → Except ε δ} (hx : Matches P R lost x y)
    (hR : ∀ a b, R a b → Matches P S lost' (f a) (g b))
    (hlost : ∀ a, lost a → ∀ c, f a = .ok c → lost' c) : Matches P S lost' (x >>= f) (y >>= g) := by
  cases x with
  | error e =>
      cases y with
      | error e' => trivial
      | ok b => exact of_not hx e (g b)
  | ok a =>
      cases y with
      | error e => exact of_lost (hlost a hx) e
      | ok b => exact hR a b hx

/-- Nothing that the first step gives is lost. -/
theorem bind_sure {f : α → Except ε γ} {g : β → Except ε δ} (hx : Matches P R (fun _ => False) x y)
    (hR : ∀ a b, R a b → Matches P S lost' (f a) (g b)) : Matches P S lost' (x >>= f) (y >>= g) :=
  hx.bind hR fun _ h => h.elim

/-- The first steps are one and the same. -/
theorem bind_self {f : α → Except ε γ} {g : α → Except ε δ} {x : Except ε α}
    (h : ∀ a, x = .ok a → Matches P S lost' (f a) (g a)) :
    Matches P S lost' (x >>= f) (x >>= g) := by
  cases x with
  | error e => trivial
  | ok a => exact h a rfl

/-- The first steps are one and the same, whatever they give. -/
theorem bind_same {f : α → Except ε γ} {g : α → Except ε δ} {x : Except ε α}
    (h : ∀ a, Matches P S lost' (f a) (g a)) : Matches P S lost' (x >>= f) (x >>= g) :=
  bind_self fun a _ => h a

/-- Both take the same branch. -/
theorem ite {p q : Prop} [Decidable p] [Decidable q] {x x' : Except ε α} {y y' : Except ε β}
    (hpq : p ↔ q) (hthen : p → Matches P R lost x y) (helse : ¬ p → Matches P R lost x' y') :
    Matches P R lost (if p then x else x') (if q then y else y') := by
  by_cases hp : p
  · rw [if_pos hp, if_pos (hpq.mp hp)]
    exact hthen hp
  · rw [if_neg hp, if_neg (fun hq => hp (hpq.mpr hq))]
    exact helse hp

/-- If the second has a value, so has the first, and the values are related. -/
theorem of_ok (h : Matches P R lost x y) (hP : P) {b : β} (hy : y = .ok b) :
    ∃ a, x = .ok a ∧ R a b := by
  subst hy
  cases x with
  | error e => exact absurd hP h
  | ok a => exact ⟨a, rfl, h⟩

/-- If the first has a value that is not lost, so has the second. -/
theorem ok_of (h : Matches P R lost x y) {a : α} (hx : x = .ok a) (hlost : ¬ lost a) :
    ∃ b, y = .ok b ∧ R a b := by
  subst hx
  cases y with
  | error e => exact absurd h hlost
  | ok b => exact ⟨b, rfl, h⟩

end Matches
end DeviceRegisters
