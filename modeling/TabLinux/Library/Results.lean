/-
Rules for computations that can fail: what a computation yields when only some errors
are allowed.
-/
import Mathlib.Logic.Basic

namespace Results

universe u v

variable {ε ε' : Type u} {α β : Type v}

/-- The computation returns a value that meets `post`, or fails with an allowed error. -/
def Yields (allowed : ε → Prop) (post : α → Prop) : Except ε α → Prop
  | .ok a => post a
  | .error e => allowed e

variable {allowed : ε → Prop} {post : α → Prop} {x : Except ε α}

theorem Yields.mono {weaker : α → Prop} (hweaker : ∀ a, post a → weaker a)
    (h : Yields allowed post x) : Yields allowed weaker x := by
  cases x with
  | ok a => exact hweaker a h
  | error e => exact h

theorem Yields.bind {post' : β → Prop} {f : α → Except ε β}
    (hx : Yields allowed post x) (hf : ∀ a, post a → Yields allowed post' (f a)) :
    Yields allowed post' (x >>= f) := by
  cases x with
  | ok a => exact hf a hx
  | error e => exact hx

theorem Yields.any (x : Except ε α) : Yields (fun _ => True) (fun _ => True) x := by
  cases x <;> trivial

theorem Yields.ite {c : Prop} [Decidable c] {y : Except ε α}
    (hx : c → Yields allowed post x) (hy : ¬ c → Yields allowed post y) :
    Yields allowed post (if c then x else y) :=
  iteInduction hx hy

/-- An error that a translation maps into the allowed ones is no concern. -/
theorem Yields.mapError {f : ε' → ε} (hallowed : ∀ e, allowed (f e)) {x : Except ε' α}
    (hx : ∀ a, x = .ok a → post a) : Yields allowed post (x.mapError f) := by
  cases x with
  | ok a => exact hx a rfl
  | error e => exact hallowed e

theorem Yields.of_ok {a : α} (h : Yields allowed post x)
    (hx : x = .ok a) : post a := by
  rw [hx] at h
  exact h

theorem Yields.ne_error {e : ε} (h : Yields allowed post x)
    (he : ¬ allowed e) : x ≠ .error e := by
  rintro rfl
  exact he h

theorem bind_eq_ok {f : α → Except ε β} {b : β} (h : x >>= f = .ok b) :
    ∃ a, x = .ok a ∧ f a = .ok b := by
  cases x with
  | ok a => exact ⟨a, rfl, h⟩
  | error e => cases h

theorem map_eq_ok {f : α → β} {b : β} (h : x.map f = .ok b) : ∃ a, x = .ok a ∧ f a = b := by
  cases x with
  | ok a => exact ⟨a, rfl, Except.ok.inj h⟩
  | error e => cases h

end Results
