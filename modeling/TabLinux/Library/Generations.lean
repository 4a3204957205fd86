/-
Generation stamps.  A ledger says which generation each space is entitled to and
how many have been handed out.  Cached entries carry a generation; as long as
the ledger only forgets generations or hands out new ones, what was true of the
owner of an entry's generation stays true.
-/
import Mathlib.Logic.Nonempty

namespace Generations

universe u

/-- The generations in use, by the space that may use them, and the highest one
handed out so far. -/
structure Ledger (σ : Type u) where
  live : σ → Nat → Prop
  next : Nat

variable {σ : Type u} {L L' L'' : Ledger σ}

/-- Generations in use have been handed out, each to one space. -/
structure Ledger.Wf (L : Ledger σ) : Prop where
  bounded : ∀ {s n}, L.live s n → n ≤ L.next
  unique : ∀ {s t n}, L.live s n → L.live t n → s = t

/-- `L'` comes after `L`: it may have forgotten generations, and it may have
handed out new ones to a single space. -/
def Ledger.Advance (L L' : Ledger σ) : Prop :=
  L.next ≤ L'.next ∧
    ∃ owner, ∀ s n, L'.live s n → L.live s n ∨ (s = owner ∧ L.next < n ∧ n ≤ L'.next)

theorem Ledger.Advance.refl [Nonempty σ] (L : Ledger σ) : L.Advance L :=
  ⟨Nat.le_refl _, Classical.arbitrary σ, fun _ _ hlive => Or.inl hlive⟩

theorem Ledger.Wf.advance (hwf : L.Wf) (hadvance : L.Advance L') : L'.Wf := by
  obtain ⟨hnext, owner, hlive⟩ := hadvance
  constructor
  · intro s n hs
    rcases hlive s n hs with hold | ⟨_, _, hle⟩
    · exact Nat.le_trans (hwf.bounded hold) hnext
    · exact hle
  · intro s t n hs ht
    rcases hlive s n hs with hsold | ⟨rfl, hsnew, _⟩
    · rcases hlive t n ht with htold | ⟨_, htnew, _⟩
      · exact hwf.unique hsold htold
      · exact absurd (hwf.bounded hsold) (Nat.not_le.mpr htnew)
    · rcases hlive t n ht with htold | ⟨rfl, _, _⟩
      · exact absurd (hwf.bounded htold) (Nat.not_le.mpr hsnew)
      · rfl

/-- Whoever may use generation `n` satisfies `P`. -/
def Ledger.Sound (L : Ledger σ) (P : σ → Prop) (n : Nat) : Prop :=
  n ≤ L.next ∧ ∀ s, L.live s n → P s

variable {P Q : σ → Prop} {n : Nat}

theorem Ledger.Sound.advance (hsound : L.Sound P n) (hadvance : L.Advance L') : L'.Sound P n := by
  obtain ⟨hnext, owner, hlive⟩ := hadvance
  refine ⟨Nat.le_trans hsound.1 hnext, fun s hs => ?_⟩
  rcases hlive s n hs with hold | ⟨_, hnew, _⟩
  · exact hsound.2 s hold
  · exact absurd hsound.1 (Nat.not_le.mpr hnew)

theorem Ledger.Sound.mono (hsound : L.Sound P n)
    (hmono : ∀ s, L.live s n → P s → Q s) : L.Sound Q n :=
  ⟨hsound.1, fun s hs => hmono s hs (hsound.2 s hs)⟩

/-- An entry stamped with a generation in use is sound once its owner is. -/
theorem Ledger.Wf.sound {s : σ} (hwf : L.Wf) (hlive : L.live s n) (hs : P s) : L.Sound P n := by
  refine ⟨hwf.bounded hlive, fun t ht => ?_⟩
  rw [hwf.unique ht hlive]
  exact hs

end Generations
