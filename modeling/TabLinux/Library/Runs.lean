/-
Runs of a deterministic system over a list of inputs, conditions that every
input of a run meets in the state it finds, and the invariant rule for them.
-/
import Mathlib.Logic.Basic

namespace Runs

universe u v

variable {σ : Type u} {ε : Type v}

/-- The state after a list of inputs. -/
def run (step : σ → ε → σ) (s : σ) (inputs : List ε) : σ := inputs.foldl step s

/-- Every input meets the condition in the state in which it is taken. -/
def Along (step : σ → ε → σ) (cond : σ → ε → Prop) : σ → List ε → Prop
  | _, [] => True
  | s, input :: inputs => cond s input ∧ Along step cond (step s input) inputs

theorem run_concat (step : σ → ε → σ) (s : σ) (inputs : List ε) (input : ε) :
    run step s (inputs ++ [input]) = step (run step s inputs) input := by
  rw [run, List.foldl_append]
  rfl

theorem run_append (step : σ → ε → σ) (s : σ) (inputs inputs' : List ε) :
    run step s (inputs ++ inputs') = run step (run step s inputs) inputs' :=
  List.foldl_append

variable {step : σ → ε → σ} {cond : σ → ε → Prop} {Inv : σ → Prop} {inputs : List ε} {s : σ}

theorem along_append {inputs' : List ε} :
    Along step cond s (inputs ++ inputs') ↔
      Along step cond s inputs ∧ Along step cond (run step s inputs) inputs' := by
  induction inputs generalizing s with
  | nil => exact ⟨fun h => ⟨trivial, h⟩, fun h => h.2⟩
  | cons input inputs ih =>
    rw [List.cons_append, Along, ih, Along, and_assoc]
    rfl

/-- What every input preserves, the run preserves. -/
theorem run_invariant (hstep : ∀ s input, Inv s → Inv (step s input))
    (hinit : Inv s) (inputs : List ε) : Inv (run step s inputs) := by
  induction inputs generalizing s with
  | nil => exact hinit
  | cons input inputs ih => exact ih (hstep s input hinit)

/-- What every input that meets the condition preserves, the run preserves. -/
theorem Along.invariant (hstep : ∀ s input, Inv s → cond s input → Inv (step s input))
    (hinit : Inv s) (halong : Along step cond s inputs) : Inv (run step s inputs) := by
  induction inputs generalizing s with
  | nil => exact hinit
  | cons input inputs ih =>
    obtain ⟨hcond, hrest⟩ := halong
    exact ih (hstep s input hinit hcond) hrest

/-- What the invariant and the condition give for an input holds at every input. -/
theorem Along.of_invariant {Good : σ → ε → Prop}
    (hstep : ∀ s input, Inv s → cond s input → Inv (step s input))
    (hgood : ∀ s input, Inv s → cond s input → Good s input)
    (hinit : Inv s) (halong : Along step cond s inputs) : Along step Good s inputs := by
  induction inputs generalizing s with
  | nil => trivial
  | cons input inputs ih =>
    obtain ⟨hcond, hrest⟩ := halong
    exact ⟨hgood s input hinit hcond, ih (hstep s input hinit hcond) hrest⟩

variable {cond' : σ → ε → Prop}

theorem Along.and (halong : Along step cond s inputs) (halong' : Along step cond' s inputs) :
    Along step (fun s input => cond s input ∧ cond' s input) s inputs := by
  induction inputs generalizing s with
  | nil => trivial
  | cons input inputs ih => exact ⟨⟨halong.1, halong'.1⟩, ih halong.2 halong'.2⟩

theorem Along.mono (hmono : ∀ s input, cond s input → cond' s input)
    (halong : Along step cond s inputs) : Along step cond' s inputs := by
  induction inputs generalizing s with
  | nil => trivial
  | cons input inputs ih => exact ⟨hmono s input halong.1, ih halong.2⟩

theorem along_of_forall (h : ∀ input ∈ inputs, ∀ s, cond s input) (s : σ) :
    Along step cond s inputs := by
  induction inputs generalizing s with
  | nil => trivial
  | cons input inputs ih =>
    obtain ⟨hinput, hrest⟩ := List.forall_mem_cons.mp h
    exact ⟨hinput s, ih hrest _⟩

/-- Conditions that agree wherever the invariant holds are met by the same runs. -/
theorem along_iff_of_invariant (hstep : ∀ s input, Inv s → Inv (step s input))
    (hiff : ∀ s input, Inv s → (cond s input ↔ cond' s input))
    (hinit : Inv s) : Along step cond s inputs ↔ Along step cond' s inputs := by
  induction inputs generalizing s with
  | nil => exact Iff.rfl
  | cons input inputs ih => exact and_congr (hiff s input hinit) (ih (hstep s input hinit))

/-- Where `Good` survives an input exactly when the input meets the condition, it holds
in every state of a run exactly when all its inputs do. -/
theorem forall_take_iff_along {Good : σ → Prop} (hinv : ∀ s input, Inv s → Inv (step s input))
    (hstep : ∀ s input, Inv s → Good s → (Good (step s input) ↔ cond s input))
    (hs : Inv s) (hgood : Good s) :
    (∀ n, Good (run step s (inputs.take n))) ↔ Along step cond s inputs := by
  induction inputs generalizing s with
  | nil => exact ⟨fun _ => trivial, fun _ n => by rw [List.take_nil]; exact hgood⟩
  | cons input inputs ih =>
    constructor
    · intro hall
      have hnext : Good (step s input) := hall 1
      exact ⟨(hstep s input hs hgood).mp hnext,
        (ih (hinv s input hs) hnext).mp fun n => hall (n + 1)⟩
    · rintro ⟨hcond, hrest⟩ n
      have hnext : Good (step s input) := (hstep s input hs hgood).mpr hcond
      cases n with
      | zero => exact hgood
      | succ n => exact (ih (hinv s input hs) hnext).mpr hrest n

section

universe w

variable {π : Type w} {call : σ → ε → Except π σ}

/-- One input of a system that can fail.  After a failure nothing happens any more. -/
def attempt (call : σ → ε → Except π σ) (s : Except π σ) (input : ε) : Except π σ :=
  s >>= fun s => call s input

/-- A condition on the inputs that are taken before a failure. -/
def Meets (cond : σ → ε → Prop) (s : Except π σ) (input : ε) : Prop :=
  ∀ state, s = .ok state → cond state input

theorem meets_ok_iff {input : ε} : Meets (π := π) cond (.ok s) input ↔ cond s input := by
  constructor
  · intro h
    exact h s rfl
  · rintro h _ ⟨⟩
    exact h

/-- A state that is not a failure has the property. -/
def Holds (Inv : σ → Prop) (s : Except π σ) : Prop := ∀ state, s = .ok state → Inv state

theorem holds_ok (h : Inv s) : Holds (π := π) Inv (.ok s) := by
  rintro _ ⟨⟩
  exact h

theorem attempt_holds (hstep : ∀ s input s', Inv s → cond s input → call s input = .ok s' → Inv s')
    (s : Except π σ) (input : ε) (h : Holds Inv s) (hmeets : Meets cond s input) :
    Holds Inv (attempt call s input) := by
  intro state hstate
  cases s with
  | error e => cases hstate
  | ok s => exact hstep s input state (h s rfl) (hmeets s rfl) hstate

/-- What every input that meets the condition preserves holds where the run ends. -/
theorem Along.attempt_invariant
    (hstep : ∀ s input s', Inv s → cond s input → call s input = .ok s' → Inv s') {s' : σ}
    (hinit : Inv s) (halong : Along (attempt call) (Meets cond) (.ok s) inputs)
    (hrun : run (attempt call) (.ok s) inputs = .ok s') : Inv s' := by
  have hend : Holds Inv (run (attempt call) (.ok s) inputs) :=
    Along.invariant (attempt_holds hstep) (holds_ok hinit) halong
  exact hend s' hrun

/-- What the invariant and the condition give for an input holds at every input that is
taken before a failure. -/
theorem Along.attempt_of_invariant {Good : σ → ε → Prop}
    (hstep : ∀ s input s', Inv s → cond s input → call s input = .ok s' → Inv s')
    (hgood : ∀ s input, Inv s → cond s input → Good s input)
    (hinit : Inv s) (halong : Along (attempt call) (Meets cond) (.ok s) inputs) :
    Along (attempt call) (Meets Good) (.ok s) inputs :=
  Along.of_invariant (attempt_holds hstep)
    (fun _ input h hmeets state hstate => hgood state input (h state hstate) (hmeets state hstate))
    (holds_ok hinit) halong

theorem Along.meets_and {s : Except π σ}
    (halong : Along (attempt call)
      (fun s input => Meets cond s input ∧ Meets cond' s input) s inputs) :
    Along (attempt call) (Meets fun s input => cond s input ∧ cond' s input) s inputs :=
  halong.mono fun _ _ h state hstate => ⟨h.1 state hstate, h.2 state hstate⟩

/-- Did the run get here without a failure, and does its state pass the check? -/
def passes (check : σ → Bool) : Except π σ → Bool
  | .ok s => check s
  | .error _ => false

theorem exists_of_passes {check : σ → Bool} {s : Except π σ} (h : passes check s = true) :
    ∃ state, s = .ok state ∧ check state = true := by
  cases s with
  | ok state => exact ⟨state, rfl, h⟩
  | error e => cases h

/-- Does an input that is taken before a failure pass the check? -/
def checks (check : σ → ε → Bool) (s : Except π σ) (input : ε) : Bool :=
  match s with
  | .ok s => check s input
  | .error _ => true

theorem Along.meets_of_checks {check : σ → ε → Bool}
    (hcheck : ∀ s input, check s input = true → cond s input) {s : Except π σ}
    (hruns : Along (attempt call) (fun s input => checks check s input = true) s inputs) :
    Along (attempt call) (Meets cond) s inputs := by
  refine hruns.mono ?_
  rintro _ input h state rfl
  exact hcheck state input h

instance decidableMeets (cond : σ → ε → Prop) [∀ s input, Decidable (cond s input)] :
    ∀ (s : Except π σ) (input : ε), Decidable (Meets cond s input)
  | .ok _, _ => decidable_of_iff' _ meets_ok_iff
  | .error _, _ => isTrue nofun

end

instance decidableAlong (step : σ → ε → σ) (cond : σ → ε → Prop)
    [hcond : ∀ s input, Decidable (cond s input)] :
    ∀ (s : σ) (inputs : List ε), Decidable (Along step cond s inputs)
  | _, [] => isTrue trivial
  | s, input :: inputs =>
      have := decidableAlong step cond (step s input) inputs
      inferInstanceAs (Decidable (cond s input ∧ Along step cond (step s input) inputs))

end Runs
