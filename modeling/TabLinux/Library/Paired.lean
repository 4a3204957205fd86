/-
Two lists kept in step: what `List.Forall₂` says about positions and about the ends.
-/
import Mathlib.Data.List.Forall2

namespace Paired

universe u v

variable {α : Type u} {β : Type v} {R : α → β → Prop}

variable {l₂ : List β} {l₁ : List α}

theorem forall₂_append {l₁' : List α} {l₂' : List β} (h : List.Forall₂ R l₁ l₂)
    (h' : List.Forall₂ R l₁' l₂') : List.Forall₂ R (l₁ ++ l₁') (l₂ ++ l₂') :=
  List.rel_append h h'

theorem forall₂_replicate {l : List α} {b : β} (h : ∀ a ∈ l, R a b) :
    List.Forall₂ R l (List.replicate l.length b) := by
  induction l with
  | nil => exact .nil
  | cons a l ih =>
    exact .cons (h a List.mem_cons_self) (ih fun a ha => h a (List.mem_cons_of_mem _ ha))

theorem forall₂_eraseIdx (h : List.Forall₂ R l₁ l₂) (i : Nat) :
    List.Forall₂ R (l₁.eraseIdx i) (l₂.eraseIdx i) := by
  induction h generalizing i with
  | nil => exact .nil
  | cons hab hrest ih =>
    cases i with
    | zero => exact hrest
    | succ i => exact .cons hab (ih i)

theorem forall₂_getD (h : List.Forall₂ R l₁ l₂) {i : Nat}
    {a : α} (ha : l₁[i]? = some a) (b : β) : R a (l₂.getD i b) := by
  induction h generalizing i with
  | nil => cases ha
  | cons hab hrest ih =>
    cases i with
    | zero =>
      cases ha
      exact hab
    | succ i => exact ih ha

/-- The partners of a prefix. -/
theorem forall₂_zip_prefix {l : List α} (h : List.Forall₂ R l₁ l₂)
    (hfront : l <+: l₁) {a : α} {b : β} (hmem : (a, b) ∈ l.zip l₂) : R a b := by
  induction h generalizing l with
  | nil =>
    rw [List.prefix_nil.mp hfront] at hmem
    cases hmem
  | cons hab _ ih =>
    cases l with
    | nil => cases hmem
    | cons a' l =>
      obtain ⟨rfl, hrest⟩ := List.cons_prefix_cons.mp hfront
      rcases List.mem_cons.mp hmem with heq | htail
      · cases heq
        exact hab
      · exact ih hrest htail

theorem forall₂_imp_mem {S : α → β → Prop}
    (h : List.Forall₂ R l₁ l₂) (himp : ∀ a ∈ l₁, ∀ b, R a b → S a b) : List.Forall₂ S l₁ l₂ := by
  induction h with
  | nil => exact .nil
  | cons hab _ ih =>
    exact .cons (himp _ List.mem_cons_self _ hab)
      (ih fun a ha => himp a (List.mem_cons_of_mem _ ha))

/-- Each element of the first list has a partner. -/
theorem forall₂_exists_of_mem (h : List.Forall₂ R l₁ l₂) {a : α}
    (ha : a ∈ l₁) : ∃ b, R a b := by
  induction h with
  | nil => cases ha
  | cons hab _ ih =>
    rcases List.mem_cons.mp ha with rfl | hmem
    · exact ⟨_, hab⟩
    · exact ih hmem

/-- Each element of the second list is the partner of one of the first. -/
theorem forall₂_exists_left (h : List.Forall₂ R l₁ l₂) {b : β}
    (hb : b ∈ l₂) : ∃ a ∈ l₁, R a b := by
  induction h with
  | nil => cases hb
  | cons hab _ ih =>
    rcases List.mem_cons.mp hb with rfl | hmem
    · exact ⟨_, List.mem_cons_self, hab⟩
    · obtain ⟨a, ha, hpair⟩ := ih hmem
      exact ⟨a, List.mem_cons_of_mem _ ha, hpair⟩

end Paired
