/-
Maps kept as lists of pairs in the order of their keys: one entry a key, replaced by the
next insertion.
-/
import Mathlib.Data.List.Basic

namespace SortedAssoc

universe u v

variable {κ : Type u} {α : Type v}

section

variable [LT κ] [DecidableEq κ] [DecidableLT κ]

/-- Insert in order; an equal key is replaced. -/
def insert (key : κ) (value : α) : List (κ × α) → List (κ × α)
  | [] => [(key, value)]
  | (k, v) :: rest =>
      if k = key then (key, value) :: rest
      else if key < k then (key, value) :: (k, v) :: rest
      else (k, v) :: insert key value rest

end

/-- The keys increase. -/
def Sorted [LT κ] (l : List (κ × α)) : Prop := l.Pairwise fun a b => a.1 < b.1

variable [LT κ] [DecidableEq κ] [DecidableLT κ] {l : List (κ × α)} {key k : κ} {value v : α}

theorem mem_of_mem_insert (hmem : (k, v) ∈ insert key value l) :
    (k = key ∧ v = value) ∨ (k, v) ∈ l := by
  induction l with
  | nil =>
    cases List.mem_singleton.mp hmem
    exact Or.inl ⟨rfl, rfl⟩
  | cons entry rest ih =>
    obtain ⟨k', v'⟩ := entry
    rw [insert] at hmem
    split at hmem
    · rcases List.mem_cons.mp hmem with heq | hrest
      · cases heq
        exact Or.inl ⟨rfl, rfl⟩
      · exact Or.inr (List.mem_cons_of_mem _ hrest)
    split at hmem
    · rcases List.mem_cons.mp hmem with heq | hrest
      · cases heq
        exact Or.inl ⟨rfl, rfl⟩
      · exact Or.inr hrest
    · rcases List.mem_cons.mp hmem with heq | hrest
      · cases heq
        exact Or.inr List.mem_cons_self
      · rcases ih hrest with hnew | hold
        · exact Or.inl hnew
        · exact Or.inr (List.mem_cons_of_mem _ hold)

theorem mem_insert_self (key : κ) (value : α) (l : List (κ × α)) :
    (key, value) ∈ insert key value l := by
  induction l with
  | nil => exact List.mem_singleton_self _
  | cons entry rest ih =>
    obtain ⟨k', v'⟩ := entry
    rw [insert]
    split
    · exact List.mem_cons_self
    split
    · exact List.mem_cons_self
    · exact List.mem_cons_of_mem _ ih

theorem mem_insert_of_ne (hmem : (k, v) ∈ l) (hne : k ≠ key) : (k, v) ∈ insert key value l := by
  induction l with
  | nil => cases hmem
  | cons entry rest ih =>
    obtain ⟨k', v'⟩ := entry
    rw [insert]
    split
    · rename_i heq
      rcases List.mem_cons.mp hmem with hhead | hrest
      · cases hhead
        exact absurd heq hne
      · exact List.mem_cons_of_mem _ hrest
    split
    · exact List.mem_cons_of_mem _ hmem
    rcases List.mem_cons.mp hmem with hhead | hrest
    · cases hhead
      exact List.mem_cons_self
    · exact List.mem_cons_of_mem _ (ih hrest)

variable [Trans (α := κ) (· < ·) (· < ·) (· < ·)] [Std.Irrefl (α := κ) (· < ·)]
  [Std.Trichotomous (α := κ) (· < ·)]

omit [DecidableEq κ] [Trans (α := κ) (· < ·) (· < ·) (· < ·)] [Std.Irrefl (α := κ) (· < ·)] in
theorem lt_of_not (hne : k ≠ key) (hlt : ¬ key < k) : k < key := by
  rcases Decidable.em (k < key) with h | h
  · exact h
  · exact absurd (Std.Trichotomous.trichotomous k key h hlt) hne

omit [Std.Irrefl (α := κ) (· < ·)] in
theorem Sorted.insert (hsorted : Sorted l) (key : κ) (value : α) : Sorted (insert key value l) := by
  induction l with
  | nil => exact List.pairwise_singleton _ _
  | cons entry rest ih =>
    obtain ⟨k', v'⟩ := entry
    obtain ⟨hhead, hrest⟩ := List.pairwise_cons.mp hsorted
    rw [SortedAssoc.insert]
    split
    · rename_i heq
      refine List.pairwise_cons.mpr ⟨fun b hb => ?_, hrest⟩
      rw [← heq]
      exact hhead b hb
    split
    · rename_i hlt
      refine List.pairwise_cons.mpr ⟨fun b hb => ?_, hsorted⟩
      rcases List.mem_cons.mp hb with rfl | htail
      · exact hlt
      · exact Trans.trans hlt (hhead b htail)
    · rename_i hne hnlt
      refine List.pairwise_cons.mpr ⟨fun b hb => ?_, ih hrest⟩
      obtain ⟨kb, vb⟩ := b
      rcases mem_of_mem_insert hb with ⟨rfl, rfl⟩ | htail
      · exact lt_of_not hne hnlt
      · exact hhead (kb, vb) htail

omit [DecidableEq κ] [DecidableLT κ] [Trans (α := κ) (· < ·) (· < ·) (· < ·)]
  [Std.Trichotomous (α := κ) (· < ·)] in
/-- A key has one value. -/
theorem Sorted.value_eq (hsorted : Sorted l) (hmem : (k, v) ∈ l) (hmem' : (k, value) ∈ l) :
    v = value := by
  induction l with
  | nil => cases hmem
  | cons entry rest ih =>
    obtain ⟨hhead, hrest⟩ := List.pairwise_cons.mp hsorted
    rcases List.mem_cons.mp hmem with h | h
    · rcases List.mem_cons.mp hmem' with h' | h'
      · rw [← h] at h'
        exact (Prod.mk.inj h').2.symm
      · have hlt := hhead _ h'
        rw [← h] at hlt
        exact absurd hlt (Std.Irrefl.irrefl k)
    · rcases List.mem_cons.mp hmem' with h' | h'
      · have hlt := hhead _ h
        rw [← h'] at hlt
        exact absurd hlt (Std.Irrefl.irrefl k)
      · exact ih hrest h h'

/-- What is in a map after an insertion. -/
theorem Sorted.mem_insert (hsorted : Sorted l) :
    (k, v) ∈ SortedAssoc.insert key value l ↔ (k = key ∧ v = value) ∨ ((k, v) ∈ l ∧ k ≠ key) := by
  constructor
  · intro hmem
    by_cases hkey : k = key
    · subst hkey
      exact Or.inl ⟨rfl, (hsorted.insert k value).value_eq hmem (mem_insert_self k value l)⟩
    rcases mem_of_mem_insert hmem with hnew | hold
    · exact absurd hnew.1 hkey
    · exact Or.inr ⟨hold, hkey⟩
  · rintro (⟨rfl, rfl⟩ | ⟨hold, hne⟩)
    · exact mem_insert_self k v l
    · exact mem_insert_of_ne hold hne

end SortedAssoc
