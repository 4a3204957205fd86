/-
Paths: strings of components that are joined by a separator.  Components that are not
empty and do not contain the separator can be read back from the path.
-/
import Mathlib.Data.List.Basic

namespace Paths

variable {α : Type*}

/-- A component that can be read back. -/
def Clean (sep : α) (part : List α) : Prop := part ≠ [] ∧ sep ∉ part

instance [DecidableEq α] (sep : α) (part : List α) : Decidable (Clean sep part) :=
  inferInstanceAs (Decidable (part ≠ [] ∧ sep ∉ part))

def join (sep : α) (parts : List (List α)) : List α := List.intercalate [sep] parts

/-- The components of a path; empty ones do not count. -/
def components [DecidableEq α] (sep : α) (path : List α) : List (List α) :=
  (path.splitOn sep).filter (· ≠ [])

@[simp] theorem join_nil (sep : α) : join sep [] = [] := rfl

@[simp] theorem join_singleton (sep : α) (part : List α) : join sep [part] = part := by
  simp [join, List.intercalate]

theorem join_cons_cons (sep : α) (part next : List α) (parts : List (List α)) :
    join sep (part :: next :: parts) = part ++ sep :: join sep (next :: parts) := by
  rw [join, join, List.intercalate_cons_cons]
  simp

variable {parts : List (List α)} {sep : α}

/-- A path without separators has one component. -/
theorem eq_singleton_of_join {path : List α}
    (hpath : path = join sep parts) (hne : path ≠ []) (hsep : sep ∉ path) : parts = [path] := by
  cases parts with
  | nil => exact absurd hpath hne
  | cons part parts =>
    cases parts with
    | nil => rw [hpath, join_singleton]
    | cons next parts =>
      rw [join_cons_cons] at hpath
      refine absurd ?_ hsep
      rw [hpath]
      exact List.mem_append_right _ List.mem_cons_self

/-- A longer path starts with the shorter one and a separator. -/
theorem join_append (sep : α) (hparts : parts ≠ []) {more : List (List α)} (hmore : more ≠ []) :
    join sep (parts ++ more) = join sep parts ++ sep :: join sep more := by
  induction parts with
  | nil => exact absurd rfl hparts
  | cons part parts ih =>
    cases parts with
    | nil =>
      obtain ⟨next, rest, rfl⟩ := List.exists_cons_of_ne_nil hmore
      rw [join_singleton]
      exact join_cons_cons sep part next rest
    | cons next rest =>
      have htail := ih (List.cons_ne_nil next rest)
      rw [List.cons_append] at htail
      rw [List.cons_append, List.cons_append, join_cons_cons, join_cons_cons, htail,
        List.append_assoc, List.cons_append]

theorem components_join [DecidableEq α]
    (hclean : ∀ part ∈ parts, Clean sep part) : components sep (join sep parts) = parts := by
  cases parts with
  | nil => simp [components]
  | cons part parts =>
    have hsplit : (join sep (part :: parts)).splitOn sep = part :: parts :=
      List.splitOn_intercalate sep (fun l hl => (hclean l hl).2) (List.cons_ne_nil _ _)
    rw [components, hsplit, List.filter_eq_self]
    intro l hl
    simpa using (hclean l hl).1

theorem not_mem_of_mem_splitOn [DecidableEq α] {path part : List α}
    (hpart : part ∈ path.splitOn sep) : sep ∉ part := by
  induction path generalizing part with
  | nil =>
    rw [List.splitOn_nil, List.mem_singleton] at hpart
    rw [hpart]
    exact List.not_mem_nil
  | cons x path ih =>
    rw [List.splitOn_cons_eq_if_modifyHead] at hpart
    split at hpart
    · rcases List.mem_cons.mp hpart with rfl | hrest
      · exact List.not_mem_nil
      · exact ih hrest
    rename_i hx
    cases hsplit : path.splitOn sep with
    | nil =>
      rw [hsplit] at hpart
      cases hpart
    | cons first rest =>
      rw [hsplit, List.modifyHead_cons, List.mem_cons] at hpart
      rw [hsplit] at ih
      rcases hpart with rfl | hrest
      · rintro (_ | ⟨_, hmem⟩)
        · exact hx (by simp)
        · exact ih List.mem_cons_self hmem
      · exact ih (List.mem_cons_of_mem _ hrest)

/-- What is read back is clean. -/
theorem clean_of_mem_components [DecidableEq α] {path part : List α}
    (hpart : part ∈ components sep path) : Clean sep part := by
  obtain ⟨hsplit, hne⟩ := List.mem_filter.mp hpart
  exact ⟨of_decide_eq_true hne, not_mem_of_mem_splitOn hsplit⟩

/-- Clean components are determined by their path. -/
theorem join_injective {parts' : List (List α)}
    (hclean : ∀ part ∈ parts, Clean sep part) (hclean' : ∀ part ∈ parts', Clean sep part)
    (heq : join sep parts = join sep parts') : parts = parts' := by
  classical
  rw [← components_join hclean, heq, components_join hclean']

theorem join_eq_nil (hclean : ∀ part ∈ parts, Clean sep part) :
    join sep parts = [] ↔ parts = [] := by
  refine ⟨fun heq => ?_, fun h => by rw [h, join_nil]⟩
  exact join_injective hclean (fun _ h => by cases h) heq

/-- A path comes before those below it. -/
theorem join_lt_join_append [LT α] {more : List (List α)}
    (hclean : ∀ part ∈ parts ++ more, Clean sep part) (hmore : more ≠ []) :
    join sep parts < join sep (parts ++ more) := by
  cases parts with
  | nil =>
    have hne : join sep more ≠ [] := fun h => hmore ((join_eq_nil hclean).mp h)
    obtain ⟨x, rest, hjoin⟩ := List.exists_cons_of_ne_nil hne
    rw [List.nil_append, hjoin]
    exact List.nil_lt_cons x rest
  | cons part parts =>
    rw [join_append sep (List.cons_ne_nil part parts) hmore]
    have hlt : join sep (part :: parts) ++ [] < join sep (part :: parts) ++ sep :: join sep more :=
      List.append_left_lt (List.nil_lt_cons sep (join sep more))
    rwa [List.append_nil] at hlt

end Paths
