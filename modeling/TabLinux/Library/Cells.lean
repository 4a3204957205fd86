/-
A store seen through a list of its cells: values put into the cells in order, and read
back.  Cells may be addresses of any kind.
-/
import Mathlib.Data.List.Nodup
import Mathlib.Logic.Function.Basic

namespace Cells

universe u v

variable {ι : Type u} {α : Type v} [DecidableEq ι]

/-- Put values into cells, first to first, as long as there are both. -/
def put (f : ι → α) : List ι → List α → ι → α
  | cell :: cells, value :: values => put (Function.update f cell value) cells values
  | [], _ => f
  | _ :: _, [] => f

@[simp] theorem put_nil_left (f : ι → α) (values : List α) : put f [] values = f := by
  cases values <;> rfl

@[simp] theorem put_nil_right (f : ι → α) (cells : List ι) : put f cells [] = f := by
  cases cells <;> rfl

variable {cells : List ι}

theorem put_of_not_mem {f : ι → α} (values : List α) {i : ι}
    (h : i ∉ cells) : put f cells values i = f i := by
  induction cells generalizing f values with
  | nil => rw [put_nil_left]
  | cons cell cells ih =>
    cases values with
    | nil => rfl
    | cons value values =>
      rw [List.mem_cons, not_or] at h
      obtain ⟨hne, hrest⟩ := h
      rw [put, ih values hrest, Function.update_of_ne hne]

/-- Cells beyond the values keep what they hold. -/
theorem put_take (f : ι → α) (cells : List ι) (values : List α) :
    put f (cells.take values.length) values = put f cells values := by
  induction cells generalizing f values with
  | nil => rw [List.take_nil]
  | cons cell cells ih =>
    cases values with
    | nil => rfl
    | cons value values => exact ih _ values

/-- Values beyond the cells are not put anywhere. -/
theorem put_take_values (f : ι → α) (cells : List ι) (values : List α) :
    put f cells (values.take cells.length) = put f cells values := by
  induction cells generalizing f values with
  | nil => rw [put_nil_left, put_nil_left]
  | cons cell cells ih =>
    cases values with
    | nil => rfl
    | cons value values => exact ih _ values

variable {values : List α}

theorem put_append_left (f : ι → α) (hlen : values.length ≤ cells.length) (cells' : List ι) :
    put f (cells ++ cells') values = put f cells values := by
  rw [← put_take, List.take_append_of_le_length hlen, put_take]

theorem put_append (f : ι → α)
    (hlen : cells.length = values.length) (cells' : List ι) (values' : List α) :
    put f (cells ++ cells') (values ++ values') = put (put f cells values) cells' values' := by
  induction cells generalizing f values with
  | nil =>
    rw [List.length_nil, eq_comm, List.length_eq_zero_iff] at hlen
    rw [hlen, List.nil_append, List.nil_append, put_nil_left]
  | cons cell cells ih =>
    cases values with
    | nil => cases hlen
    | cons value values => exact ih _ (Nat.succ.inj hlen)

/-- What was put into distinct cells is found there. -/
theorem map_put (f : ι → α) (hnodup : cells.Nodup) (hlen : values.length ≤ cells.length) :
    (cells.take values.length).map (put f cells values) = values := by
  induction cells generalizing f values with
  | nil =>
    rw [List.length_nil, Nat.le_zero, List.length_eq_zero_iff] at hlen
    rw [hlen]
    rfl
  | cons cell cells ih =>
    cases values with
    | nil => rfl
    | cons value values =>
      obtain ⟨hfresh, hrest⟩ := List.nodup_cons.mp hnodup
      rw [List.length_cons, List.take_succ_cons, List.map_cons, put,
        ih _ hrest (Nat.le_of_succ_le_succ hlen), put_of_not_mem values hfresh,
        Function.update_self]

theorem map_put_of_disjoint {others : List ι} (f : ι → α) (values : List α)
    (hdisjoint : ∀ i ∈ others, i ∉ cells) : others.map (put f cells values) = others.map f :=
  List.map_congr_left fun i hi => put_of_not_mem values (hdisjoint i hi)

/-- Values put into consecutive numbers. -/
theorem put_range (f : Nat → α) (start : Nat) (values : List α) (d : α) (i : Nat) :
    put f (List.range' start values.length) values i =
      if start ≤ i ∧ i < start + values.length then values.getD (i - start) d else f i := by
  induction values generalizing f start with
  | nil =>
    rw [put_nil_right, if_neg]
    rintro ⟨hle, hlt⟩
    exact absurd hlt (Nat.not_lt.mpr hle)
  | cons value values ih =>
    rw [List.length_cons, List.range'_succ, put, ih]
    by_cases hself : i = start
    · subst hself
      rw [if_neg (by omega), if_pos (by omega), Function.update_self, Nat.sub_self]
      rfl
    by_cases hin : start + 1 ≤ i ∧ i < start + 1 + values.length
    · have hsucc : i - start = (i - (start + 1)) + 1 := by omega
      rw [if_pos hin, if_pos (by omega), hsucc]
      rfl
    · rw [if_neg hin, if_neg (by omega), Function.update_of_ne hself]

end Cells
