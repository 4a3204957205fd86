/-
Status words bit by bit: `mstatus` as a word and as its fields, and merges under
a mask.
-/
import TabLinux.Csr

namespace TabLinux

open BitVec

variable {pos : Nat}

variable {val inner : U64}

theorem getLsbD_flagBit (flag : Bool) (hpos : pos < 64) (i : Nat) :
    (flagBit flag pos).getLsbD i = (flag && decide (i = pos)) := by
  unfold flagBit
  cases flag with
  | false => simp
  | true =>
    rw [if_pos rfl, getLsbD_shiftLeft, getLsbD_one]
    by_cases hi : i = pos
    · simp [hi, hpos]
    simp only [hi, decide_false, Bool.and_false]
    by_cases hlt : i < pos
    · simp [hlt]
    · simp
      omega

theorem getLsbD_fieldBits (field : BitVec 2) (hpos : pos < 63) (i : Nat) :
    (fieldBits field pos).getLsbD i = (decide (pos ≤ i) && field.getLsbD (i - pos)) := by
  unfold fieldBits
  by_cases hle : pos ≤ i
  · by_cases hlt : i < 64
    · simp [hle, hlt]
    · rw [getLsbD_of_ge _ _ (by omega), getLsbD_of_ge field _ (by omega)]
      simp
  · simp [hle]

theorem flagBit_and_of_clear {mask : U64} (hpos : pos < 64)
    (hclear : mask.getLsbD pos = false) (flag : Bool) : flagBit flag pos &&& mask = 0 := by
  apply eq_of_getLsbD_eq
  intro i _
  rw [getLsbD_and, getLsbD_flagBit flag hpos, ofNat_eq_ofNat, getLsbD_zero]
  by_cases hi : i = pos
  · rw [hi, hclear, Bool.and_false]
  · rw [decide_eq_false hi, Bool.and_false, Bool.false_and]

theorem fieldBits_and_of_clear {mask : U64} (hpos : pos < 63)
    (hclear : mask.getLsbD pos = false) (hnext : mask.getLsbD (pos + 1) = false)
    (field : BitVec 2) : fieldBits field pos &&& mask = 0 := by
  apply eq_of_getLsbD_eq
  intro i _
  rw [getLsbD_and, getLsbD_fieldBits field hpos, ofNat_eq_ofNat, getLsbD_zero]
  by_cases hi : i = pos ∨ i = pos + 1
  · obtain rfl | rfl := hi
    · rw [hclear, Bool.and_false]
    · rw [hnext, Bool.and_false]
  · by_cases hle : pos ≤ i
    · rw [getLsbD_of_ge field _ (by omega), Bool.and_false, Bool.false_and]
    · rw [decide_eq_false hle, Bool.false_and, Bool.false_and]

theorem MStatus.fromBits_toBits (m : MStatus) : fromBits m.toBits = m := by
  have hfield : ∀ {pos : Nat} {field : BitVec 2}, m.toBits.getLsbD pos = field.getLsbD 0 →
      m.toBits.getLsbD (pos + 1) = field.getLsbD 1 → m.toBits.extractLsb' pos 2 = field := by
    intro pos field hlow hhigh
    apply eq_of_getLsbD_eq
    intro i hi
    rw [getLsbD_extractLsb', decide_eq_true hi, Bool.true_and]
    obtain rfl | rfl : i = 0 ∨ i = 1 := by omega
    · exact hlow
    · exact hhigh
  unfold fromBits
  rw [mk.injEq]
  refine ⟨?_, ?_, ?_, ?_, ?_, ?_, ?_, ?_, ?_, ?_, ?_, ?_, ?_, ?_, ?_, ?_, ?_, ?_, ?_, ?_⟩
  all_goals first
    | refine hfield ?_ ?_
    | skip
  all_goals
    simp (disch := omega) only [toBits, getLsbD_or, getLsbD_flagBit, getLsbD_fieldBits]
    simp

/-- Two words that agree on the bits of a mask. -/
def AgreeOn (mask left right : U64) : Prop :=
  ∀ i, mask.getLsbD i = true → left.getLsbD i = right.getLsbD i

namespace AgreeOn

variable {mask left right : U64}

theorem refl (mask word : U64) : AgreeOn mask word word := fun _ _ => rfl

theorem of_and_eq (h : left &&& mask = right &&& mask) : AgreeOn mask left right := by
  intro i hi
  have hbit := congrArg (fun word => word.getLsbD i) h
  simpa only [getLsbD_and, hi, Bool.and_true] using hbit

variable (h : AgreeOn mask left right)
include h

theorem and_eq : left &&& mask = right &&& mask := by
  apply eq_of_getLsbD_eq
  intro i _
  rw [getLsbD_and, getLsbD_and]
  cases hbit : mask.getLsbD i with
  | false => rw [Bool.and_false, Bool.and_false]
  | true => rw [h i hbit]

/-- A two-bit field under the mask. -/
theorem field_eq (hpos : mask.getLsbD pos = true)
    (hnext : mask.getLsbD (pos + 1) = true) : left.extractLsb' pos 2 = right.extractLsb' pos 2 := by
  apply eq_of_getLsbD_eq
  intro i hi
  rw [getLsbD_extractLsb', getLsbD_extractLsb']
  obtain rfl | rfl : i = 0 ∨ i = 1 := by omega
  · exact congrArg _ (h pos hpos)
  · exact congrArg _ (h (pos + 1) hnext)

/-- The value a CSR instruction writes depends on the old one bit by bit. -/
theorem combine (op : CsrOp) (val : U64) :
    AgreeOn mask (op.combine left val) (op.combine right val) := by
  intro i hi
  cases op with
  | rw => rfl
  | rs => simp only [CsrOp.combine, getLsbD_or, h i hi]
  | rc => simp only [CsrOp.combine, getLsbD_and, h i hi]

end AgreeOn

theorem getLsbD_mergeBits (old mask val : U64) (i : Nat) : (mergeBits old mask val).getLsbD i
      = if mask.getLsbD i then val.getLsbD i else old.getLsbD i := by
  by_cases hi : i < 64
  · simp only [mergeBits, getLsbD_or, getLsbD_and, getLsbD_not, hi,
      decide_true, Bool.true_and]
    cases mask.getLsbD i with
    | false => simp
    | true => simp
  · simp [getLsbD_of_ge _ _ (Nat.le_of_not_lt hi)]

/-- A merge keeps the old word where its mask is clear. -/
theorem mergeBits_agreeOn_old {mask kept : U64} (hdisjoint : kept &&& mask = 0)
    (old val : U64) : AgreeOn kept old (mergeBits old mask val) := by
  intro i hi
  have hclear : mask.getLsbD i = false := by
    have hbit := congrArg (fun word => word.getLsbD i) hdisjoint
    simpa [getLsbD_and, hi] using hbit
  rw [getLsbD_mergeBits, hclear]
  rfl

/-- A merge takes the new word where its mask is set. -/
theorem mergeBits_agreeOn_new (old mask val : U64) :
    AgreeOn mask val (mergeBits old mask val) := by
  intro i hi
  rw [getLsbD_mergeBits, hi]
  rfl

/-- Merges of values that agree under the merging mask agree wherever that mask
is set or the old words agreed. -/
theorem AgreeOn.mergeBits {mask shown old old' val' : U64}
    (hold : AgreeOn shown old old') (hval : AgreeOn mask val val') :
    AgreeOn shown (mergeBits old mask val) (mergeBits old' mask val') := by
  intro i hi
  rw [getLsbD_mergeBits, getLsbD_mergeBits]
  cases hbit : mask.getLsbD i with
  | false => exact hold i hi
  | true => exact hval i hbit

/-- No bit of the word lies outside the mask. -/
def Within (mask word : U64) : Prop := word &&& ~~~ mask = 0

namespace Within

variable {mask left right : U64}

theorem zero (mask : U64) : Within mask 0 := zero_and

theorem or (hleft : Within mask left) (hright : Within mask right) :
    Within mask (left ||| right) := by
  unfold Within at *
  rw [and_or_distrib_right, hleft, hright]
  rfl

/-- A word cut down by a smaller mask. -/
theorem of_and (hinner : inner &&& ~~~ mask = 0) (word : U64) :
    Within mask (word &&& inner) := by
  unfold Within
  rw [BitVec.and_assoc, hinner]
  exact and_zero

theorem eq_and (h : Within mask left) : left = left &&& mask := by
  apply eq_of_getLsbD_eq
  intro i hi
  have hbit := congrArg (fun word => word.getLsbD i) h
  simp only [getLsbD_and, getLsbD_not, hi, decide_true, Bool.true_and,
    ofNat_eq_ofNat, getLsbD_zero] at hbit
  rw [getLsbD_and]
  cases hleft : left.getLsbD i with
  | false => rfl
  | true => simpa [hleft] using hbit

theorem mono {outer : U64} (hmask : mask &&& ~~~ outer = 0) (h : Within mask left) :
    Within outer left := by
  rw [h.eq_and]
  exact of_and hmask left

theorem mergeBits (hinner : inner &&& ~~~ mask = 0)
    (h : Within mask left) : Within mask (TabLinux.mergeBits left inner val) := by
  refine or ?_ (of_and hinner val)
  unfold Within at *
  rw [BitVec.and_assoc, BitVec.and_comm (~~~ inner), ← BitVec.and_assoc, h]
  exact zero_and

theorem toNat_lt {n : Nat} (h : Within mask left) (hmask : mask.toNat < 2 ^ n) :
    left.toNat < 2 ^ n := by
  rw [h.eq_and, toNat_and]
  exact Nat.and_lt_two_pow _ hmask

end Within

end TabLinux
