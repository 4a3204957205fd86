/-
Strings of bytes: little-endian numbers, and the edits of a byte file.
-/
import Mathlib.Algebra.Group.Nat.Defs
import Mathlib.Data.List.Basic

abbrev Bytes.Byte := BitVec 8

abbrev Bytes := List Bytes.Byte

namespace Bytes

variable {bytes src : Bytes} {n off k : Nat}

/-- The number a little-endian string stands for. -/
def ofLe : Bytes → Nat
  | [] => 0
  | b :: bs => b.toNat + 256 * ofLe bs

/-- The `n` low bytes of a number, little end first. -/
def toLe : (n : Nat) → Nat → Bytes
  | 0, _ => []
  | n + 1, value => BitVec.ofNat 8 value :: toLe n (value / 256)

@[simp] theorem length_toLe (n value : Nat) : (toLe n value).length = n := by
  induction n generalizing value with
  | zero => rfl
  | succ n ih => rw [toLe, List.length_cons, ih]

theorem ofLe_lt (bytes : Bytes) : ofLe bytes < 256 ^ bytes.length := by
  induction bytes with
  | nil => exact Nat.one_pos
  | cons b bs ih =>
    rw [ofLe, List.length_cons, Nat.pow_succ]
    omega

theorem ofLe_toLe (n value : Nat) : ofLe (toLe n value) = value % 256 ^ n := by
  induction n generalizing value with
  | zero => rw [Nat.pow_zero, Nat.mod_one, toLe, ofLe]
  | succ n ih =>
    have hsplit : value % 256 ^ (n + 1) = value % 256 + 256 * (value / 256 % 256 ^ n) := by
      rw [Nat.pow_succ', Nat.mod_mul]
    rw [toLe, ofLe, ih, BitVec.toNat_ofNat, hsplit]

/-- Cut off at `n` bytes, or filled up with zeros. -/
def resize (bytes : Bytes) (n : Nat) : Bytes :=
  bytes.take n ++ List.replicate (n - bytes.length) 0

theorem resize_of_length (h : bytes.length = n) : resize bytes n = bytes := by
  rw [resize, List.take_of_length_le (Nat.le_of_eq h), h, Nat.sub_self, List.replicate_zero,
    List.append_nil]

theorem length_resize (bytes : Bytes) (n : Nat) : (resize bytes n).length = n := by
  rw [resize, List.length_append, List.length_take, List.length_replicate]
  omega

/-- The bytes from `off` on replaced by `src`. -/
def overwrite (bytes : Bytes) (off : Nat) (src : Bytes) : Bytes :=
  bytes.take off ++ src ++ bytes.drop (off + src.length)

theorem length_overwrite (hfits : off + src.length ≤ bytes.length) :
    (overwrite bytes off src).length = bytes.length := by
  rw [overwrite, List.length_append, List.length_append, List.length_take, List.length_drop]
  omega

theorem getElem?_overwrite (hfits : off + src.length ≤ bytes.length) (i : Nat) :
    (overwrite bytes off src)[i]? =
      if off ≤ i ∧ i < off + src.length then src[i - off]? else bytes[i]? := by
  have htake : (bytes.take off).length = off := by
    rw [List.length_take]
    omega
  rw [overwrite, List.append_assoc, List.getElem?_append, htake]
  by_cases hbefore : i < off
  · rw [if_pos hbefore, if_neg (by omega), List.getElem?_take_of_lt hbefore]
  rw [if_neg hbefore, List.getElem?_append]
  by_cases hin : i - off < src.length
  · rw [if_pos hin, if_pos (by omega)]
  rw [if_neg hin, if_neg (by omega), List.getElem?_drop]
  congr 1
  omega

/-- The bytes of block `i`, of `k` bytes each. -/
def block (k : Nat) (bytes : Bytes) (i : Nat) : Bytes := (bytes.drop (k * i)).take k

theorem length_block {i : Nat} (h : k * i + k ≤ bytes.length) : (block k bytes i).length = k := by
  rw [block, List.length_take, List.length_drop]
  omega

theorem getElem?_block (k : Nat) (bytes : Bytes) (i j : Nat) :
    (block k bytes i)[j]? = if j < k then bytes[k * i + j]? else none := by
  rw [block, List.getElem?_take, List.getElem?_drop]

/-- Blocks that are overwritten as a whole, and the others. -/
theorem block_overwrite {s : Nat} (hsrc : src.length = k * n)
    (hfits : k * s + src.length ≤ bytes.length) (i : Nat) :
    block k (overwrite bytes (k * s) src) i =
      if s ≤ i ∧ i < s + n then block k src (i - s) else block k bytes i := by
  apply List.ext_getElem?
  intro j
  rw [getElem?_block, apply_ite (fun l : Bytes => l[j]?), getElem?_block, getElem?_block,
    getElem?_overwrite hfits]
  by_cases hj : j < k
  · rw [if_pos hj, if_pos hj, if_pos hj]
    by_cases hin : s ≤ i ∧ i < s + n
    · obtain ⟨d, rfl⟩ := Nat.exists_eq_add_of_le hin.1
      have hd : k * d + k ≤ k * n := by
        rw [← Nat.mul_succ]
        exact Nat.mul_le_mul_left k (by omega)
      have hmul : k * (s + d) = k * s + k * d := Nat.mul_add k s d
      rw [if_pos hin, if_pos (by omega), Nat.add_sub_cancel_left]
      congr 1
      omega
    · rw [if_neg hin, if_neg]
      rintro ⟨hlow, hhigh⟩
      apply hin
      constructor
      · by_contra hlt
        have := Nat.mul_le_mul_left k (show i + 1 ≤ s by omega)
        rw [Nat.mul_succ] at this
        omega
      · by_contra hge
        have := Nat.mul_le_mul_left k (show s + n ≤ i by omega)
        rw [Nat.mul_add] at this
        omega
  · rw [if_neg hj, if_neg hj, if_neg hj, ite_self]

/-- A run of blocks is their concatenation. -/
theorem take_drop_eq_blocks (k : Nat) (bytes : Bytes) (s n : Nat) :
    (bytes.drop (k * s)).take (k * n) = (List.range' s n).flatMap (block k bytes) := by
  induction n generalizing s with
  | zero => rw [Nat.mul_zero, List.take_zero]; rfl
  | succ n ih =>
    rw [List.range'_succ, List.flatMap_cons, ← ih, Nat.mul_succ, Nat.add_comm (k * n) k,
      List.take_add, List.drop_drop, Nat.mul_succ, block]

end Bytes
