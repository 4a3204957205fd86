/-
Byte-addressed memories over a fixed address width, with little-endian access
of any number of bytes.  Addresses wrap at the width, as they do in a flat
machine address space.
-/
import Mathlib.Data.BitVec
import Mathlib.Tactic.Ring

namespace ByteMemory

variable {w n : Nat}

variable {k i : Nat} {addr : BitVec w}

/-- A flat memory: one byte for every address of width `w`. -/
def ByteMem (w : Nat) : Type := BitVec w → BitVec 8

instance : Inhabited (ByteMem w) := ⟨fun _ => 0#8⟩

/-- Byte `i` of a value, counted from the least significant one. -/
def byteOf {k : Nat} (value : BitVec k) (i : Nat) : BitVec 8 :=
  value.extractLsb' (8 * i) 8

/-- Little-endian read of `n` bytes at `addr`. -/
def ByteMem.load (mem : ByteMem w) (addr : BitVec w) : (n : Nat) → BitVec (8 * n)
  | 0 => 0#0
  | n + 1 => mem.load (addr + 1#w) n ++ mem addr

/-- Little-endian write of the `n` bytes of `value` at `addr`. -/
def ByteMem.store (mem : ByteMem w) (addr : BitVec w) (value : BitVec (8 * n)) :
    ByteMem w :=
  fun other =>
    if (other - addr).toNat < n then byteOf value (other - addr).toNat
    else mem other

theorem getLsbD_byteOf (value : BitVec k) (i j : Nat) :
    (byteOf value i).getLsbD j = (decide (j < 8) && value.getLsbD (8 * i + j)) := by
  simp [byteOf, BitVec.getLsbD_extractLsb']

theorem byteOf_append_zero (high : BitVec (8 * n)) (low : BitVec 8) :
    byteOf (high ++ low) 0 = low := by
  apply BitVec.eq_of_getLsbD_eq
  intro j hj
  rw [getLsbD_byteOf, BitVec.getLsbD_append]
  simp [hj]

theorem byteOf_append_succ (high : BitVec (8 * n)) (low : BitVec 8) (i : Nat) :
    byteOf (high ++ low) (i + 1) = byteOf high i := by
  apply BitVec.eq_of_getLsbD_eq
  intro j hj
  rw [getLsbD_byteOf, getLsbD_byteOf, BitVec.getLsbD_append]
  have hge : ¬ 8 * (i + 1) + j < 8 := by omega
  have hsub : 8 * (i + 1) + j - 8 = 8 * i + j := by omega
  simp [hge, hsub]

/-- Two values of `n` bytes with the same bytes are equal. -/
theorem eq_of_byteOf_eq {left right : BitVec (8 * n)}
    (hbytes : ∀ i < n, byteOf left i = byteOf right i) : left = right := by
  apply BitVec.eq_of_getLsbD_eq
  intro j hj
  have hbyte := congrArg (fun b => b.getLsbD (j % 8)) (hbytes (j / 8) (by omega))
  simp only [getLsbD_byteOf, Nat.div_add_mod] at hbyte
  simpa [Nat.mod_lt] using hbyte

variable (mem : ByteMem w)

theorem byteOf_load (addr : BitVec w) (hi : i < n) :
    byteOf (mem.load addr n) i = mem (addr + BitVec.ofNat w i) := by
  induction n generalizing addr i with
  | zero => omega
  | succ n ih =>
    cases i with
    | zero => simp [ByteMem.load, byteOf_append_zero]
    | succ i =>
      rw [ByteMem.load, byteOf_append_succ, ih (addr + 1#w) (by omega)]
      congr 1
      rw [BitVec.add_assoc, BitVec.ofNat_add, BitVec.add_comm (1#w)]

theorem store_apply (addr other : BitVec w) (value : BitVec (8 * n)) :
    mem.store addr value other =
      if (other - addr).toNat < n then byteOf value (other - addr).toNat
      else mem other := rfl

/-- Loads see a memory only through the bytes they cover. -/
theorem load_congr {left right : ByteMem w}
    (hbytes : ∀ i < n, left (addr + BitVec.ofNat w i) =
      right (addr + BitVec.ofNat w i)) : left.load addr n = right.load addr n := by
  apply eq_of_byteOf_eq
  intro i hi
  rw [byteOf_load left addr hi, byteOf_load right addr hi, hbytes i hi]

theorem load_store_same (addr : BitVec w)
    (value : BitVec (8 * n)) (hn : n ≤ 2 ^ w) : (mem.store addr value).load addr n = value := by
  apply eq_of_byteOf_eq
  intro i hi
  have hoff : (addr + BitVec.ofNat w i - addr).toNat = i := by
    rw [BitVec.add_comm, BitVec.add_sub_cancel, BitVec.toNat_ofNat]
    exact Nat.mod_eq_of_lt (by omega)
  rw [byteOf_load _ _ hi, store_apply, hoff, if_pos hi]

/-- A write leaves every load alone whose bytes it does not cover. -/
theorem load_store_disjoint (addr other : BitVec w)
    (value : BitVec (8 * n)) (hdisj : ∀ i < k, n ≤ (other + BitVec.ofNat w i - addr).toNat) :
    (mem.store addr value).load other k = mem.load other k := by
  apply load_congr
  intro i hi
  rw [store_apply, if_neg (by have := hdisj i hi; omega)]

/-- Two distinct addresses that are both multiples of `n` (a power-of-two
divisor of the address space) name disjoint `n`-byte cells. -/
theorem aligned_cells_disjoint {other : BitVec w}
    (hdvd : n ∣ 2 ^ w) (haddr : n ∣ addr.toNat) (hother : n ∣ other.toNat)
    (hne : addr ≠ other) (hi : i < n) : n ≤ (other + BitVec.ofNat w i - addr).toNat := by
  by_contra hlt
  have hlt : (other + BitVec.ofNat w i - addr).toNat < n := by omega
  have hpos : 0 < 2 ^ w := Nat.two_pow_pos w
  obtain ⟨cells, hcells⟩ := hdvd
  obtain ⟨a, ha⟩ := haddr
  obtain ⟨b, hb⟩ := hother
  have haw := addr.isLt
  have hbw := other.isLt
  -- `other + i` stays inside its own cell, so it does not wrap.
  have hbi : n * b + i < 2 ^ w := by
    have hb' : b < cells := by
      rw [hb, hcells] at hbw
      exact Nat.lt_of_mul_lt_mul_left hbw
    calc n * b + i < n * b + n := by omega
      _ = n * (b + 1) := by ring
      _ ≤ n * cells := Nat.mul_le_mul_left n hb'
      _ = 2 ^ w := hcells.symm
  have hsum : (other + BitVec.ofNat w i).toNat = n * b + i := by
    rw [BitVec.toNat_add, BitVec.toNat_ofNat, Nat.mod_eq_of_lt (by omega : i < 2 ^ w),
      hb, Nat.mod_eq_of_lt hbi]
  rw [BitVec.toNat_sub, hsum, ha] at hlt
  rcases Nat.lt_or_ge (n * b + i) (n * a) with hcase | hcase
  · have hab : b < a := by
      by_contra hba
      have := Nat.mul_le_mul_left n (Nat.le_of_not_lt hba)
      omega
    have hstep : n * (b + 1) ≤ n * a := Nat.mul_le_mul_left n hab
    have hfit : n * (a + 1) ≤ n * cells := by
      rw [ha, hcells] at haw
      exact Nat.mul_le_mul_left n (Nat.lt_of_mul_lt_mul_left haw)
    rw [Nat.mul_add, Nat.mul_one] at hstep hfit
    rw [Nat.mod_eq_of_lt (by omega)] at hlt
    omega
  · have hmod : (2 ^ w - n * a + (n * b + i)) % 2 ^ w = n * b + i - n * a := by
      have : 2 ^ w - n * a + (n * b + i) = n * b + i - n * a + 2 ^ w := by omega
      rw [this, Nat.add_mod_right, Nat.mod_eq_of_lt (by omega)]
    rw [hmod] at hlt
    have hab : a = b := by
      by_contra hne'
      rcases Nat.lt_or_ge a b with h | h
      · have hstep : n * (a + 1) ≤ n * b := Nat.mul_le_mul_left n h
        rw [Nat.mul_add, Nat.mul_one] at hstep
        omega
      have hstep : n * (b + 1) ≤ n * a :=
        Nat.mul_le_mul_left n (Nat.lt_of_le_of_ne h (Ne.symm hne'))
      rw [Nat.mul_add, Nat.mul_one] at hstep
      omega
    exact hne (BitVec.eq_of_toNat_eq (by rw [ha, hb, hab]))

/-- Aligned cells read like the entries of an array of words. -/
theorem load_store_aligned (addr other : BitVec w)
    (value : BitVec (8 * n)) (hdvd : n ∣ 2 ^ w) (haddr : n ∣ addr.toNat)
    (hother : n ∣ other.toNat) :
    (mem.store addr value).load other n =
      if other = addr then value else mem.load other n := by
  split
  · rename_i heq
    rw [heq]
    exact load_store_same mem addr value (Nat.le_of_dvd (Nat.two_pow_pos w) hdvd)
  · rename_i hne
    exact load_store_disjoint mem addr other value fun i hi =>
      aligned_cells_disjoint hdvd haddr hother (Ne.symm hne) hi

end ByteMemory
