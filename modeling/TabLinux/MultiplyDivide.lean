/-
The M extension against exact integers.  The interpreter multiplies and divides
in machine words of 32, 64 and 128 bits; here each result is related to the
product, the quotient or the remainder of the operands read as integers.
-/
import TabLinux.Execute
import Mathlib.Data.Int.Basic
import Mathlib.Algebra.Order.Group.Unbundled.Int

namespace TabLinux

universe u

variable {n : Nat}

variable {b : BitVec n}

/-- The high half of a product in 128 bits is the exact product shifted down
by 64 bits, rounding toward minus infinity. -/
theorem highHalf_ofInt (z : Int) :
    highHalf (BitVec.ofInt 128 z) = BitVec.ofInt 64 (z / 2 ^ 64) := by
  apply BitVec.eq_of_toNat_eq
  rw [highHalf, BitVec.extractLsb'_toNat, BitVec.toNat_ofInt, BitVec.toNat_ofInt,
    Nat.shiftRight_eq_div_pow]
  omega

theorem zeroExtend_eq_ofInt (a : BitVec n) (w : Nat) : a.zeroExtend w = BitVec.ofInt w a.toNat := by
  rw [BitVec.ofInt_natCast]
  exact (BitVec.ofNat_toNat w a).symm

theorem mul_eq_ofInt (a b : BitVec n) : a * b = BitVec.ofInt n (a.toInt * b.toInt) := by
  rw [BitVec.ofInt_mul, BitVec.ofInt_toInt, BitVec.ofInt_toInt]

theorem setWidth_ofInt (z : Int) : (BitVec.ofInt 64 z).setWidth 32 = BitVec.ofInt 32 z := by
  apply BitVec.eq_of_toNat_eq
  rw [BitVec.toNat_setWidth, BitVec.toNat_ofInt, BitVec.toNat_ofInt]
  omega

theorem RegOp.eval_mulh (a b : U64) :
    mulh.eval a b = BitVec.ofInt 64 (a.toInt * b.toInt / 2 ^ 64) := by
  rw [← highHalf_ofInt, BitVec.ofInt_mul]
  rfl

theorem RegOp.eval_mulhsu (a b : U64) :
    mulhsu.eval a b = BitVec.ofInt 64 (a.toInt * b.toNat / 2 ^ 64) := by
  rw [← highHalf_ofInt, BitVec.ofInt_mul, ← zeroExtend_eq_ofInt]
  rfl

theorem RegOp.eval_mulhu (a b : U64) :
    mulhu.eval a b = BitVec.ofInt 64 (a.toNat * b.toNat / 2 ^ 64) := by
  rw [← highHalf_ofInt, BitVec.ofInt_mul, ← zeroExtend_eq_ofInt, ← zeroExtend_eq_ofInt]
  rfl

/-- The operands of a signed division whose quotient does not fit. -/
def DivisionOverflows {n : Nat} (a b : BitVec n) : Prop :=
  a = BitVec.intMin n ∧ b = BitVec.allOnes n

/-- What a signed quotient and remainder of one width owe to their operands. -/
structure SignedDivision {n : Nat} (a b q r : BitVec n) : Prop where
  exact : b ≠ 0 → ¬ DivisionOverflows a b → a.toInt = b.toInt * q.toInt + r.toInt
  small : b ≠ 0 → ¬ DivisionOverflows a b → |r.toInt| < |b.toInt|
  towardZero : b ≠ 0 → ¬ DivisionOverflows a b → q.toInt = a.toInt.tdiv b.toInt
  zero : b = 0 → q = BitVec.allOnes n ∧ r = a
  overflow : DivisionOverflows a b → q = a ∧ r = 0

/-- The unsigned counterpart, which cannot overflow. -/
structure UnsignedDivision {n : Nat} (a b q r : BitVec n) : Prop where
  exact : b ≠ 0 → a.toNat = b.toNat * q.toNat + r.toNat
  small : b ≠ 0 → r.toNat < b.toNat
  zero : b = 0 → q = BitVec.allOnes n ∧ r = a

/-- The quotient both widths of `Div` compute. -/
def signedQuotient {n : Nat} (a b : BitVec n) : BitVec n :=
  if b = 0 then BitVec.allOnes n
  else if a = BitVec.intMin n ∧ b = BitVec.allOnes n then a
  else a.sdiv b

/-- The remainder both widths of `Rem` compute. -/
def signedRemainder {n : Nat} (a b : BitVec n) : BitVec n :=
  if b = 0 then a
  else if a = BitVec.intMin n ∧ b = BitVec.allOnes n then 0
  else a.srem b

def unsignedQuotient {n : Nat} (a b : BitVec n) : BitVec n :=
  if b = 0 then BitVec.allOnes n else a.udiv b

def unsignedRemainder {n : Nat} (a b : BitVec n) : BitVec n :=
  if b = 0 then a else a.umod b

theorem toInt_ne_zero (hb : b ≠ 0) : b.toInt ≠ 0 := by
  intro hzero
  exact hb (BitVec.toInt_inj.mp (hzero.trans BitVec.toInt_zero.symm))

theorem abs_tmod_lt (a : Int) {b : Int} (hb : b ≠ 0) : |a.tmod b| < |b| := by
  rw [Int.abs_eq_natAbs, Int.abs_eq_natAbs, Int.natAbs_tmod]
  exact Int.ofNat_lt.mpr (Nat.mod_lt _ (Int.natAbs_pos.mpr hb))

theorem allOnes_ne_zero (hn : 0 < n) : BitVec.allOnes n ≠ 0 := by
  intro h
  have hvalue := congrArg BitVec.toNat h
  have hlarge := Nat.one_lt_two_pow (Nat.pos_iff_ne_zero.mp hn)
  simp only [BitVec.toNat_allOnes, BitVec.ofNat_eq_ofNat, BitVec.toNat_ofNat,
    Nat.zero_mod] at hvalue
  omega

theorem toInt_sdiv_of_not_overflows {a : BitVec n} (hfits : ¬ DivisionOverflows a b) :
    (a.sdiv b).toInt = a.toInt.tdiv b.toInt := by
  apply BitVec.toInt_sdiv_of_ne_or_ne
  by_contra hnot
  push Not at hnot
  exact hfits ⟨hnot.1, hnot.2.trans BitVec.neg_one_eq_allOnes⟩

theorem signedDivision (hn : 0 < n) (a b : BitVec n) :
    SignedDivision a b (signedQuotient a b) (signedRemainder a b) := by
  -- Away from the two special cases both results are the machine's own.
  have hplain : b ≠ 0 → ¬ DivisionOverflows a b →
      signedQuotient a b = a.sdiv b ∧ signedRemainder a b = a.srem b := by
    intro hb hfits
    have hfits' : ¬ (a = BitVec.intMin n ∧ b = BitVec.allOnes n) := hfits
    simp only [signedQuotient, signedRemainder, if_neg hb, if_neg hfits', and_self]
  refine ⟨?_, ?_, ?_, ?_, ?_⟩
  · intro hb hfits
    obtain ⟨hq, hr⟩ := hplain hb hfits
    rw [hq, hr, toInt_sdiv_of_not_overflows hfits, BitVec.toInt_srem]
    exact (Int.mul_tdiv_add_tmod a.toInt b.toInt).symm
  · intro hb hfits
    rw [(hplain hb hfits).2, BitVec.toInt_srem]
    exact abs_tmod_lt a.toInt (toInt_ne_zero hb)
  · intro hb hfits
    rw [(hplain hb hfits).1]
    exact toInt_sdiv_of_not_overflows hfits
  · intro hb
    exact ⟨if_pos hb, if_pos hb⟩
  rintro ⟨ha, hb⟩
  have hne : b ≠ 0 := hb ▸ allOnes_ne_zero hn
  exact ⟨(if_neg hne).trans (if_pos ⟨ha, hb⟩), (if_neg hne).trans (if_pos ⟨ha, hb⟩)⟩

theorem unsignedDivision (a b : BitVec n) :
    UnsignedDivision a b (unsignedQuotient a b) (unsignedRemainder a b) := by
  refine ⟨?_, ?_, ?_⟩
  · intro hb
    simp only [unsignedQuotient, unsignedRemainder, if_neg hb, BitVec.udiv_eq,
      BitVec.umod_eq, BitVec.toNat_udiv, BitVec.toNat_umod]
    exact (Nat.div_add_mod _ _).symm
  · intro hb
    simp only [unsignedRemainder, if_neg hb, BitVec.umod_eq, BitVec.toNat_umod]
    apply Nat.mod_lt
    exact Nat.pos_of_ne_zero fun hzero =>
      hb (BitVec.eq_of_toNat_eq (hzero.trans BitVec.toNat_zero.symm))
  · intro hb
    exact ⟨if_pos hb, if_pos hb⟩

theorem wordResult_allOnes : wordResult (BitVec.allOnes 32) = BitVec.allOnes 64 := by
  decide

theorem RegOp.eval_divw (a b : U64) :
    divw.eval a b = wordResult (signedQuotient (a.setWidth 32) (b.setWidth 32)) := by
  simp only [eval, signedQuotient]
  split_ifs
  · exact wordResult_allOnes.symm
  · rfl
  · rfl

theorem RegOp.eval_divuw (a b : U64) : divuw.eval a b
      = wordResult (unsignedQuotient (a.setWidth 32) (b.setWidth 32)) := by
  simp only [eval, unsignedQuotient]
  split_ifs
  · exact wordResult_allOnes.symm
  · rfl

theorem RegOp.eval_remw (a b : U64) :
    remw.eval a b = wordResult (signedRemainder (a.setWidth 32) (b.setWidth 32)) := by
  simp only [eval, signedRemainder]
  split_ifs
  · rfl
  · rfl
  · rfl

theorem RegOp.eval_remuw (a b : U64) : remuw.eval a b
      = wordResult (unsignedRemainder (a.setWidth 32) (b.setWidth 32)) := by
  simp only [eval, unsignedRemainder]
  split_ifs
  · rfl
  · rfl

/-- The four products of `a` and `b`, and the word product. -/
structure ExactProducts (a b : U64) (result : RegOp → U64) : Prop where
  mul : result .mul = BitVec.ofInt 64 (a.toInt * b.toInt)
  mulh : result .mulh = BitVec.ofInt 64 (a.toInt * b.toInt / 2 ^ 64)
  mulhsu : result .mulhsu = BitVec.ofInt 64 (a.toInt * b.toNat / 2 ^ 64)
  mulhu : result .mulhu = BitVec.ofInt 64 (a.toNat * b.toNat / 2 ^ 64)
  mulw : result .mulw = (BitVec.ofInt 32 (a.toInt * b.toInt)).signExtend 64

/-- The eight quotients and remainders of `a` and `b`; those of the W forms are
sign extensions of 32-bit results on the low words. -/
structure ExactDivisions (a b : U64) (result : RegOp → U64) : Prop where
  signed : SignedDivision a b (result .div) (result .rem)
  unsigned : UnsignedDivision a b (result .divu) (result .remu)
  signedWord : ∃ q r : U32, SignedDivision (a.setWidth 32) (b.setWidth 32) q r ∧
    result .divw = q.signExtend 64 ∧ result .remw = r.signExtend 64
  unsignedWord : ∃ q r : U32, UnsignedDivision (a.setWidth 32) (b.setWidth 32) q r ∧
    result .divuw = q.signExtend 64 ∧ result .remuw = r.signExtend 64

theorem RegOp.exactProducts (a b : U64) : ExactProducts a b fun op => op.eval a b := by
  refine ⟨mul_eq_ofInt a b, eval_mulh a b, eval_mulhsu a b, eval_mulhu a b, ?_⟩
  have hlow : a.setWidth 32 * b.setWidth 32 = BitVec.ofInt 32 (a.toInt * b.toInt) := by
    rw [← BitVec.setWidth_mul a b (by decide), mul_eq_ofInt, setWidth_ofInt]
  exact congrArg wordResult hlow

theorem RegOp.exactDivisions (a b : U64) : ExactDivisions a b fun op => op.eval a b := by
  refine ⟨signedDivision (by decide) a b, unsignedDivision a b, ?_, ?_⟩
  · exact ⟨_, _, signedDivision (by decide) _ _, eval_divw a b, eval_remw a b⟩
  · exact ⟨_, _, unsignedDivision _ _, eval_divuw a b, eval_remuw a b⟩

/-- Every instruction of the M extension writes the exact result for its two
operands to `rd`, steps past itself and touches nothing else. -/
theorem multiplyDivide_exact [FloatOps] {β : Type u} [Bus β] (cpu : Cpu) (rs1 rs2 : Reg) :
    ∃ result : RegOp → U64,
      (∀ (op : RegOp) (rd : Reg) (width : U64) (bus : β),
        executeWidth cpu (.op op rd rs1 rs2) width bus
          = (.running, (cpu.writeReg rd (result op)).advance width, bus)) ∧
      ExactProducts (cpu.readReg rs1) (cpu.readReg rs2) result ∧
      ExactDivisions (cpu.readReg rs1) (cpu.readReg rs2) result := by
  refine ⟨fun op => op.eval (cpu.readReg rs1) (cpu.readReg rs2), ?_, ?_, ?_⟩
  · intro op rd width bus
    rfl
  · exact RegOp.exactProducts _ _
  · exact RegOp.exactDivisions _ _

end TabLinux
