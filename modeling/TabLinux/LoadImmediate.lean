/-
The assembler helper that loads a constant, `addi` alone or `lui` and `addi`, run on the
base interpreter.
-/
import TabLinux.Execute

namespace TabLinux

/-- The upper 20 bits are taken as they are, although `addi` extends the sign of the
lower 12. -/
def li (rd : Reg) (imm : U64) : List Instr :=
  if (-2048#64).sle imm && imm.slt 2048 then [.opImm .addi rd 0 imm]
  else
    let hi := ((imm.setWidth 32).sshiftRight 12).signExtend 64
    let lo := ((imm.setWidth 32 <<< 20).sshiftRight 20).signExtend 64
    .lui rd (hi <<< 12) :: if lo ≠ 0 then [.opImm .addi rd rd lo] else []

section

variable (imm : U32)

theorem signExtend_split :
    imm.signExtend 64 =
      ((imm.sshiftRight 12).signExtend 64 <<< 12) + (imm.setWidth 12).setWidth 64 := by
  rw [BitVec.add_eq_or_of_and_eq_zero]
  · apply BitVec.eq_of_getLsbD_eq
    intro i hi
    simp only [BitVec.getLsbD_or, BitVec.getLsbD_shiftLeft, BitVec.getLsbD_signExtend,
      BitVec.getLsbD_sshiftRight, BitVec.getLsbD_setWidth, BitVec.msb_sshiftRight]
    grind
  · apply BitVec.eq_of_getLsbD_eq
    intro i hi
    simp only [BitVec.getLsbD_and, BitVec.getLsbD_shiftLeft, BitVec.getLsbD_setWidth,
      BitVec.getLsbD_zero]
    grind

theorem signExtend_low :
    ((imm <<< 20).sshiftRight 20).signExtend 64 = (imm.setWidth 12).signExtend 64 := by
  apply BitVec.eq_of_getLsbD_eq
  intro i hi
  simp only [BitVec.getLsbD_shiftLeft, BitVec.getLsbD_signExtend, BitVec.getLsbD_sshiftRight,
    BitVec.getLsbD_setWidth, BitVec.msb_eq_getLsbD_last]
  grind

/-- The sum of the parts is the constant exactly if the lower part is not negative. -/
theorem sum_eq_iff :
    ((imm.sshiftRight 12).signExtend 64 <<< 12) + (imm.setWidth 12).signExtend 64 =
      imm.signExtend 64 ↔ imm.getLsbD 11 = false := by
  have hmsb : (imm.setWidth 12).msb = imm.getLsbD 11 := by
    simp [BitVec.msb_eq_getLsbD_last]
  rw [signExtend_split imm, BitVec.add_right_inj, ← hmsb]
  refine ⟨fun h => ?_, BitVec.signExtend_eq_setWidth_of_msb_false⟩
  have hbit := congrArg (BitVec.getLsbD · 12) h
  simp only [BitVec.getLsbD_signExtend, BitVec.getLsbD_setWidth] at hbit
  simpa using hbit

end

section

variable [FloatOps] {β : Type*} [Bus β] (cpu : Cpu) (bus : β)

/-- Execute instructions of four bytes one after the other. -/
def executeAll (instrs : List Instr) : Cpu × β :=
  instrs.foldl (fun s instr => (executeWidth s.1 instr 4 s.2).2) (cpu, bus)

@[simp] theorem executeAll_nil : executeAll cpu bus [] = (cpu, bus) := rfl

@[simp] theorem executeAll_lui (rd : Reg) (imm : U64) (rest : List Instr) :
    executeAll cpu bus (.lui rd imm :: rest) =
      executeAll ((cpu.writeReg rd imm).advance 4) bus rest := rfl

@[simp] theorem executeAll_addi (rd rs1 : Reg) (imm : U64) (rest : List Instr) :
    executeAll cpu bus (.opImm .addi rd rs1 imm :: rest) =
      executeAll ((cpu.writeReg rd (cpu.x rs1 + imm)).advance 4) bus rest := rfl

/-- The constant is in the register afterwards exactly if it fits into `addi`, or bit 11
is clear.  No other register changes. -/
theorem li_loads_iff (rd : Reg) (hrd : rd ≠ 0) (imm : U32) :
    ((executeAll cpu bus (li rd (imm.signExtend 64))).1.x rd = imm.signExtend 64 ↔
        if -2048 ≤ imm.toInt ∧ imm.toInt < 2048 then cpu.x 0 = 0
        else imm.getLsbD 11 = false) ∧
      ∀ r, r ≠ rd → (executeAll cpu bus (li rd (imm.signExtend 64))).1.x r = cpu.x r := by
  have hsmall : ((-2048#64).sle (imm.signExtend 64) && (imm.signExtend 64).slt 2048) =
      decide (-2048 ≤ imm.toInt ∧ imm.toInt < 2048) := by
    have hint : (imm.signExtend 64).toInt = imm.toInt := BitVec.toInt_signExtend_of_le (by decide)
    simp [BitVec.sle_eq_decide, BitVec.slt_eq_decide, hint]
  have hword : (imm.signExtend 64).setWidth 32 = imm := by
    apply BitVec.eq_of_getLsbD_eq
    intro i hi
    simp only [BitVec.getLsbD_setWidth, BitVec.getLsbD_signExtend, hi]
    grind
  unfold li
  rw [hsmall, hword, signExtend_low]
  have hwrite : ∀ (cpu : Cpu) (val width : U64),
      ((cpu.writeReg rd val).advance width).x = Function.update cpu.x rd val :=
    fun cpu val _ => cpu.writeReg_x val hrd
  by_cases hfits : -2048 ≤ imm.toInt ∧ imm.toInt < 2048
  · simp +contextual [hfits, hwrite]
  rw [if_neg hfits, if_neg (by simpa using hfits), ← sum_eq_iff]
  dsimp only
  split
  · simp +contextual [hwrite]
  · rename_i hlow
    rw [not_not.mp hlow]
    simp +contextual [hwrite]

end

theorem li_loads_iff_4096 :
    letI := FloatOps.zero
    (@executeAll _ Ram _ (Cpu.new 0) (fun _ => 0) (li 5 4096)).1.x 5 = 4096 := by
  exact (@li_loads_iff FloatOps.zero Ram _ (Cpu.new 0) (fun _ => 0) 5 (by decide) 4096).1.mpr
    (by decide)

/-- Loading 2048 leaves -2048. -/
theorem li_loads_negative :
    letI := FloatOps.zero
    (@executeAll _ Ram _ (Cpu.new 0) (fun _ => 0) (li 5 2048)).1.x 5 = -2048 := by
  decide

end TabLinux
