/-
The expansion of compressed instructions against the tables: which halfwords
become an instruction with the effect the tables give, and which do not.
-/
import TabLinux.CompressedTable
import TabLinux.Formats

namespace TabLinux

open CTable BitVec

variable {instr : Instr} {op : LoadOp}

variable {n : Nat} {effect : CEffect} {value : (Reg → U64) → U64} {width : Width}

section Immediates

variable (h : U16)

/-- `sext` reads its argument as a signed number of the width it names. -/
theorem sext_setWidth (x : BitVec n) (hn : n ≤ 64) : sext (x.setWidth 64) n = x.signExtend 64 := by
  rw [sext, setWidth_setWidth_of_le _ hn, setWidth_eq]

theorem clwImm_eq : clwImm h = (uimmW h).zeroExtend 64 := by
  have reorder (a b c : U64) : a ||| b ||| c = c ||| b ||| a := by ac_rfl
  rw [clwImm, reorder]
  simp only [cfield, zeroExtend]
  repeat rw [shifted_or_shifted _ _ (by decide)]
  rw [shifted_eq_append]
  rfl

theorem cldImm_eq : cldImm h = (uimmD h).zeroExtend 64 := by
  rw [cldImm, BitVec.or_comm]
  simp only [cfield, zeroExtend]
  rw [shifted_or_shifted _ _ (by decide), shifted_eq_append]
  rfl

theorem addi4spnImm_eq :
    cfield h 6 1 2 ||| cfield h 5 1 3 ||| cfield h 11 2 4 ||| cfield h 7 4 6 =
      (addi4spn h).zeroExtend 64 := by
  have reorder (a b c d : U64) : a ||| b ||| c ||| d = d ||| c ||| b ||| a := by ac_rfl
  rw [reorder]
  simp only [cfield, zeroExtend]
  repeat rw [shifted_or_shifted _ _ (by decide)]
  rw [shifted_eq_append]
  rfl

theorem clwspImm_eq : clwspImm h = (lwsp h).zeroExtend 64 := by
  have reorder (a b c : U64) : a ||| b ||| c = c ||| a ||| b := by ac_rfl
  rw [clwspImm, reorder]
  simp only [cfield, zeroExtend]
  repeat rw [shifted_or_shifted _ _ (by decide)]
  rw [shifted_eq_append]
  rfl

theorem cldspImm_eq : cldspImm h = (ldsp h).zeroExtend 64 := by
  have reorder (a b c : U64) : a ||| b ||| c = c ||| a ||| b := by ac_rfl
  rw [cldspImm, reorder]
  simp only [cfield, zeroExtend]
  repeat rw [shifted_or_shifted _ _ (by decide)]
  rw [shifted_eq_append]
  rfl

theorem cswspImm_eq : cswspImm h = (swsp h).zeroExtend 64 := by
  rw [cswspImm, BitVec.or_comm]
  simp only [cfield, zeroExtend]
  rw [shifted_or_shifted _ _ (by decide), shifted_eq_append]
  rfl

theorem csdspImm_eq : csdspImm h = (sdsp h).zeroExtend 64 := by
  rw [csdspImm, BitVec.or_comm]
  simp only [cfield, zeroExtend]
  rw [shifted_or_shifted _ _ (by decide), shifted_eq_append]
  rfl

theorem ciImm_eq : ciImm h = (imm6 h).signExtend 64 := by
  rw [ciImm]
  simp only [cfield, zeroExtend]
  rw [shifted_or_shifted _ _ (by decide), shiftLeft_zero]
  exact sext_setWidth (imm6 h) (by decide)

theorem addi16spImm_eq :
    sext (cfield h 12 1 9 ||| cfield h 3 2 7 ||| cfield h 5 1 6 ||| cfield h 2 1 5 |||
      cfield h 6 1 4) 10 = (addi16sp h).signExtend 64 := by
  simp only [cfield, zeroExtend]
  repeat rw [shifted_or_shifted _ _ (by decide)]
  rw [shifted_eq_append]
  exact sext_setWidth (addi16sp h) (by decide)

theorem luiImm_eq : sext (cfield h 12 1 17 ||| cfield h 2 5 12) 18 = (lui h).signExtend 64 := by
  simp only [cfield, zeroExtend]
  rw [shifted_or_shifted _ _ (by decide), shifted_eq_append]
  exact sext_setWidth (lui h) (by decide)

/-- A sign bit spread over the upper bits by hand, and the result moved up by one. -/
theorem signFill (x : BitVec (n + 1)) (hn : n + 1 < 64) {sign : Bool} (hsign : x.msb = sign) :
    (if sign then x.setWidth 64 ||| ~~~ BitVec.ofNat 64 (2 ^ (n + 1) - 1)
      else x.setWidth 64) <<< 1 = (x ++ 0#1).signExtend 64 := by
  subst hsign
  have hmsb : (x ++ 0#1).msb = x.msb := by simp [msb_append]
  apply eq_of_getLsbD_eq
  intro i hi
  rw [getLsbD_shiftLeft, getLsbD_signExtend, hmsb, getLsbD_append]
  by_cases hzero : i < 1
  · simp [hzero, show i < n + 1 + 1 by omega]
  have hprev : i - 1 < 64 := by omega
  have hmask : (BitVec.ofNat 64 (2 ^ (n + 1) - 1)).getLsbD (i - 1) = decide (i - 1 < n + 1) := by
    rw [getLsbD_ofNat, Nat.testBit_two_pow_sub_one, decide_eq_true hprev, Bool.true_and]
  have hset : (if x.msb then x.setWidth 64 ||| ~~~ BitVec.ofNat 64 (2 ^ (n + 1) - 1)
      else x.setWidth 64).getLsbD (i - 1) =
        (x.getLsbD (i - 1) || x.msb && !decide (i - 1 < n + 1)) := by
    cases x.msb <;> simp only [if_true, Bool.false_eq_true, if_false, getLsbD_or,
      getLsbD_not, getLsbD_setWidth, hmask, hprev, decide_true, Bool.true_and,
      Bool.false_and, Bool.or_false]
  rw [hset]
  by_cases hlow : i < n + 1 + 1
  · simp [hi, hzero, hlow, show i - 1 < n + 1 by omega]
  · have hhigh : x.getLsbD (i - 1) = false := getLsbD_of_ge x _ (by omega)
    simp [hi, hzero, hlow, hhigh, show ¬i - 1 < n + 1 by omega]

theorem msb_extract_one (pos : Nat) : (h.extractLsb' pos 1).msb = h.getLsbD pos := by
  simp [msb_eq_getLsbD_last]

theorem cjImm_eq : cjImm h = (jumpImm h).signExtend 64 := by
  rw [cjImm]
  simp only [cfield, zeroExtend]
  repeat rw [shifted_or_shifted _ _ (by decide)]
  rw [shiftLeft_zero]
  have hsign : (h.extractLsb' 12 1 ++ h.extractLsb' 8 1 ++ h.extractLsb' 9 2 ++
      h.extractLsb' 6 1 ++ h.extractLsb' 7 1 ++ h.extractLsb' 2 1 ++ h.extractLsb' 11 1 ++
      h.extractLsb' 3 3).msb = h.getLsbD 12 := by
    simp only [msb_append, msb_extract_one]
    rfl
  exact signFill _ (by decide) hsign

theorem cbImm_eq : cbImm h = (branchImm h).signExtend 64 := by
  rw [cbImm]
  simp only [cfield, zeroExtend]
  repeat rw [shifted_or_shifted _ _ (by decide)]
  rw [shiftLeft_zero]
  have hsign : (h.extractLsb' 12 1 ++ h.extractLsb' 5 2 ++ h.extractLsb' 2 1 ++
      h.extractLsb' 10 2 ++ h.extractLsb' 3 2).msb = h.getLsbD 12 := by
    simp only [msb_append, msb_extract_one]
    rfl
  exact signFill _ (by decide) hsign

end Immediates

/-- An instruction of two bytes does what the tables say, in every state. -/
def Implements (instr : Instr) (effect : CEffect) : Prop :=
  ∀ (_ : FloatOps) (β : Type) (_ : Bus β) (cpu : Cpu) (bus : β),
    executeWidth cpu instr 2 bus = effect.run cpu bus

/-- The expansion of a halfword against its entry in the tables. -/
def Agree (expansion : Option Instr) (entry : Option CEffect) : Prop :=
  match entry with
  | some effect => ∃ instr, expansion = some instr ∧ Implements instr effect
  | none => expansion = none

theorem Implements.agree (h : Implements instr effect) : Agree (some instr) (some effect) :=
  ⟨instr, rfl, h⟩

theorem Agree.none_none : Agree none none := rfl

theorem not_agree_none : ¬Agree (some instr) none := nofun

theorem agree_some_iff : Agree (some instr) (some effect) ↔ Implements instr effect := by
  constructor
  · rintro ⟨_, hinstr, h⟩
    cases hinstr
    exact h
  · exact Implements.agree

/-- Writing a register and stepping past the instruction commute. -/
theorem Cpu.advance_writeReg (cpu : Cpu) (rd : Reg) (val width : U64) :
    (cpu.writeReg rd val).advance width = (cpu.advance width).writeReg rd val := by
  unfold writeReg
  split <;> rfl

theorem Cpu.writeReg_zero (cpu : Cpu) (val : U64) : cpu.writeReg 0 val = cpu := if_pos rfl

theorem Cpu.writeReg_self (cpu : Cpu) (rd : Reg) : cpu.writeReg rd (cpu.x rd) = cpu := by
  unfold writeReg
  split
  · rfl
  · rw [Function.update_eq_self]

section Effects

variable (rd rs1 rs2 : Reg) (imm : U64)

/-- The register is written and the instruction stepped past, in either order. -/
theorem advance_writeReg_run {β : Type} (cpu : Cpu) (rd : Reg) (val : U64) (bus : β) :
    (Status.running, (cpu.writeReg rd val).advance 2, bus) =
      (Status.running, (cpu.advance 2).writeReg rd val, bus) := by
  rw [Cpu.advance_writeReg]

theorem implements_opImm (op : ImmOp) :
    Implements (.opImm op rd rs1 imm) (.set rd fun x => op.eval (x rs1) imm) := by
  intro _ β _ cpu bus
  exact advance_writeReg_run ..

theorem implements_shiftImm (op : ShiftOp) (shamt : BitVec 6) :
    Implements (.shiftImm op rd rs1 shamt) (.set rd fun x => op.eval (x rs1) shamt) := by
  intro _ β _ cpu bus
  exact advance_writeReg_run ..

theorem implements_op (op : RegOp) :
    Implements (.op op rd rs1 rs2) (.set rd fun x => op.eval (x rs1) (x rs2)) := by
  intro _ β _ cpu bus
  exact advance_writeReg_run ..

theorem implements_lui : Implements (.lui rd imm) (.set rd fun _ => imm) := by
  intro _ β _ cpu bus
  exact advance_writeReg_run ..

theorem implements_load (op : LoadOp) : Implements (.load op rd rs1 imm) (.load op rd rs1 imm) := by
  intro _ β _ cpu bus
  exact advance_writeReg_run ..

theorem implements_store (width : Width) :
    Implements (.store width rs1 rs2 imm) (.store width rs1 rs2 imm) := by
  intro _ β _ cpu bus
  rfl

theorem implements_fld : Implements (.fload .d rd rs1 imm) (.fld rd rs1 imm) := by
  intro _ β _ cpu bus
  rfl

theorem implements_fsd : Implements (.fstore .d rs1 rs2 imm) (.fsd rs1 rs2 imm) := by
  intro _ β _ cpu bus
  rfl

theorem implements_jump : Implements (.jal 0 imm) (.jump imm) := by
  intro _ β _ cpu bus
  rfl

theorem implements_jumpTo : Implements (.jalr 0 rs1 0) (.jumpTo rs1) := by
  intro _ β _ cpu bus
  simp only [executeWidth, CEffect.run, Cpu.readReg, BitVec.ofNat_eq_ofNat, BitVec.add_zero]
  rfl

theorem implements_call : Implements (.jalr 1 rs1 0) (.call rs1) := by
  intro _ β _ cpu bus
  simp only [executeWidth, CEffect.run, Cpu.readReg, BitVec.ofNat_eq_ofNat, BitVec.add_zero]

theorem implements_branch (op : BranchOp) : Implements (.branch op rs1 rs2 imm)
      (.branch (fun x => op.taken (x rs1) (x rs2)) imm) := by
  intro _ β _ cpu bus
  by_cases htaken : op.taken (cpu.x rs1) (cpu.x rs2) = true <;>
    simp only [executeWidth, CEffect.run, Cpu.readReg, htaken, if_true, if_false,
      Bool.false_eq_true] <;>
    rfl

theorem implements_ebreak : Implements .ebreak .breakpoint := by
  intro _ β _ cpu bus
  rfl

/-- A register written with its own value, or `x0` written, is a hint. -/
theorem Implements.nop_of_zero (h : Implements instr (.set 0 value)) : Implements instr .nop := by
  intro _ β _ cpu bus
  rw [h]
  simp only [CEffect.run, Cpu.writeReg_zero]

theorem Implements.nop_of_self {rd : Reg}
    (h : Implements instr (.set rd value)) (hself : ∀ x, value x = x rd) :
    Implements instr .nop := by
  intro _ β _ cpu bus
  rw [h]
  simp only [CEffect.run, hself]
  exact congrArg (fun c => (Status.running, c, bus)) (Cpu.writeReg_self (cpu.advance 2) rd)

end Effects

section Quadrants

variable (h : U16)

theorem extract_one (pos : Nat) : h.extractLsb' pos 1 = ofBool (h.getLsbD pos) := by
  apply eq_of_getLsbD_eq
  intro i hi
  obtain rfl : i = 0 := by omega
  simp

theorem funct2_cases (funct2 : BitVec 2) :
    funct2 = 0b00#2 ∨ funct2 = 0b01#2 ∨ funct2 = 0b10#2 ∨ funct2 = 0b11#2 := by
  revert funct2
  decide

theorem decompressArith_agree : Agree (decompressArith h) (arithTable h) := by
  have hrd : rs1Prime h = cregOf h 7 := rfl
  have hrs2 : rdPrime h = cregOf h 2 := rfl
  unfold decompressArith arithTable
  simp only [ciImm_eq, hrd, hrs2, extract_one]
  rcases funct2_cases (h.extractLsb' 10 2) with hf | hf | hf | hf <;> simp only [hf]
  · exact (implements_shiftImm _ _ .srli _).agree
  · exact (implements_shiftImm _ _ .srai _).agree
  · exact (implements_opImm _ _ _ .andi).agree
  rcases funct2_cases (h.extractLsb' 5 2) with hf | hf | hf | hf <;> simp only [hf] <;>
    cases h.getLsbD 12
  · exact (implements_op _ _ _ .sub).agree
  · exact (implements_op _ _ _ .subw).agree
  · exact (implements_op _ _ _ .xor).agree
  · exact (implements_op _ _ _ .addw).agree
  · exact (implements_op _ _ _ .or).agree
  · exact .none_none
  · exact (implements_op _ _ _ .and).agree
  · exact .none_none

theorem decompressQ2_agree : Agree (decompressQ2 h) (cTable2 h) := by
  have hrd : rd h = cregFull h 7 := rfl
  have hrs2 : rs2 h = cregFull h 2 := rfl
  have hshamt : imm6 h = cshamt h := rfl
  unfold decompressQ2 cTable2
  simp only [cldspImm_eq, clwspImm_eq, csdspImm_eq, cswspImm_eq, hrd, hrs2, hshamt, extract_one]
  rcases funct3_cases (h.extractLsb' 13 3) with hf | hf | hf | hf | hf | hf | hf | hf <;>
    simp only [hf]
  · split_ifs with hhint
    · rcases hhint with hzero | hshift
      · rw [hzero]
        exact (implements_shiftImm _ _ .slli _).nop_of_zero.agree
      · rw [hshift]
        exact ((implements_shiftImm _ _ .slli _).nop_of_self
          (fun x => shiftLeft_zero _)).agree
    · exact (implements_shiftImm _ _ .slli _).agree
  · exact (implements_fld _ _ _).agree
  · split_ifs
    · exact .none_none
    · exact (implements_load _ _ _ _).agree
  · split_ifs
    · exact .none_none
    · exact (implements_load _ _ _ _).agree
  · cases h.getLsbD 12 with
    | false =>
      simp only [Bool.not_false, if_true]
      split_ifs with hrs2 hrd hrd
      · exact .none_none
      · exact (implements_jumpTo _).agree
      · rw [hrd]
        exact (implements_op _ _ _ .add).nop_of_zero.agree
      · exact (implements_op _ _ _ .add).agree
    | true =>
      simp only [Bool.not_true, Bool.false_eq_true, if_false]
      split_ifs with hrs2 hrd hrd
      · exact implements_ebreak.agree
      · exact (implements_call _).agree
      · rw [hrd]
        exact (implements_op _ _ _ .add).nop_of_zero.agree
      · exact (implements_op _ _ _ .add).agree
  · exact (implements_fsd _ _ _).agree
  · exact (implements_store _ _ _ _).agree
  · exact (implements_store _ _ _ _).agree

theorem decompressQ1_agree_iff :
    Agree (decompressQ1 h) (cTable1 h) ↔
      (h.extractLsb' 13 3 = 0b001 → rd h ≠ 0) ∧ (h.extractLsb' 13 3 = 0b011 → imm6 h ≠ 0) := by
  have hrd : cregFull h 7 = rd h := rfl
  have hrs1 : cregOf h 7 = rs1Prime h := rfl
  have hword (imm : BitVec 6) : (imm.signExtend 64).setWidth 32 = imm.signExtend 32 := by
    revert imm
    decide
  unfold decompressQ1 cTable1
  simp only [ciImm_eq, addi16spImm_eq, luiImm_eq, cjImm_eq, cbImm_eq, hrd, hrs1]
  rcases funct3_cases (h.extractLsb' 13 3) with hf | hf | hf | hf | hf | hf | hf | hf <;>
    simp only [hf]
  · refine iff_of_true ?_ (by simp)
    split_ifs with hhint
    · rcases hhint with hzero | himm
      · rw [hzero]
        exact (implements_opImm _ _ _ .addi).nop_of_zero.agree
      · rw [himm]
        exact ((implements_opImm _ _ _ .addi).nop_of_self (fun x => add_zero _)).agree
    · exact (implements_opImm _ _ _ .addi).agree
  · by_cases hzero : rd h = 0
    · rw [if_pos hzero]
      exact iff_of_false not_agree_none (fun hfields => hfields.1 rfl hzero)
    · rw [if_neg hzero]
      refine iff_of_true ?_ ⟨fun _ => hzero, by simp⟩
      have himpl := implements_opImm (rd h) (rd h) ((imm6 h).signExtend 64) .addiw
      simp only [ImmOp.eval, hword] at himpl
      exact himpl.agree
  · refine iff_of_true ?_ (by simp)
    split_ifs with hzero
    · rw [hzero]
      exact (implements_opImm _ _ _ .addi).nop_of_zero.agree
    · exact (implements_opImm _ _ _ .addi).agree
  · by_cases himm : imm6 h = 0
    · rw [if_pos himm]
      refine iff_of_false ?_ (fun hfields => hfields.2 rfl himm)
      split_ifs <;> exact not_agree_none
    · rw [if_neg himm]
      refine iff_of_true ?_ ⟨by simp, fun _ => himm⟩
      split_ifs with hsp hzero
      · exact (implements_opImm _ _ _ .addi).agree
      · rw [hzero]
        exact (implements_lui _ _).nop_of_zero.agree
      · exact (implements_lui _ _).agree
  · exact iff_of_true (decompressArith_agree h) (by simp)
  · exact iff_of_true (implements_jump _).agree (by simp)
  · exact iff_of_true (implements_branch _ _ _ .beq).agree (by simp)
  · exact iff_of_true (implements_branch _ _ _ .bne).agree (by simp)

end Quadrants

section Zcb

/-- Memory in which every byte holds the low bits of its address. -/
def addressRam : Ram := fun addr => addr.setWidth 8

/-- A hart whose registers are all `val`. -/
def levelHart (val : U64) : Cpu := { Cpu.new 0 with x := fun _ => val }

variable {rd rs1 rs2 : Reg} {i j : U64}

theorem Cpu.x_writeReg_self (cpu : Cpu) (hrd : rd ≠ 0) (val : U64) :
    (cpu.writeReg rd val).x rd = val := by
  rw [writeReg, if_neg hrd]
  exact Function.update_self ..

/-- Two loads of different values differ in the register they write. -/
theorem not_implements_load {op' : LoadOp} (hrd : rd ≠ 0)
    (hval : op.extend (addressRam.load (0 + i) op.width.bytes) ≠
      op'.extend (addressRam.load (0 + j) op'.width.bytes)) :
    ¬Implements (.load op rd rs1 i) (.load op' rd rs1 j) := by
  intro himpl
  have hrun := congrArg (fun r => r.2.1.x rd)
    (himpl FloatOps.zero Ram inferInstance (levelHart 0) addressRam)
  simp only [executeWidth, CEffect.run, Cpu.advance_writeReg, Cpu.x_writeReg_self _ hrd] at hrun
  exact hval hrun

/-- A store leaves the register that a load writes. -/
theorem not_implements_load_of_store (hrd : rd ≠ 0)
    (hval : op.extend (addressRam.load (0 + j) op.width.bytes) ≠ 0) :
    ¬Implements (.store width rs1 rs2 i) (.load op rd rs1 j) := by
  intro himpl
  have hrun := congrArg (fun r => r.2.1.x rd)
    (himpl FloatOps.zero Ram inferInstance (levelHart 0) addressRam)
  simp only [executeWidth, CEffect.run, Cpu.x_writeReg_self _ hrd] at hrun
  exact hval hrun.symm

theorem not_implements_store_of_load (hrd : rd ≠ 0)
    (hval : op.extend (addressRam.load (0 + i) op.width.bytes) ≠ 0) :
    ¬Implements (.load op rd rs1 i) (.store width rs1 rs2 j) := by
  intro himpl
  have hrun := congrArg (fun r => r.2.1.x rd)
    (himpl FloatOps.zero Ram inferInstance (levelHart 0) addressRam)
  simp only [executeWidth, CEffect.run, Cpu.advance_writeReg, Cpu.x_writeReg_self _ hrd] at hrun
  exact hval hrun

/-- Two stores of one halfword to different places. -/
theorem not_implements_store : ¬Implements (.store .u16 rs1 rs2 0) (.store .u16 rs1 rs2 2) := by
  intro himpl
  have hrun := congrArg (fun r => r.2.2 (1 : U64))
    (himpl FloatOps.zero Ram inferInstance (levelHart 1) (Ram.ofWords []))
  have hstores : Bus.write .u16 (Ram.ofWords []) (1 + 0) (1 : U16) 1 ≠
      Bus.write .u16 (Ram.ofWords []) (1 + 2) (1 : U16) 1 := by decide
  exact hstores hrun

theorem cregOf_ne_zero (h : U16) (pos : Nat) : cregOf h pos ≠ 0 := by
  have hfield (x : BitVec 3) : 0b01#2 ++ x ≠ 0 := by
    revert x
    decide
  exact hfield _

/-- Where the source's reading of the block is that of the tables: the byte load
with both bits of its offset alike, and the halfword store at offset zero. -/
def ZcbAsTabled (h : U16) : Prop :=
  (h.extractLsb' 10 3 = 0b000 ∧ h.getLsbD 5 = h.getLsbD 6) ∨
    (h.extractLsb' 10 3 = 0b011 ∧ h.getLsbD 6 = false ∧ h.getLsbD 5 = false)

theorem zcb_agree_iff (h : U16) (hf : h.extractLsb' 13 3 = 0b100#3) :
    Agree (decompressQ0 h) (zcbTable h) ↔ ZcbAsTabled h := by
  have hrd : rdPrime h = cregOf h 2 := rfl
  have hrs1 : rs1Prime h = cregOf h 7 := rfl
  have hne := cregOf_ne_zero h 2
  have hfunct2 : h.extractLsb' 10 2 = (h.extractLsb' 10 3).extractLsb' 0 2 := by
    apply eq_of_getLsbD_eq
    intro i hi
    simp [hi, show i < 3 by omega]
  have hbit : h.getLsbD 12 = (h.extractLsb' 10 3).getLsbD 2 := by simp
  unfold decompressQ0 zcbTable ZcbAsTabled
  simp only [hf, cfield, uimmB, uimmH, hrd, hrs1, extract_one, hbit, hfunct2]
  generalize h.extractLsb' 10 3 = funct3
  generalize h.getLsbD 5 = b5
  generalize h.getLsbD 6 = b6
  rcases funct3_cases funct3 with rfl | rfl | rfl | rfl | rfl | rfl | rfl | rfl
  case inl =>
    cases b5 <;> cases b6
    case false.false | true.true =>
      exact iff_of_true (implements_load _ _ _ _).agree (by decide)
    all_goals
      refine iff_of_false (fun hagree => ?_) (by decide)
      exact not_implements_load hne (by decide) (agree_some_iff.mp hagree)
  case inr.inl =>
    -- The source stores a byte where the tables load a halfword.
    refine iff_of_false (fun hagree => ?_) (by simp)
    cases b5 <;> cases b6 <;>
      exact not_implements_load_of_store hne (by decide) (agree_some_iff.mp hagree)
  case inr.inr.inl =>
    -- The source loads a halfword where the tables store a byte.
    refine iff_of_false (fun hagree => ?_) (by simp)
    cases b5 <;> cases b6 <;>
      exact not_implements_store_of_load hne (by decide) (agree_some_iff.mp hagree)
  case inr.inr.inr.inl =>
    cases b6 with
    | true => exact iff_of_false not_agree_none (by simp)
    | false =>
      cases b5 with
      | false => exact iff_of_true (implements_store _ _ _ _).agree (by decide)
      | true =>
        refine iff_of_false (fun hagree => ?_) (by decide)
        exact not_implements_store (agree_some_iff.mp hagree)
  all_goals exact iff_of_false not_agree_none (by simp)

end Zcb

theorem decompressQ0_agree_iff (h : U16) :
    Agree (decompressQ0 h) (cTable0 h) ↔ (h.extractLsb' 13 3 = 0b100 → ZcbAsTabled h) := by
  by_cases hf : h.extractLsb' 13 3 = 0b100#3
  · have hzcb := zcb_agree_iff h hf
    have htable : cTable0 h = zcbTable h := by simp only [cTable0, hf]
    rw [htable, hzcb]
    exact ⟨fun hz _ => hz, fun hz => hz hf⟩
  · refine iff_of_true ?_ (fun h => absurd h hf)
    have hzero : (addi4spn h).zeroExtend 64 = 0 ↔ addi4spn h = 0 := by
      rw [← toNat_inj, ← toNat_inj, toNat_setWidth_of_le (by decide)]
      rfl
    have hrd : rdPrime h = cregOf h 2 := rfl
    have hrs1 : rs1Prime h = cregOf h 7 := rfl
    unfold decompressQ0 cTable0
    simp only [addi4spnImm_eq, clwImm_eq, cldImm_eq, hzero, hrd, hrs1]
    rcases funct3_cases (h.extractLsb' 13 3) with hg | hg | hg | hg | hg | hg | hg | hg <;>
      simp only [hg]
    · split_ifs
      · exact .none_none
      · exact (implements_opImm _ _ _ .addi).agree
    · exact (implements_fld _ _ _).agree
    · exact (implements_load _ _ _ _).agree
    · exact (implements_load _ _ _ _).agree
    · exact absurd hg hf
    · exact (implements_fsd _ _ _).agree
    · exact (implements_store _ _ _ _).agree
    · exact (implements_store _ _ _ _).agree

/-- The expansion of a halfword does what the tables say. -/
def ExpandsAsTabled (h : U16) : Prop := Agree (decompress h) (cTable h)

/-- The halfwords on which it does: the Zcb block as above, and no reserved
`c.addiw`, `c.addi16sp` or `c.lui`. -/
structure TabledFields (h : U16) : Prop where
  zcb : h.extractLsb' 0 2 = 0b00 → h.extractLsb' 13 3 = 0b100 → ZcbAsTabled h
  addiw : h.extractLsb' 0 2 = 0b01 → h.extractLsb' 13 3 = 0b001 → h.extractLsb' 7 5 ≠ 0
  lui : h.extractLsb' 0 2 = 0b01 → h.extractLsb' 13 3 = 0b011 → h.getLsbD 12 ∨ h.extractLsb' 2 5 ≠ 0

theorem imm6_ne_zero_iff (h : U16) : imm6 h ≠ 0 ↔ h.getLsbD 12 ∨ h.extractLsb' 2 5 ≠ 0 := by
  have hcases (top : Bool) (low : BitVec 5) :
      ofBool top ++ low ≠ 0 ↔ top = true ∨ low ≠ 0 := by
    revert top low
    decide
  rw [imm6, extract_one]
  exact hcases _ _

/-- A halfword expands to what the tables define, or to nothing where they
reserve it, at exactly the halfwords of these fields. -/
theorem expandsAsTabled_iff {h : U16} (hcompressed : h.extractLsb' 0 2 ≠ 0b11) :
    ExpandsAsTabled h ↔ TabledFields h := by
  unfold ExpandsAsTabled decompress cTable
  rcases funct2_cases (h.extractLsb' 0 2) with hq | hq | hq | hq <;> simp only [hq]
  · rw [decompressQ0_agree_iff]
    refine ⟨fun hzcb => ⟨fun _ => hzcb, fun h1 => ?_, fun h1 => ?_⟩, fun hfields => hfields.zcb hq⟩
    all_goals
      rw [hq] at h1
      cases h1
  · rw [decompressQ1_agree_iff, imm6_ne_zero_iff]
    refine ⟨fun hfields => ⟨fun h0 => ?_, fun _ => hfields.1, fun _ => hfields.2⟩,
      fun hfields => ⟨hfields.addiw hq, hfields.lui hq⟩⟩
    rw [hq] at h0
    cases h0
  · refine iff_of_true (decompressQ2_agree h) ⟨fun h0 => ?_, fun h1 => ?_, fun h1 => ?_⟩
    · rw [hq] at h0
      cases h0
    all_goals
      rw [hq] at h1
      cases h1
  · exact absurd hq hcompressed

/-- `c.addi a0, 1`. -/
theorem expandsAsTabled_iff_addi :
    (0x0505 : U16).extractLsb' 0 2 ≠ 0b11 ∧ (ExpandsAsTabled 0x0505 ↔ TabledFields 0x0505) :=
  ⟨by decide, expandsAsTabled_iff (by decide)⟩

/-- `c.lhu a0, 0(a0)` is taken for `sb a0, 0(a0)`. -/
theorem lhu_expands_to_sb :
    (0x8508 : U16).extractLsb' 0 2 ≠ 0b11 ∧
      cTable 0x8508 = some (.load .lhu 10 10 0) ∧
      decompress 0x8508 = some (.store .u8 10 10 0) ∧ ¬ExpandsAsTabled 0x8508 := by
  refine ⟨by decide, rfl, by decide, fun hexpands => ?_⟩
  have hzcb : ¬ZcbAsTabled 0x8508 := by
    rintro (⟨hblock, -⟩ | ⟨hblock, -⟩)
    · exact absurd hblock (by decide)
    · exact absurd hblock (by decide)
  exact hzcb ((decompressQ0_agree_iff 0x8508).mp hexpands (by decide))

end TabLinux
