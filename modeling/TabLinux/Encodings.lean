/-
The encodings of the ISA: for every instruction of the base ISA, M, A and Zicsr
the word that the tables assign to it.  Nothing here is read from the decoder,
so that the decoder can be compared with it.
-/
import TabLinux.Formats

namespace TabLinux

def BranchOp.funct3 : BranchOp → BitVec 3
  | .beq => 0b000 | .bne => 0b001 | .blt => 0b100
  | .bge => 0b101 | .bltu => 0b110 | .bgeu => 0b111

def LoadOp.funct3 : LoadOp → BitVec 3
  | .lb => 0b000 | .lh => 0b001 | .lw => 0b010 | .ld => 0b011
  | .lbu => 0b100 | .lhu => 0b101 | .lwu => 0b110

def Width.funct3 : Width → BitVec 3
  | .u8 => 0b000 | .u16 => 0b001 | .u32 => 0b010 | .u64 => 0b011

def FWidth.funct3 : FWidth → BitVec 3
  | .s => 0b010 | .d => 0b011

def ImmOp.funct3 : ImmOp → BitVec 3
  | .addi | .addiw => 0b000 | .slti => 0b010 | .sltiu => 0b011
  | .xori => 0b100 | .ori => 0b110 | .andi => 0b111

def ImmOp.opcode : ImmOp → BitVec 7
  | .addiw => 0b0011011
  | .addi | .slti | .sltiu | .xori | .ori | .andi => 0b0010011

def ShiftOp.funct3 : ShiftOp → BitVec 3
  | .slli => 0b001 | .srli | .srai => 0b101

def ShiftOp.funct6 : ShiftOp → BitVec 6
  | .slli | .srli => 0b000000 | .srai => 0b010000

def ShiftWOp.funct3 : ShiftWOp → BitVec 3
  | .slliw => 0b001 | .srliw | .sraiw => 0b101

def ShiftWOp.funct7 : ShiftWOp → BitVec 7
  | .slliw | .srliw => 0b0000000 | .sraiw => 0b0100000

def RegOp.funct3 : RegOp → BitVec 3
  | .add | .sub | .addw | .subw | .mul | .mulw => 0b000
  | .sll | .sllw | .mulh => 0b001
  | .slt | .mulhsu => 0b010
  | .sltu | .mulhu => 0b011
  | .xor | .div | .divw => 0b100
  | .srl | .sra | .srlw | .sraw | .divu | .divuw => 0b101
  | .or | .rem | .remw => 0b110
  | .and | .remu | .remuw => 0b111

def RegOp.funct7 : RegOp → BitVec 7
  | .sub | .sra | .subw | .sraw => 0b0100000
  | .mul | .mulh | .mulhsu | .mulhu | .div | .divu | .rem | .remu
  | .mulw | .divw | .divuw | .remw | .remuw => 0b0000001
  | .add | .sll | .slt | .sltu | .xor | .srl | .or | .and
  | .addw | .sllw | .srlw => 0b0000000

def RegOp.opcode : RegOp → BitVec 7
  | .addw | .subw | .sllw | .srlw | .sraw
  | .mulw | .divw | .divuw | .remw | .remuw => 0b0111011
  | .add | .sub | .sll | .slt | .sltu | .xor | .srl | .sra | .or | .and
  | .mul | .mulh | .mulhsu | .mulhu | .div | .divu | .rem | .remu => 0b0110011

def AtomicWidth.funct3 : AtomicWidth → BitVec 3
  | .w => 0b010 | .d => 0b011

def AmoOp.funct5 : AmoOp → BitVec 5
  | .swap => 0b00001 | .add => 0b00000 | .xor => 0b00100 | .and => 0b01100
  | .or => 0b01000 | .min => 0b10000 | .max => 0b10100 | .minu => 0b11000
  | .maxu => 0b11100

def CsrOp.funct2 : CsrOp → BitVec 2
  | .rw => 0b01 | .rs => 0b10 | .rc => 0b11

/-- The word of an atomic instruction. -/
def aWord (funct5 : BitVec 5) (aq rl : Bool) (aw : AtomicWidth) (rs2 rs1 rd : Reg) :
    U32 :=
  word (funct5 ++ BitVec.ofBool aq ++ BitVec.ofBool rl) rs2 rs1 aw.funct3 rd 0b0101111

/-- The word of a system instruction with twelve function bits. -/
def systemWord (funct12 : BitVec 12) (rs1 : Reg) (funct3 : BitVec 3) (rd : Reg) : U32 :=
  word (funct12.extractLsb' 5 7) (funct12.extractLsb' 0 5) rs1 funct3 rd 0b1110011

section SystemWord

variable (funct12 : BitVec 12) (rs1 : Reg) (funct3 : BitVec 3) (rd : Reg)

@[simp] theorem opcodeOf_systemWord : opcodeOf (systemWord funct12 rs1 funct3 rd) = 0b1110011 :=
  opcodeOf_word ..

@[simp] theorem funct3Of_systemWord : funct3Of (systemWord funct12 rs1 funct3 rd) = funct3 :=
  funct3Of_word ..

@[simp] theorem rdOf_systemWord : rdOf (systemWord funct12 rs1 funct3 rd) = rd :=
  rdOf_word ..

@[simp] theorem rs1Of_systemWord : rs1Of (systemWord funct12 rs1 funct3 rd) = rs1 :=
  rs1Of_word ..

@[simp] theorem funct7Of_systemWord :
    funct7Of (systemWord funct12 rs1 funct3 rd) = funct12.extractLsb' 5 7 :=
  funct7Of_word ..

@[simp] theorem funct12_systemWord :
    (systemWord funct12 rs1 funct3 rd).extractLsb' 20 12 = funct12 := by
  rw [systemWord, funct12_word, BitVec.extractLsb'_append_extractLsb'_eq_extractLsb' (by decide)]
  exact BitVec.extractLsb'_eq_self

end SystemWord

/-- The word the ISA assigns to an instruction.  `none` where the instruction
is a whole class of words (`fp`), has no encoding (`unimp`), stands for an
extension that was withdrawn (`uret`), or is a fence: the source names the two
sets of a fence the other way round, and nothing reads them. -/
def Instr.encoding : Instr → Option U32
  | .lui rd imm => some (uWord imm rd 0b0110111)
  | .auipc rd imm => some (uWord imm rd 0b0010111)
  | .jal rd imm => some (jWord imm rd 0b1101111)
  | .jalr rd rs1 imm => some (iWord imm rs1 0b000 rd 0b1100111)
  | .branch kind rs1 rs2 imm => some (bWord imm rs2 rs1 kind.funct3 0b1100011)
  | .load kind rd rs1 imm => some (iWord imm rs1 kind.funct3 rd 0b0000011)
  | .store w rs1 rs2 imm => some (sWord imm rs2 rs1 w.funct3 0b0100011)
  | .fload fw rd rs1 imm => some (iWord imm rs1 fw.funct3 rd 0b0000111)
  | .fstore fw rs1 rs2 imm => some (sWord imm rs2 rs1 fw.funct3 0b0100111)
  | .opImm kind rd rs1 imm => some (iWord imm rs1 kind.funct3 rd kind.opcode)
  | .shiftImm kind rd rs1 shamt =>
      some (word (kind.funct6 ++ shamt.extractLsb' 5 1) (shamt.extractLsb' 0 5) rs1 kind.funct3
        rd 0b0010011)
  | .shiftImmW kind rd rs1 shamt => some (word kind.funct7 shamt rs1 kind.funct3 rd 0b0011011)
  | .op kind rd rs1 rs2 => some (word kind.funct7 rs2 rs1 kind.funct3 rd kind.opcode)
  | .lr aw rd rs1 aq rl => some (aWord 0b00010 aq rl aw 0 rs1 rd)
  | .sc aw rd rs1 rs2 aq rl => some (aWord 0b00011 aq rl aw rs2 rs1 rd)
  | .amo kind aw rd rs1 rs2 aq rl => some (aWord kind.funct5 aq rl aw rs2 rs1 rd)
  | .ecall => some (systemWord 0x000 0 0b000 0)
  | .ebreak => some (systemWord 0x001 0 0b000 0)
  | .sret => some (systemWord 0x102 0 0b000 0)
  | .wfi => some (systemWord 0x105 0 0b000 0)
  | .mret => some (systemWord 0x302 0 0b000 0)
  | .sfenceVma rs1 rs2 => some (word 0b0001001 rs2 rs1 0b000 0 0b1110011)
  | .csrReg kind rd rs1 csr => some (systemWord csr rs1 (0#1 ++ kind.funct2) rd)
  | .csrImm kind rd zimm csr => some (systemWord csr zimm (1#1 ++ kind.funct2) rd)
  | .fp _ | .uret | .unimp | .fence _ _ | .fenceI => none

/-- The immediate of an instruction is in the range and alignment of its format.
The other fields have their range in their type. -/
def Instr.InRange : Instr → Prop
  | .lui _ imm | .auipc _ imm => Signed 32 imm ∧ imm.extractLsb' 0 12 = 0
  | .jal _ imm => Signed 21 imm ∧ imm.extractLsb' 0 1 = 0
  | .branch _ _ _ imm => Signed 13 imm ∧ imm.extractLsb' 0 1 = 0
  | .jalr _ _ imm | .load _ _ _ imm | .store _ _ _ imm | .fload _ _ _ imm
  | .fstore _ _ _ imm | .opImm _ _ _ imm => Signed 12 imm
  | _ => True

section DecodeEncoding

variable (rd rs1 rs2 : Reg) {imm : U64}

theorem decode_branch (op : BranchOp) (h : Signed 13 imm) (heven : imm.extractLsb' 0 1 = 0) :
    decode (bWord imm rs2 rs1 op.funct3 0b1100011) = .branch op rs1 rs2 imm := by
  cases op <;> simp [decode, decodeBranch, BranchOp.funct3, bImm_bWord _ _ _ _ h heven]

theorem decode_load (op : LoadOp) (h : Signed 12 imm) :
    decode (iWord imm rs1 op.funct3 rd 0b0000011) = .load op rd rs1 imm := by
  cases op <;> simp [decode, decodeLoad, LoadOp.funct3, iImm_iWord _ _ _ _ h]

theorem decode_store (w : Width) (h : Signed 12 imm) :
    decode (sWord imm rs2 rs1 w.funct3 0b0100011) = .store w rs1 rs2 imm := by
  cases w <;> simp [decode, decodeStore, Width.funct3, sImm_sWord _ _ _ _ h]

theorem decode_fload (fw : FWidth) (h : Signed 12 imm) :
    decode (iWord imm rs1 fw.funct3 rd 0b0000111) = .fload fw rd rs1 imm := by
  cases fw <;> simp [decode, fwidthOf, FWidth.funct3, iImm_iWord _ _ _ _ h]

theorem decode_fstore (fw : FWidth) (h : Signed 12 imm) :
    decode (sWord imm rs2 rs1 fw.funct3 0b0100111) = .fstore fw rs1 rs2 imm := by
  cases fw <;> simp [decode, fwidthOf, FWidth.funct3, sImm_sWord _ _ _ _ h]

theorem decode_opImm (op : ImmOp) (h : Signed 12 imm) :
    decode (iWord imm rs1 op.funct3 rd op.opcode) = .opImm op rd rs1 imm := by
  cases op <;>
    simp [decode, decodeOpImm, decodeOpImm32, ImmOp.funct3, ImmOp.opcode, iImm_iWord _ _ _ _ h]

theorem decode_op (op : RegOp) :
    decode (word op.funct7 rs2 rs1 op.funct3 rd op.opcode) = .op op rd rs1 rs2 := by
  cases op <;> simp [decode, decodeOp, decodeOp32, RegOp.opcode, RegOp.funct3, RegOp.funct7]

theorem decode_shiftImmW (op : ShiftWOp) (shamt : BitVec 5) :
    decode (word op.funct7 shamt rs1 op.funct3 rd 0b0011011) = .shiftImmW op rd rs1 shamt := by
  cases op <;> simp [decode, decodeOpImm32, ShiftWOp.funct3, ShiftWOp.funct7]

theorem funct6_shift (funct6 : BitVec 6) (top : BitVec 1) :
    (funct6 ++ top : BitVec 7) >>> 1 = funct6.setWidth 7 := by
  revert funct6 top
  decide

theorem decode_shiftImm (op : ShiftOp) (shamt : BitVec 6) :
    decode (word (op.funct6 ++ shamt.extractLsb' 5 1) (shamt.extractLsb' 0 5) rs1 op.funct3
      rd 0b0010011) = .shiftImm op rd rs1 shamt := by
  have hshamt : (op.funct6 ++ shamt.extractLsb' 5 1 : BitVec 7).extractLsb' 0 1 ++
      shamt.extractLsb' 0 5 = shamt := by
    rw [BitVec.extractLsb'_append_eq_of_add_le (by decide), BitVec.extractLsb'_eq_self,
      BitVec.extractLsb'_append_extractLsb'_eq_extractLsb' (by decide)]
    exact BitVec.extractLsb'_eq_self
  cases op <;> simp [decode, decodeOpImm, ShiftOp.funct3, shamt_word, funct6_shift, hshamt] <;>
    simp [ShiftOp.funct6]

theorem decode_csrReg (op : CsrOp) (csr : Csr) :
    decode (systemWord csr rs1 (0#1 ++ op.funct2) rd) = .csrReg op rd rs1 csr := by
  cases op <;> simp [decode, decodeSystem, CsrOp.funct2]

theorem decode_csrImm (op : CsrOp) (zimm : Reg) (csr : Csr) :
    decode (systemWord csr zimm (1#1 ++ op.funct2) rd) = .csrImm op rd zimm csr := by
  cases op <;> simp [decode, decodeSystem, CsrOp.funct2]

section

variable (funct5 : BitVec 5) (aq rl : Bool) (aw : AtomicWidth)

theorem funct7Of_aWord :
    funct7Of (aWord funct5 aq rl aw rs2 rs1 rd) = funct5 ++ BitVec.ofBool aq ++ BitVec.ofBool rl :=
  funct7Of_word ..

theorem getLsbD_funct7Of (raw : U32) (i : Nat) (hi : i < 7) :
    raw.getLsbD (25 + i) = (funct7Of raw).getLsbD i := by
  simp [funct7Of, hi]

theorem aWord_fields :
    (aWord funct5 aq rl aw rs2 rs1 rd).getLsbD 26 = aq ∧
      (aWord funct5 aq rl aw rs2 rs1 rd).getLsbD 25 = rl ∧
      (aWord funct5 aq rl aw rs2 rs1 rd).extractLsb' 27 5 = funct5 := by
  refine ⟨?_, ?_, ?_⟩
  · rw [getLsbD_funct7Of _ 1 (by decide), funct7Of_aWord]
    simp only [BitVec.getLsbD_append]
    cases aq <;> rfl
  · rw [getLsbD_funct7Of _ 0 (by decide), funct7Of_aWord]
    simp only [BitVec.getLsbD_append]
    cases rl <;> rfl
  · rw [aWord, funct5_word]
    simp (disch := omega) only [Nat.reduceSub, BitVec.extractLsb'_append_eq_of_le,
      BitVec.extractLsb'_eq_self]

theorem decode_aWord :
    decode (aWord funct5 aq rl aw rs2 rs1 rd) =
      decodeAtomic (aWord funct5 aq rl aw rs2 rs1 rd) aw := by
  cases aw <;> simp [decode, aWord, AtomicWidth.funct3]

end

theorem decode_lr (aw : AtomicWidth) (aq rl : Bool) :
    decode (aWord 0b00010 aq rl aw 0 rs1 rd) = .lr aw rd rs1 aq rl := by
  obtain ⟨haq, hrl, hop⟩ := aWord_fields rd rs1 0 0b00010 aq rl aw
  rw [decode_aWord, decodeAtomic, haq, hrl, hop]
  simp [aWord]

theorem decode_sc (aw : AtomicWidth) (aq rl : Bool) :
    decode (aWord 0b00011 aq rl aw rs2 rs1 rd) = .sc aw rd rs1 rs2 aq rl := by
  obtain ⟨haq, hrl, hop⟩ := aWord_fields rd rs1 rs2 0b00011 aq rl aw
  rw [decode_aWord, decodeAtomic, haq, hrl, hop]
  simp [aWord]

theorem decode_amo (op : AmoOp) (aw : AtomicWidth) (aq rl : Bool) :
    decode (aWord op.funct5 aq rl aw rs2 rs1 rd) = .amo op aw rd rs1 rs2 aq rl := by
  obtain ⟨haq, hrl, hop⟩ := aWord_fields rd rs1 rs2 op.funct5 aq rl aw
  rw [decode_aWord, decodeAtomic, haq, hrl, hop]
  cases op <;> simp [aWord, AmoOp.funct5]

end DecodeEncoding

/-- The decoder gives every instruction with an encoding back from its word. -/
theorem decode_encoding {i : Instr} {raw : U32} (h : i.encoding = some raw)
    (hrange : i.InRange) : decode raw = i := by
  cases i <;> simp only [Instr.encoding, Option.some.injEq, reduceCtorEq] at h <;> try subst h
  case lui rd imm => exact (decode_uWord rd hrange.1 hrange.2).1
  case auipc rd imm => exact (decode_uWord rd hrange.1 hrange.2).2
  case jal rd imm => simp [decode, jImm_jWord _ _ hrange.1 hrange.2]
  case jalr rd rs1 imm => simp [decode, iImm_iWord _ _ _ _ hrange]
  case branch op rs1 rs2 imm => exact decode_branch rs1 rs2 op hrange.1 hrange.2
  case load op rd rs1 imm => exact decode_load rd rs1 op hrange
  case store w rs1 rs2 imm => exact decode_store rs1 rs2 w hrange
  case fload fw rd rs1 imm => exact decode_fload rd rs1 fw hrange
  case fstore fw rs1 rs2 imm => exact decode_fstore rs1 rs2 fw hrange
  case opImm op rd rs1 imm => exact decode_opImm rd rs1 op hrange
  case shiftImm op rd rs1 shamt => exact decode_shiftImm rd rs1 op shamt
  case shiftImmW op rd rs1 shamt => exact decode_shiftImmW rd rs1 op shamt
  case op op rd rs1 rs2 => exact decode_op rd rs1 rs2 op
  case lr aw rd rs1 aq rl => exact decode_lr rd rs1 aw aq rl
  case sc aw rd rs1 rs2 aq rl => exact decode_sc rd rs1 rs2 aw aq rl
  case amo op aw rd rs1 rs2 aq rl => exact decode_amo rd rs1 rs2 op aw aq rl
  case csrReg op rd rs1 csr => exact decode_csrReg rd rs1 op csr
  case csrImm op rd zimm csr => exact decode_csrImm rd op zimm csr
  case sfenceVma rs1 rs2 => simp [decode, decodeSystem]
  all_goals simp [decode, decodeSystem]

end TabLinux
