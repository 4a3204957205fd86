/-
The instruction encoder, the source's inverse of its decoder.  It shifts and
ors its fields together; here each of its formats is shown to be the format of
the ISA, and the round trip follows from the decoder's.
-/
import TabLinux.Encodings

namespace TabLinux

variable {w j k pos : Nat}

/-- A register, function or shift field at its place in the word. -/
def place {w : Nat} (x : BitVec w) (pos : Nat) : U32 := x.setWidth 32 <<< pos

section

variable (imm : U64)

/-- `((imm >> pos) & mask) as u32`. -/
def immBits (pos : Nat) (mask : U64) : U32 :=
  (imm.sshiftRight pos &&& mask).setWidth 32

def iType (rs1 : Reg) (funct3 : BitVec 3) (rd : Reg) (opcode : U32) :
    U32 :=
  let imm11_0 := imm.setWidth 32 &&& 0xFFF
  (imm11_0 <<< 20) ||| place rs1 15 ||| place funct3 12 ||| place rd 7 ||| opcode

def sType (rs2 rs1 : Reg) (funct3 : BitVec 3) : U32 :=
  let imm11_0 := imm.setWidth 32 &&& 0xFFF
  let immHi := (imm11_0 >>> 5) &&& 0x7F
  let immLo := imm11_0 &&& 0x1F
  (immHi <<< 25) ||| place rs2 20 ||| place rs1 15 ||| place funct3 12 ||| (immLo <<< 7) |||
    0b0100011

def bType (rs2 rs1 : Reg) (funct3 : BitVec 3) : U32 :=
  let bit12 := immBits imm 12 1
  let bits10_5 := immBits imm 5 0x3F
  let bits4_1 := immBits imm 1 0xF
  let bit11 := immBits imm 11 1
  (bit12 <<< 31) ||| (bits10_5 <<< 25) ||| (bit11 <<< 7) ||| (bits4_1 <<< 8) |||
    place rs2 20 ||| place rs1 15 ||| place funct3 12 ||| 0b1100011

def rType (funct7 : U32) (rs2 rs1 : Reg) (funct3 : BitVec 3) (rd : Reg)
    (opcode : U32) : U32 :=
  (funct7 <<< 25) ||| place rs2 20 ||| place rs1 15 ||| place funct3 12 ||| place rd 7 ||| opcode

def csrType (csr : Csr) (rs1 : Reg) (funct3 : BitVec 3) (rd : Reg) : U32 :=
  place csr 20 ||| place rs1 15 ||| place funct3 12 ||| place rd 7 ||| 0b1110011

/-- The arms of `Lui` and `Auipc`. -/
def encodeUpper (rd : Reg) (opcode : U32) : U32 :=
  let imm31_12 := (imm.sshiftRight 12).setWidth 32 &&& 0xFFFFF
  (imm31_12 <<< 12) ||| place rd 7 ||| opcode

def encodeJal (rd : Reg) : U32 :=
  let bit20 := immBits imm 20 1
  let bits10_1 := immBits imm 1 0x3FF
  let bit11 := immBits imm 11 1
  let bits19_12 := immBits imm 12 0xFF
  let jImm := (bit20 <<< 31) ||| (bits19_12 <<< 12) ||| (bit11 <<< 20) ||| (bits10_1 <<< 21)
  jImm ||| place rd 7 ||| 0b1101111

def encodeJalr (rs1 rd : Reg) : U32 :=
  let imm11_0 := imm.setWidth 32 &&& 0xFFF
  (imm11_0 <<< 20) ||| place rs1 15 ||| place rd 7 ||| 0b1100111

end

/-- The arms of the immediate shifts; `func` is the function field at `pos`. -/
def encodeShift {w : Nat} (func : U32) (pos : Nat) (shamt : BitVec w) (rs1 : Reg)
    (funct3 : U32) (rd : Reg) (opcode : U32) : U32 :=
  (func <<< pos) ||| place shamt 20 ||| place rs1 15 ||| (funct3 <<< 12) ||| place rd 7 ||| opcode

def encodeBranch (op : BranchOp) (rs1 rs2 : Reg) (imm : U64) : U32 :=
  match op with
  | .beq => bType imm rs2 rs1 0b000
  | .bne => bType imm rs2 rs1 0b001
  | .blt => bType imm rs2 rs1 0b100
  | .bge => bType imm rs2 rs1 0b101
  | .bltu => bType imm rs2 rs1 0b110
  | .bgeu => bType imm rs2 rs1 0b111

def encodeLoad (op : LoadOp) (rd rs1 : Reg) (imm : U64) : U32 :=
  match op with
  | .lb => iType imm rs1 0b000 rd 0b0000011
  | .lh => iType imm rs1 0b001 rd 0b0000011
  | .lw => iType imm rs1 0b010 rd 0b0000011
  | .ld => iType imm rs1 0b011 rd 0b0000011
  | .lbu => iType imm rs1 0b100 rd 0b0000011
  | .lhu => iType imm rs1 0b101 rd 0b0000011
  | .lwu => iType imm rs1 0b110 rd 0b0000011

def encodeStore (w : Width) (rs1 rs2 : Reg) (imm : U64) : U32 :=
  match w with
  | .u8 => sType imm rs2 rs1 0b000
  | .u16 => sType imm rs2 rs1 0b001
  | .u32 => sType imm rs2 rs1 0b010
  | .u64 => sType imm rs2 rs1 0b011

def encodeOpImm (op : ImmOp) (rd rs1 : Reg) (imm : U64) : U32 :=
  match op with
  | .addi => iType imm rs1 0b000 rd 0b0010011
  | .slti => iType imm rs1 0b010 rd 0b0010011
  | .sltiu => iType imm rs1 0b011 rd 0b0010011
  | .xori => iType imm rs1 0b100 rd 0b0010011
  | .ori => iType imm rs1 0b110 rd 0b0010011
  | .andi => iType imm rs1 0b111 rd 0b0010011
  | .addiw => iType imm rs1 0b000 rd 0b0011011

def encodeShiftImm (op : ShiftOp) (rd rs1 : Reg) (shamt : BitVec 6) : U32 :=
  match op with
  | .slli => encodeShift 0b000000 26 shamt rs1 0b001 rd 0b0010011
  | .srli => encodeShift 0b000000 26 shamt rs1 0b101 rd 0b0010011
  | .srai => encodeShift 0b010000 26 shamt rs1 0b101 rd 0b0010011

def encodeShiftImmW (op : ShiftWOp) (rd rs1 : Reg) (shamt : BitVec 5) : U32 :=
  match op with
  | .slliw => encodeShift 0b0000000 25 shamt rs1 0b001 rd 0b0011011
  | .srliw => encodeShift 0b0000000 25 shamt rs1 0b101 rd 0b0011011
  | .sraiw => encodeShift 0b0100000 25 shamt rs1 0b101 rd 0b0011011

def encodeOp (op : RegOp) (rd rs1 rs2 : Reg) : U32 :=
  match op with
  | .add => rType 0b0000000 rs2 rs1 0b000 rd 0b0110011
  | .sub => rType 0b0100000 rs2 rs1 0b000 rd 0b0110011
  | .sll => rType 0b0000000 rs2 rs1 0b001 rd 0b0110011
  | .slt => rType 0b0000000 rs2 rs1 0b010 rd 0b0110011
  | .sltu => rType 0b0000000 rs2 rs1 0b011 rd 0b0110011
  | .xor => rType 0b0000000 rs2 rs1 0b100 rd 0b0110011
  | .srl => rType 0b0000000 rs2 rs1 0b101 rd 0b0110011
  | .sra => rType 0b0100000 rs2 rs1 0b101 rd 0b0110011
  | .or => rType 0b0000000 rs2 rs1 0b110 rd 0b0110011
  | .and => rType 0b0000000 rs2 rs1 0b111 rd 0b0110011
  | .mul => rType 0b0000001 rs2 rs1 0b000 rd 0b0110011
  | .mulh => rType 0b0000001 rs2 rs1 0b001 rd 0b0110011
  | .mulhsu => rType 0b0000001 rs2 rs1 0b010 rd 0b0110011
  | .mulhu => rType 0b0000001 rs2 rs1 0b011 rd 0b0110011
  | .div => rType 0b0000001 rs2 rs1 0b100 rd 0b0110011
  | .divu => rType 0b0000001 rs2 rs1 0b101 rd 0b0110011
  | .rem => rType 0b0000001 rs2 rs1 0b110 rd 0b0110011
  | .remu => rType 0b0000001 rs2 rs1 0b111 rd 0b0110011
  | .addw => rType 0b0000000 rs2 rs1 0b000 rd 0b0111011
  | .subw => rType 0b0100000 rs2 rs1 0b000 rd 0b0111011
  | .sllw => rType 0b0000000 rs2 rs1 0b001 rd 0b0111011
  | .srlw => rType 0b0000000 rs2 rs1 0b101 rd 0b0111011
  | .sraw => rType 0b0100000 rs2 rs1 0b101 rd 0b0111011
  | .mulw => rType 0b0000001 rs2 rs1 0b000 rd 0b0111011
  | .divw => rType 0b0000001 rs2 rs1 0b100 rd 0b0111011
  | .divuw => rType 0b0000001 rs2 rs1 0b101 rd 0b0111011
  | .remw => rType 0b0000001 rs2 rs1 0b110 rd 0b0111011
  | .remuw => rType 0b0000001 rs2 rs1 0b111 rd 0b0111011

def encodeCsrReg (op : CsrOp) (rd rs1 : Reg) (csr : Csr) : U32 :=
  match op with
  | .rw => csrType csr rs1 0b001 rd
  | .rs => csrType csr rs1 0b010 rd
  | .rc => csrType csr rs1 0b011 rd

def encodeCsrImm (op : CsrOp) (rd zimm : Reg) (csr : Csr) : U32 :=
  match op with
  | .rw => csrType csr zimm 0b101 rd
  | .rs => csrType csr zimm 0b110 rd
  | .rc => csrType csr zimm 0b111 rd

/-- The word of an instruction and its width in bytes; `none` where the source
does not encode the instruction. -/
def encode (instr : Instr) : Option (U32 × Nat) :=
  match instr with
  | .lui rd imm => some (encodeUpper imm rd 0b0110111, 4)
  | .auipc rd imm => some (encodeUpper imm rd 0b0010111, 4)
  | .jal rd imm => some (encodeJal imm rd, 4)
  | .jalr rd rs1 imm => some (encodeJalr imm rs1 rd, 4)
  | .branch op rs1 rs2 imm => some (encodeBranch op rs1 rs2 imm, 4)
  | .load op rd rs1 imm => some (encodeLoad op rd rs1 imm, 4)
  | .store w rs1 rs2 imm => some (encodeStore w rs1 rs2 imm, 4)
  | .fload .d rd rs1 imm => some (iType imm rs1 0b011 rd 0b0000111, 4)
  -- The S-type helper has the opcode of the integer stores built in.
  | .fstore .d rs1 rs2 imm => some (sType imm rs2 rs1 0b011, 4)
  | .opImm op rd rs1 imm => some (encodeOpImm op rd rs1 imm, 4)
  | .shiftImm op rd rs1 shamt => some (encodeShiftImm op rd rs1 shamt, 4)
  | .shiftImmW op rd rs1 shamt => some (encodeShiftImmW op rd rs1 shamt, 4)
  | .op op rd rs1 rs2 => some (encodeOp op rd rs1 rs2, 4)
  | .ecall => some (0x00000073, 4)
  | .ebreak => some (0x00100073, 4)
  | .mret => some (0x30200073, 4)
  | .sret => some (0x10200073, 4)
  | .uret => some (0x00200073, 4)
  | .wfi => some (0x10500073, 4)
  | .fence pred succ => some (place pred 20 ||| place succ 24 ||| 0b0001111, 4)
  | .fenceI => some (0x0000100F, 4)
  | .csrReg op rd rs1 csr => some (encodeCsrReg op rd rs1 csr, 4)
  | .csrImm op rd zimm csr => some (encodeCsrImm op rd zimm csr, 4)
  | .sfenceVma rs1 rs2 =>
      some (place rs2 20 ||| place rs1 15 ||| (0b000#32 <<< 12) ||| (0b0001001#32 <<< 25) |||
        0b1110011, 4)
  | .fload .s _ _ _ | .fstore .s _ _ _ | .lr .. | .sc .. | .amo .. | .fp _ | .unimp => none

theorem place_or_place {v : Nat} (x : BitVec v) (y : BitVec w) (h : j = k + w) :
    place x j ||| place y k = place (x ++ y) k :=
  shifted_or_shifted x y h

theorem place_zero (x : U32) : place x 0 = x := by
  simp [place]

/-- The fields of a word, put together by the source. -/
theorem placed_fields (funct7 : BitVec 7) (rs2 rs1 : Reg) (funct3 : BitVec 3) (rd : Reg)
    (opcode : BitVec 7) :
    place funct7 25 ||| place rs2 20 ||| place rs1 15 ||| place funct3 12 ||| place rd 7 |||
      place opcode 0 = word funct7 rs2 rs1 funct3 rd opcode := by
  repeat rw [place_or_place _ _ (by decide)]
  exact place_zero _

theorem extract_sshiftRight {n : Nat} (x : BitVec n) (h : pos + w ≤ n) :
    (x.sshiftRight pos).extractLsb' 0 w = x.extractLsb' pos w := by
  apply BitVec.eq_of_getLsbD_eq
  intro i hi
  have hlow : pos + i < n := by omega
  have hhigh : ¬n ≤ i := by omega
  simp only [BitVec.getLsbD_extractLsb', BitVec.getLsbD_sshiftRight, Nat.zero_add, hlow, hhigh,
    decide_false, Bool.not_false, Bool.true_and, if_true]

theorem immBits_ones (imm : U64) (pos w : Nat) (h : pos + w ≤ 64) :
    immBits imm pos (BitVec.ofNat 64 (2 ^ w - 1)) = (imm.extractLsb' pos w).setWidth 32 := by
  rw [immBits, and_ones, extract_sshiftRight imm h, BitVec.setWidth_setWidth_of_le _ (by decide)]

theorem immBits_shiftLeft (imm : U64) (pos w j : Nat) (h : pos + w ≤ 64) :
    immBits imm pos (BitVec.ofNat 64 (2 ^ w - 1)) <<< j = place (imm.extractLsb' pos w) j := by
  rw [immBits_ones imm pos w h, place]

section Types

variable (imm : U64) (rs2 rs1 : Reg) (funct3 : BitVec 3) (rd : Reg) (opcode : BitVec 7)

theorem imm11_0_eq : imm.setWidth 32 &&& 0xFFF = (imm.extractLsb' 0 12).setWidth 32 := by
  have := and_ones (imm.setWidth 32) 12
  rw [BitVec.extractLsb'_setWidth_of_le (by decide)] at this
  exact this

/-- The two fields of a twelve-bit immediate. -/
theorem place_imm12 :
    place (imm.extractLsb' 0 12) 20 =
      place (imm.extractLsb' 5 7) 25 ||| place (imm.extractLsb' 0 5) 20 := by
  rw [place_or_place _ _ (by decide),
    BitVec.extractLsb'_append_extractLsb'_eq_extractLsb' (by decide)]

theorem iType_eq : iType imm rs1 funct3 rd (place opcode 0) = iWord imm rs1 funct3 rd opcode := by
  rw [iType, imm11_0_eq, iWord, ← placed_fields, ← place_imm12]
  rfl

theorem rType_eq (funct7 : BitVec 7) :
    rType (funct7.setWidth 32) rs2 rs1 funct3 rd (place opcode 0) =
      word funct7 rs2 rs1 funct3 rd opcode := by
  rw [← placed_fields]
  rfl

theorem sType_eq : sType imm rs2 rs1 funct3 = sWord imm rs2 rs1 funct3 0b0100011 := by
  have hhi : (imm.setWidth 32 &&& 0xFFF) >>> 5 &&& 0x7F = (imm.extractLsb' 5 7).setWidth 32 := by
    rw [imm11_0_eq]
    refine (and_ones _ 7).trans (congrArg (BitVec.setWidth 32) ?_)
    rw [extract_ushiftRight, BitVec.extractLsb'_setWidth_of_le (by decide),
      BitVec.extractLsb'_extractLsb'_of_le (by decide)]
  have hlo : imm.setWidth 32 &&& 0xFFF &&& 0x1F = (imm.extractLsb' 0 5).setWidth 32 := by
    rw [imm11_0_eq]
    refine (and_ones _ 5).trans (congrArg (BitVec.setWidth 32) ?_)
    rw [BitVec.extractLsb'_setWidth_of_le (by decide),
      BitVec.extractLsb'_extractLsb'_of_le (by decide)]
  rw [sWord, ← placed_fields]
  unfold sType
  dsimp only
  rw [hhi, hlo]
  rfl

theorem bType_eq : bType imm rs2 rs1 funct3 = bWord imm rs2 rs1 funct3 0b1100011 := by
  have h12 : immBits imm 12 1 <<< 31 = place (imm.extractLsb' 12 1) 31 :=
    immBits_shiftLeft imm 12 1 31 (by decide)
  have h5 : immBits imm 5 0x3F <<< 25 = place (imm.extractLsb' 5 6) 25 :=
    immBits_shiftLeft imm 5 6 25 (by decide)
  have h1 : immBits imm 1 0xF <<< 8 = place (imm.extractLsb' 1 4) 8 :=
    immBits_shiftLeft imm 1 4 8 (by decide)
  have h11 : immBits imm 11 1 <<< 7 = place (imm.extractLsb' 11 1) 7 :=
    immBits_shiftLeft imm 11 1 7 (by decide)
  have hhigh := place_or_place (imm.extractLsb' 12 1) (imm.extractLsb' 5 6)
    (show 31 = 25 + 6 from rfl)
  have hlow := place_or_place (imm.extractLsb' 1 4) (imm.extractLsb' 11 1) (show 8 = 7 + 1 from rfl)
  -- The source puts the two low fields behind the high ones.
  have reorder (a b c d e f g h : U32) :
      a ||| b ||| c ||| d ||| e ||| f ||| g ||| h =
        a ||| b ||| e ||| f ||| g ||| (d ||| c) ||| h := by
    ac_rfl
  rw [bWord, ← placed_fields, ← hhigh, ← hlow]
  unfold bType
  dsimp only
  rw [h12, h5, h1, h11]
  exact reorder _ _ _ _ _ _ _ _

theorem csrType_eq (csr : Csr) : csrType csr rs1 funct3 rd = systemWord csr rs1 funct3 rd := by
  have hcsr := place_or_place (csr.extractLsb' 5 7) (csr.extractLsb' 0 5)
    (show 25 = 20 + 5 from rfl)
  rw [BitVec.extractLsb'_append_extractLsb'_eq_extractLsb' (by decide)] at hcsr
  rw [systemWord, ← placed_fields, hcsr]
  exact congrArg (fun x => place x 20 ||| place rs1 15 ||| place funct3 12 ||| place rd 7 |||
    place 0b1110011#7 0) BitVec.extractLsb'_eq_self.symm

/-- Two neighbouring pieces of an immediate, put at neighbouring places. -/
theorem place_extract {len len' m : Nat} (hj : j = k + len) (hm : m = pos + len) :
    place (imm.extractLsb' m len') j ||| place (imm.extractLsb' pos len) k =
      place (imm.extractLsb' pos (len' + len)) k := by
  rw [place_or_place _ _ hj, BitVec.extractLsb'_append_extractLsb'_eq_extractLsb' hm]

theorem encodeUpper_eq : encodeUpper imm rd (place opcode 0) = uWord imm rd opcode := by
  have himm : (imm.sshiftRight 12).setWidth 32 &&& 0xFFFFF =
      (imm.extractLsb' 12 20).setWidth 32 := by
    refine (and_ones _ 20).trans (congrArg (BitVec.setWidth 32) ?_)
    rw [BitVec.extractLsb'_setWidth_of_le (by decide), extract_sshiftRight imm (by decide)]
  rw [uWord, ← placed_fields, place_extract imm (by decide) (by decide),
    place_extract imm (by decide) (by decide), place_extract imm (by decide) (by decide),
    encodeUpper, himm]
  rfl

theorem encodeJal_eq : encodeJal imm rd = jWord imm rd 0b1101111 := by
  have h20 : immBits imm 20 1 <<< 31 = place (imm.extractLsb' 20 1) 31 :=
    immBits_shiftLeft imm 20 1 31 (by decide)
  have h1 : immBits imm 1 0x3FF <<< 21 = place (imm.extractLsb' 1 10) 21 :=
    immBits_shiftLeft imm 1 10 21 (by decide)
  have h11 : immBits imm 11 1 <<< 20 = place (imm.extractLsb' 11 1) 20 :=
    immBits_shiftLeft imm 11 1 20 (by decide)
  have h12 : immBits imm 12 0xFF <<< 12 = place (imm.extractLsb' 12 8) 12 :=
    immBits_shiftLeft imm 12 8 12 (by decide)
  have hhigh := place_or_place (imm.extractLsb' 20 1) (imm.extractLsb' 5 6)
    (show 31 = 25 + 6 from rfl)
  have hlow := place_or_place (imm.extractLsb' 1 4) (imm.extractLsb' 11 1)
    (show 21 = 20 + 1 from rfl)
  have h10_1 : place (imm.extractLsb' 5 6) 25 ||| place (imm.extractLsb' 1 4) 21 =
      place (imm.extractLsb' 1 10) 21 := place_extract imm (by decide) (by decide)
  have h19_12 : place (imm.extractLsb' 15 5) 15 ||| place (imm.extractLsb' 12 3) 12 =
      place (imm.extractLsb' 12 8) 12 := place_extract imm (by decide) (by decide)
  -- The source orders its four pieces as the ISA manual lists them, not by place.
  have reorder (a b c d e f g h : U32) :
      a ||| (e ||| f) ||| d ||| (b ||| c) ||| g ||| h =
        a ||| b ||| (c ||| d) ||| e ||| f ||| g ||| h := by
    ac_rfl
  rw [jWord, ← placed_fields, ← hhigh, ← hlow]
  unfold encodeJal
  dsimp only
  rw [h20, h1, h11, h12, ← h10_1, ← h19_12]
  exact reorder _ _ _ _ _ _ _ _

theorem place_zeros (w pos : Nat) : place (0#w) pos = 0#32 := by
  simp [place]

theorem encodeJalr_eq : encodeJalr imm rs1 rd = iWord imm rs1 0b000 rd 0b1100111 := by
  have hfunct3 : place (0b000 : BitVec 3) 12 = 0#32 := place_zeros 3 12
  rw [encodeJalr, imm11_0_eq, iWord, ← placed_fields, ← place_imm12, hfunct3, BitVec.or_zero]
  rfl

theorem encodeShiftImmW_eq (op : ShiftWOp) (shamt : BitVec 5) :
    encodeShiftImmW op rd rs1 shamt = word op.funct7 shamt rs1 op.funct3 rd 0b0011011 := by
  rw [← placed_fields]
  cases op <;> rfl

theorem encodeShiftImm_eq (op : ShiftOp) (shamt : BitVec 6) :
    encodeShiftImm op rd rs1 shamt =
      word (op.funct6 ++ shamt.extractLsb' 5 1) (shamt.extractLsb' 0 5) rs1 op.funct3 rd
        0b0010011 := by
  have hfunct6 := place_or_place op.funct6 (shamt.extractLsb' 5 1) (show 26 = 25 + 1 from rfl)
  have hshamt : place (shamt.extractLsb' 5 1) 25 ||| place (shamt.extractLsb' 0 5) 20 =
      place shamt 20 := by
    rw [place_or_place _ _ (by decide),
      BitVec.extractLsb'_append_extractLsb'_eq_extractLsb' (by decide)]
    exact congrArg (place · 20) BitVec.extractLsb'_eq_self
  rw [← placed_fields, ← hfunct6, BitVec.or_assoc (place op.funct6 26), hshamt]
  cases op <;> rfl

theorem encodeBranch_eq (op : BranchOp) :
    encodeBranch op rs1 rs2 imm = bWord imm rs2 rs1 op.funct3 0b1100011 := by
  cases op <;> exact bType_eq imm rs2 rs1 _

theorem encodeLoad_eq (op : LoadOp) :
    encodeLoad op rd rs1 imm = iWord imm rs1 op.funct3 rd 0b0000011 := by
  cases op <;> exact iType_eq imm rs1 _ rd 0b0000011

theorem encodeStore_eq (w : Width) :
    encodeStore w rs1 rs2 imm = sWord imm rs2 rs1 w.funct3 0b0100011 := by
  cases w <;> exact sType_eq imm rs2 rs1 _

theorem encodeOpImm_eq (op : ImmOp) :
    encodeOpImm op rd rs1 imm = iWord imm rs1 op.funct3 rd op.opcode := by
  rw [← iType_eq]
  cases op <;> rfl

theorem encodeOp_eq (op : RegOp) :
    encodeOp op rd rs1 rs2 = word op.funct7 rs2 rs1 op.funct3 rd op.opcode := by
  rw [← rType_eq]
  cases op <;> rfl

theorem encodeCsrReg_eq (op : CsrOp) (csr : Csr) :
    encodeCsrReg op rd rs1 csr = systemWord csr rs1 (0#1 ++ op.funct2) rd := by
  cases op <;> exact csrType_eq rs1 _ rd csr

theorem encodeCsrImm_eq (op : CsrOp) (zimm : Reg) (csr : Csr) :
    encodeCsrImm op rd zimm csr = systemWord csr zimm (1#1 ++ op.funct2) rd := by
  cases op <;> exact csrType_eq zimm _ rd csr

theorem encodeSfenceVma_eq :
    place rs2 20 ||| place rs1 15 ||| (0b000#32 <<< 12) ||| (0b0001001#32 <<< 25) |||
      0b1110011 = word 0b0001001 rs2 rs1 0b000 0 0b1110011 := by
  have reorder (a b c d e : U32) :
      b ||| c ||| d ||| a ||| e = a ||| b ||| c ||| d ||| 0#32 ||| e := by
    rw [BitVec.or_zero]
    ac_rfl
  rw [← placed_fields]
  exact reorder _ _ _ _ _

end Types

/-- The double-precision store, the one instruction whose word is another's. -/
def Instr.IsFsd (i : Instr) : Prop := ∃ rs1 rs2 imm, i = .fstore .d rs1 rs2 imm

/-- Where the encoder and the ISA both give a word, it is the same, with the
double-precision store apart. -/
theorem encoding_of_encode {i : Instr} {raw word : U32} {width : Nat}
    (h : encode i = some (raw, width)) (hisa : i.encoding = some word) (hfsd : ¬i.IsFsd) :
    raw = word := by
  cases i <;> simp only [Instr.encoding, Option.some.injEq, reduceCtorEq] at hisa
  all_goals subst hisa
  case fload fw rd rs1 imm =>
    cases fw <;> simp only [encode, Option.some.injEq, Prod.mk.injEq, reduceCtorEq] at h
    exact h.1.symm.trans (iType_eq imm rs1 _ rd 0b0000111)
  case fstore fw rs1 rs2 imm =>
    cases fw with
    | s => simp [encode] at h
    | d => exact absurd ⟨rs1, rs2, imm, rfl⟩ hfsd
  all_goals simp only [encode, Option.some.injEq, Prod.mk.injEq, reduceCtorEq] at h
  all_goals refine h.1.symm.trans ?_
  case lui rd imm => exact encodeUpper_eq imm rd 0b0110111
  case auipc rd imm => exact encodeUpper_eq imm rd 0b0010111
  case jal rd imm => exact encodeJal_eq imm rd
  case jalr rd rs1 imm => exact encodeJalr_eq imm rs1 rd
  case branch op rs1 rs2 imm => exact encodeBranch_eq imm rs2 rs1 op
  case load op rd rs1 imm => exact encodeLoad_eq imm rs1 rd op
  case store w rs1 rs2 imm => exact encodeStore_eq imm rs2 rs1 w
  case opImm op rd rs1 imm => exact encodeOpImm_eq imm rs1 rd op
  case shiftImm op rd rs1 shamt => exact encodeShiftImm_eq rs1 rd op shamt
  case shiftImmW op rd rs1 shamt => exact encodeShiftImmW_eq rs1 rd op shamt
  case op op rd rs1 rs2 => exact encodeOp_eq rs2 rs1 rd op
  case csrReg op rd rs1 csr => exact encodeCsrReg_eq rs1 rd op csr
  case csrImm op rd zimm csr => exact encodeCsrImm_eq rd op zimm csr
  case sfenceVma rs1 rs2 => exact encodeSfenceVma_eq rs2 rs1
  all_goals rfl

theorem decode_fence (pred succ : BitVec 4) :
    decode (place pred 20 ||| place succ 24 ||| 0b0001111) = .fence pred succ := by
  have hword : place pred 20 ||| place succ 24 ||| 0b0001111 =
      (succ ++ pred ++ 0#5 ++ 0#3 ++ 0#5 ++ 0b0001111#7).setWidth 32 := by
    have hplaces : place pred 20 ||| place succ 24 ||| 0b0001111 =
        place succ 24 ||| place pred 20 ||| place 0#5 15 ||| place 0#3 12 ||| place 0#5 7 |||
          place 0b0001111#7 0 := by
      simp only [place_zeros, BitVec.or_zero, BitVec.or_comm (place succ 24)]
      rfl
    rw [hplaces]
    repeat rw [place_or_place _ _ (by decide)]
    exact BitVec.shiftLeft_zero _
  rw [hword, decode]
  simp (disch := omega) only [opcodeOf, funct3Of, BitVec.extractLsb'_setWidth_of_le,
    BitVec.extractLsb'_append_eq_of_add_le, BitVec.extractLsb'_append_eq_of_le,
    BitVec.extractLsb'_eq_self, Nat.reduceSub]

/-- The decoder takes the encoder's words back to their instructions, and fails
only on the double-precision store, whose word is that of `sd`. -/
theorem decode_encode_iff {i : Instr} {raw : U32} (hrange : i.InRange)
    (h : encode i = some (raw, 4)) : decode raw = i ↔ ¬i.IsFsd := by
  constructor
  · rintro hdecode ⟨rs1, rs2, imm, rfl⟩
    have hsd : decode raw = .store .u64 rs1 rs2 imm := by
      simp only [encode, Option.some.injEq, Prod.mk.injEq, and_true] at h
      rw [← h, sType_eq]
      exact decode_store rs1 rs2 .u64 hrange
    rw [hsd] at hdecode
    cases hdecode
  · intro hfsd
    cases hisa : i.encoding with
    | some word =>
      rw [encoding_of_encode h hisa hfsd]
      exact decode_encoding hisa hrange
    | none =>
      cases i <;> simp only [Instr.encoding, reduceCtorEq] at hisa
      all_goals
        simp only [encode, Option.some.injEq, Prod.mk.injEq, and_true, reduceCtorEq] at h
      case fence pred succ => rw [← h]; exact decode_fence pred succ
      all_goals subst h; rfl

/-- An ordinary branch, out and back. -/
theorem decode_encode_iff_beq :
    (Instr.branch .beq 1 2 (-4096)).InRange ∧
      (decode 0x80208063 = .branch .beq 1 2 (-4096) ↔ ¬(Instr.branch .beq 1 2 (-4096)).IsFsd) :=
  have hrange : (Instr.branch .beq 1 2 (-4096)).InRange := by
    change Signed 13 (-4096) ∧ (-4096 : U64).extractLsb' 0 1 = 0
    decide
  ⟨hrange, decode_encode_iff hrange (by decide)⟩

/-- `fsd f8, 0(x2)` is in the range of its format and comes back as `sd x8, 0(x2)`. -/
theorem fsd_encodes_as_sd :
    (Instr.fstore .d 2 8 0).InRange ∧ encode (.fstore .d 2 8 0) = some (0x00813023, 4) ∧
      decode 0x00813023 = .store .u64 2 8 0 ∧
      decode 0x00813023 ≠ .fstore .d 2 8 0 := by
  refine ⟨?_, by decide, by decide, by decide⟩
  change Signed 12 0
  decide

end TabLinux
