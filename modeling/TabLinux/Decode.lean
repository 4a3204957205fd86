/-
The instruction decoder and the expansion of compressed instructions.
-/
import TabLinux.Fpu

namespace TabLinux

section

variable (raw : U32)

def funct7Of : BitVec 7 := raw.extractLsb' 25 7

def iImm : U64 := (raw.extractLsb' 20 12).signExtend 64

def sImm : U64 :=
  (raw.extractLsb' 25 7 ++ raw.extractLsb' 7 5).signExtend 64

def bImm : U64 :=
  (raw.extractLsb' 31 1 ++ raw.extractLsb' 7 1 ++ raw.extractLsb' 25 6 ++
    raw.extractLsb' 8 4 ++ 0#1).signExtend 64

def jImm : U64 :=
  (raw.extractLsb' 31 1 ++ raw.extractLsb' 12 8 ++ raw.extractLsb' 20 1 ++
    raw.extractLsb' 21 10 ++ 0#1).signExtend 64

def uImm : U64 := (raw &&& 0xFFFFF000).signExtend 64

def decodeBranch : Instr :=
  let build (op : BranchOp) := Instr.branch op (rs1Of raw) (rs2Of raw) (bImm raw)
  match funct3Of raw with
  | 0b000#3 => build .beq
  | 0b001#3 => build .bne
  | 0b100#3 => build .blt
  | 0b101#3 => build .bge
  | 0b110#3 => build .bltu
  | 0b111#3 => build .bgeu
  | _ => .unimp

def decodeLoad : Instr :=
  let build (op : LoadOp) := Instr.load op (rdOf raw) (rs1Of raw) (iImm raw)
  match funct3Of raw with
  | 0b000#3 => build .lb
  | 0b001#3 => build .lh
  | 0b010#3 => build .lw
  | 0b011#3 => build .ld
  | 0b100#3 => build .lbu
  | 0b101#3 => build .lhu
  | 0b110#3 => build .lwu
  | _ => .unimp

def decodeStore : Instr :=
  let build (w : Width) := Instr.store w (rs1Of raw) (rs2Of raw) (sImm raw)
  match funct3Of raw with
  | 0b000#3 => build .u8
  | 0b001#3 => build .u16
  | 0b010#3 => build .u32
  | 0b011#3 => build .u64
  | _ => .unimp

/-- The operand size in the `funct3` field of a float load or store. -/
def fwidthOf : Option FWidth :=
  match funct3Of raw with
  | 0b010#3 => some .s
  | 0b011#3 => some .d
  | _ => none

def decodeOpImm : Instr :=
  let rd := rdOf raw
  let rs1 := rs1Of raw
  let shamt : BitVec 6 := raw.extractLsb' 20 6
  match funct3Of raw with
  | 0b000#3 => .opImm .addi rd rs1 (iImm raw)
  | 0b010#3 => .opImm .slti rd rs1 (iImm raw)
  | 0b011#3 => .opImm .sltiu rd rs1 (iImm raw)
  | 0b100#3 => .opImm .xori rd rs1 (iImm raw)
  | 0b110#3 => .opImm .ori rd rs1 (iImm raw)
  | 0b111#3 => .opImm .andi rd rs1 (iImm raw)
  | 0b001#3 => .shiftImm .slli rd rs1 shamt
  | _ =>
      -- Bit 25 is the top bit of the shift amount, so only `funct7 >> 1` counts.
      if funct7Of raw >>> 1 = 0b000000 then .shiftImm .srli rd rs1 shamt
      else if funct7Of raw >>> 1 = 0b010000 then .shiftImm .srai rd rs1 shamt
      else .unimp

def decodeOp : Instr :=
  let build (op : RegOp) := Instr.op op (rdOf raw) (rs1Of raw) (rs2Of raw)
  if funct7Of raw = 0b0000001 then
    match funct3Of raw with
    | 0b000#3 => build .mul
    | 0b001#3 => build .mulh
    | 0b010#3 => build .mulhsu
    | 0b011#3 => build .mulhu
    | 0b100#3 => build .div
    | 0b101#3 => build .divu
    | 0b110#3 => build .rem
    | _ => build .remu
  else if funct7Of raw = 0b0000000 then
    match funct3Of raw with
    | 0b000#3 => build .add
    | 0b001#3 => build .sll
    | 0b010#3 => build .slt
    | 0b011#3 => build .sltu
    | 0b100#3 => build .xor
    | 0b101#3 => build .srl
    | 0b110#3 => build .or
    | _ => build .and
  else if funct7Of raw = 0b0100000 then
    match funct3Of raw with
    | 0b000#3 => build .sub
    | 0b101#3 => build .sra
    | _ => .unimp
  else .unimp

def decodeAtomic (aw : AtomicWidth) : Instr :=
  let rd := rdOf raw
  let rs1 := rs1Of raw
  let rs2 := rs2Of raw
  let aq := raw.getLsbD 26
  let rl := raw.getLsbD 25
  match raw.extractLsb' 27 5 with
  | 0b00010#5 => .lr aw rd rs1 aq rl
  | 0b00011#5 => .sc aw rd rs1 rs2 aq rl
  | 0b00001#5 => .amo .swap aw rd rs1 rs2 aq rl
  | 0b00000#5 => .amo .add aw rd rs1 rs2 aq rl
  | 0b00100#5 => .amo .xor aw rd rs1 rs2 aq rl
  | 0b01100#5 => .amo .and aw rd rs1 rs2 aq rl
  | 0b01000#5 => .amo .or aw rd rs1 rs2 aq rl
  | 0b10000#5 => .amo .min aw rd rs1 rs2 aq rl
  | 0b10100#5 => .amo .max aw rd rs1 rs2 aq rl
  | 0b11000#5 => .amo .minu aw rd rs1 rs2 aq rl
  | 0b11100#5 => .amo .maxu aw rd rs1 rs2 aq rl
  | _ => .unimp

def decodeOpImm32 : Instr :=
  let shamt : BitVec 5 := raw.extractLsb' 20 5
  match funct3Of raw with
  | 0b000#3 => .opImm .addiw (rdOf raw) (rs1Of raw) (iImm raw)
  | 0b001#3 => .shiftImmW .slliw (rdOf raw) (rs1Of raw) shamt
  | 0b101#3 =>
      if funct7Of raw = 0b0000000 then
        .shiftImmW .srliw (rdOf raw) (rs1Of raw) shamt
      else if funct7Of raw = 0b0100000 then
        .shiftImmW .sraiw (rdOf raw) (rs1Of raw) shamt
      else .unimp
  | _ => .unimp

def decodeOp32 : Instr :=
  let build (op : RegOp) := Instr.op op (rdOf raw) (rs1Of raw) (rs2Of raw)
  if funct7Of raw = 0b0000001 then
    match funct3Of raw with
    | 0b000#3 => build .mulw
    | 0b100#3 => build .divw
    | 0b101#3 => build .divuw
    | 0b110#3 => build .remw
    | 0b111#3 => build .remuw
    | _ => .unimp
  else if funct7Of raw = 0b0000000 then
    match funct3Of raw with
    | 0b000#3 => build .addw
    | 0b001#3 => build .sllw
    | 0b101#3 => build .srlw
    | _ => .unimp
  else if funct7Of raw = 0b0100000 then
    match funct3Of raw with
    | 0b000#3 => build .subw
    | 0b101#3 => build .sraw
    | _ => .unimp
  else .unimp

def decodeSystem : Instr :=
  let csr : Csr := raw.extractLsb' 20 12
  let rd := rdOf raw
  let rs1 := rs1Of raw
  match funct3Of raw with
  | 0b000#3 =>
      -- sfence.vma carries rs2 in the low bits of funct12.
      if funct7Of raw = 0b0001001 then .sfenceVma rs1 (rs2Of raw)
      else if csr = 0x000 then .ecall
      else if csr = 0x001 then .ebreak
      else if csr = 0x002 then .uret
      else if csr = 0x102 then .sret
      else if csr = 0x105 then .wfi
      else if csr = 0x302 then .mret
      else .unimp
  | 0b001#3 => .csrReg .rw rd rs1 csr
  | 0b010#3 => .csrReg .rs rd rs1 csr
  | 0b011#3 => .csrReg .rc rd rs1 csr
  | 0b101#3 => .csrImm .rw rd rs1 csr
  | 0b110#3 => .csrImm .rs rd rs1 csr
  | 0b111#3 => .csrImm .rc rd rs1 csr
  | _ => .unimp

def decode : Instr :=
  match opcodeOf raw with
  | 0b0110111#7 => .lui (rdOf raw) (uImm raw)
  | 0b0010111#7 => .auipc (rdOf raw) (uImm raw)
  | 0b1101111#7 => .jal (rdOf raw) (jImm raw)
  | 0b1100111#7 => .jalr (rdOf raw) (rs1Of raw) (iImm raw)
  | 0b1100011#7 => decodeBranch raw
  | 0b0000011#7 => decodeLoad raw
  | 0b0000111#7 =>
      match fwidthOf raw with
      | some fw => .fload fw (rdOf raw) (rs1Of raw) (iImm raw)
      | none => .unimp
  | 0b0100011#7 => decodeStore raw
  | 0b0100111#7 =>
      match fwidthOf raw with
      | some fw => .fstore fw (rs1Of raw) (rs2Of raw) (sImm raw)
      | none => .unimp
  | 0b0010011#7 => decodeOpImm raw
  | 0b0110011#7 => decodeOp raw
  | 0b0101111#7 =>
      match funct3Of raw with
      | 0b010#3 => decodeAtomic raw .w
      | 0b011#3 => decodeAtomic raw .d
      | _ => .unimp
  | 0b0011011#7 => decodeOpImm32 raw
  | 0b0111011#7 => decodeOp32 raw
  | 0b0001111#7 =>
      match funct3Of raw with
      | 0b000#3 => .fence (raw.extractLsb' 20 4) (raw.extractLsb' 24 4)
      | 0b001#3 => .fenceI
      | _ => .unimp
  | 0b1110011#7 => decodeSystem raw
  | 0b1010011#7 | 0b1000011#7 | 0b1000111#7 | 0b1001011#7 | 0b1001111#7 => .fp raw
  | _ => .unimp

end

section

variable (raw : U16)

/-- Bits `pos..pos+len` of a halfword, placed at bit `shift` of an immediate. -/
def cfield (pos len shift : Nat) : U64 :=
  (raw.extractLsb' pos len).zeroExtend 64 <<< shift

/-- Sign-extend the low `n` bits. -/
def sext (v : U64) (n : Nat) : U64 := (v.setWidth n).signExtend 64

/-- One of the eight registers `x8` to `x15` that three bits can name. -/
def cregOf (pos : Nat) : Reg := 0b01#2 ++ raw.extractLsb' pos 3

def cregFull (pos : Nat) : Reg := raw.extractLsb' pos 5

def cshamt : BitVec 6 := raw.extractLsb' 12 1 ++ raw.extractLsb' 2 5

/-- The signed six-bit immediate of the CI format. -/
def ciImm : U64 := sext (cfield raw 12 1 5 ||| cfield raw 2 5 0) 6

/-- Word and double-word offsets of the register-based loads and stores. -/
def clwImm : U64 :=
  cfield raw 6 1 2 ||| cfield raw 10 3 3 ||| cfield raw 5 1 6

def cldImm : U64 := cfield raw 10 3 3 ||| cfield raw 5 2 6

/-- Word and double-word offsets of the stack-pointer loads and stores. -/
def clwspImm : U64 :=
  cfield raw 12 1 5 ||| cfield raw 4 3 2 ||| cfield raw 2 2 6

def cldspImm : U64 :=
  cfield raw 12 1 5 ||| cfield raw 5 2 3 ||| cfield raw 2 3 6

def cswspImm : U64 := cfield raw 9 4 2 ||| cfield raw 7 2 6

def csdspImm : U64 := cfield raw 10 3 3 ||| cfield raw 7 3 6

def cjImm : U64 :=
  let v := cfield raw 12 1 10 ||| cfield raw 8 1 9 ||| cfield raw 9 2 7 |||
    cfield raw 6 1 6 ||| cfield raw 7 1 5 ||| cfield raw 2 1 4 |||
    cfield raw 11 1 3 ||| cfield raw 3 3 0
  (if raw.getLsbD 12 then v ||| ~~~ 0x7FF#64 else v) <<< 1

def cbImm : U64 :=
  let v := cfield raw 12 1 7 ||| cfield raw 5 2 5 ||| cfield raw 2 1 4 |||
    cfield raw 10 2 2 ||| cfield raw 3 2 0
  (if raw.getLsbD 12 then v ||| ~~~ 0xFF#64 else v) <<< 1

def decompressQ0 : Option Instr :=
  let rd := cregOf raw 2
  let rs1 := cregOf raw 7
  match raw.extractLsb' 13 3 with
  | 0b000#3 =>
      let imm := cfield raw 6 1 2 ||| cfield raw 5 1 3 ||| cfield raw 11 2 4 ||| cfield raw 7 4 6
      -- A zero immediate is reserved, and the zero halfword is defined illegal.
      if imm = 0 then none else some (.opImm .addi rd 2 imm)
  | 0b001#3 => some (.fload .d rd rs1 (cldImm raw))
  | 0b010#3 => some (.load .lw rd rs1 (clwImm raw))
  | 0b011#3 => some (.load .ld rd rs1 (cldImm raw))
  | 0b100#3 =>
      let byteImm := cfield raw 12 1 2 ||| cfield raw 6 1 1 ||| cfield raw 5 1 0
      let halfImm := (cfield raw 12 1 1 ||| cfield raw 6 1 0) * 2
      match raw.extractLsb' 10 2 with
      | 0b00#2 => some (.load .lbu rd rs1 byteImm)
      | 0b01#2 => some (.store .u8 rs1 rd byteImm)
      | 0b10#2 => some (.load .lhu rd rs1 halfImm)
      | _ => some (.store .u16 rs1 rd halfImm)
  | 0b101#3 => some (.fstore .d rs1 rd (cldImm raw))
  | 0b110#3 => some (.store .u32 rs1 rd (clwImm raw))
  | _ => some (.store .u64 rs1 rd (cldImm raw))

def decompressArith : Option Instr :=
  let rd := cregOf raw 7
  let rs2 := cregOf raw 2
  match raw.extractLsb' 10 2 with
  | 0b00#2 => some (.shiftImm .srli rd rd (cshamt raw))
  | 0b01#2 => some (.shiftImm .srai rd rd (cshamt raw))
  | 0b10#2 => some (.opImm .andi rd rd (ciImm raw))
  | _ =>
      match raw.getLsbD 12, raw.extractLsb' 5 2 with
      | false, 0b00#2 => some (.op .sub rd rd rs2)
      | false, 0b01#2 => some (.op .xor rd rd rs2)
      | false, 0b10#2 => some (.op .or rd rd rs2)
      | false, _ => some (.op .and rd rd rs2)
      | true, 0b00#2 => some (.op .subw rd rd rs2)
      | true, 0b01#2 => some (.op .addw rd rd rs2)
      | true, _ => none

def decompressQ1 : Option Instr :=
  let rd := cregFull raw 7
  match raw.extractLsb' 13 3 with
  | 0b000#3 => some (.opImm .addi rd rd (ciImm raw))
  | 0b001#3 => some (.opImm .addiw rd rd (ciImm raw))
  | 0b010#3 => some (.opImm .addi rd 0 (ciImm raw))
  | 0b011#3 =>
      if rd = 2 then
        some (.opImm .addi 2 2 (sext (cfield raw 12 1 9 ||| cfield raw 3 2 7 |||
          cfield raw 5 1 6 ||| cfield raw 2 1 5 ||| cfield raw 6 1 4) 10))
      else some (.lui rd (sext (cfield raw 12 1 17 ||| cfield raw 2 5 12) 18))
  | 0b100#3 => decompressArith raw
  | 0b101#3 => some (.jal 0 (cjImm raw))
  | 0b110#3 => some (.branch .beq (cregOf raw 7) 0 (cbImm raw))
  | _ => some (.branch .bne (cregOf raw 7) 0 (cbImm raw))

def decompressQ2 : Option Instr :=
  let rd := cregFull raw 7
  let rs2 := cregFull raw 2
  match raw.extractLsb' 13 3 with
  | 0b000#3 => some (.shiftImm .slli rd rd (cshamt raw))
  | 0b001#3 => some (.fload .d rd 2 (cldspImm raw))
  | 0b010#3 => if rd = 0 then none else some (.load .lw rd 2 (clwspImm raw))
  | 0b011#3 => if rd = 0 then none else some (.load .ld rd 2 (cldspImm raw))
  | 0b100#3 =>
      if !raw.getLsbD 12 then
        if rs2 = 0 then
          if rd = 0 then none else some (.jalr 0 rd 0)
        else some (.op .add rd 0 rs2)
      else if rs2 = 0 then
        if rd = 0 then some .ebreak else some (.jalr 1 rd 0)
      else some (.op .add rd rd rs2)
  | 0b101#3 => some (.fstore .d 2 rs2 (csdspImm raw))
  | 0b110#3 => some (.store .u32 2 rs2 (cswspImm raw))
  | _ => some (.store .u64 2 rs2 (csdspImm raw))

/-- Expand a 16-bit instruction; `none` where the encoding is not supported. -/
def decompress : Option Instr :=
  match raw.extractLsb' 0 2 with
  | 0b00#2 => decompressQ0 raw
  | 0b01#2 => decompressQ1 raw
  | 0b10#2 => decompressQ2 raw
  | _ => none

end

example : decompress 0x8160 = some (.load .lbu 8 10 3) := by decide

example : decode 0x30200073 = .mret := by decide

end TabLinux
