/-
Decoded instructions and the values they compute.  The source spells every
operation as its own variant; here the variants of one format form a family
that carries its operation, so that one definition and one lemma serve them all.
-/
import TabLinux.Types

namespace TabLinux

/-- A register index; the source holds it in a byte and every decoder masks it
to five bits. -/
abbrev Reg : Type := BitVec 5

inductive BranchOp where
  | beq | bne | blt | bge | bltu | bgeu
deriving DecidableEq, Repr

/-- Whether a conditional branch is taken. -/
def BranchOp.taken (op : BranchOp) (a b : U64) : Bool :=
  match op with
  | .beq => a == b
  | .bne => a != b
  | .blt => a.slt b
  | .bge => !a.slt b
  | .bltu => a.ult b
  | .bgeu => !a.ult b

inductive LoadOp where
  | lb | lh | lw | ld | lbu | lhu | lwu
deriving DecidableEq, Repr

@[reducible] def LoadOp.width : LoadOp → Width
  | .lb | .lbu => .u8
  | .lh | .lhu => .u16
  | .lw | .lwu => .u32
  | .ld => .u64

def LoadOp.signed : LoadOp → Bool
  | .lb | .lh | .lw => true
  | .ld | .lbu | .lhu | .lwu => false

/-- The register value of a loaded word. -/
def LoadOp.extend (op : LoadOp) (val : op.width.Value) : U64 :=
  if op.signed then val.signExtend 64 else val.zeroExtend 64

/-- Register-immediate operations. -/
inductive ImmOp where
  | addi | slti | sltiu | xori | ori | andi | addiw
deriving DecidableEq, Repr

/-- A comparison as a register value. -/
def boolWord (b : Bool) : U64 := if b then 1 else 0

/-- Sign-extend the 32-bit result of a word operation. -/
def wordResult (val : U32) : U64 := val.signExtend 64

def ImmOp.eval (op : ImmOp) (a imm : U64) : U64 :=
  match op with
  | .addi => a + imm
  | .slti => boolWord (a.slt imm)
  | .sltiu => boolWord (a.ult imm)
  | .xori => a ^^^ imm
  | .ori => a ||| imm
  | .andi => a &&& imm
  | .addiw => wordResult (a.setWidth 32 + imm.setWidth 32)

inductive ShiftOp where
  | slli | srli | srai
deriving DecidableEq, Repr

def ShiftOp.eval (op : ShiftOp) (a : U64) (shamt : BitVec 6) : U64 :=
  match op with
  | .slli => a <<< shamt.toNat
  | .srli => a >>> shamt.toNat
  | .srai => a.sshiftRight shamt.toNat

inductive ShiftWOp where
  | slliw | srliw | sraiw
deriving DecidableEq, Repr

def ShiftWOp.eval (op : ShiftWOp) (a : U64) (shamt : BitVec 5) : U64 :=
  match op with
  | .slliw => wordResult (a.setWidth 32 <<< shamt.toNat)
  | .srliw => wordResult (a.setWidth 32 >>> shamt.toNat)
  | .sraiw => wordResult ((a.setWidth 32).sshiftRight shamt.toNat)

/-- Register-register operations of the base ISA and the M extension. -/
inductive RegOp where
  | add | sub | sll | slt | sltu | xor | srl | sra | or | and
  | addw | subw | sllw | srlw | sraw
  | mul | mulh | mulhsu | mulhu | div | divu | rem | remu
  | mulw | divw | divuw | remw | remuw
deriving DecidableEq, Repr

/-- The high half of a 128-bit product. -/
def highHalf (product : BitVec 128) : U64 := product.extractLsb' 64 64

def RegOp.eval (op : RegOp) (a b : U64) : U64 :=
  match op with
  | .add => a + b
  | .sub => a - b
  | .sll => a <<< (b &&& 0x3F).toNat
  | .slt => boolWord (a.slt b)
  | .sltu => boolWord (a.ult b)
  | .xor => a ^^^ b
  | .srl => a >>> (b &&& 0x3F).toNat
  | .sra => a.sshiftRight (b &&& 0x3F).toNat
  | .or => a ||| b
  | .and => a &&& b
  | .addw => wordResult (a.setWidth 32 + b.setWidth 32)
  | .subw => wordResult (a.setWidth 32 - b.setWidth 32)
  | .sllw => wordResult (a.setWidth 32 <<< (b &&& 0x1F).toNat)
  | .srlw => wordResult (a.setWidth 32 >>> (b &&& 0x1F).toNat)
  | .sraw => wordResult ((a.setWidth 32).sshiftRight (b &&& 0x1F).toNat)
  | .mul => a * b
  | .mulh => highHalf (a.signExtend 128 * b.signExtend 128)
  | .mulhsu => highHalf (a.signExtend 128 * b.zeroExtend 128)
  | .mulhu => highHalf (a.zeroExtend 128 * b.zeroExtend 128)
  | .div =>
      if b = 0 then BitVec.allOnes 64
      else if a = BitVec.intMin 64 ∧ b = BitVec.allOnes 64 then a
      else a.sdiv b
  | .divu => if b = 0 then BitVec.allOnes 64 else a.udiv b
  | .rem =>
      if b = 0 then a
      else if a = BitVec.intMin 64 ∧ b = BitVec.allOnes 64 then 0
      else a.srem b
  | .remu => if b = 0 then a else a.umod b
  | .mulw => wordResult (a.setWidth 32 * b.setWidth 32)
  | .divw =>
      let a := a.setWidth 32
      let b := b.setWidth 32
      if b = 0 then BitVec.allOnes 64
      else if a = BitVec.intMin 32 ∧ b = BitVec.allOnes 32 then wordResult a
      else wordResult (a.sdiv b)
  | .divuw =>
      let a := a.setWidth 32
      let b := b.setWidth 32
      if b = 0 then BitVec.allOnes 64 else wordResult (a.udiv b)
  | .remw =>
      let a := a.setWidth 32
      let b := b.setWidth 32
      if b = 0 then wordResult a
      else if a = BitVec.intMin 32 ∧ b = BitVec.allOnes 32 then 0
      else wordResult (a.srem b)
  | .remuw =>
      let a := a.setWidth 32
      let b := b.setWidth 32
      if b = 0 then wordResult a else wordResult (a.umod b)

/-- The two operand sizes of the A extension. -/
inductive AtomicWidth where
  | w | d
deriving DecidableEq, Repr

@[reducible] def AtomicWidth.width : AtomicWidth → Width
  | .w => .u32
  | .d => .u64

inductive AmoOp where
  | swap | add | xor | and | or | min | max | minu | maxu
deriving DecidableEq, Repr

/-- The value an atomic operation writes back, at either size. -/
def AmoOp.eval {n : Nat} (op : AmoOp) (old val : BitVec n) : BitVec n :=
  match op with
  | .swap => val
  | .add => old + val
  | .xor => old ^^^ val
  | .and => old &&& val
  | .or => old ||| val
  | .min => if old.slt val then old else val
  | .max => if val.slt old then old else val
  | .minu => if old.ult val then old else val
  | .maxu => if val.ult old then old else val

inductive FWidth where
  | s | d
deriving DecidableEq, Repr

@[reducible] def FWidth.width : FWidth → Width
  | .s => .u32
  | .d => .u64

/-- A single in an `f` register has all its upper bits set. -/
def boxS (val : U32) : U64 := 0xFFFFFFFF#32 ++ val

/-- The `f` register value of a loaded word. -/
def FWidth.boxed : (fw : FWidth) → fw.width.Value → U64
  | .s, val => boxS val
  | .d, val => val

inductive CsrOp where
  | rw | rs | rc
deriving DecidableEq, Repr

inductive Instr where
  | lui (rd : Reg) (imm : U64)
  | auipc (rd : Reg) (imm : U64)
  | jal (rd : Reg) (imm : U64)
  | jalr (rd rs1 : Reg) (imm : U64)
  | branch (op : BranchOp) (rs1 rs2 : Reg) (imm : U64)
  | load (op : LoadOp) (rd rs1 : Reg) (imm : U64)
  | store (width : Width) (rs1 rs2 : Reg) (imm : U64)
  | fload (fw : FWidth) (rd rs1 : Reg) (imm : U64)
  | fstore (fw : FWidth) (rs1 rs2 : Reg) (imm : U64)
  | opImm (op : ImmOp) (rd rs1 : Reg) (imm : U64)
  | shiftImm (op : ShiftOp) (rd rs1 : Reg) (shamt : BitVec 6)
  | shiftImmW (op : ShiftWOp) (rd rs1 : Reg) (shamt : BitVec 5)
  | op (op : RegOp) (rd rs1 rs2 : Reg)
  | lr (aw : AtomicWidth) (rd rs1 : Reg) (aq rl : Bool)
  | sc (aw : AtomicWidth) (rd rs1 rs2 : Reg) (aq rl : Bool)
  | amo (op : AmoOp) (aw : AtomicWidth) (rd rs1 rs2 : Reg) (aq rl : Bool)
  | fp (raw : U32)
  | ecall
  | ebreak
  | fence (pred succ : BitVec 4)
  | fenceI
  | csrReg (op : CsrOp) (rd rs1 : Reg) (csr : Csr)
  | csrImm (op : CsrOp) (rd zimm : Reg) (csr : Csr)
  | mret
  | sret
  | uret
  | wfi
  | sfenceVma (rs1 rs2 : Reg)
  | unimp
deriving DecidableEq, Repr

end TabLinux
