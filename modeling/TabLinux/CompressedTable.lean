/-
The tables of the C extension for RV64, with the byte and halfword loads and
stores of Zcb: what each halfword does, or that it is reserved.  The immediates
are written as the tables give them, from the highest bit down.
-/
import TabLinux.Execute

namespace TabLinux

/-- What a compressed instruction does.  Values are functions of the registers;
where the table's expansion names `x0`, the value is that of register 0. -/
inductive CEffect where
  | nop
  | set (rd : Reg) (value : (Reg → U64) → U64)
  | load (op : LoadOp) (rd base : Reg) (offset : U64)
  | store (width : Width) (base src : Reg) (offset : U64)
  | fld (rd base : Reg) (offset : U64)
  | fsd (base src : Reg) (offset : U64)
  | jump (offset : U64)
  | jumpTo (target : Reg)
  | call (target : Reg)
  | branch (taken : (Reg → U64) → Bool) (offset : U64)
  | breakpoint

universe u

/-- The state after the instruction, two bytes long. -/
def CEffect.run {β : Type u} [Bus β] (effect : CEffect) (cpu : Cpu) (bus : β) :
    Status × Cpu × β :=
  let past := { cpu with pc := cpu.pc + 2 }
  match effect with
  | .nop => (.running, past, bus)
  | .set rd value => (.running, past.writeReg rd (value cpu.x), bus)
  | .load op rd base offset =>
      let (val, bus) := Bus.read op.width bus (cpu.x base + offset)
      (.running, past.writeReg rd (op.extend val), bus)
  | .store width base src offset =>
      (.running, past,
        Bus.write width bus (cpu.x base + offset) ((cpu.x src).setWidth (8 * width.bytes)))
  | .fld rd base offset =>
      let (val, bus) := Bus.read .u64 bus (cpu.x base + offset)
      (.running, { past.writeFreg rd val with fsDirty := true }, bus)
  | .fsd base src offset =>
      (.running, past, Bus.write .u64 bus (cpu.x base + offset) (cpu.f src))
  | .jump offset => (.running, { cpu with pc := cpu.pc + offset }, bus)
  | .jumpTo target => (.running, { cpu with pc := cpu.x target &&& ~~~ 1#64 }, bus)
  | .call target =>
      (.running, { cpu.writeReg 1 (cpu.pc + 2) with pc := cpu.x target &&& ~~~ 1#64 }, bus)
  | .branch taken offset =>
      (.running, if taken cpu.x then { cpu with pc := cpu.pc + offset } else past, bus)
  | .breakpoint => (.trap (.exception .breakpoint), cpu, bus)

section Fields

variable (h : U16)

namespace CTable

/-- The registers `rd'`, `rs2'` and `rs1'`, which name `x8` to `x15`. -/
def rdPrime : Reg := 0b01#2 ++ h.extractLsb' 2 3

def rs1Prime : Reg := 0b01#2 ++ h.extractLsb' 7 3

def rd : Reg := h.extractLsb' 7 5

def rs2 : Reg := h.extractLsb' 2 5

/-- `imm[5|4:0]` of the CI format. -/
def imm6 : BitVec 6 := h.extractLsb' 12 1 ++ h.extractLsb' 2 5

/-- `nzuimm[9:6|5:4|3|2]` of `c.addi4spn`. -/
def addi4spn : BitVec 10 :=
  h.extractLsb' 7 4 ++ h.extractLsb' 11 2 ++ h.extractLsb' 5 1 ++ h.extractLsb' 6 1 ++ 0#2

/-- `uimm[6|5:3|2]` of the word accesses. -/
def uimmW : BitVec 7 :=
  h.extractLsb' 5 1 ++ h.extractLsb' 10 3 ++ h.extractLsb' 6 1 ++ 0#2

/-- `uimm[7:6|5:3]` of the double-word accesses. -/
def uimmD : BitVec 8 := h.extractLsb' 5 2 ++ h.extractLsb' 10 3 ++ 0#3

/-- `uimm[1|0]` of the byte accesses and `uimm[1]` of the halfword accesses. -/
def uimmB : BitVec 2 := h.extractLsb' 5 1 ++ h.extractLsb' 6 1

def uimmH : BitVec 2 := h.extractLsb' 5 1 ++ 0#1

/-- `nzimm[9|8:7|6|5|4]` of `c.addi16sp`. -/
def addi16sp : BitVec 10 :=
  h.extractLsb' 12 1 ++ h.extractLsb' 3 2 ++ h.extractLsb' 5 1 ++ h.extractLsb' 2 1 ++
    h.extractLsb' 6 1 ++ 0#4

/-- `nzimm[17|16:12]` of `c.lui`. -/
def lui : BitVec 18 := h.extractLsb' 12 1 ++ h.extractLsb' 2 5 ++ 0#12

/-- `imm[11|10|9:8|7|6|5|4|3:1]` of `c.j`. -/
def jumpImm : BitVec 12 :=
  h.extractLsb' 12 1 ++ h.extractLsb' 8 1 ++ h.extractLsb' 9 2 ++ h.extractLsb' 6 1 ++
    h.extractLsb' 7 1 ++ h.extractLsb' 2 1 ++ h.extractLsb' 11 1 ++ h.extractLsb' 3 3 ++ 0#1

/-- `imm[8|7:6|5|4:3|2:1]` of the branches. -/
def branchImm : BitVec 9 :=
  h.extractLsb' 12 1 ++ h.extractLsb' 5 2 ++ h.extractLsb' 2 1 ++ h.extractLsb' 10 2 ++
    h.extractLsb' 3 2 ++ 0#1

/-- `uimm[7:6|5|4:2]` of `c.lwsp` and `uimm[8:6|5|4:3]` of `c.ldsp`. -/
def lwsp : BitVec 8 :=
  h.extractLsb' 2 2 ++ h.extractLsb' 12 1 ++ h.extractLsb' 4 3 ++ 0#2

def ldsp : BitVec 9 :=
  h.extractLsb' 2 3 ++ h.extractLsb' 12 1 ++ h.extractLsb' 5 2 ++ 0#3

/-- `uimm[7:6|5:2]` of `c.swsp` and `uimm[8:6|5:3]` of `c.sdsp`. -/
def swsp : BitVec 8 := h.extractLsb' 7 2 ++ h.extractLsb' 9 4 ++ 0#2

def sdsp : BitVec 9 := h.extractLsb' 7 3 ++ h.extractLsb' 10 3 ++ 0#3

end CTable

end Fields

open CTable

variable (h : U16)
include h

/-- The byte and halfword accesses of Zcb. -/
def zcbTable : Option CEffect :=
  match h.extractLsb' 10 3 with
  | 0b000#3 => some (.load .lbu (rdPrime h) (rs1Prime h) ((uimmB h).zeroExtend 64))
  | 0b001#3 =>
      if h.getLsbD 6 then
        some (.load .lh (rdPrime h) (rs1Prime h) ((uimmH h).zeroExtend 64))
      else some (.load .lhu (rdPrime h) (rs1Prime h) ((uimmH h).zeroExtend 64))
  | 0b010#3 => some (.store .u8 (rs1Prime h) (rdPrime h) ((uimmB h).zeroExtend 64))
  | 0b011#3 =>
      if h.getLsbD 6 then none
      else some (.store .u16 (rs1Prime h) (rdPrime h) ((uimmH h).zeroExtend 64))
  | _ => none

/-- Quadrant 0. -/
def cTable0 : Option CEffect :=
  match h.extractLsb' 13 3 with
  | 0b000#3 =>
      if addi4spn h = 0 then none
      else some (.set (rdPrime h) fun x => x 2 + (addi4spn h).zeroExtend 64)
  | 0b001#3 => some (.fld (rdPrime h) (rs1Prime h) ((uimmD h).zeroExtend 64))
  | 0b010#3 => some (.load .lw (rdPrime h) (rs1Prime h) ((uimmW h).zeroExtend 64))
  | 0b011#3 => some (.load .ld (rdPrime h) (rs1Prime h) ((uimmD h).zeroExtend 64))
  | 0b100#3 => zcbTable h
  | 0b101#3 => some (.fsd (rs1Prime h) (rdPrime h) ((uimmD h).zeroExtend 64))
  | 0b110#3 => some (.store .u32 (rs1Prime h) (rdPrime h) ((uimmW h).zeroExtend 64))
  | _ => some (.store .u64 (rs1Prime h) (rdPrime h) ((uimmD h).zeroExtend 64))

/-- The arithmetic group of quadrant 1, on `rd'` and `rs2'`. -/
def arithTable : Option CEffect :=
  let rd := rs1Prime h
  let rs2 := rdPrime h
  match h.extractLsb' 10 2 with
  | 0b00#2 => some (.set rd fun x => x rd >>> (imm6 h).toNat)
  | 0b01#2 => some (.set rd fun x => (x rd).sshiftRight (imm6 h).toNat)
  | 0b10#2 => some (.set rd fun x => x rd &&& (imm6 h).signExtend 64)
  | _ =>
      match h.extractLsb' 12 1, h.extractLsb' 5 2 with
      | 0#1, 0b00#2 => some (.set rd fun x => x rd - x rs2)
      | 0#1, 0b01#2 => some (.set rd fun x => x rd ^^^ x rs2)
      | 0#1, 0b10#2 => some (.set rd fun x => x rd ||| x rs2)
      | 0#1, _ => some (.set rd fun x => x rd &&& x rs2)
      | _, 0b00#2 => some (.set rd fun x => wordResult ((x rd).setWidth 32 - (x rs2).setWidth 32))
      | _, 0b01#2 => some (.set rd fun x => wordResult ((x rd).setWidth 32 + (x rs2).setWidth 32))
      | _, _ => none

/-- Quadrant 1.  A zero immediate of `c.addi` and every write of `x0` is a hint. -/
def cTable1 : Option CEffect :=
  match h.extractLsb' 13 3 with
  | 0b000#3 =>
      if rd h = 0 ∨ imm6 h = 0 then some .nop
      else some (.set (rd h) fun x => x (rd h) + (imm6 h).signExtend 64)
  | 0b001#3 =>
      if rd h = 0 then none
      else some (.set (rd h) fun x =>
        wordResult ((x (rd h)).setWidth 32 + (imm6 h).signExtend 32))
  | 0b010#3 =>
      if rd h = 0 then some .nop
      else some (.set (rd h) fun x => x 0 + (imm6 h).signExtend 64)
  | 0b011#3 =>
      if imm6 h = 0 then none
      else if rd h = 2 then some (.set 2 fun x => x 2 + (addi16sp h).signExtend 64)
      else if rd h = 0 then some .nop
      else some (.set (rd h) fun _ => (lui h).signExtend 64)
  | 0b100#3 => arithTable h
  | 0b101#3 => some (.jump ((jumpImm h).signExtend 64))
  | 0b110#3 => some (.branch (fun x => x (rs1Prime h) == x 0) ((branchImm h).signExtend 64))
  | _ => some (.branch (fun x => x (rs1Prime h) != x 0) ((branchImm h).signExtend 64))

/-- Quadrant 2. -/
def cTable2 : Option CEffect :=
  match h.extractLsb' 13 3 with
  | 0b000#3 =>
      if rd h = 0 ∨ imm6 h = 0 then some .nop
      else some (.set (rd h) fun x => x (rd h) <<< (imm6 h).toNat)
  | 0b001#3 => some (.fld (rd h) 2 ((ldsp h).zeroExtend 64))
  | 0b010#3 =>
      if rd h = 0 then none else some (.load .lw (rd h) 2 ((lwsp h).zeroExtend 64))
  | 0b011#3 =>
      if rd h = 0 then none else some (.load .ld (rd h) 2 ((ldsp h).zeroExtend 64))
  | 0b100#3 =>
      match h.extractLsb' 12 1 with
      | 0#1 =>
          if rs2 h = 0 then if rd h = 0 then none else some (.jumpTo (rd h))
          else if rd h = 0 then some .nop
          else some (.set (rd h) fun x => x 0 + x (rs2 h))
      | _ =>
          if rs2 h = 0 then if rd h = 0 then some .breakpoint else some (.call (rd h))
          else if rd h = 0 then some .nop
          else some (.set (rd h) fun x => x (rd h) + x (rs2 h))
  | 0b101#3 => some (.fsd 2 (rs2 h) ((sdsp h).zeroExtend 64))
  | 0b110#3 => some (.store .u32 2 (rs2 h) ((swsp h).zeroExtend 64))
  | _ => some (.store .u64 2 (rs2 h) ((sdsp h).zeroExtend 64))

/-- What the tables say of a halfword: `none` where it is reserved or illegal. -/
def cTable : Option CEffect :=
  match h.extractLsb' 0 2 with
  | 0b00#2 => cTable0 h
  | 0b01#2 => cTable1 h
  | 0b10#2 => cTable2 h
  | _ => none

end TabLinux
