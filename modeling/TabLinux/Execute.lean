/-
The base interpreter: one decoded instruction against registers and a physical
bus.  System instructions are left to the supervisor layer, which calls this
for everything it does not handle itself.
-/
import TabLinux.Fpu

namespace TabLinux

variable [FloatOps] {β : Type*} [Bus β]

/-- The effective address of a load or store. -/
def Cpu.address (cpu : Cpu) (rs1 : Reg) (imm : U64) : U64 :=
  cpu.readReg rs1 + imm

/-- A loaded word of the A extension as a register value: `.w` sign-extends. -/
def AtomicWidth.extend (aw : AtomicWidth) (val : aw.width.Value) : U64 :=
  val.signExtend 64

/-- Read, combine with `rs2` and write back, at a physical address. -/
def executeAmo (cpu : Cpu) (bus : β) (op : AmoOp) (aw : AtomicWidth)
    (addr : U64) (rd rs2 : Reg) : Cpu × β :=
  let (old, bus) := Bus.read aw.width bus addr
  let bus := Bus.write aw.width bus addr
    (op.eval old ((cpu.readReg rs2).setWidth (8 * aw.width.bytes)))
  (cpu.writeReg rd (aw.extend old), bus)

/-- Execute one instruction of `width` bytes at physical addresses. -/
def executeWidth (cpu : Cpu) (instr : Instr) (width : U64) (bus : β) :
    Status × Cpu × β :=
  match instr with
  | .lui rd imm => (.running, (cpu.writeReg rd imm).advance width, bus)
  | .auipc rd imm =>
      (.running, (cpu.writeReg rd (cpu.pc + imm)).advance width, bus)
  | .jal rd imm =>
      (.running, { cpu.writeReg rd (cpu.pc + width) with pc := cpu.pc + imm }, bus)
  | .jalr rd rs1 imm =>
      let target := (cpu.readReg rs1 + imm) &&& ~~~ 1#64
      (.running, { cpu.writeReg rd (cpu.pc + width) with pc := target }, bus)
  | .branch op rs1 rs2 imm =>
      let step := if op.taken (cpu.readReg rs1) (cpu.readReg rs2) then imm else width
      (.running, cpu.advance step, bus)
  | .load op rd rs1 imm =>
      let (val, bus) := Bus.read op.width bus (cpu.address rs1 imm)
      (.running, (cpu.writeReg rd (op.extend val)).advance width, bus)
  | .store w rs1 rs2 imm =>
      let bus := Bus.write w bus (cpu.address rs1 imm) ((cpu.readReg rs2).setWidth (8 * w.bytes))
      (.running, cpu.advance width, bus)
  | .fload fw rd rs1 imm =>
      let (val, bus) := Bus.read fw.width bus (cpu.address rs1 imm)
      (.running, { cpu.writeFreg rd (fw.boxed val) with fsDirty := true }.advance width, bus)
  | .fstore fw rs1 rs2 imm =>
      let bus := Bus.write fw.width bus (cpu.address rs1 imm)
        ((cpu.f rs2).setWidth (8 * fw.width.bytes))
      (.running, cpu.advance width, bus)
  | .opImm op rd rs1 imm =>
      (.running, (cpu.writeReg rd (op.eval (cpu.readReg rs1) imm)).advance width, bus)
  | .shiftImm op rd rs1 shamt =>
      (.running, (cpu.writeReg rd (op.eval (cpu.readReg rs1) shamt)).advance width, bus)
  | .shiftImmW op rd rs1 shamt =>
      (.running, (cpu.writeReg rd (op.eval (cpu.readReg rs1) shamt)).advance width, bus)
  | .op op rd rs1 rs2 =>
      (.running,
        (cpu.writeReg rd (op.eval (cpu.readReg rs1) (cpu.readReg rs2))).advance width,
        bus)
  | .lr aw rd rs1 _ _ =>
      let (val, bus) := Bus.read aw.width bus (cpu.readReg rs1)
      (.running, (cpu.writeReg rd (aw.extend val)).advance width, bus)
  | .sc aw rd rs1 rs2 _ _ =>
      let bus := Bus.write aw.width bus (cpu.readReg rs1)
        ((cpu.readReg rs2).setWidth (8 * aw.width.bytes))
      (.running, (cpu.writeReg rd 0).advance width, bus)
  | .amo op aw rd rs1 rs2 _ _ =>
      let (cpu, bus) := executeAmo cpu bus op aw (cpu.readReg rs1) rd rs2
      (.running, cpu.advance width, bus)
  | .fp raw =>
      let (r, next) := fpuExecute cpu raw
      if !r.ok then (.trap (.exception .illegalInstruction), next, bus)
      else
        let next := { next with
          fcsr := next.fcsr ||| r.flags, fsDirty := next.fsDirty || r.dirty }
        (.running, next.advance width, bus)
  | .ecall => (.trap (.exception .environmentCallFromM), cpu, bus)
  | .ebreak => (.trap (.exception .breakpoint), cpu, bus)
  | .fence _ _ | .fenceI | .sfenceVma _ _ => (.running, cpu.advance width, bus)
  | .wfi => (.wfi, cpu, bus)
  | .unimp | .mret | .sret | .uret | .csrReg _ _ _ _ | .csrImm _ _ _ _ =>
      (.trap (.exception .illegalInstruction), cpu, bus)

end TabLinux
