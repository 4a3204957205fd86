/-
Control and status registers: the register file behind the CSR numbers, the
CSR instructions as the interpreter runs them, and the variant compiled code
calls.
-/
import TabLinux.Trap

namespace TabLinux

variable {β : Type*} [Bus β]

/-- The bits of `mstatus` that are writable through `sstatus`. -/
def sstatusMask : U64 :=
  1#64 <<< 63 ||| 3#64 <<< 32 ||| 1#64 <<< 19 ||| 1#64 <<< 18 ||| 3#64 <<< 15 |||
    3#64 <<< 13 ||| 3#64 <<< 9 ||| 1#64 <<< 8 ||| 1#64 <<< 5 ||| 1#64 <<< 1

/-- Copy the bits of `val` under `mask` into `old`. -/
def mergeBits (old mask val : U64) : U64 :=
  (old &&& ~~~ mask) ||| (val &&& mask)

namespace Supervisor

variable (s : Supervisor)

/-- Unknown CSRs, and the identification and counter-enable registers, read as
zero. -/
def csrRead (bus : β) (csr : Csr) : U64 :=
  if csr = 0x001 then s.cpu.fcsr &&& 0x1f
  else if csr = 0x002 then s.cpu.fcsr >>> 5 &&& 0x7
  else if csr = 0x003 then s.cpu.fcsr &&& 0xff
  else if csr = 0x300 then s.mstatus.toBits
  else if csr = 0x301 then 0x800000000094112D
  else if csr = 0x302 then s.medeleg
  else if csr = 0x303 then s.mideleg
  else if csr = 0x304 then s.mie
  else if csr = 0x305 then s.mtvec
  else if csr = 0x340 then s.mscratch
  else if csr = 0x341 then s.mepc
  else if csr = 0x342 then s.mcause
  else if csr = 0x343 then s.mtval
  else if csr = 0x344 then s.mip
  else if 0x3A0#12 ≤ csr && csr ≤ 0x3AF#12 then s.pmpcfg ((csr - 0x3A0).setWidth 4)
  else if 0x3B0#12 ≤ csr && csr ≤ 0x3EF#12 then s.pmpaddr ((csr - 0x3B0).setWidth 6)
  else if csr = 0xB00 then s.mcycle
  else if csr = 0xB02 then s.minstret
  else if csr = 0xF14 then s.mhartid
  else if csr = 0x100 then s.mstatus.toBits
  else if csr = 0x104 then s.mie &&& 0x222
  else if csr = 0x105 then s.stvec
  else if csr = 0x140 then s.sscratch
  else if csr = 0x141 then s.sepc
  else if csr = 0x142 then s.scause
  else if csr = 0x143 then s.stval
  else if csr = 0x144 then s.mip &&& 0x222
  else if csr = 0x14D then s.stimecmp
  else if csr = 0x180 then s.satp.toBits
  else if csr = 0xC01 then Bus.readMtime bus
  else if csr = 0xC00 then s.mcycle
  else if csr = 0xC02 then s.minstret
  else 0

/-- Write one of `fflags`, `frm` and `fcsr`, which dirties the FP state. -/
def writeFcsr (fcsr : U64) : Supervisor :=
  { s with
    cpu := { s.cpu with fcsr := fcsr }
    mstatus := { s.mstatus with fs := 3 } }

/-- A changed `satp` drops the vpn-keyed caches and selects the generations of
the new address space under the value as written. -/
def writeSatp (val : U64) : Supervisor :=
  let old := s.satp.toBits
  let s := { s with satp := Satp.fromBits val }
  if old ≠ val then
    { s with mmu := s.mmu.flushTlb, fetchVpn := BitVec.allOnes 64 }.switchAddressSpace old val
  else s

def csrWrite (csr : Csr) (val : U64) :
    Supervisor :=
  if csr = 0x001 then s.writeFcsr (mergeBits s.cpu.fcsr 0x1f val)
  else if csr = 0x002 then s.writeFcsr (mergeBits s.cpu.fcsr 0xe0 (val <<< 5))
  else if csr = 0x003 then s.writeFcsr (val &&& 0xff)
  else if csr = 0x300 then
    { s with mstatus := { MStatus.fromBits val with uxl := 2, sxl := 2 } }
  else if csr = 0x302 then { s with medeleg := val }
  else if csr = 0x303 then { s with mideleg := val }
  else if csr = 0x304 then { s with mie := val }
  else if csr = 0x305 then { s with mtvec := val }
  else if csr = 0x340 then { s with mscratch := val }
  else if csr = 0x341 then { s with mepc := val }
  else if csr = 0x342 then { s with mcause := val }
  else if csr = 0x343 then { s with mtval := val }
  else if csr = 0x344 then { s with mip := val }
  else if 0x3A0#12 ≤ csr && csr ≤ 0x3AF#12 then
    { s with pmpcfg := Function.update s.pmpcfg ((csr - 0x3A0).setWidth 4) val }
  else if 0x3B0#12 ≤ csr && csr ≤ 0x3EF#12 then
    let addr := val &&& 0x003FFFFFFFFFFFFF
    { s with pmpaddr := Function.update s.pmpaddr ((csr - 0x3B0).setWidth 6) addr }
  else if csr = 0xB00 then { s with mcycle := val, wroteMcycle := true }
  else if csr = 0xB02 then { s with minstret := val, wroteMinstret := true }
  else if csr = 0x100 then
    { s with mstatus := MStatus.fromBits (mergeBits s.mstatus.toBits sstatusMask val) }
  else if csr = 0x104 then { s with mie := mergeBits s.mie 0x222 val }
  else if csr = 0x105 then { s with stvec := val }
  else if csr = 0x140 then { s with sscratch := val }
  else if csr = 0x141 then { s with sepc := val }
  else if csr = 0x142 then { s with scause := val }
  else if csr = 0x143 then { s with stval := val }
  else if csr = 0x144 then { s with mip := mergeBits s.mip 0x222 val }
  else if csr = 0x14D then { s with stimecmp := val }
  else if csr = 0x180 then s.writeSatp val
  else s

end Supervisor

/-- CSRRW always writes; CSRRS and CSRRC only from a nonzero source field. -/
def csrWillWrite (op : CsrOp) (src : Reg) : Bool := op = .rw || src ≠ 0

/-- The checks that come before any effect: privilege, TVM, read-only. -/
def Supervisor.csrDenied (s : Supervisor) (csr : Csr) (op : CsrOp) (src : Reg) :
    Bool :=
  s.privLevel.bits.ult (csr.extractLsb' 8 2) ||
    (csr = 0x180 && s.privLevel = .supervisor && s.mstatus.tvm) ||
    (csrWillWrite op src && csr.extractLsb' 10 2 = 3)

/-- The value a CSR instruction writes. -/
def CsrOp.combine (op : CsrOp) (old val : U64) : U64 :=
  match op with
  | .rw => val
  | .rs => old ||| val
  | .rc => old &&& ~~~ val

variable (s : Supervisor) (bus : β) (csr : Csr) (rd src : Reg)

variable (val : U64) (op : CsrOp)

/-- Read, modify and write the CSR, and put its old value in `rd`. -/
def Supervisor.csrAccess : Supervisor :=
  let old := s.csrRead bus csr
  let s := if csrWillWrite op src then s.csrWrite csr (op.combine old val) else s
  { s with cpu := s.cpu.writeReg rd old }

/-- A CSR instruction in the interpreter. -/
def Supervisor.csrOp (width : U64) : Status × Supervisor :=
  if s.csrDenied csr op src then s.takeTrap (.exception .illegalInstruction)
  else
    let s := s.csrAccess bus csr rd src val op
    (.running, { s with cpu := s.cpu.advance width })

/-- The same for compiled code, which owns the PC: true, with nothing changed,
where the instruction would trap. -/
def Supervisor.csrJit : Bool × Supervisor :=
  if s.csrDenied csr op src then (true, s)
  else (false, s.csrAccess bus csr rd src val op)

end TabLinux
