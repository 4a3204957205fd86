/-
The machine as the browser runs it: the hart and its bus, the block tables, the
services that compiled code calls, and the run loop as a state machine whose
events resolve what the model leaves open (devices, compiled code, the host).
-/
import TabLinux.Jit

namespace TabLinux

universe u

/-- Where guest memory lies in the host's 32-bit linear memory. -/
structure DramWindow where
  base : U64
  size : U64
  ptr : U32
  fits : ptr.toNat + size.toNat ≤ 2 ^ 32

/-- The host address of the page of a physical address.  The whole page has to
lie inside guest memory; there is none for device registers. -/
def DramWindow.pageHostAddr (dram : DramWindow) (paddr : U64) :
    Option U32 :=
  let page := paddr &&& ~~~ 0xFFF#64
  if page < dram.base then none
  else if dram.size.toNat < (page - dram.base).toNat + 4096 then none
  else some (dram.ptr + (page - dram.base).setWidth 32)

/-- The physical address behind a host address. -/
def DramWindow.physOf (dram : DramWindow) (host : U32) : U64 :=
  dram.base + (host - dram.ptr).setWidth 64

/-- Where the run loop stands: at its top, past its bookkeeping, about to look up
a block, inside compiled code, or about to interpret an instruction. -/
inductive Phase where
  | top
  | serviced
  | ready
  | compiled
  | interp
deriving DecidableEq, Repr

/-- The machine.  `pendingInstall` belongs to the wrapper that the page calls:
blocks handed to the host that are not confirmed yet. -/
structure Machine (β : Type u) where
  cpu : Supervisor
  bus : β
  jit : Jit
  dram : DramWindow
  jitEnabled : Bool
  jitFaultPc : U64
  jitRetry : Bool
  jitIcacheGen : U32
  pendingInstall : List Built
  phase : Phase

/-- A machine around a hart, with nothing compiled. -/
def Machine.new {β : Type u} (cpu : Supervisor) (bus : β) (dram : DramWindow) :
    Machine β where
  cpu := cpu
  bus := bus
  jit := Jit.new
  dram := dram
  jitEnabled := false
  jitFaultPc := 0
  jitRetry := false
  jitIcacheGen := 0
  pendingInstall := []
  phase := .top

variable {β : Type u}

/-- An access cannot be served: flag it for the block, which returns, and
remember where the interpreter resumes. -/
def Machine.faultAt (m : Machine β) (pc : U64) : Machine β :=
  { m with
    cpu := { m.cpu with cpu := { m.cpu.cpu with jitFault := 1 } }
    jitFaultPc := pc }

section

variable [Bus β]

namespace Machine

/-- A load of compiled code that missed the inlined TLB. -/
def jitLoad (m : Machine β) (width : Width) (addr pc : U64) :
    U64 × Machine β :=
  match m.cpu.translate m.bus .load addr with
  | (.error _, cpu, bus) => (0, { m with cpu := cpu, bus := bus }.faultAt pc)
  | (.ok pa, cpu, bus) =>
      let jit :=
        match m.dram.pageHostAddr pa with
        | some page => m.jit.fillTlb addr page false
        | none => m.jit
      let (val, bus) := Bus.read width bus pa
      (val.setWidth 64, { m with cpu := cpu, bus := bus, jit := jit })

/-- The tables after a store that resolved to `pa`: a store to a page with
compiled blocks is noted and never cached. -/
def jitAfterStore (m : Machine β) (addr pa : U64) : Jit :=
  match m.dram.pageHostAddr pa with
  | some page =>
      if m.jit.isCodePage (pa >>> 12) then m.jit.noteCodeWrite
      else m.jit.fillTlb addr page true
  | none => m.jit

/-- A store of compiled code that missed the inlined TLB. -/
def jitStore (m : Machine β) (width : Width) (addr val pc : U64) :
    Machine β :=
  match m.cpu.translate m.bus .store addr with
  | (.error _, cpu, bus) => { m with cpu := cpu, bus := bus }.faultAt pc
  | (.ok pa, cpu, bus) =>
      { m with
        cpu := cpu
        bus := Bus.write width bus pa (val.setWidth (8 * width.bytes))
        jit := m.jitAfterStore addr pa }

/-- An instruction of the F or D extension. -/
def jitFp [FloatOps] (m : Machine β) (call : FpCall) (pc : U64) :
    Machine β :=
  match m.cpu.fpJit m.bus call with
  | (true, cpu, bus) => { m with cpu := cpu, bus := bus }.faultAt pc
  | (false, cpu, bus) => { m with cpu := cpu, bus := bus, jit := m.jit.refreshGen cpu }

/-- A CSR instruction.  One that unmasked a pending interrupt leaves the block
after itself; any other refreshes the generation words. -/
def jitCsr (m : Machine β) (csr : Csr) (rd src : Reg) (val : U64)
    (op : CsrOp) (pc : U64) : Machine β :=
  match m.cpu.csrJit m.bus csr rd src val op with
  | (true, cpu) => { m with cpu := cpu }.faultAt pc
  | (false, cpu) =>
      if isInterruptCsr csr && cpu.mstatus.sie then
        let (pending, cpu) := cpu.interruptPending m.bus
        if pending then { m with cpu := cpu }.faultAt (pc + 4)
        else { m with cpu := cpu, jit := m.jit.refreshGen cpu }
      else { m with cpu := cpu, jit := m.jit.refreshGen cpu }

/-- A store that compiled code makes on its own, through a live entry of the
inlined write TLB and inside one page. -/
def inlineStore (m : Machine β) (width : Width) (addr val : U64) :
    Machine β :=
  let entry := m.jit.tlbW (inlineTlbIndex (addr >>> 12))
  if entry.vpn = addr >>> 12 ∧ entry.gen = m.jit.dataGen ∧
      (addr &&& 0xFFF).toNat + width.bytes ≤ 4096 then
    let pa := m.dram.physOf (entry.base.setWidth 32) + (addr &&& 0xFFF)
    { m with bus := Bus.write width m.bus pa (val.setWidth (8 * width.bytes)) }
  else m

/-- Retire the pages named by single-page fences, and move the chain generation
if one of them may hold chain keys. -/
def drainFlush (m : Machine β) : Machine β :=
  if m.cpu.pendingFlush = [] then m
  else
    let jit := m.cpu.pendingFlush.foldl Jit.invalidateTlbPage m.jit
    let chainHit := m.cpu.pendingFlush.any fun va =>
      m.jit.pageMayHaveKeys va m.cpu.transGen
    let cpu := { m.cpu with pendingFlush := [] }
    { m with jit := jit, cpu := if chainHit then cpu.advanceChainGen else cpu }

/-- A `fence.i` has been executed: discard the blocks, but only if a store to a
code page was noted. -/
def syncIcache (m : Machine β) : Machine β :=
  if m.cpu.icacheGen ≠ m.jitIcacheGen then
    { m with
      jitIcacheGen := m.cpu.icacheGen
      jit := if m.jit.smcDirty then m.jit.flush else m.jit }
  else m

/-- One interpreted instruction.  After an obstacle to a chain, the next
instruction counts as a block start. -/
def interpret [FloatOps] (m : Machine β) : Machine β :=
  let (_, cpu, bus) := m.cpu.step m.bus
  { m with
    cpu := if m.jitRetry then { cpu with blockStart := true } else cpu
    bus := bus
    jitRetry := false
    phase := .top }

variable (m : Machine β)

/-- The loop's bookkeeping before it chooses between blocks and interpreter: the
devices advance, and fences executed since the last round take effect. -/
def service (tick : β → β) : Machine β :=
  { ({ m with bus := tick m.bus }).drainFlush.syncIcache with phase := .serviced }

/-- Compiled code is considered at block starts without a pending interrupt;
the generation words are refreshed before the lookup. -/
def choose : Machine β :=
  if m.jitEnabled && m.cpu.blockStart then
    let (pending, cpu) := m.cpu.interruptPending m.bus
    if pending then { m with cpu := cpu, phase := .interp }
    else { m with cpu := cpu, jit := m.jit.refreshGen cpu, phase := .ready }
  else { m with phase := .interp }

/-- Enter the block at the PC, or interpret. -/
def enter : Machine β :=
  match m.jit.lookup m.cpu m.bus with
  | (none, jit, cpu, bus) => { m with jit := jit, cpu := cpu, bus := bus, phase := .interp }
  | (some _, jit, cpu, bus) =>
      { m with
        jit := jit
        cpu := { cpu with cpu := { cpu.cpu with jitFault := 0, jitInsns := 0 } }
        bus := bus
        phase := .compiled }

/-- Control is at `pc` after a block. -/
def landAt (pc : U64) : Machine β :=
  { m with cpu := { m.cpu with blockStart := true, cpu := { m.cpu.cpu with pc := pc } } }

/-- A block returned and the chain goes on with the block at `pc`, if there is
one. -/
def hop (pc : U64) : Machine β :=
  let m := m.landAt pc
  match m.jit.lookup m.cpu m.bus with
  | (none, jit, cpu, bus) =>
      { m with jit := jit, cpu := cpu, bus := bus, jitRetry := true, phase := .top }
  | (some _, jit, cpu, bus) => { m with jit := jit, cpu := cpu, bus := bus }

/-- The chain ends: after a fault the interpreter resumes at the faulting
instruction, otherwise at `pc`. -/
def leave (pc : U64) : Machine β :=
  if m.cpu.cpu.jitFault ≠ 0 then
    { m with
      cpu := { m.cpu with
        blockStart := false
        cpu := { m.cpu.cpu with jitFault := 0, pc := m.jitFaultPc } }
      phase := .top }
  else { m.landAt pc with phase := .top }

end Machine

end

/-- What the page will confirm for a traced run. -/
def builtOf (queued : U64 × List Src) : Built where
  paddr := queued.1
  bytes := (queued.2.map fun src => src.width.setWidth 32).sum
  insns := BitVec.ofNat 32 queued.2.length
  branchy := queued.2.getLast?.any fun src => src.instr.isTerminator

/-- Take the queue and build a module from it; `ok` is false when nothing in it
could be compiled. -/
def Machine.jitBuild (m : Machine β) (ok : Bool) : Machine β :=
  if m.jit.pending = [] then m
  else
    { m with
      jit := { m.jit with pending := [] }
      pendingInstall := if ok then m.jit.pending.map builtOf else m.pendingInstall }

/-- The module was instantiated at `tableBase`. -/
def Machine.jitInstalled (m : Machine β) (tableBase : U32) : Machine β :=
  if m.pendingInstall = [] then m
  else { m with jit := m.jit.installed m.pendingInstall tableBase, pendingInstall := [] }

/-- The page discards every block. -/
def Machine.jitFlush (m : Machine β) : Machine β :=
  { m with jit := m.jit.flush, pendingInstall := [] }

/-- What compiled code does next: change registers, access memory, run a CSR or
FP instruction, reach a device, or land on another block. -/
inductive Act (β : Type u) where
  | regs (x f : Reg → U64)
  | load (width : Width) (addr pc : U64)
  | store (width : Width) (addr val pc : U64)
  | inlineStore (width : Width) (addr val : U64)
  | csr (csr : Csr) (rd src : Reg) (val : U64) (op : CsrOp) (pc : U64)
  | fp (call : FpCall) (pc : U64)
  | device (effect : β → β)
  | hop (pc : U64)

inductive Event (β : Type u) where
  | service (tick : β → β)
  | choose
  | enter
  | interpret
  | act (act : Act β)
  | leave (pc : U64)
  | build (ok : Bool)
  | installed (tableBase : U32)
  | discard
  | enable (on : Bool)

variable [FloatOps] [Bus β]

def Machine.doAct (m : Machine β) : Act β → Machine β
  | .regs x f => { m with cpu := { m.cpu with cpu := { m.cpu.cpu with x := x, f := f } } }
  | .load width addr pc => (m.jitLoad width addr pc).2
  | .store width addr val pc => m.jitStore width addr val pc
  | .inlineStore width addr val => m.inlineStore width addr val
  | .csr csr rd src val op pc => m.jitCsr csr rd src val op pc
  | .fp call pc => m.jitFp call pc
  | .device effect => { m with bus := effect m.bus }
  | .hop pc => m.hop pc

/-- Events belong to a phase, and a block whose access faulted does nothing but
return. -/
def Machine.allows (m : Machine β) : Event β → Bool
  | .service _ | .build _ | .installed _ | .discard | .enable _ => m.phase = .top
  | .choose => m.phase = .serviced
  | .enter => m.phase = .ready
  | .interpret => m.phase = .interp
  | .act _ => m.phase = .compiled && m.cpu.cpu.jitFault = 0
  | .leave _ => m.phase = .compiled

def Machine.perform (m : Machine β) : Event β → Machine β
  | .service tick => m.service tick
  | .choose => m.choose
  | .enter => m.enter
  | .interpret => m.interpret
  | .act act => m.doAct act
  | .leave pc => m.leave pc
  | .build ok => m.jitBuild ok
  | .installed tableBase => m.jitInstalled tableBase
  | .discard => m.jitFlush
  | .enable on => { m with jitEnabled := on }

/-- One event, ignored where the phase does not allow it. -/
def Machine.exec (m : Machine β) (event : Event β) : Machine β :=
  if m.allows event then m.perform event else m

/-- A linked list in memory: every double word points to the one below it. -/
def listByte (addr : U64) : BitVec 8 :=
  (((addr &&& ~~~ 7#64) - 8) >>> (8 * (addr.toNat % 8))).setWidth 8

/-- At 0x100 a loop walks the list that ends at 0x1000, `ld x1, 0(x1);
bne x1, x0, .-4`, and is followed by the given code.  The tables at 0x2000 and
0x3000 both map the first gigabyte to itself, with one leaf. -/
def loopRam (rest : List U32) : Ram := fun addr =>
  if addr = 0x2000 ∨ addr = 0x3000 then 0xCF
  else if 0x1008 ≤ addr ∧ addr < 0x1100 then listByte addr
  else Ram.ofWords (0x0000B083 :: 0xFE009EE3 :: rest) (addr - 0x100)

/-- A restored hart in supervisor mode in the space of 0x2000.  The loop runs 17
times, `x2` and `x3` select the two spaces, and `x4` names the loop's page. -/
def loopCpu : Supervisor :=
  { Supervisor.new 0x100 0 with
    privLevel := .supervisor
    satp := ⟨8, 0, 2⟩
    cpu := { Cpu.new 0x100 with
      x := fun r =>
        if r = 1 then 0x1080
        else if r = 2 then (⟨8, 0, 2⟩ : Satp).toBits
        else if r = 3 then (⟨8, 0, 3⟩ : Satp).toBits
        else if r = 4 then 0x100
        else 0 } }.dcacheFlush

def loopWindow : DramWindow := ⟨0, 0x10000, 0x1000, by decide⟩

/-- One round of the run loop that ends in the interpreter. -/
def interpRound : List (Event Ram) := [.service id, .choose, .enter, .interpret]

/-- The loop gets hot, is compiled, and its last iteration enters the block. -/
def warmLoop : List (Event Ram) :=
  .enable true :: (List.replicate 32 interpRound).flatten ++
    [.build true, .installed 5, .service id, .choose, .enter]

/-- The block loads the end of the list and returns behind the loop. -/
def leaveLoop : List (Event Ram) :=
  [.act (.load .u64 0x1000 0x100),
    .act (.regs (fun r => if r = 1 then 0 else loopCpu.cpu.x r) fun _ => 0), .leave 0x108]

end TabLinux
