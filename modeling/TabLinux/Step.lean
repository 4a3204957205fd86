/-
One interpreted instruction: translated memory access, the privileged
instructions, the decode cache and the step that ties them together.
-/
import TabLinux.Csr
import TabLinux.Sbi

namespace TabLinux

variable [FloatOps] {β : Type*} [Bus β]

/-- Fail with a page fault at `vaddr`, or go on with the physical address. -/
def Supervisor.withPaddr (s : Supervisor) (bus : β) (access : AccessType)
    (vaddr : U64) (next : Supervisor → β → U64 → Supervisor × β) :
    Status × Supervisor × β :=
  match s.translate bus access vaddr with
  | (.error trap, s, bus) =>
      let (status, s) := s.takeTrapWithVaddr trap (some vaddr)
      (status, s, bus)
  | (.ok paddr, s, bus) =>
      let (s, bus) := next s bus paddr
      (.running, s, bus)

/-- The register value of a load.  The arms of `executeTranslated` do not share code with
those of the base interpreter, and so this and the next ones are not its tables. -/
def LoadOp.translated : (op : LoadOp) → op.width.Value → U64
  | .lb, val => val.signExtend 64
  | .lh, val => val.signExtend 64
  | .lw, val => val.signExtend 64
  | .ld, val => val
  | .lbu, val => val.setWidth 64
  | .lhu, val => val.setWidth 64
  | .lwu, val => val.setWidth 64

def Width.translated : (w : Width) → U64 → w.Value
  | .u8, val => val.setWidth 8
  | .u16, val => val.setWidth 16
  | .u32, val => ((val.setWidth 32).setWidth 64).setWidth 32
  | .u64, val => val

def FWidth.translated : (fw : FWidth) → fw.width.Value → U64
  | .s, val => 0xFFFFFFFF00000000 ||| val.setWidth 64
  | .d, val => val

def FWidth.translatedStore : (fw : FWidth) → U64 → fw.width.Value
  | .s, val => val.setWidth 32
  | .d, val => val

/-- What an atomic operation writes back, and what it leaves in `rd`. -/
def AmoOp.translated : AmoOp → (aw : AtomicWidth) → aw.width.Value → U64 →
    aw.width.Value × U64
  | .swap, .w, old, val => (val.setWidth 32, old.signExtend 64)
  | .add, .w, old, val => (old + val.setWidth 32, old.signExtend 64)
  | .xor, .w, old, val => (old ^^^ val.setWidth 32, old.signExtend 64)
  | .and, .w, old, val => (old &&& val.setWidth 32, old.signExtend 64)
  | .or, .w, old, val => (old ||| val.setWidth 32, old.signExtend 64)
  | .min, .w, old, val =>
      let new := val.setWidth 32
      (if old.slt new then old else new, old.signExtend 64)
  | .max, .w, old, val =>
      let new := val.setWidth 32
      (if new.slt old then old else new, old.signExtend 64)
  | .minu, .w, old, val =>
      let new := val.setWidth 32
      (if old.ult new then old else new, old.signExtend 64)
  | .maxu, .w, old, val =>
      let new := val.setWidth 32
      (if new.ult old then old else new, old.signExtend 64)
  | .swap, .d, old, val => (val, old)
  | .add, .d, old, val => (old + val, old)
  | .xor, .d, old, val => (old ^^^ val, old)
  | .and, .d, old, val => (old &&& val, old)
  | .or, .d, old, val => (old ||| val, old)
  | .min, .d, old, val => (if old.slt val then old else val, old)
  | .max, .d, old, val => (if val.slt old then old else val, old)
  | .minu, .d, old, val => (if old.ult val then old else val, old)
  | .maxu, .d, old, val => (if val.ult old then old else val, old)

omit [FloatOps] in
theorem LoadOp.translated_eq (op : LoadOp) (val : op.width.Value) :
    op.translated val = op.extend val := by
  cases op with
  | ld => exact (BitVec.setWidth_eq val).symm
  | lb | lh | lw | lbu | lhu | lwu => rfl

omit [FloatOps] in
theorem Width.translated_eq (w : Width) (val : U64) :
    w.translated val = val.setWidth (8 * w.bytes) := by
  cases w <;> simp [translated, bytes]

omit [FloatOps] in
theorem FWidth.translated_eq (fw : FWidth) (val : fw.width.Value) :
    fw.translated val = fw.boxed val := by
  cases fw with
  | d => rfl
  | s =>
    change 0xFFFFFFFF00000000 ||| val.setWidth 64 = 0xFFFFFFFF#32 ++ val
    rw [BitVec.append_def]
    rfl

omit [FloatOps] in
theorem FWidth.translatedStore_eq (fw : FWidth) (val : U64) :
    fw.translatedStore val = val.setWidth (8 * fw.width.bytes) := by
  cases fw <;> simp [translatedStore, Width.bytes]

omit [FloatOps] in
theorem AmoOp.translated_eq (op : AmoOp) (aw : AtomicWidth) (old : aw.width.Value)
    (val : U64) :
    op.translated aw old val =
      (op.eval old (val.setWidth (8 * aw.width.bytes)), aw.extend old) := by
  cases aw <;> cases op <;> simp [translated, eval, AtomicWidth.extend, Width.bytes]

/-- Loads, stores and atomics at translated addresses. -/
def Supervisor.executeTranslated (s : Supervisor) (instr : Instr) (width : U64)
    (bus : β) : Status × Supervisor × β :=
  match instr with
  | .load op rd rs1 imm =>
      s.withPaddr bus .load (s.cpu.address rs1 imm) fun s bus paddr =>
        let (val, bus) := Bus.read op.width bus paddr
        ({ s with cpu := (s.cpu.writeReg rd (op.translated val)).advance width }, bus)
  | .store w rs1 rs2 imm =>
      s.withPaddr bus .store (s.cpu.address rs1 imm) fun s bus paddr =>
        ({ s with cpu := s.cpu.advance width },
          Bus.write w bus paddr (w.translated (s.cpu.readReg rs2)))
  | .fload fw rd rs1 imm =>
      s.withPaddr bus .load (s.cpu.address rs1 imm) fun s bus paddr =>
        let (val, bus) := Bus.read fw.width bus paddr
        let cpu := { s.cpu.writeFreg rd (fw.translated val) with fsDirty := true }
        ({ s with cpu := cpu.advance width }, bus)
  | .fstore fw rs1 rs2 imm =>
      s.withPaddr bus .store (s.cpu.address rs1 imm) fun s bus paddr =>
        ({ s with cpu := s.cpu.advance width },
          Bus.write fw.width bus paddr (fw.translatedStore (s.cpu.f rs2)))
  | .amo op aw rd rs1 rs2 _ _ =>
      s.withPaddr bus .store (s.cpu.readReg rs1) fun s bus paddr =>
        let (old, bus) := Bus.read aw.width bus paddr
        let (new, val) := op.translated aw old (s.cpu.readReg rs2)
        ({ s with cpu := (s.cpu.writeReg rd val).advance width }, Bus.write aw.width bus paddr new)
  | _ =>
      let (status, s) := s.takeTrap (.exception .illegalInstruction)
      (status, s, bus)

/-- Instructions of the F and D extensions, gated by `mstatus.fs`. -/
def Instr.isFp : Instr → Bool
  | .fp _ | .fload _ _ _ _ | .fstore _ _ _ _ => true
  | _ => false

/-- Memory instructions that go through `executeTranslated`. -/
def Instr.isTranslated : Instr → Bool
  | .load _ _ _ _ | .store _ _ _ _ | .fload _ _ _ _ | .fstore _ _ _ _
  | .amo _ _ _ _ _ _ _ => true
  | _ => false

/-- The granule a reservation covers. -/
def AtomicWidth.align (aw : AtomicWidth) (vaddr : U64) : U64 :=
  match aw with
  | .w => vaddr &&& ~~~ 3#64
  | .d => vaddr &&& ~~~ 7#64

/-- Load-reserved: the reservation is on the aligned virtual address. -/
def Supervisor.loadReserved (s : Supervisor) (bus : β) (aw : AtomicWidth) (rd rs1 : Reg)
    (width : U64) : Status × Supervisor × β :=
  let vaddr := s.cpu.readReg rs1
  s.withPaddr bus .load vaddr fun s bus paddr =>
    let (val, bus) := Bus.read aw.width bus paddr
    ({ s with
      cpu := (s.cpu.writeReg rd (aw.extend val)).advance width
      reservationAddr := some (aw.align vaddr) }, bus)

/-- The effect of a store-conditional that translates: it writes under a
reservation of its own granule, and clears the reservation either way. -/
def Supervisor.commitSc (s : Supervisor) (bus : β) (aw : AtomicWidth)
    (granule : U64) (rd rs2 : Reg) (width paddr : U64) : Supervisor × β :=
  if s.reservationAddr = some granule then
    ({ s with
      cpu := (s.cpu.writeReg rd 0).advance width
      reservationAddr := none },
      Bus.write aw.width bus paddr ((s.cpu.readReg rs2).setWidth (8 * aw.width.bytes)))
  else
    ({ s with
      cpu := (s.cpu.writeReg rd 1).advance width
      reservationAddr := none }, bus)

def Supervisor.storeConditional (s : Supervisor) (bus : β) (aw : AtomicWidth)
    (rd rs1 rs2 : Reg) (width : U64) : Status × Supervisor × β :=
  let vaddr := s.cpu.readReg rs1
  s.withPaddr bus .store vaddr fun s bus paddr =>
    s.commitSc bus aw (aw.align vaddr) rd rs2 width paddr

/-- Pages a single-page fence can leave for the host to invalidate. -/
def pendingFlushLen : Nat := 8

/-- The effect of `sfence.vma` on the caches.  A named address is queued for
the host; a full queue, or no named address, invalidates every space. -/
def Supervisor.sfenceVma (s : Supervisor) (rs1 : Reg) : Supervisor :=
  let s := { s with fetchVpn := BitVec.allOnes 64, mmu := s.mmu.flushTlb }
  if rs1 ≠ 0 then
    if s.pendingFlush.length < pendingFlushLen then
      { s with pendingFlush := s.pendingFlush ++ [s.cpu.readReg rs1] }
    else { s with pendingFlush := [] }.invalidateAllSpaces
  else s.invalidateAllSpaces

/-- Instructions between two polls of the device interrupts. -/
def intSyncInterval : Nat := 64

/-- An `ecall` of supervisor mode, answered as an SBI call. -/
def Supervisor.sbiCall (s : Supervisor) (bus : β) (width : U64) : Supervisor × β :=
  let (ret, bytes, bus) := handleEcall bus (s.cpu.readReg 10) (s.cpu.readReg 11)
    (s.cpu.readReg 16) (s.cpu.readReg 17)
  let mie := if s.cpu.readReg 17 = sbiExtTime then s.mie ||| 1#64 <<< 5 else s.mie
  let cpu := (s.cpu.writeReg 10 ret.error).writeReg 11 ret.value
  ({ s with
    consoleBuf := s.consoleBuf ++ bytes
    mie := mie
    cpu := cpu.advance width }, bus)

def Privilege.ecallCause : Privilege → Exception
  | .user => .environmentCallFromU
  | .supervisor => .environmentCallFromS
  | .machine => .environmentCallFromM

namespace Supervisor

/-- Take a pending interrupt, or park. -/
def park (s : Supervisor) (width : U64) : Status × Supervisor :=
  match s.checkInterrupts with
  | some trap => s.takeTrap trap
  | none => (.wfi, { s with wfi := true, cpu := s.cpu.advance width })

/-- Poll the devices and restart the batching interval. -/
def pollNow (s : Supervisor) (bus : β) : Supervisor :=
  { s.syncDeviceInterrupts bus with intSyncCountdown := intSyncInterval }

/-- `wfi` polls the devices before it parks. -/
def waitForInterrupt (s : Supervisor) (bus : β) (width : U64) :
    Status × Supervisor :=
  (s.pollNow bus).park width

/-- An instruction that dirtied the FP state moves `mstatus.fs` to Dirty. -/
def settleFs (s : Supervisor) : Supervisor :=
  if s.cpu.fsDirty then
    { s with
      cpu := { s.cpu with fsDirty := false }
      mstatus := { s.mstatus with fs := 3 } }
  else s

/-- The FS gate, the memory instructions and the base interpreter. -/
def executeBase (s : Supervisor) (instr : Instr) (width : U64)
    (bus : β) : Status × Supervisor × β :=
  if s.mstatus.fs = 0 && instr.isFp then
    let (status, s) := s.takeTrap (.exception .illegalInstruction)
    (status, s, bus)
  else if instr.isTranslated then
    let (status, s, bus) := s.executeTranslated instr width bus
    (status, s.settleFs, bus)
  else
    let (status, cpu, bus) := executeWidth s.cpu instr width bus
    (status, { s with cpu := cpu }.settleFs, bus)

/-- Illegal in supervisor mode while the virtualisation bit is set. -/
def trappedBy (s : Supervisor) (bit : Bool) : Bool :=
  s.privLevel = .supervisor && bit

/-- Execute one instruction with its privileged handling. -/
def executeSupervisor (s : Supervisor) (instr : Instr) (width : U64)
    (bus : β) : Status × Supervisor × β :=
  let pure (out : Status × Supervisor) : Status × Supervisor × β := (out.1, out.2, bus)
  let illegal := pure (s.takeTrap (.exception .illegalInstruction))
  match instr with
  | .csrReg op rd rs1 csr => pure (s.csrOp bus csr rd rs1 (s.cpu.readReg rs1) op width)
  | .csrImm op rd zimm csr => pure (s.csrOp bus csr rd zimm (zimm.setWidth 64) op width)
  | .ecall =>
      if s.sbiEnabled && s.privLevel = .supervisor then
        let (s, bus) := s.sbiCall bus width
        (.running, s, bus)
      else pure (s.takeTrap (.exception s.privLevel.ecallCause))
  | .ebreak => pure (s.takeTrapWithVaddr (.exception .breakpoint) none)
  | .mret => pure s.doMret
  | .sret => if s.trappedBy s.mstatus.tsr then illegal else pure s.doSret
  | .wfi =>
      if s.trappedBy s.mstatus.tw then illegal else pure (s.waitForInterrupt bus width)
  | .sfenceVma rs1 _ =>
      if s.trappedBy s.mstatus.tvm then illegal
      else
        let s := s.sfenceVma rs1
        pure (.running, { s with cpu := s.cpu.advance width })
  | .lr aw rd rs1 _ _ => s.loadReserved bus aw rd rs1 width
  | .sc aw rd rs1 rs2 _ _ => s.storeConditional bus aw rd rs1 rs2 width
  | _ => s.executeBase instr width bus

end Supervisor

/-- The FP instruction a compiled block asks for. -/
inductive FpCall where
  | load (fw : FWidth) (rd rs1 : Reg) (imm : U64)
  | store (fw : FWidth) (rs2 rs1 : Reg) (imm : U64)
  | arith (raw : U32)
deriving DecidableEq, Repr

/-- One FP instruction for compiled code, without moving the PC: true where the
interpreter has to run it instead. -/
def Supervisor.fpJit (s : Supervisor) (bus : β) (call : FpCall) :
    Bool × Supervisor × β :=
  if s.mstatus.fs = 0 then (true, s, bus)
  else
    match call with
    | .load fw rd rs1 imm =>
        match s.translate bus .load (s.cpu.address rs1 imm) with
        | (.error _, s, bus) => (true, s, bus)
        | (.ok paddr, s, bus) =>
            let (val, bus) := Bus.read fw.width bus paddr
            let cpu := { s.cpu.writeFreg rd (fw.boxed val) with fsDirty := true }
            (false, { s with cpu := cpu }.settleFs, bus)
    | .store fw rs2 rs1 imm =>
        match s.translate bus .store (s.cpu.address rs1 imm) with
        | (.error _, s, bus) => (true, s, bus)
        | (.ok paddr, s, bus) =>
            let bus := Bus.write fw.width bus paddr ((s.cpu.f rs2).setWidth (8 * fw.width.bytes))
            (false, s.settleFs, bus)
    | .arith raw =>
        let (r, cpu) := fpuExecute s.cpu raw
        if !r.ok then (true, { s with cpu := cpu }, bus)
        else
          let cpu := { cpu with
            fcsr := cpu.fcsr ||| r.flags, fsDirty := cpu.fsDirty || r.dirty }
          (false, { s with cpu := cpu }.settleFs, bus)

/-- The upper half of a 32-bit instruction, translated separately where the
instruction crosses a page. -/
def Supervisor.fetchUpperHalf (s : Supervisor) (bus : β) (loPaddr : U64) :
    Except Trap U16 × Supervisor × β :=
  if s.cpu.pc &&& 0xFFF ≠ 0xFFE then
    let (half, bus) := readU16 bus (loPaddr + 2)
    (.ok half, s, bus)
  else
    match s.translate bus .instruction (s.cpu.pc + 2) with
    | (.error trap, s, bus) => (.error trap, s, bus)
    | (.ok paddr, s, bus) =>
        let (half, bus) := readU16 bus paddr
        (.ok half, s, bus)

/-- An instruction that cannot be fetched or decoded: the trap, and the address
a page fault reports. -/
abbrev FetchFault := Trap × Option U64

/-- Read and decode the instruction whose first halfword is at `paddr`. -/
def Supervisor.fetchDecode (s : Supervisor) (bus : β) (paddr : U64) :
    Except FetchFault (Instr × U64) × Supervisor × β :=
  let (half, bus) := readU16 bus paddr
  if half &&& 3 ≠ 3 then
    match decompress half with
    | some instr => (.ok (instr, 2), s, bus)
    | none =>
        -- The upper half is read for the diagnostics only, but the read happens.
        let (_, s, bus) := s.fetchUpperHalf bus paddr
        (.error (.exception .illegalInstruction, none), s, bus)
  else
    match s.fetchUpperHalf bus paddr with
    | (.error trap, s, bus) => (.error (trap, some (s.cpu.pc + 2)), s, bus)
    | (.ok hi, s, bus) => (.ok (decode (hi ++ half), 4), s, bus)

/-- The decode-cache slot of a physical address. -/
def dcacheIndex (paddr : U64) : BitVec 15 := (paddr >>> 1).setWidth 15

namespace Supervisor

/-- Does the decode cache hold an instruction for this physical address? -/
def dcacheHit (s : Supervisor) (paddr : U64) :
    Option (Instr × U64) :=
  match s.dcache (dcacheIndex paddr) with
  | some entry => if entry.tag = paddr then some (entry.instr, entry.width) else none
  | none => none

/-- Remember a decoded instruction. -/
def dcacheInsert (s : Supervisor) (paddr : U64) (fetched : Instr × U64) : Supervisor :=
  { s with
    dcache := Function.update s.dcache (dcacheIndex paddr) (some ⟨paddr, fetched.1, fetched.2⟩) }

/-- The instruction at the PC, through the fetch-page and decode caches. -/
def fetch (s : Supervisor) (bus : β) :
    Except FetchFault (Instr × U64) × Supervisor × β :=
  match s.fetchTranslate bus s.cpu.pc with
  | (.error trap, s, bus) => (.error (trap, some s.cpu.pc), s, bus)
  | (.ok paddr, s, bus) =>
      match s.dcacheHit paddr with
      | some fetched => (.ok fetched, s, bus)
      | none =>
          match s.fetchDecode bus paddr with
          | (.error fault, s, bus) => (.error fault, s, bus)
          | (.ok fetched, s, bus) => (.ok fetched, s.dcacheInsert paddr fetched, bus)

/-- After an instruction: note whether control left the straight line, and
advance the counters that the instruction did not write itself. -/
def countRetired (s : Supervisor) (fallThrough : U64) : Supervisor :=
  { s with
    blockStart := s.trapDelivered || s.cpu.pc ≠ fallThrough
    mcycle := if s.wroteMcycle then s.mcycle else s.mcycle + 1
    minstret := if s.wroteMinstret then s.minstret else s.minstret + 1
    wroteMcycle := false
    wroteMinstret := false }

/-- A `fence.i` drops the cached decodes before anything else. -/
def flushedFor (s : Supervisor) (instr : Instr) : Supervisor :=
  if instr = .fenceI then s.dcacheFlush else s

/-- Deliver a trap that the base interpreter only reported. -/
def deliver (s : Supervisor) (status : Status) (bus : β) :
    Status × Supervisor × β :=
  match status with
  | .trap trap =>
      if s.trapDelivered then (status, s, bus)
      else
        let (status, s) := s.takeTrap trap
        (status, s, bus)
  | _ => (status, s, bus)

/-- Execute a fetched instruction, retire it, and deliver its trap. -/
def finishStep (s : Supervisor) (instr : Instr) (width : U64)
    (bus : β) : Status × Supervisor × β :=
  let (status, s', bus) := (s.flushedFor instr).executeSupervisor instr width bus
  (s'.countRetired (s.cpu.pc + width)).deliver status bus

/-- The start of a step: a new trap flag, and the batched device poll. -/
def pollDevices (s : Supervisor) (bus : β) : Supervisor :=
  let s := { s with trapDelivered := false }
  if s.intSyncCountdown = 0 then s.pollNow bus
  else { s with intSyncCountdown := s.intSyncCountdown - 1 }

/-- Take a pending interrupt, or fetch and execute. -/
def stepPolled (s : Supervisor) (bus : β) : Status × Supervisor × β :=
  match s.checkInterrupts with
  | some trap =>
      let (status, s) := s.takeTrap trap
      (status, s, bus)
  | none =>
      match s.fetch bus with
      | (.error (trap, vaddr), s, bus) =>
          let (status, s) := s.takeTrapWithVaddr trap vaddr
          (status, s, bus)
      | (.ok (instr, width), s, bus) => s.finishStep instr width bus

/-- One step of the hart. -/
def step (s : Supervisor) (bus : β) : Status × Supervisor × β :=
  (s.pollDevices bus).stepPolled bus

/-- Step `n` times. -/
def run (s : Supervisor) (bus : β) : Nat → Supervisor × β
  | 0 => (s, bus)
  | n + 1 => (s.step bus).2.1.run (s.step bus).2.2 n

end Supervisor

end TabLinux
