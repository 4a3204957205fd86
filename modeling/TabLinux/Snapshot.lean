/-
Snapshots: what a machine writes of itself, and how it is read back.  The numbers of the
machine have 64 bits, so that lengths from the file are added up below 2^64.
-/
import TabLinux.DeviceBus
import TabLinux.Library.Readers
import TabLinux.Peripherals
import TabLinux.Supervisor

namespace TabLinux

open Bytes Readers

def Privilege.byte : Privilege → Byte
  | .user => 0
  | .supervisor => 1
  | .machine => 3

def Privilege.ofByte (b : Byte) : Privilege :=
  if b = 0 then .user else if b = 1 then .supervisor else .machine

def Supervisor.saveState (s : Supervisor) : Bytes :=
  [(List.ofFn fun i : Fin 32 => s.cpu.x (BitVec.ofFin i)).flatMap (putBits 8),
    (List.ofFn fun i : Fin 32 => s.cpu.f (BitVec.ofFin i)).flatMap (putBits 8),
    putBits 8 s.cpu.pc, putBits 8 s.cpu.fcsr, putBool s.cpu.fsDirty,
    putBits 1 s.privLevel.byte, putBits 8 s.mstatus.toBits, putBits 8 s.mie, putBits 8 s.mip,
    putBits 8 s.mtvec, putBits 8 s.mepc, putBits 8 s.mcause, putBits 8 s.mtval,
    putBits 8 s.mscratch, putBits 8 s.medeleg, putBits 8 s.mideleg,
    putBits 8 s.stvec, putBits 8 s.sepc, putBits 8 s.scause, putBits 8 s.stval,
    putBits 8 s.sscratch, putBits 8 s.satp.toBits, putBits 8 s.stimecmp,
    putBits 8 s.mcycle, putBits 8 s.minstret,
    (List.ofFn fun i : Fin 16 => s.pmpcfg (BitVec.ofFin i)).flatMap (putBits 8),
    (List.ofFn fun i : Fin 64 => s.pmpaddr (BitVec.ofFin i)).flatMap (putBits 8),
    putBits 8 s.mhartid, putBool s.wfi, putBool s.sbiEnabled,
    putBits 8 (s.reservationAddr.getD (BitVec.allOnes 64)),
    putBool s.reservationAddr.isSome].flatten

/-- The caches start empty behind what was read. -/
def Supervisor.loadState (s : Supervisor) : Reads Supervisor := do
  let x ← array u64 32
  let f ← array u64 32
  let pc ← u64
  let fcsr ← u64
  let fsDirty ← bool
  let priv ← u8
  let mstatus ← u64
  let mie ← u64
  let mip ← u64
  let mtvec ← u64
  let mepc ← u64
  let mcause ← u64
  let mtval ← u64
  let mscratch ← u64
  let medeleg ← u64
  let mideleg ← u64
  let stvec ← u64
  let sepc ← u64
  let scause ← u64
  let stval ← u64
  let sscratch ← u64
  let satp ← u64
  let stimecmp ← u64
  let mcycle ← u64
  let minstret ← u64
  let pmpcfg ← array u64 16
  let pmpaddr ← array u64 64
  let mhartid ← u64
  let wfi ← bool
  let sbiEnabled ← bool
  let addr ← u64
  let reserved ← bool
  pure { s with
    cpu := { s.cpu with
      x := fun r => x r.toFin
      f := fun r => f r.toFin
      pc := pc
      fcsr := fcsr
      fsDirty := fsDirty }
    mmu := s.mmu.flushTlb
    privLevel := .ofByte priv
    mstatus := .fromBits mstatus
    mie := mie
    mip := mip
    mtvec := mtvec
    mepc := mepc
    mcause := mcause
    mtval := mtval
    mscratch := mscratch
    medeleg := medeleg
    mideleg := mideleg
    stvec := stvec
    sepc := sepc
    scause := scause
    stval := stval
    sscratch := sscratch
    satp := .fromBits satp
    stimecmp := stimecmp
    mcycle := mcycle
    minstret := minstret
    pmpcfg := fun i => pmpcfg i.toFin
    pmpaddr := fun i => pmpaddr i.toFin
    mhartid := mhartid
    wfi := wfi
    sbiEnabled := sbiEnabled
    reservationAddr := if reserved then some addr else none }.dcacheFlush

def QueueState.put (q : QueueState) : Bytes :=
  [putBits 2 q.num, putBool q.ready, putBits 8 q.desc, putBits 8 q.avail, putBits 8 q.used,
    putBits 2 q.lastAvail].flatten

def QueueState.get : Reads QueueState := do
  let num ← u16
  let ready ← bool
  let desc ← u64
  let avail ← u64
  let used ← u64
  let lastAvail ← u16
  pure ⟨num, ready, desc, avail, used, lastAvail⟩

def Completion.put (c : Completion) : Bytes :=
  [toLe 8 c.queue, putBits 2 c.head, putBits 4 c.len, putBits 8 c.due].flatten

def Completion.get : Reads Completion := do
  let queue ← u64
  let head ← u16
  let len ← u32
  let due ← u64
  pure ⟨queue.toNat, head, len, due⟩

section

variable {δ : Type}

def VirtioMmio.saveState (m : VirtioMmio δ) : Bytes :=
  [putBits 4 m.deviceFeaturesSel, putBits 8 m.driverFeatures, putBits 4 m.driverFeaturesSel,
    putBits 4 m.status, toLe 8 m.queueSel, (List.ofFn m.queues).flatMap QueueState.put,
    putBits 4 m.interruptStatus, putBits 4 m.configGeneration, putBits 8 m.now,
    toLe 8 m.pending.length, m.pending.flatMap Completion.put].flatten

def VirtioMmio.loadState (m : VirtioMmio δ) : Reads (VirtioMmio δ) := do
  let deviceFeaturesSel ← u32
  let driverFeatures ← u64
  let driverFeaturesSel ← u32
  let status ← u32
  let queueSel ← u64
  let queues ← array QueueState.get maxQueues
  let interruptStatus ← u32
  let configGeneration ← u32
  let now ← u64
  let n ← u64
  let pending ← times (fun pending => do return pending ++ [← Completion.get]) n.toNat []
  pure { m with
    deviceFeaturesSel := deviceFeaturesSel
    driverFeatures := driverFeatures
    driverFeaturesSel := driverFeaturesSel
    status := status
    queueSel := queueSel.toNat
    queues := queues
    interruptStatus := interruptStatus
    configGeneration := configGeneration
    now := now
    pending := pending }

end

def pageSize : Nat := 4096

namespace GuestMem

section

variable (mem : GuestMem)

/-- The bytes of page `i`. -/
def page (i : Nat) : Bytes :=
  (List.range pageSize).map fun j => mem.dram (i * pageSize + j)

def usedPages : List Nat :=
  (List.range (mem.len / pageSize)).filter fun i => (mem.page i).any (· ≠ 0)

def putPage (i : Nat) : Bytes := toLe 8 i ++ mem.page i

/-- Pages of zeros are left out. -/
def saveState : Bytes :=
  [toLe 8 mem.len, toLe 8 mem.usedPages.length, mem.usedPages.flatMap mem.putPage].flatten

def setPage (start : Nat) (page : Bytes) : GuestMem :=
  { mem with
    dram := fun i => if start ≤ i ∧ i < start + pageSize then page.getD (i - start) 0
      else mem.dram i }

/-- The offset of the page is checked, its end is not. -/
def loadPage : Reads GuestMem := do
  let i ← u64
  let start := i.toNat * pageSize
  if 2 ^ 64 ≤ start then .reject
  else
    .take pageSize fun page =>
      .fits (start + pageSize)
        (if start + pageSize ≤ mem.len then .done (mem.setPage start page) else .reject)

end

/-- A vector has at most half as many bytes as there are addresses; asking for more
panics. -/
def loadState : Reads GuestMem := do
  let size ← u64
  .fits (2 * size.toNat) (do
    let used ← u64
    times loadPage used.toNat ⟨dramBase, size.toNat, fun _ => 0⟩)

end GuestMem

def Plic.saveState (p : Plic) : Bytes :=
  [(List.ofFn p.priority).flatMap (putBits 4), (List.ofFn p.level).flatMap putBool,
    (List.ofFn p.claimed).flatMap putBool,
    (List.ofFn p.enable).flatMap fun words => (List.ofFn words).flatMap (putBits 4),
    (List.ofFn p.threshold).flatMap (putBits 4)].flatten

/-- What can be claimed follows from the two flags of a source. -/
def Plic.loadState : Reads Plic := do
  let priority ← array u32 plicNsrc
  let level ← array bool plicNsrc
  let claimed ← array bool plicNsrc
  let enable ← array (array u32 plicWords) plicNctx
  let threshold ← array u32 plicNctx
  pure ⟨priority, level, claimed, enable, threshold⟩

section

variable {σ : Type} [BlockBackend σ]

def VirtioNet.devState (dev : VirtioNet) : Bytes :=
  putBytes (List.ofFn dev.mac) ++
    match dev.pendingRx with
    | some frame => putBool true ++ putBytes frame
    | none => putBool false

/-- The first six bytes of a string, if it has so many. -/
def macOf (string : Bytes) : Reads (Fin 6 → Byte) :=
  if 6 ≤ string.length then pure fun i => string.getD i 0 else .reject

def VirtioNet.loadDevState (dev : VirtioNet) : Reads VirtioNet := do
  let mac ← macOf (← bytes)
  if ← bool then
    let frame ← bytes
    pure { dev with mac := mac, pendingRx := some frame }
  else pure { dev with mac := mac, pendingRx := none }

/-- Only the size of a disk and the tag of a share are saved. -/
def Peripheral.devState : Peripheral σ → Bytes
  | .net dev => dev.devState
  | .blk dev => putBits 8 (BlockBackend.capacitySectors dev.backend)
  | .p9 dev => dev.tag

/-- Most devices have nothing to load. -/
def Peripheral.loadDevState (blob : Bytes) : Peripheral σ → Reads (Peripheral σ)
  | .net dev => dev.loadDevState.within blob 0 >>= fun dev => pure (.net dev)
  | dev => pure dev

namespace DeviceBus

section

variable (bus : DeviceBus (Peripheral σ))

/-- The first slot without a device. -/
def freeSlot : Option (Fin virtioMmioSlots) :=
  (List.finRange virtioMmioSlots).find? fun slot => (bus.virtio slot).isNone

def setSlot (slot : Fin virtioMmioSlots)
    (m : VirtioMmio (Peripheral σ)) : DeviceBus (Peripheral σ) :=
  { bus with virtio := fun i => if i = slot then some m else bus.virtio i }

def attachVirtio (dev : Peripheral σ) :
    Option (Fin virtioMmioSlots × DeviceBus (Peripheral σ)) :=
  bus.freeSlot.map fun slot => (slot, bus.setSlot slot (.new dev))

/-- The last slot with a device. -/
def lastSlot : Option (Fin virtioMmioSlots) :=
  (List.finRange virtioMmioSlots).reverse.find? fun slot => (bus.virtio slot).isSome

/-- Load the device in a slot and its transport. -/
def loadSlotState (slot : Fin virtioMmioSlots)
    (loadDev : Peripheral σ → Reads (Peripheral σ)) : Reads (DeviceBus (Peripheral σ)) :=
  match bus.virtio slot with
  | none => .reject
  | some m => do
      let dev ← loadDev m.dev
      let m ← { m with dev := dev }.loadState
      pure (bus.setSlot slot m)

/-- A network card is attached with the address in its state, and found as the last device. -/
def loadNet (blob : Bytes) :
    Reads (DeviceBus (Peripheral σ)) := do
  let mac ← macOf (← bytes.within blob 0)
  match bus.attachVirtio (.net (.new mac)) with
  | none => .reject
  | some (_, bus) =>
      match bus.lastSlot with
      | none => .reject
      | some slot => bus.loadSlotState slot (Peripheral.loadDevState blob)

/-- Any other device is found where it was attached. -/
def loadAttached (dev : Peripheral σ) :
    Reads (DeviceBus (Peripheral σ)) :=
  match bus.attachVirtio dev with
  | none => .reject
  | some (slot, bus) => bus.loadSlotState slot pure

/-- A disk comes back without its store, a share without its tree. -/
def loadSlot : Reads (DeviceBus (Peripheral σ)) := do
  if ← bool then
    let kind ← u32
    let blob ← bytes
    if kind = 1 then bus.loadNet blob
    else if kind = 2 then
      if 8 ≤ blob.length then
        let sectors := BitVec.ofNat 64 (ofLe (blob.take 8))
        bus.loadAttached (.blk (.new (.detached sectors)))
      else .reject
    else if kind = 9 then bus.loadAttached (.p9 (.new (utf8Lossy blob)))
    else .reject
  else pure bus

def putSlot (slot : Fin virtioMmioSlots) : Bytes :=
  match bus.virtio slot with
  | none => putBool false
  | some m =>
      [putBool true, putBits 4 (VirtioDevice.deviceId m.dev), putBytes m.dev.devState,
        m.saveState].flatten

def saveState : Bytes :=
  [bus.dram.saveState, putBits 8 bus.mtime, putBits 8 bus.mtimecmp, putBits 4 bus.msoft,
    putBits 8 bus.tickAccum, putBits 1 bus.uartMcr, putBits 1 bus.uartScr,
    putBits 1 bus.uartIer, putBits 1 bus.uartFcr, putBits 1 bus.uartLcr,
    putBits 1 bus.uartDll, putBits 1 bus.uartDlm, putBytes bus.uartRx, bus.plic.saveState,
    (List.finRange virtioMmioSlots).flatMap bus.putSlot, putBits 8 bus.netPollAccum].flatten

end

def loadState : Reads (DeviceBus (Peripheral σ)) := do
  let dram ← GuestMem.loadState
  let mtime ← u64
  let mtimecmp ← u64
  let msoft ← u32
  let tickAccum ← u64
  let mcr ← u8
  let scr ← u8
  let ier ← u8
  let fcr ← u8
  let lcr ← u8
  let dll ← u8
  let dlm ← u8
  let rx ← bytes
  let plic ← Plic.loadState
  let bus : DeviceBus (Peripheral σ) := { new dram.len with
    dram := dram
    mtime := mtime
    mtimecmp := mtimecmp
    msoft := msoft
    tickAccum := tickAccum
    uartMcr := mcr
    uartScr := scr
    uartIer := ier
    uartRx := rx
    uartFcr := fcr
    uartLcr := lcr
    uartDll := dll
    uartDlm := dlm
    plic := plic }
  let bus ← times loadSlot virtioMmioSlots bus
  let netPollAccum ← u64
  pure { bus with netPollAccum := netPollAccum }

end DeviceBus

/-- What a snapshot holds of a machine.  The rest of a restored machine is that of a new
one. -/
structure Saved (σ : Type) where
  steps : U64
  cpu : Supervisor
  bus : DeviceBus (Peripheral σ)

/-- The bytes of `RVSNAP01`. -/
def snapMagic : Bytes := [0x52, 0x56, 0x53, 0x4E, 0x41, 0x50, 0x30, 0x31]

def Saved.save (m : Saved σ) : Bytes :=
  [snapMagic, putBits 8 m.steps, m.cpu.saveState, m.bus.saveState].flatten

def Saved.restore : Reads (Saved σ) :=
  .take 8 fun magic =>
    if magic ≠ snapMagic then .reject
    else do
      let steps ← u64
      let cpu ← (Supervisor.new dramBase 0).loadState
      let bus ← DeviceBus.loadState
      pure ⟨steps, cpu, bus⟩

end

end TabLinux
