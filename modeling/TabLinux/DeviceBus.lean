/-
The device bus: guest memory, the CLINT timer, the PLIC, the UART and the virtio slots behind
one physical address space, and the two interrupt lines that the hart polls.

Left out are the debug log, the access counters and the frame queues of the network device,
which no register and no line depends on.  The levels of the PLIC's sources are refreshed
before every use in the source; here the interrupt check works on refreshed levels without
storing them.
-/
import TabLinux.Types
import TabLinux.Virtio

namespace TabLinux

open Bytes

/-- Sources of the PLIC; source 0 means that there is none. -/
abbrev plicNsrc : Nat := 96

abbrev plicNctx : Nat := 8

/-- Words of one enable bitmap. -/
abbrev plicWords : Nat := 3

def uartIrq : Fin plicNsrc := 10

structure Plic where
  priority : Fin plicNsrc → U32
  level : Fin plicNsrc → Bool
  claimed : Fin plicNsrc → Bool
  enable : Fin plicNctx → Fin plicWords → U32
  threshold : Fin plicNctx → U32

def Plic.new : Plic where
  priority _ := 0
  level _ := false
  claimed _ := false
  enable _ _ := 0
  threshold _ := 0

def Plic.setLevel (p : Plic) (irq : Fin plicNsrc) (level : Bool) : Plic :=
  { p with level := Function.update p.level irq level }

/-- Asserted and not in service.  The source keeps a bitmap of these. -/
def Plic.claimable (p : Plic) (irq : Fin plicNsrc) : Bool := p.level irq && !p.claimed irq

theorem plicWord_lt (irq : Fin plicNsrc) : irq.val / 32 < plicWords := Nat.div_lt_of_lt_mul irq.isLt

namespace Plic

section

variable (p : Plic) (ctx : Fin plicNctx)

def enabled (irq : Fin plicNsrc) : Bool :=
  (p.enable ctx ⟨irq.val / 32, plicWord_lt irq⟩).getLsbD (irq.val % 32)

/-- Can this source be claimed in the context at all? -/
def offers (irq : Fin plicNsrc) : Bool :=
  p.claimable irq && irq ≠ 0 && p.enabled ctx irq && p.threshold ctx < p.priority irq

/-- One source of the search for the best: later sources win by a higher priority only. -/
def consider (best : Fin plicNsrc × U32) (irq : Fin plicNsrc) : Fin plicNsrc × U32 :=
  if p.offers ctx irq && best.2 < p.priority irq then (irq, p.priority irq) else best

/-- The claimable source of the highest priority, or 0. -/
def best : Fin plicNsrc :=
  ((List.finRange plicNsrc).foldl (p.consider ctx) (0, 0)).1

end

def anyPending (p : Plic) : Bool :=
  (List.finRange plicNctx).any fun ctx => p.best ctx ≠ 0

def claim (p : Plic) (ctx : Fin plicNctx) : U32 × Plic :=
  let irq := p.best ctx
  if irq ≠ 0 then (BitVec.ofNat 32 irq, { p with claimed := Function.update p.claimed irq true })
  else (0, p)

def complete (p : Plic) (irq : Nat) : Plic :=
  if h : irq < plicNsrc then { p with claimed := Function.update p.claimed ⟨irq, h⟩ false }
  else p

end Plic

/-- The registers of the PLIC by their offset. -/
inductive PlicReg where
  | priority (irq : Fin plicNsrc)
  | pending (word : Fin plicWords)
  | enable (ctx : Fin plicNctx) (word : Fin plicWords)
  | threshold (ctx : Fin plicNctx)
  | claim (ctx : Nat)
  | reserved
deriving DecidableEq

def plicReg (off : Nat) : PlicReg :=
  if off < 0x1000 then
    if h : off / 4 < plicNsrc then .priority ⟨off / 4, h⟩ else .reserved
  else if off < 0x2000 then
    if h : (off - 0x1000) / 4 < plicWords then .pending ⟨(off - 0x1000) / 4, h⟩ else .reserved
  else if off < 0x200000 then
    if h : (off - 0x2000) / 0x80 < plicNctx ∧ (off - 0x2000) % 0x80 / 4 < plicWords then
      .enable ⟨_, h.1⟩ ⟨_, h.2⟩
    else .reserved
  else if (off - 0x200000) % 0x1000 = 0 then
    if h : (off - 0x200000) / 0x1000 < plicNctx then .threshold ⟨_, h⟩ else .reserved
  else if (off - 0x200000) % 0x1000 = 4 then .claim ((off - 0x200000) / 0x1000)
  else .reserved

/-- One word of the bitmap of claimable sources. -/
def Plic.pendingWord (p : Plic) (word : Fin plicWords) : U32 :=
  (List.range 32).foldl (fun bits b =>
    if h : word.val * 32 + b < plicNsrc then
      if p.claimable ⟨_, h⟩ then bits ||| 1#32 <<< b else bits
    else bits) 0

/-- A load; reading the claim register claims. -/
def Plic.read (p : Plic) (off : Nat) : U32 × Plic :=
  match plicReg off with
  | .priority irq => (p.priority irq, p)
  | .pending word => (p.pendingWord word, p)
  | .enable ctx word => (p.enable ctx word, p)
  | .threshold ctx => (p.threshold ctx, p)
  | .claim ctx => if h : ctx < plicNctx then p.claim ⟨ctx, h⟩ else (0, p)
  | .reserved => (0, p)

/-- A store; writing the claim register completes, whatever the context. -/
def Plic.write (p : Plic) (off : Nat) (val : U32) : Plic :=
  match plicReg off with
  | .priority irq => { p with priority := Function.update p.priority irq val }
  | .enable ctx word =>
      { p with enable := Function.update p.enable ctx (Function.update (p.enable ctx) word val) }
  | .threshold ctx => { p with threshold := Function.update p.threshold ctx val }
  | .claim _ => p.complete val.toNat
  | .pending _ | .reserved => p

/-- How an access ends the emulator: a slice out of range, or a panic of a device. -/
inductive BusPanic where
  | sliceIndex
  | virtio (panic : Panic)
deriving DecidableEq, Repr

abbrev virtioMmioSlots : Nat := 8

instance : NeZero virtioMmioSlots := ⟨by decide⟩

/-- After a panic nothing runs any more; `panicked` remembers the first one. -/
structure DeviceBus (δ : Type) where
  dram : GuestMem
  mtime : U64
  mtimecmp : U64
  msoft : U32
  tickAccum : U64
  uartConsole : Bytes
  uartMcr : Byte
  uartScr : Byte
  uartIer : Byte
  uartRx : Bytes
  uartFcr : Byte
  uartLcr : Byte
  uartDll : Byte
  uartDlm : Byte
  plic : Plic
  virtio : Fin virtioMmioSlots → Option (VirtioMmio δ)
  netPollAccum : U64
  idleStall : Nat
  panicked : Option BusPanic

def dramBase : U64 := 0x80000000

section

variable {δ : Type}

/-- A bus with zeroed memory; no timer is armed. -/
def DeviceBus.new (dramSize : Nat) : DeviceBus δ where
  dram := ⟨dramBase, dramSize, fun _ => 0⟩
  mtime := 0
  mtimecmp := BitVec.allOnes 64
  msoft := 0
  tickAccum := 0
  uartConsole := []
  uartMcr := 0
  uartScr := 0
  uartIer := 0
  uartRx := []
  uartFcr := 0
  uartLcr := 0
  uartDll := 0
  uartDlm := 0
  plic := Plic.new
  virtio _ := none
  netPollAccum := 0
  idleStall := 0
  panicked := none

def DeviceBus.fail (bus : DeviceBus δ) (panic : BusPanic) : DeviceBus δ :=
  { bus with panicked := bus.panicked.or (some panic) }

def DeviceBus.dramOffset (bus : DeviceBus δ) (addr : U64) : Option Nat :=
  if bus.dram.base ≤ addr ∧ addr.toNat < bus.dram.base.toNat + bus.dram.len then
    some (addr - bus.dram.base).toNat
  else none

def inClint (addr : U64) : Bool := 0x02000000#64 ≤ addr && addr < 0x02010000#64

def inPlic (addr : U64) : Bool := 0x0C000000#64 ≤ addr && addr < 0x0C600000#64

def inUart (addr : U64) : Bool := 0x10000000#64 ≤ addr && addr < 0x10000100#64

/-- The slot and the register offset of an address in the virtio window. -/
def virtioSlot (addr : U64) : Option (Fin virtioMmioSlots × Nat) :=
  let rel := (addr - 0x10001000).toNat
  if h : 0x10001000#64 ≤ addr ∧ rel / 0x1000 < virtioMmioSlots then
    some (⟨rel / 0x1000, h.2⟩, rel % 0x1000)
  else none

/-- Slot `i` has source `i + 1` of the PLIC. -/
def slotIrq (slot : Fin virtioMmioSlots) : Fin plicNsrc :=
  ⟨slot.val + 1, Nat.lt_trans (Nat.succ_lt_succ slot.isLt) (by decide)⟩

namespace DeviceBus

variable (bus : DeviceBus δ)

/-- Transmission is instantaneous, so enabling its interrupt asserts it. -/
def uartIrqLevel : Bool :=
  bus.uartIer &&& 0x02 ≠ 0 || (bus.uartIer &&& 0x01 ≠ 0 && !bus.uartRx.isEmpty)

def setLevel (irq : Fin plicNsrc) (level : Bool) : DeviceBus δ :=
  { bus with plic := bus.plic.setLevel irq level }

def refreshUartIrq : DeviceBus δ :=
  bus.setLevel uartIrq bus.uartIrqLevel

/-- Recompute the line of an occupied slot from its interrupt status. -/
def refreshSlot (plic : Plic) (slot : Fin virtioMmioSlots) : Plic :=
  match bus.virtio slot with
  | some dev => plic.setLevel (slotIrq slot) dev.irqLevel
  | none => plic

def refreshVirtioIrqs : Plic :=
  (List.finRange virtioMmioSlots).foldl bus.refreshSlot bus.plic

/-- Does any context of the PLIC have a claimable interrupt? -/
def externalInterruptPending : Bool :=
  (bus.refreshVirtioIrqs.setLevel uartIrq bus.uartIrqLevel).anyPending

def checkTimerInterrupt : Bool := bus.mtimecmp ≤ bus.mtime

/-- A load of `n` bytes from an offset, little endian. -/
def dramRead (off n : Nat) : BitVec (8 * n) × DeviceBus δ :=
  if off + n ≤ bus.dram.len then
    (BitVec.ofNat (8 * n) (ofLe ((List.range n).map fun i => bus.dram.dram (off + i))), bus)
  else (0, bus.fail .sliceIndex)

def dramWrite (off n : Nat) (val : BitVec (8 * n)) : DeviceBus δ :=
  if off + n ≤ bus.dram.len then
    { bus with dram := { bus.dram with dram := fun i =>
        if off ≤ i ∧ i < off + n then (toLe n val.toNat).getD (i - off) 0 else bus.dram.dram i } }
  else bus.fail .sliceIndex

def uartDlab : Bool := bus.uartLcr &&& 0x80 ≠ 0

/-- Take one byte of the queued input. -/
def popRx : Byte × DeviceBus δ :=
  (bus.uartRx.headD 0, { bus with uartRx := bus.uartRx.tail })

/-- A load of a UART register; reading the receive buffer takes a byte. -/
def uartRead (off : Nat) : Byte × DeviceBus δ :=
  if off = 0x00 then if bus.uartDlab then (bus.uartDll, bus) else bus.popRx
  else if off = 0x01 then (if bus.uartDlab then bus.uartDlm else bus.uartIer, bus)
  else if off = 0x02 then
    (if bus.uartIer &&& 0x01 ≠ 0 && !bus.uartRx.isEmpty then 0xC4
      else if bus.uartIer &&& 0x02 ≠ 0 then 0xC2 else 0xC1, bus)
  else if off = 0x03 then (bus.uartLcr, bus)
  else if off = 0x04 then (bus.uartMcr, bus)
  else if off = 0x05 || off = 0x0A || off = 0x14 || off = 0x1C then
    (if bus.uartRx.isEmpty then 0x60 else 0x61, bus)
  else if off = 0x06 then
    -- the modem status reflects the modem control in loopback mode
    (if bus.uartMcr &&& 0x10 ≠ 0 then
      (bus.uartMcr &&& 1) <<< 5 ||| (bus.uartMcr &&& 2) <<< 3 ||| (bus.uartMcr &&& 4) <<< 4 |||
        (bus.uartMcr &&& 8) <<< 4
      else 0, bus)
  else if off = 0x07 then (bus.uartScr, bus)
  else (0, bus)

def uartWrite (off : Nat) (val : Byte) : DeviceBus δ :=
  if off = 0x00 then
    if bus.uartDlab then { bus with uartDll := val }
    else { bus with uartConsole := bus.uartConsole ++ [val] }
  else if off = 0x01 then
    if bus.uartDlab then { bus with uartDlm := val } else { bus with uartIer := val }
  else if off = 0x02 then { bus with uartFcr := val }
  else if off = 0x03 then { bus with uartLcr := val }
  else if off = 0x04 then { bus with uartMcr := val }
  else if off = 0x07 then { bus with uartScr := val }
  else bus

end DeviceBus

variable [VirtioDevice δ]

namespace DeviceBus

section

variable (bus : DeviceBus δ) (slot : Fin virtioMmioSlots)

/-- Run an operation of the device in a slot on guest memory.  Its line is set again if the
operation says that it may have changed, or always. -/
def onSlot (always : Bool)
    (op : VirtioMmio δ → GuestMem → Except Panic (Bool × VirtioMmio δ × GuestMem)) :
    DeviceBus δ :=
  match bus.virtio slot with
  | none => bus
  | some dev =>
      match op dev bus.dram with
      | .error panic => bus.fail (.virtio panic)
      | .ok (changed, dev, dram) =>
          let bus := { bus with virtio := Function.update bus.virtio slot (some dev), dram := dram }
          if changed || always then bus.setLevel (slotIrq slot) dev.irqLevel else bus

/-- An MMIO store to a virtio slot. -/
def virtioWrite (off : Nat) (val : U32) : DeviceBus δ :=
  bus.onSlot slot false fun dev mem => dev.write off val mem

def virtioRead (off : Nat) :
    U32 :=
  match bus.virtio slot with
  | some dev => dev.read off
  | none => 0

end

section

variable (bus : DeviceBus δ) (addr : U64)

def readU8 : Byte × DeviceBus δ :=
  match bus.dramOffset addr with
  | some off => bus.dramRead off 1
  | none =>
      if inClint addr then (if addr &&& 0xFFFF = 0 then 3 else 0, bus)
      else
        match virtioSlot addr with
        | some (slot, off) =>
            ((bus.virtioRead slot (off / 4 * 4) >>> (off % 4 * 8)).setWidth 8, bus)
        | none =>
            if inUart addr then bus.uartRead (addr - 0x10000000).toNat else (0, bus)

def readU16 : U16 × DeviceBus δ :=
  let (lo, bus) := bus.readU8 addr
  let (hi, bus) := bus.readU8 (addr + 1)
  (hi ++ lo, bus)

/-- The CLINT registers a word at a time. -/
def clintRead32 : U32 :=
  if addr = 0x02000000 then bus.msoft
  else if addr = 0x02004000 then bus.mtimecmp.setWidth 32
  else if addr = 0x02004004 then (bus.mtimecmp >>> 32).setWidth 32
  else if addr = 0x0200BFF8 then bus.mtime.setWidth 32
  else if addr = 0x0200BFFC then (bus.mtime >>> 32).setWidth 32
  else 0

def readU32 : U32 × DeviceBus δ :=
  match bus.dramOffset addr with
  | some off => bus.dramRead off 4
  | none =>
      if inClint addr then (bus.clintRead32 addr, bus)
      else
        match virtioSlot addr with
        | some (slot, off) => (bus.virtioRead slot off, bus)
        | none =>
            if inPlic addr then
              let bus := bus.refreshUartIrq
              let (val, plic) := bus.plic.read (addr - 0x0C000000).toNat
              (val, { bus with plic := plic })
            else if inUart addr then
              let (val, bus) := bus.readU8 addr
              (val.setWidth 32, bus)
            else (0, bus)

def clintRead64 : U64 :=
  if addr = 0x02000000 then bus.msoft.setWidth 64
  else if addr = 0x02004000 then bus.mtimecmp
  else if addr = 0x0200BFF8 then bus.mtime
  else 0

def readU64 : U64 × DeviceBus δ :=
  match bus.dramOffset addr with
  | some off => bus.dramRead off 8
  | none =>
      if inClint addr then (bus.clintRead64 addr, bus)
      else
        let (lo, bus) := bus.readU32 addr
        let (hi, bus) := bus.readU32 (addr + 4)
        (hi ++ lo, bus)

/-- Of the virtio registers, only the configuration space takes byte stores. -/
def writeU8 (val : Byte) : DeviceBus δ :=
  match bus.dramOffset addr with
  | some off => bus.dramWrite off 1 val
  | none =>
      match virtioSlot addr with
      | some (slot, off) =>
          if off ≥ 0x100 then bus.virtioWrite slot off (val.setWidth 32) else bus
      | none => if inUart addr then bus.uartWrite (addr - 0x10000000).toNat val else bus

def writeU16 (val : U16) : DeviceBus δ :=
  match bus.dramOffset addr with
  | some off => bus.dramWrite off 2 val
  | none =>
      if inUart addr then bus.writeU8 addr (val.setWidth 8)
      else (bus.writeU8 addr (val.setWidth 8)).writeU8 (addr + 1) ((val >>> 8).setWidth 8)

def clintWrite32 (val : U32) :
    DeviceBus δ :=
  if addr = 0x02000000 then { bus with msoft := val }
  else if addr = 0x02004000 then { bus with mtimecmp := setLow bus.mtimecmp val }
  else if addr = 0x02004004 then { bus with mtimecmp := setHigh bus.mtimecmp val }
  else bus

def writeU32 (val : U32) : DeviceBus δ :=
  match bus.dramOffset addr with
  | some off => bus.dramWrite off 4 val
  | none =>
      if inUart addr then bus.writeU8 addr (val.setWidth 8)
      else if inClint addr then bus.clintWrite32 addr val
      else
        match virtioSlot addr with
        | some (slot, off) => bus.virtioWrite slot off val
        | none =>
            if inPlic addr then
              { bus with plic := bus.plic.write (addr - 0x0C000000).toNat val }
            else bus

end

def clintWrite64 (bus : DeviceBus δ) (addr val : U64) : DeviceBus δ :=
  if addr = 0x02000000 then { bus with msoft := val.setWidth 32 }
  else if addr = 0x02004000 then { bus with mtimecmp := val }
  else bus

def writeU64 (bus : DeviceBus δ) (addr val : U64) : DeviceBus δ :=
  match bus.dramOffset addr with
  | some off => bus.dramWrite off 8 val
  | none =>
      if inUart addr then bus.writeU8 addr (val.setWidth 8)
      else if inClint addr then bus.clintWrite64 addr val
      else (bus.writeU32 addr (val.setWidth 32)).writeU32 (addr + 4) ((val >>> 32).setWidth 32)

end DeviceBus

instance : Bus (DeviceBus δ) where
  read
    | .u8, bus, addr => bus.readU8 addr
    | .u16, bus, addr => bus.readU16 addr
    | .u32, bus, addr => bus.readU32 addr
    | .u64, bus, addr => bus.readU64 addr
  write
    | .u8, bus, addr, val => bus.writeU8 addr val
    | .u16, bus, addr, val => bus.writeU16 addr val
    | .u32, bus, addr, val => bus.writeU32 addr val
    | .u64, bus, addr, val => bus.writeU64 addr val
  checkTimerInterrupt bus := bus.checkTimerInterrupt
  readMtime bus := bus.mtime
  checkExternalInterrupt bus := bus.externalInterruptPending

/-- Retired instructions for one tick of the clock. -/
def mtimeStepsPerTick : U64 := 10

namespace DeviceBus

/-- One slot's share of a tick: a chance to receive, if it is due, and the completions whose
latency has elapsed. -/
def tickSlot (pollRx : Bool) (advance : U64) (bus : DeviceBus δ)
    (slot : Fin virtioMmioSlots) : DeviceBus δ :=
  let bus := if pollRx then bus.onSlot slot false fun dev mem => dev.poll mem else bus
  bus.onSlot slot false fun dev mem =>
    if dev.hasPending then dev.tick advance mem else .ok (false, dev, mem)

variable (bus : DeviceBus δ)

def virtioTick (advance : U64) : DeviceBus δ :=
  let bus := { bus with netPollAccum := bus.netPollAccum + 1 }
  (List.finRange virtioMmioSlots).foldl (tickSlot (bus.netPollAccum % 512 = 0) advance) bus

/-- One retired instruction. -/
def tick : DeviceBus δ :=
  let accum := bus.tickAccum + 1
  let bus :=
    if mtimeStepsPerTick ≤ accum then { bus with tickAccum := 0, mtime := bus.mtime + 1 }
    else { bus with tickAccum := accum }
  bus.virtioTick 1

/-- As if `n` instructions retired. -/
def tickN (n : U64) : DeviceBus δ :=
  if n = 0 then bus
  else if n = 1 then bus.tick
  else
    let accum := bus.tickAccum + n
    let bus := { bus with
      tickAccum := accum % mtimeStepsPerTick
      mtime := bus.mtime + accum / mtimeStepsPerTick
      netPollAccum := bus.netPollAccum + (n - 1) }
    bus.virtioTick n

/-- Jump forward, never backwards. -/
def fastForwardMtime (target : U64) : DeviceBus δ :=
  if bus.mtime < target then { bus with mtime := target, tickAccum := 0 } else bus

def uartPushInput (bytes : Bytes) : DeviceBus δ :=
  { bus with uartRx := bus.uartRx ++ bytes }.refreshUartIrq

/-- Report every completion in flight at once, before the guest idles. -/
def flushVirtioCompletions : DeviceBus δ :=
  (List.finRange virtioMmioSlots).foldl (fun bus slot =>
    if (bus.virtio slot).any VirtioMmio.hasPending then
      bus.onSlot slot true fun dev mem => dev.flushPending mem
    else bus) bus

/-- The first slot with a 9p device. -/
def p9Slot : Option (Fin virtioMmioSlots) :=
  (List.finRange virtioMmioSlots).find? fun slot =>
    (bus.virtio slot).any fun m => VirtioDevice.deviceId m.dev = 9

def p9Supply (id : U32) (payload : Bytes) :
    DeviceBus δ :=
  match bus.p9Slot with
  | some slot => bus.onSlot slot true fun dev mem => dev.supply id payload mem
  | none => bus

end DeviceBus

end

/-- Guest memory, the devices, their lines and the note of a panic may differ; nothing else
does. -/
def DeviceBus.SlotEffect (bus bus' : DeviceBus δ) : Prop :=
  bus' = { bus with
    dram := bus'.dram, plic := bus'.plic, virtio := bus'.virtio, panicked := bus'.panicked }

theorem DeviceBus.SlotEffect.trans {bus bus' bus'' : DeviceBus δ} (h : bus.SlotEffect bus')
    (h' : bus'.SlotEffect bus'') : bus.SlotEffect bus'' := by
  rw [SlotEffect] at h h'
  rw [h', h]
  rfl

theorem DeviceBus.onSlot_effect (bus : DeviceBus δ) (slot : Fin virtioMmioSlots) (always : Bool)
    (op : VirtioMmio δ → GuestMem → Except Panic (Bool × VirtioMmio δ × GuestMem)) :
    bus.SlotEffect (bus.onSlot slot always op) := by
  unfold onSlot
  repeat' split
  all_goals rfl

variable [VirtioDevice δ]

theorem DeviceBus.tickSlot_effect (pollRx : Bool) (advance : U64) (bus : DeviceBus δ)
    (slot : Fin virtioMmioSlots) : bus.SlotEffect (tickSlot pollRx advance bus slot) := by
  unfold tickSlot
  refine SlotEffect.trans ?_ (onSlot_effect _ slot false _)
  split
  · exact bus.onSlot_effect slot false _
  · rfl

theorem DeviceBus.foldl_tickSlot_effect (pollRx : Bool) (advance : U64)
    (slots : List (Fin virtioMmioSlots)) (bus : DeviceBus δ) :
    bus.SlotEffect (slots.foldl (tickSlot pollRx advance) bus) := by
  induction slots generalizing bus with
  | nil => rfl
  | cons slot slots ih => exact (bus.tickSlot_effect pollRx advance slot).trans (ih _)

end TabLinux
