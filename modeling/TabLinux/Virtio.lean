/-
The virtio MMIO transport: the register file of one slot, its split virtqueues, and the
completions it reports.  A chain is serviced when the driver notifies its queue; the
report in the used ring follows later, from the list of pending completions.
-/
import Mathlib.Logic.Function.Basic
import TabLinux.GuestMem

namespace TabLinux

open Bytes

/-- The ways in which a device panics while it serves a chain. -/
inductive DevicePanic where
  | sliceIndex
  | capacityOverflow
deriving DecidableEq, Repr

/-- The transport panics with its device, and where a ring slot is computed for a queue
of size zero. -/
inductive Panic where
  | remainderByZero
  | device (panic : DevicePanic)
deriving DecidableEq, Repr

/-- Device-specific behaviour behind the shared transport.  The defaults are those of a
device that answers every chain at once and receives nothing. -/
class VirtioDevice (δ : Type) where
  deviceId : δ → U32
  features : δ → U64
  numQueues : δ → Nat
  /-- A byte of the device's configuration space. -/
  configRead : δ → Nat → Byte
  configWrite : δ → Nat → Byte → δ := fun dev _ _ => dev
  /-- Service one available chain; the number of bytes written comes first. -/
  handle : δ → (queue : Nat) → Chain → GuestMem → Except DevicePanic (U32 × δ × GuestMem)
  /-- Did the most recent `handle` defer rather than complete? -/
  deferredThis : δ → Bool × δ := fun dev => (false, dev)
  /-- The host's data for a request; the queue, head and length of the chain that it
  completes come first. -/
  supply : δ → (id : U32) → (payload : Bytes) → GuestMem →
    Except DevicePanic (Option (Nat × U16 × U32) × δ × GuestMem) :=
      fun dev _ _ mem => .ok (none, dev, mem)
  poll : δ → GuestMem → Bool × δ × GuestMem := fun dev mem => (false, dev, mem)
  rxQueue : δ → Option Nat := fun _ => none
  hasRx : δ → Bool × δ := fun dev => (false, dev)
  fillRx : δ → Chain → GuestMem → U32 × δ × GuestMem := fun dev _ mem => (0, dev, mem)
  /-- The frames that a network card has for the host, and those for the guest. -/
  netQueues : δ → Option (List Bytes × List Bytes) := fun _ => none

/-- A serviced chain waiting to be reported in the used ring. -/
structure Completion where
  queue : Nat
  head : U16
  len : U32
  due : U64
deriving DecidableEq, Repr

/-- Ticks between a kick and its completion. -/
def completionLatency : U64 := 2000

structure QueueState where
  num : U16
  ready : Bool
  desc : U64
  avail : U64
  used : U64
  lastAvail : U16
deriving DecidableEq, Repr

def QueueState.default : QueueState := ⟨0, false, 0, 0, 0, 0⟩

def maxQueues : Nat := 4

/-- Maximum descriptors per queue. -/
def queueNumMax : Nat := 256

/-- The register file and the queues of one device. -/
structure VirtioMmio (δ : Type) where
  dev : δ
  deviceFeaturesSel : U32
  driverFeatures : U64
  driverFeaturesSel : U32
  status : U32
  queueSel : Nat
  queues : Fin maxQueues → QueueState
  interruptStatus : U32
  configGeneration : U32
  pending : List Completion
  now : U64

def VirtioMmio.new {δ : Type} (dev : δ) : VirtioMmio δ where
  dev := dev
  deviceFeaturesSel := 0
  driverFeatures := 0
  driverFeaturesSel := 0
  status := 0
  queueSel := 0
  queues := fun _ => QueueState.default
  interruptStatus := 0
  configGeneration := 0
  pending := []
  now := 0

def descFNext : U16 := 1

def descFWrite : U16 := 2

def descFIndirect : U16 := 4

/-- A descriptor as read from guest memory. -/
structure Descriptor where
  addr : U64
  len : U32
  flags : U16
  next : U16

def GuestMem.descriptor (mem : GuestMem) (d : U64) : Descriptor where
  addr := mem.readU64 d
  len := mem.readU32 (d + 8)
  flags := mem.readU16 (d + 12)
  next := mem.readU16 (d + 14)

def Chain.push (chain : Chain) (d : Descriptor) : Chain :=
  if d.flags &&& descFWrite ≠ 0 then
    { chain with writable := chain.writable ++ [⟨d.addr, d.len⟩] }
  else { chain with readable := chain.readable ++ [⟨d.addr, d.len⟩] }

/-- Follow an indirect table from entry `inner` on, for at most `count` entries. -/
def walkIndirect (mem : GuestMem) (table : U64) :
    (count : Nat) → (inner : U64) → Chain → Chain
  | 0, _, chain => chain
  | count + 1, inner, chain =>
      let d := mem.descriptor (table + inner * 16)
      let chain := chain.push d
      if d.flags &&& descFNext = 0 then chain
      else walkIndirect mem table count (d.next.setWidth 64) chain

/-- Follow the descriptors of a queue from `idx` on, for at most `budget` of them. -/
def QueueState.walkFrom (q : QueueState) (mem : GuestMem) :
    (budget : Nat) → (idx : U16) → Chain → Option Chain
  | 0, _, chain => some chain
  | budget + 1, idx, chain =>
      if idx ≥ q.num then none
      else
        let d := mem.descriptor (q.desc + idx.setWidth 64 * 16)
        let chain :=
          if d.flags &&& descFIndirect ≠ 0 then
            walkIndirect mem d.addr (min (d.len.toNat / 16) queueNumMax) 0 chain
          else chain.push d
        if d.flags &&& descFNext = 0 then some chain
        else q.walkFrom mem budget d.next chain

/-- Follow a descriptor chain from `head`, splitting buffers by direction. -/
def QueueState.walk (q : QueueState) (mem : GuestMem) (head : U16) : Option Chain :=
  q.walkFrom mem (q.num.toNat + 1) head ⟨head, [], []⟩

/-- Report a chain in the used ring.  The ring slot is a remainder by the size of the
queue, which panics for an unprogrammed one. -/
def QueueState.pushUsed (q : QueueState) (mem : GuestMem) (head : U16)
    (len : U32) : Except Panic GuestMem :=
  let usedIdx := mem.readU16 (q.used + 2)
  if q.num = 0 then .error .remainderByZero
  else
    let entry := q.used + 4 + (usedIdx % q.num).setWidth 64 * 8
    let mem := mem.writeU32 entry (head.setWidth 32)
    let mem := mem.writeU32 (entry + 4) len
    .ok (mem.writeU16 (q.used + 2) (usedIdx + 1))

section

variable {δ : Type}

namespace VirtioMmio

def queue? (m : VirtioMmio δ) (i : Nat) : Option QueueState :=
  if h : i < maxQueues then some (m.queues ⟨i, h⟩) else none

/-- Change queue `i`, if there is one. -/
def setQueue (m : VirtioMmio δ) (i : Nat) (f : QueueState → QueueState) :
    VirtioMmio δ :=
  if h : i < maxQueues then
    { m with queues := Function.update m.queues ⟨i, h⟩ (f (m.queues ⟨i, h⟩)) }
  else m

theorem queue?_setQueue (m : VirtioMmio δ) (i j : Nat) (f : QueueState → QueueState) :
    (m.setQueue i f).queue? j = if j = i then (m.queue? i).map f else m.queue? j := by
  unfold setQueue queue?
  by_cases hji : j = i
  · subst hji
    by_cases hj : j < maxQueues <;> simp [hj]
  · by_cases hi : i < maxQueues <;> by_cases hj : j < maxQueues <;> simp [hi, hj, hji]

theorem setQueue_pending (m : VirtioMmio δ) (i : Nat)
    (f : QueueState → QueueState) : (m.setQueue i f).pending = m.pending := by
  unfold setQueue
  split <;> rfl

theorem setQueue_dev (m : VirtioMmio δ) (i : Nat)
    (f : QueueState → QueueState) : (m.setQueue i f).dev = m.dev := by
  unfold setQueue
  split <;> rfl

/-- Change the selected queue. -/
def withQueue (m : VirtioMmio δ) (f : QueueState → QueueState) : VirtioMmio δ :=
  m.setQueue m.queueSel f

def raise (m : VirtioMmio δ) : VirtioMmio δ :=
  { m with interruptStatus := m.interruptStatus ||| 1 }

/-- Report one completion on its queue as the queue is programmed now. -/
def retire (m : VirtioMmio δ) (mem : GuestMem) (c : Completion) :
    Except Panic GuestMem :=
  match m.queue? c.queue with
  | some q => q.pushUsed mem c.head c.len
  | none => .ok mem

def retireAll (m : VirtioMmio δ) : GuestMem → List Completion →
    Except Panic GuestMem
  | mem, [] => .ok mem
  | mem, c :: rest => do
      let mem ← m.retire mem c
      m.retireAll mem rest

/-- Report every pending completion, regardless of its remaining latency. -/
def flushPending (m : VirtioMmio δ) (mem : GuestMem) :
    Except Panic (Bool × VirtioMmio δ × GuestMem) :=
  if m.pending.isEmpty then .ok (false, m, mem)
  else do
    let mem ← m.retireAll mem m.pending
    .ok (true, { m with pending := [] }.raise, mem)

end VirtioMmio

/-- The completions at the front of the list whose latency has elapsed. -/
def dueBy (now : U64) (pending : List Completion) : List Completion :=
  pending.takeWhile fun c => c.due ≤ now

/-- Advance the device clock and report the completions that are due. -/
def VirtioMmio.tick (m : VirtioMmio δ) (amount : U64) (mem : GuestMem) :
    Except Panic (Bool × VirtioMmio δ × GuestMem) :=
  let m := { m with now := m.now + amount }
  let due := dueBy m.now m.pending
  if due.isEmpty then .ok (false, m, mem)
  else do
    let mem ← m.retireAll mem due
    .ok (true, { m with pending := m.pending.drop due.length }.raise, mem)

/-- The chain at the front of a queue's available ring, which it consumes. -/
def VirtioMmio.takeAvail (m : VirtioMmio δ) (queue : Nat) (mem : GuestMem) :
    Option (Chain × VirtioMmio δ) :=
  match m.queue? queue with
  | none => none
  | some q =>
      if !q.ready || q.num = 0 then none
      else if q.lastAvail = mem.readU16 (q.avail + 2) then none
      else
        let slot := (q.lastAvail % q.num).setWidth 64
        match q.walk mem (mem.readU16 (q.avail + 4 + slot * 2)) with
        | none => none
        | some chain =>
            some (chain, m.setQueue queue fun q => { q with lastAvail := q.lastAvail + 1 })

/-- Complete a chain obtained from `takeAvail`. -/
def VirtioMmio.complete (m : VirtioMmio δ) (queue : Nat) (mem : GuestMem)
    (head : U16) (len : U32) : Except Panic (VirtioMmio δ × GuestMem) :=
  match m.queue? queue with
  | some q => do
      let mem ← q.pushUsed mem head len
      .ok (m.raise, mem)
  | none => .ok (m, mem)

variable [VirtioDevice δ]

namespace VirtioMmio

/-- Fill receive buffers as long as there is data, at most `budget` of them. -/
def receive (queue : Nat) : (budget : Nat) → (delivered : Bool) →
    VirtioMmio δ → GuestMem → Except Panic (Bool × VirtioMmio δ × GuestMem)
  | 0, delivered, m, mem => .ok (delivered, m, mem)
  | budget + 1, delivered, m, mem =>
      let (more, dev) := VirtioDevice.hasRx m.dev
      let m := { m with dev := dev }
      if !more then .ok (delivered, m, mem)
      else
        match m.takeAvail queue mem with
        | none => .ok (delivered, m, mem)
        | some (chain, m) => do
            let (written, dev, mem) := VirtioDevice.fillRx m.dev chain mem
            let m := { m with dev := dev }
            let (m, mem) ← m.complete queue mem chain.head written
            receive queue budget true m mem

/-- Give the device a chance to produce work on its own. -/
def poll (m : VirtioMmio δ) (mem : GuestMem) :
    Except Panic (Bool × VirtioMmio δ × GuestMem) :=
  if m.status = 0 then .ok (false, m, mem)
  else
    let (made, dev, mem) := VirtioDevice.poll m.dev mem
    let m := { m with dev := dev }
    if made then .ok (true, m.raise, mem)
    else
      match VirtioDevice.rxQueue m.dev with
      | none => .ok (false, m, mem)
      | some queue => receive queue 32 false m mem

/-- Service the chains from `last` up to `availIdx`, at most `budget` of them. -/
def serviceFrom (queue : Nat) (q : QueueState) (availIdx : U16) :
    (budget : Nat) → (last : U16) → (serviced : Bool) → VirtioMmio δ → GuestMem →
      Except Panic (U16 × Bool × VirtioMmio δ × GuestMem)
  | 0, last, serviced, m, mem => .ok (last, serviced, m, mem)
  | budget + 1, last, serviced, m, mem =>
      if last = availIdx then .ok (last, serviced, m, mem)
      else
        let slot := (last % q.num).setWidth 64
        match q.walk mem (mem.readU16 (q.avail + 4 + slot * 2)) with
        | none => serviceFrom queue q availIdx budget (last + 1) serviced m mem
        | some chain => do
            let (written, dev, mem) ← (VirtioDevice.handle m.dev queue chain mem).mapError .device
            let (deferred, dev) := VirtioDevice.deferredThis dev
            let m := { m with dev := dev }
            -- a deferring device keeps the chain and completes it through `supply`
            let m :=
              if deferred then m
              else
                { m with
                  pending := m.pending ++
                    [⟨queue, chain.head, written, m.now + completionLatency⟩] }
            serviceFrom queue q availIdx budget (last + 1) true m mem

/-- Drain every chain the driver has made available on a queue.  A kick of the receive
queue only offers space. -/
def notify (m : VirtioMmio δ) (queue : Nat) (mem : GuestMem) :
    Except Panic (Bool × VirtioMmio δ × GuestMem) :=
  if queue ≥ VirtioDevice.numQueues m.dev then .ok (false, m, mem)
  else
    match m.queue? queue with
    | none => .ok (false, m, mem)
    | some q =>
        if VirtioDevice.rxQueue m.dev = some queue then m.poll mem
        else if !q.ready || q.num = 0 then .ok (false, m, mem)
        else do
          let availIdx := mem.readU16 (q.avail + 2)
          let (last, serviced, m, mem) ←
            serviceFrom queue q availIdx (q.num.toNat * 2 + 1) q.lastAvail false m mem
          .ok (serviced, m.setQueue queue fun q => { q with lastAvail := last }, mem)

/-- Feed a host reply back to the device and complete the chain it was holding. -/
def supply (m : VirtioMmio δ) (id : U32) (payload : Bytes)
    (mem : GuestMem) : Except Panic (Bool × VirtioMmio δ × GuestMem) := do
  let (done, dev, mem) ← (VirtioDevice.supply m.dev id payload mem).mapError .device
  let m := { m with dev := dev }
  match done with
  | some (queue, head, len) =>
      .ok (true, { m with pending := m.pending ++ [⟨queue, head, len, m.now⟩] }, mem)
  | none => .ok (false, m, mem)

/-- Is the interrupt line of the device up? -/
def irqLevel (m : VirtioMmio δ) : Bool := m.interruptStatus ≠ 0

/-- Are there completions still waiting out their latency? -/
def hasPending (m : VirtioMmio δ) : Bool := !m.pending.isEmpty

/-- An MMIO load.  The configuration space is read a word at a time. -/
def read (m : VirtioMmio δ) (off : Nat) : U32 :=
  if off ≥ 0x100 then
    let byte (i : Nat) := VirtioDevice.configRead m.dev (off - 0x100 + i)
    byte 3 ++ byte 2 ++ byte 1 ++ byte 0
  else if off = 0x000 then 0x74726976
  else if off = 0x004 then 2
  else if off = 0x008 then VirtioDevice.deviceId m.dev
  else if off = 0x00c then 0x554d4551
  else if off = 0x010 then
    let features := VirtioDevice.features m.dev
    (if m.deviceFeaturesSel = 0 then features else features >>> 32).setWidth 32
  else if off = 0x034 then BitVec.ofNat 32 queueNumMax
  else if off = 0x044 then
    if ((m.queue? m.queueSel).getD QueueState.default).ready then 1 else 0
  else if off = 0x060 then m.interruptStatus
  else if off = 0x070 then m.status
  else if off = 0x0fc then m.configGeneration
  else 0

end VirtioMmio

/-- The low or the high word of a register pair replaced. -/
def setLow (reg : U64) (val : U32) : U64 :=
  (reg &&& ~~~0xFFFFFFFF) ||| val.setWidth 64

def setHigh (reg : U64) (val : U32) : U64 :=
  (reg &&& 0xFFFFFFFF) ||| val.setWidth 64 <<< 32

/-- An MMIO store.  The result says whether the interrupt line may have changed. -/
def VirtioMmio.write (m : VirtioMmio δ) (off : Nat) (val : U32) (mem : GuestMem) :
    Except Panic (Bool × VirtioMmio δ × GuestMem) :=
  if off ≥ 0x100 then
    let dev := VirtioDevice.configWrite m.dev (off - 0x100) (val.setWidth 8)
    .ok (false, { m with dev := dev }, mem)
  else if off = 0x014 then .ok (false, { m with deviceFeaturesSel := val }, mem)
  else if off = 0x020 then
    let features :=
      if m.driverFeaturesSel = 0 then setLow m.driverFeatures val
      else setHigh m.driverFeatures val
    .ok (false, { m with driverFeatures := features }, mem)
  else if off = 0x024 then .ok (false, { m with driverFeaturesSel := val }, mem)
  else if off = 0x030 then .ok (false, { m with queueSel := val.toNat }, mem)
  else if off = 0x038 then
    .ok (false, m.withQueue fun q => { q with num := val.setWidth 16 }, mem)
  else if off = 0x044 then
    let ready := val &&& 1 ≠ 0
    .ok (false, m.withQueue fun q =>
      { q with ready := ready, lastAvail := if ready then q.lastAvail else 0 }, mem)
  else if off = 0x050 then m.notify val.toNat mem
  else if off = 0x064 then
    .ok (true, { m with interruptStatus := m.interruptStatus &&& ~~~val }, mem)
  else if off = 0x070 then
    if val = 0 then
      -- a driver reset drops all queue state, but neither the pending completions nor
      -- the chains the device holds
      .ok (true, { m with
        status := val
        queues := fun _ => QueueState.default
        interruptStatus := 0
        driverFeatures := 0 }, mem)
    else .ok (false, { m with status := val }, mem)
  else if off = 0x080 then
    .ok (false, m.withQueue fun q => { q with desc := setLow q.desc val }, mem)
  else if off = 0x084 then
    .ok (false, m.withQueue fun q => { q with desc := setHigh q.desc val }, mem)
  else if off = 0x090 then
    .ok (false, m.withQueue fun q => { q with avail := setLow q.avail val }, mem)
  else if off = 0x094 then
    .ok (false, m.withQueue fun q => { q with avail := setHigh q.avail val }, mem)
  else if off = 0x0a0 then
    .ok (false, m.withQueue fun q => { q with used := setLow q.used val }, mem)
  else if off = 0x0a4 then
    .ok (false, m.withQueue fun q => { q with used := setHigh q.used val }, mem)
  else .ok (false, m, mem)

end

end TabLinux
