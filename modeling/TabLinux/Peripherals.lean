/-
The devices a machine can have in its virtio slots: the network card, the disk, which a
snapshot leaves without its store, and the file share.
-/
import TabLinux.Virtio9p
import TabLinux.VirtioBlk

namespace TabLinux

open Bytes

/-- Bytes of the header in front of every frame. -/
def netHdrLen : Nat := 12

/-- The largest frame that is carried. -/
def maxFrame : Nat := 1600

def txQueue : Nat := 1

/-- The card with the two queues of frames that it shares with the host. -/
structure VirtioNet where
  mac : Fin 6 → Byte
  pendingRx : Option Bytes
  toHost : List Bytes
  toGuest : List Bytes

namespace VirtioNet

def new (mac : Fin 6 → Byte) : VirtioNet := ⟨mac, none, [], []⟩

/-- A frame to send, behind its header. -/
def handle (dev : VirtioNet) (queue : Nat) (chain : Chain) (mem : GuestMem) :
    U32 × VirtioNet × GuestMem :=
  if queue ≠ txQueue then (0, dev, mem)
  else
    let total := sgLen chain.readable
    if total ≤ netHdrLen then (0, dev, mem)
    else
      let len := min (total - netHdrLen) maxFrame
      let frame := resize (sgRead mem chain.readable netHdrLen len) len
      (0, { dev with toHost := dev.toHost ++ [frame] }, mem)

/-- Is a frame waiting for the guest?  It is held back from then on. -/
def hasRx (dev : VirtioNet) : Bool × VirtioNet :=
  match dev.pendingRx, dev.toGuest with
  | some _, _ => (true, dev)
  | none, frame :: frames => (true, { dev with pendingRx := some frame, toGuest := frames })
  | none, [] => (false, dev)

/-- A frame that does not fit the guest's buffer is dropped. -/
def fillRx (dev : VirtioNet) (chain : Chain) (mem : GuestMem) :
    U32 × VirtioNet × GuestMem :=
  match dev.pendingRx with
  | none => (0, dev, mem)
  | some frame =>
      let dev := { dev with pendingRx := none }
      if sgLen chain.writable < netHdrLen + frame.length then (0, dev, mem)
      else
        let mem := (sgWrite mem chain.writable 0 (List.replicate netHdrLen 0)).2
        let mem := (sgWrite mem chain.writable netHdrLen frame).2
        (BitVec.ofNat 32 (netHdrLen + frame.length), dev, mem)

end VirtioNet

instance : VirtioDevice VirtioNet where
  deviceId _ := 1
  features _ := 1#64 <<< 32 ||| 1#64 <<< 5
  numQueues _ := 2
  configRead dev off := if h : off < 6 then dev.mac ⟨off, h⟩ else 0
  handle dev queue chain mem := .ok (dev.handle queue chain mem)
  rxQueue _ := some 0
  hasRx := VirtioNet.hasRx
  fillRx := VirtioNet.fillRx
  netQueues dev := some (dev.toHost, dev.toGuest)

/-- A backing store, or the size of one that the host has not given back yet. -/
inductive Disk (σ : Type) where
  | attached (backend : σ)
  | detached (sectors : U64)

section

variable {σ : Type} [BlockBackend σ]

/-- Every access to a detached disk fails. -/
instance : BlockBackend (Disk σ) where
  capacitySectors
    | .attached backend => BlockBackend.capacitySectors backend
    | .detached sectors => sectors
  read
    | .attached backend, sector, len => BlockBackend.read backend sector len
    | .detached _, _, _ => none
  write
    | .attached backend, sector, buf => (BlockBackend.write backend sector buf).map .attached
    | .detached _, _, _ => none
  flush
    | .attached backend => BlockBackend.flush backend
    | .detached _ => true
  readOnly
    | .attached backend => BlockBackend.readOnly backend
    | .detached _ => true

inductive Peripheral (σ : Type) where
  | net (dev : VirtioNet)
  | blk (dev : VirtioBlk (Disk σ))
  | p9 (dev : Virtio9p)

/-- Call the device behind a slot, with the way back to a peripheral. -/
def Peripheral.call {α : Type} (p : Peripheral σ)
    (f : {δ : Type} → [VirtioDevice δ] → δ → (δ → Peripheral σ) → α) : α :=
  match p with
  | .net dev => f dev .net
  | .blk dev => f dev .blk
  | .p9 dev => f dev .p9

instance : VirtioDevice (Peripheral σ) where
  deviceId p := p.call fun dev _ => VirtioDevice.deviceId dev
  features p := p.call fun dev _ => VirtioDevice.features dev
  numQueues p := p.call fun dev _ => VirtioDevice.numQueues dev
  configRead p := p.call fun dev _ => VirtioDevice.configRead dev
  configWrite p off val := p.call fun dev back => back (VirtioDevice.configWrite dev off val)
  handle p queue chain mem := p.call fun dev back => do
    let (n, dev, mem) ← VirtioDevice.handle dev queue chain mem
    return (n, back dev, mem)
  deferredThis p := p.call fun dev back => (VirtioDevice.deferredThis dev).map id back
  supply p id payload mem := p.call fun dev back => do
    let (done, dev, mem) ← VirtioDevice.supply dev id payload mem
    return (done, back dev, mem)
  poll p mem := p.call fun dev back => (VirtioDevice.poll dev mem).map id (Prod.map back id)
  rxQueue p := p.call fun dev _ => VirtioDevice.rxQueue dev
  hasRx p := p.call fun dev back => (VirtioDevice.hasRx dev).map id back
  fillRx p chain mem := p.call fun dev back =>
    (VirtioDevice.fillRx dev chain mem).map id (Prod.map back id)
  netQueues p := p.call fun dev _ => VirtioDevice.netQueues dev

end

end TabLinux
