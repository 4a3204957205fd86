/-
The virtio block device over a backing store addressed in sectors, and the store that
keeps its sectors in memory.  Machine integers wrap, as in the release build.
-/
import TabLinux.Virtio

namespace TabLinux

open Bytes

def sectorSize : Nat := 512

/-- Backing store of a block device. -/
class BlockBackend (σ : Type) where
  capacitySectors : σ → U64
  /-- Read so many bytes starting at a sector; `none` is an error. -/
  read : σ → (sector : U64) → (len : Nat) → Option Bytes
  /-- Write bytes starting at a sector; `none` is an error. -/
  write : σ → (sector : U64) → Bytes → Option σ
  flush : σ → Bool := fun _ => true
  readOnly : σ → Bool := fun _ => false

/-- A disk in memory, no larger than a vector can be. -/
structure MemBackend where
  data : Bytes
  bounded : data.length < 2 ^ 63

/-- Where an access to `total` bytes starts; the byte offset of the sector wraps, the end
does not. -/
def byteOffset (total : Nat) (sector : U64) (len : Nat) : Option Nat :=
  let off := sector * BitVec.ofNat 64 sectorSize
  if off.toNat + len < 2 ^ 64 ∧ off.toNat + len ≤ total then some off.toNat else none

theorem byteOffset_fits {total off len : Nat} {sector : U64}
    (h : byteOffset total sector len = some off) : off + len ≤ total := by
  unfold byteOffset at h
  dsimp only at h
  split at h
  · rename_i hin
    cases h
    exact hin.2
  · cases h

theorem MemBackend.bounded_overwrite (disk : MemBackend) {off : Nat} {bytes : Bytes}
    (hfits : off + bytes.length ≤ disk.data.length) :
    (overwrite disk.data off bytes).length < 2 ^ 63 := by
  rw [length_overwrite hfits]
  exact disk.bounded

def MemBackend.read (disk : MemBackend) (sector : U64) (len : Nat) : Option Bytes :=
  (byteOffset disk.data.length sector len).map fun off => (disk.data.drop off).take len

def MemBackend.write (disk : MemBackend) (sector : U64) (bytes : Bytes) :
    Option MemBackend :=
  match h : byteOffset disk.data.length sector bytes.length with
  | some off =>
      some ⟨overwrite disk.data off bytes, disk.bounded_overwrite (byteOffset_fits h)⟩
  | none => none

instance : BlockBackend MemBackend where
  capacitySectors disk := BitVec.ofNat 64 (disk.data.length / sectorSize)
  read := MemBackend.read
  write := MemBackend.write

def tIn : U32 := 0

def tOut : U32 := 1

def tFlush : U32 := 4

def tGetId : U32 := 8

def sOk : Byte := 0

def sIoErr : Byte := 1

def sUnsupp : Byte := 2

/-- `reads` and `writes` count the requests that succeeded, the maxima are those of the
chains seen. -/
structure VirtioBlk (σ : Type) where
  backend : σ
  serial : Bytes
  reads : U64
  writes : U64
  maxDescs : Nat
  maxBytes : Nat

/-- The tag `riscv-vm-disk` in twenty bytes. -/
def blkSerial : Bytes :=
  [0x72, 0x69, 0x73, 0x63, 0x76, 0x2D, 0x76, 0x6D, 0x2D, 0x64, 0x69, 0x73, 0x6B] ++
    List.replicate 7 0

def VirtioBlk.new {σ : Type} (backend : σ) : VirtioBlk σ := ⟨backend, blkSerial, 0, 0, 0, 0⟩

section

variable {σ : Type} [BlockBackend σ]

/-- The chain's size counts towards the maxima. -/
def VirtioBlk.noteChain (dev : VirtioBlk σ) (chain : Chain) : VirtioBlk σ :=
  { dev with
    maxDescs := max dev.maxDescs (chain.readable.length + chain.writable.length)
    maxBytes := max dev.maxBytes (sgLen chain.readable + sgLen chain.writable) }

/-- The whole sectors in so many bytes, in bytes. -/
def wholeSectors (bytes : Nat) : Nat := bytes - bytes % sectorSize

namespace VirtioBlk

variable (dev : VirtioBlk σ)

/-- A read request for as many sectors as there is room for. -/
def handleIn (sector : U64) (dataCap : Nat) (chain : Chain)
    (mem : GuestMem) : Byte × VirtioBlk σ × GuestMem :=
  let want := wholeSectors dataCap
  if want = 0 then (sIoErr, dev, mem)
  else if BlockBackend.capacitySectors dev.backend <
      sector + BitVec.ofNat 64 (want / sectorSize) then
    (sIoErr, dev, mem)
  else
    match BlockBackend.read dev.backend sector want with
    | some buf =>
        (sOk, { dev with reads := dev.reads + 1 }, (sgWrite mem chain.writable 0 buf).2)
    | none => (sIoErr, dev, mem)

/-- A write request with the payload after the header. -/
def handleOut (sector : U64) (chain : Chain)
    (mem : GuestMem) : Byte × VirtioBlk σ × GuestMem :=
  if BlockBackend.readOnly dev.backend then (sIoErr, dev, mem)
  else
    let want := wholeSectors (sgLen chain.readable - 16)
    if want = 0 then (sIoErr, dev, mem)
    else
      let buf := resize (sgRead mem chain.readable 16 want) want
      match BlockBackend.write dev.backend sector buf with
      | some backend => (sOk, { dev with backend := backend, writes := dev.writes + 1 }, mem)
      | none => (sIoErr, dev, mem)

/-- The status of a request, by its type. -/
def serve (reqType : U32) (sector : U64)
    (dataCap : Nat) (chain : Chain) (mem : GuestMem) : Byte × VirtioBlk σ × GuestMem :=
  if reqType = tIn then dev.handleIn sector dataCap chain mem
  else if reqType = tOut then dev.handleOut sector chain mem
  else if reqType = tFlush then
    (if BlockBackend.flush dev.backend then sOk else sIoErr, dev, mem)
  else if reqType = tGetId then
    (sOk, dev, (sgWrite mem chain.writable 0 (dev.serial.take (min dataCap dev.serial.length))).2)
  else (sUnsupp, dev, mem)

/-- One request: a header of 16 bytes, data, and a status byte at the end of the writable
part.  A chain without room for either is dropped. -/
def handle (chain : Chain) (mem : GuestMem) :
    U32 × VirtioBlk σ × GuestMem :=
  let dev := dev.noteChain chain
  let hdr := sgRead mem chain.readable 0 16
  if hdr.length ≠ 16 then (0, dev, mem)
  else
    let reqType := BitVec.ofNat 32 (ofLe (hdr.take 4))
    let sector := BitVec.ofNat 64 (ofLe (hdr.drop 8))
    let writableTotal := sgLen chain.writable
    if writableTotal = 0 then (0, dev, mem)
    else
      let dataCap := writableTotal - 1
      let (status, dev, mem) := dev.serve reqType sector dataCap chain mem
      let mem := (sgWrite mem chain.writable (writableTotal - 1) [status]).2
      let written :=
        if reqType = tIn then BitVec.ofNat 32 (wholeSectors dataCap) + 1
        else if reqType = tGetId then BitVec.ofNat 32 (min dataCap dev.serial.length) + 1
        else 1
      (written, dev, mem)

def configRead (off : Nat) : Byte :=
  (toLe 8 (BlockBackend.capacitySectors dev.backend).toNat).getD off 0

end VirtioBlk

instance : VirtioDevice (VirtioBlk σ) where
  deviceId _ := 2
  features dev :=
    1#64 <<< 32 ||| 1#64 <<< 9 |||
      if BlockBackend.readOnly dev.backend then 1#64 <<< 5 else 0
  numQueues _ := 1
  configRead := VirtioBlk.configRead
  handle dev _ chain mem := .ok (dev.handle chain mem)

end

end TabLinux
