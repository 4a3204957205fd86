/-
Loads and stores of every width at every address.

The bus looks at the first byte of an access to see whether it is one of guest memory, and
then slices as many bytes as the access has.  An access whose first byte is one of the last
of guest memory slices past its end.
-/
import TabLinux.DeviceBus
import TabLinux.Virtio9p

namespace TabLinux

open Bytes

/-- A call of one of the bus functions. -/
inductive BusAccess where
  | read (width : Width) (addr : U64)
  | write (width : Width) (addr : U64) (val : width.Value)

def BusAccess.addr : BusAccess → U64
  | .read _ addr | .write _ addr _ => addr

def BusAccess.width : BusAccess → Width
  | .read width _ | .write width _ _ => width

variable {off n : Nat} {addr : U64} {width : Width}

section

variable {δ : Type} {bus : DeviceBus δ}

/-- All bytes of the access lie in guest memory. -/
def DeviceBus.InDram (bus : DeviceBus δ) (addr : U64) (width : Width) : Prop :=
  ∀ i < width.bytes, (bus.dramOffset (addr + BitVec.ofNat 64 i)).isSome = true

theorem DeviceBus.dramOffset_eq_some :
    bus.dramOffset addr = some off ↔
      bus.dram.base.toNat + off = addr.toNat ∧ off < bus.dram.len := by
  unfold dramOffset
  have hsub : bus.dram.base ≤ addr →
      (addr - bus.dram.base).toNat = addr.toNat - bus.dram.base.toNat :=
    fun hle => BitVec.toNat_sub_of_le hle
  split
  · rename_i hin
    obtain ⟨hle, hlt⟩ := hin
    rw [Option.some.injEq, hsub hle]
    rw [BitVec.le_def] at hle
    omega
  · rename_i hout
    rw [BitVec.le_def] at hout
    constructor
    · intro h
      cases h
    · intro h
      omega

theorem Width.bytes_pos (width : Width) : 0 < width.bytes := by cases width <;> decide

namespace DeviceBus

/-- The offset at which an access inside guest memory starts.  Guest memory is where
`DeviceBus.new` puts it, so the access does not wrap. -/
theorem InDram.offset (h : bus.InDram addr width) (hbase : bus.dram.base = dramBase) :
    ∃ off, off + width.bytes ≤ bus.dram.len ∧
      ∀ i < width.bytes, bus.dramOffset (addr + BitVec.ofNat 64 i) = some (off + i) := by
  have hpos := width.bytes_pos
  have hle := width.bytes_le
  have hnat : dramBase.toNat = 0x80000000 := by decide
  have hat : ∀ i < width.bytes, ∃ off, 0x80000000 + off = (addr.toNat + i) % 2 ^ 64 ∧
      off < bus.dram.len ∧ bus.dramOffset (addr + BitVec.ofNat 64 i) = some off := by
    intro i hi
    obtain ⟨off, hoff⟩ := Option.isSome_iff_exists.mp (h i hi)
    have hin := dramOffset_eq_some.mp hoff
    rw [hbase, hnat, BitVec.toNat_add, BitVec.toNat_ofNat] at hin
    exact ⟨off, by omega, hin.2, hoff⟩
  obtain ⟨off, hoff, -, -⟩ := hat 0 hpos
  -- a byte past the end of the address space would be one below guest memory
  have hbyte : ∀ i < width.bytes, off + i < bus.dram.len ∧
      bus.dramOffset (addr + BitVec.ofNat 64 i) = some (off + i) := by
    intro i hi
    obtain ⟨off', hoff', hlen, hsome⟩ := hat i hi
    have hsame : off' = off + i := by omega
    exact hsame ▸ ⟨hlen, hsome⟩
  refine ⟨off, ?_, fun i hi => (hbyte i hi).2⟩
  have hlast := (hbyte (width.bytes - 1) (by omega)).1
  omega

end DeviceBus

end

section

variable {δ : Type} [VirtioDevice δ] {bus : DeviceBus δ}
variable {bus' : DeviceBus δ} {bus'' : DeviceBus δ}

namespace DeviceBus

/-- No panic has happened, guest memory is where it was, and no slot has been filled. -/
structure Survives (bus bus' : DeviceBus δ) : Prop where
  panicked : bus'.panicked = bus.panicked
  base : bus'.dram.base = bus.dram.base
  len : bus'.dram.len = bus.dram.len
  empty : ∀ slot, bus.virtio slot = none → bus'.virtio slot = none

omit [VirtioDevice δ] in
theorem Survives.refl (bus : DeviceBus δ) : bus.Survives bus := ⟨rfl, rfl, rfl, fun _ h => h⟩

omit [VirtioDevice δ] in
theorem Survives.trans (h : bus.Survives bus')
    (h' : bus'.Survives bus'') : bus.Survives bus'' :=
  ⟨h'.panicked.trans h.panicked, h'.base.trans h.base, h'.len.trans h.len,
    fun slot hnone => h'.empty slot (h.empty slot hnone)⟩

/-- What an access has left, where its bytes are all there if `fits`: a slice past the end of
guest memory panics. -/
structure Ends (bus bus' : DeviceBus δ) (fits : Prop) : Prop where
  survives : fits → bus.Survives bus'
  fits : bus'.panicked = none → fits

/-- An access of `n` bytes whose first byte is in guest memory stays in it. -/
def Fits (bus : DeviceBus δ) (addr n : Nat) : Prop :=
  bus.dram.base.toNat ≤ addr → addr < bus.dram.base.toNat + bus.dram.len →
    addr + n ≤ bus.dram.base.toNat + bus.dram.len

omit [VirtioDevice δ] in
theorem Survives.ends {fits : Prop} (h : bus.Survives bus') (hfits : fits) :
    bus.Ends bus' fits :=
  ⟨fun _ => h, fun _ => hfits⟩

end DeviceBus

namespace VirtioMmio

/-- There is no such queue, or it is one for requests and not in use. -/
def Dormant (m : VirtioMmio δ) (queue : Nat) : Prop :=
  VirtioDevice.numQueues m.dev ≤ queue ∨ ∀ q, m.queue? queue = some q →
    VirtioDevice.rxQueue m.dev ≠ some queue ∧ (q.ready = false ∨ q.num = 0)

theorem Dormant.notify {m : VirtioMmio δ} {queue : Nat} (h : m.Dormant queue) (mem : GuestMem) :
    m.notify queue mem = .ok (false, m, mem) := by
  unfold VirtioMmio.notify
  split
  · rfl
  rename_i hlt
  split
  · rfl
  rename_i q hq
  obtain ⟨hrx, hidle⟩ := h.resolve_left hlt q hq
  rw [if_neg hrx, if_pos]
  rcases hidle with hready | hnum
  · simp [hready]
  · simp [hnum]

end VirtioMmio

namespace DeviceBus

/-- The address is the doorbell of an occupied slot. -/
def Doorbell (bus : DeviceBus δ) (addr : U64) (dev : VirtioMmio δ) : Prop :=
  ∃ slot, virtioSlot addr = some (slot, 0x050) ∧ bus.virtio slot = some dev

section

variable (bus : DeviceBus δ)

def perform : BusAccess → DeviceBus δ
  | .read width addr => (Bus.read width bus addr).2
  | .write width addr val => Bus.write width bus addr val

/-- The places and sizes of the parts in which the bus makes an access.  It loads a halfword
as two bytes in any case, and splits other wide accesses outside guest memory. -/
def pieces : BusAccess → List (Nat × Nat)
  | .read .u16 addr => [(addr.toNat, 1), (addr.toNat + 1, 1)]
  | .read .u64 addr =>
      if (bus.dramOffset addr).isSome || inClint addr then [(addr.toNat, 8)]
      else [(addr.toNat, 4), (addr.toNat + 4, 4)]
  | .write .u16 addr _ =>
      if (bus.dramOffset addr).isSome || inUart addr then [(addr.toNat, 2)]
      else [(addr.toNat, 1), (addr.toNat + 1, 1)]
  | .write .u64 addr _ =>
      if (bus.dramOffset addr).isSome || inUart addr || inClint addr then [(addr.toNat, 8)]
      else [(addr.toNat, 4), (addr.toNat + 4, 4)]
  | .read width addr | .write width addr _ => [(addr.toNat, width.bytes)]

/-- Every part of the access is at an address of 64 bits, and one that starts in guest memory
ends there. -/
def Within (access : BusAccess) : Prop :=
  ∀ piece ∈ bus.pieces access, piece.1 < 2 ^ 64 ∧ bus.Fits piece.1 piece.2

/-- A word stored to the doorbell of a slot is not the number of a queue in use, and no
double word is stored there. -/
def Quiet : BusAccess → Prop
  | .write .u32 addr val => ∀ dev, bus.Doorbell addr dev → dev.Dormant val.toNat
  | .write .u64 addr _ => ∀ dev, ¬ bus.Doorbell addr dev ∧ ¬ bus.Doorbell (addr + 4) dev
  | _ => True

end

variable {access : BusAccess}

omit [VirtioDevice δ] in
theorem mem_pieces {piece : Nat × Nat} (h : piece ∈ bus.pieces access) :
    access.addr.toNat ≤ piece.1 ∧ 0 < piece.2 ∧
      piece.1 + piece.2 ≤ access.addr.toNat + access.width.bytes := by
  rcases access with ⟨width, addr⟩ | ⟨width, addr, val⟩ <;> cases width <;>
    simp only [pieces, BusAccess.addr, BusAccess.width, Width.bytes] at h ⊢
  all_goals grind

omit [VirtioDevice δ] in
theorem InDram.within (h : bus.InDram access.addr access.width)
    (hbase : bus.dram.base = dramBase) : bus.Within access := by
  have hpos := access.width.bytes_pos
  obtain ⟨off, hfit, hoff⟩ := h.offset hbase
  have hfirst := (dramOffset_eq_some.mp (hoff 0 hpos)).1
  have hlast := (dramOffset_eq_some.mp (hoff (access.width.bytes - 1) (by omega))).1
  rw [BitVec.toNat_add, BitVec.toNat_ofNat] at hfirst hlast
  intro piece hpiece
  have hin := mem_pieces hpiece
  constructor
  · omega
  · intro _ _
    omega

end DeviceBus

end

end TabLinux
