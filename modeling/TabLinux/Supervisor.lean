/-
The supervisor layer's state: privilege, CSRs, the MMU, the decode cache, and
the generations that let compiled code keep translations across address spaces.
-/
import TabLinux.Execute
import TabLinux.Decode
import TabLinux.Mmu

namespace TabLinux

/-- One remembered address space's generations, keyed by its full `satp`. -/
structure AsidSlot where
  satp : U64
  transGen : U32
  dataTransGen : U32
deriving DecidableEq, Repr

/-- An empty slot carries the all-ones `satp`. -/
def AsidSlot.empty : AsidSlot := ⟨BitVec.allOnes 64, 0, 0⟩

/-- A decoded instruction remembered under the physical address of its first
halfword. -/
structure DcacheEntry where
  tag : U64
  instr : Instr
  width : U64
deriving DecidableEq, Repr

/-- Supervisor state.  Counters, rings and watches that only feed diagnostics
are left out: nothing here reads them back. -/
structure Supervisor where
  cpu : Cpu
  mmu : Mmu
  privLevel : Privilege
  mstatus : MStatus
  mie : U64
  mip : U64
  mtvec : U64
  mepc : U64
  mcause : U64
  mtval : U64
  mscratch : U64
  medeleg : U64
  mideleg : U64
  stvec : U64
  sepc : U64
  scause : U64
  stval : U64
  sscratch : U64
  satp : Satp
  stimecmp : U64
  mcycle : U64
  minstret : U64
  pmpcfg : BitVec 4 → U64
  pmpaddr : BitVec 6 → U64
  wroteMcycle : Bool
  wroteMinstret : Bool
  mhartid : U64
  wfi : Bool
  intSyncCountdown : Nat
  fetchVpn : U64
  fetchPriv : Privilege
  fetchPpn : U64
  trapDelivered : Bool
  reservationAddr : Option U64
  consoleBuf : List (BitVec 8)
  transGen : U32
  dataTransGen : U32
  asidTbl : BitVec 7 → AsidSlot
  asidGenNext : U32
  pendingFlush : List U64
  icacheGen : U32
  blockStart : Bool
  dcache : BitVec 15 → Option DcacheEntry
  sbiEnabled : Bool

/-- Reset state.  The source's console buffer starts as a megabyte of zeros; here it holds
what has been written behind them. -/
def Supervisor.new (pc hartid : U64) : Supervisor where
  cpu := Cpu.new pc
  mmu := Mmu.new
  privLevel := .machine
  mstatus := MStatus.default
  mie := 1#64 <<< 7
  mip := 0
  mtvec := 0
  mepc := 0
  mcause := 0
  mtval := 0
  mscratch := 0
  medeleg := 0xFFFF
  mideleg := 0x2A2
  stvec := 0
  sepc := 0
  scause := 0
  stval := 0
  sscratch := 0
  satp := Satp.default
  stimecmp := BitVec.allOnes 64
  mcycle := 0
  minstret := 0
  pmpcfg := fun _ => 0
  pmpaddr := fun _ => 0
  wroteMcycle := false
  wroteMinstret := false
  mhartid := hartid
  wfi := false
  intSyncCountdown := 0
  fetchVpn := BitVec.allOnes 64
  fetchPriv := .machine
  fetchPpn := 0
  trapDelivered := false
  reservationAddr := none
  consoleBuf := []
  transGen := 0
  dataTransGen := 0
  asidTbl := fun _ => AsidSlot.empty
  asidGenNext := 0
  pendingFlush := []
  icacheGen := 0
  blockStart := true
  dcache := fun _ => none
  sbiEnabled := true

/-- The slot a `satp` value hashes to. -/
def asidIndex (satp : U64) : BitVec 7 :=
  let ppn := satp &&& 0xFFFFFFFFFFF
  (ppn ^^^ ppn >>> 10 ^^^ ppn >>> 21).setWidth 7

namespace Supervisor

variable (s : Supervisor)

/-- Stash the outgoing space's generations and select the incoming space's,
minting a fresh pair for a space that is not remembered. -/
def switchAddressSpace (old new : U64) :
    Supervisor :=
  let tbl := Function.update s.asidTbl (asidIndex old) ⟨old, s.transGen, s.dataTransGen⟩
  let slot := tbl (asidIndex new)
  if slot.satp = new then
    { s with
      asidTbl := tbl
      transGen := slot.transGen
      dataTransGen := slot.dataTransGen }
  else
    { s with
      asidTbl := tbl
      asidGenNext := s.asidGenNext + 1
      transGen := s.asidGenNext + 1
      dataTransGen := s.asidGenNext + 1 }

/-- Forget every space and move the current generations to a fresh value. -/
def invalidateAllSpaces : Supervisor :=
  { s with
    asidTbl := fun _ => AsidSlot.empty
    asidGenNext := s.asidGenNext + 1
    transGen := s.asidGenNext + 1
    dataTransGen := s.asidGenNext + 1 }

/-- Move only the current space's chain generation to a fresh value. -/
def advanceChainGen : Supervisor :=
  { s with asidGenNext := s.asidGenNext + 1, transGen := s.asidGenNext + 1 }

/-- Drop every cached decode, on `fence.i` and on restore. -/
def dcacheFlush : Supervisor :=
  { s.invalidateAllSpaces with
    icacheGen := s.icacheGen + 1
    dcache := fun _ => none
    fetchVpn := BitVec.allOnes 64 }

end Supervisor

section

variable {β : Type*} [Bus β]

def Privilege.ofMpp (mpp : BitVec 2) : Privilege :=
  if mpp = 1 then .supervisor else if mpp = 3 then .machine else .user

namespace Supervisor

variable (s : Supervisor) (bus : β)

/-- Translate through the MMU at a given effective privilege. -/
def mmuTranslate (privLevel : Privilege) (access : AccessType) (vaddr : U64) :
    Except Trap U64 × Supervisor × β :=
  let (res, mmu, bus) := s.mmu.translate bus s.satp privLevel s.mstatus.sum
    s.mstatus.mxr access vaddr
  (res, { s with mmu := mmu }, bus)

/-- Machine mode bypasses the MMU, except for data accesses under `mprv` with a
lower previous privilege. -/
def translate (access : AccessType)
    (vaddr : U64) : Except Trap U64 × Supervisor × β :=
  if s.privLevel = .machine then
    if access = .instruction then (.ok vaddr, s, bus)
    else if !s.mstatus.mprv then (.ok vaddr, s, bus)
    else if Privilege.ofMpp s.mstatus.mpp = .machine then (.ok vaddr, s, bus)
    else s.mmuTranslate bus (Privilege.ofMpp s.mstatus.mpp) access vaddr
  else s.mmuTranslate bus s.privLevel access vaddr

/-- Instruction-fetch translation with a single-entry page cache. -/
def fetchTranslate (vaddr : U64) :
    Except Trap U64 × Supervisor × β :=
  if vaddr >>> 12 = s.fetchVpn && s.privLevel = s.fetchPriv then
    (.ok (s.fetchPpn <<< 12 ||| (vaddr &&& 0xFFF)), s, bus)
  else
    match s.translate bus .instruction vaddr with
    | (.error trap, s, bus) => (.error trap, s, bus)
    | (.ok paddr, s, bus) =>
        (.ok paddr,
          { s with
            fetchVpn := vaddr >>> 12
            fetchPriv := s.privLevel
            fetchPpn := paddr >>> 12 }, bus)

/-- Translation changes nothing of the supervisor but its MMU. -/
theorem translate_state (access : AccessType) (vaddr : U64) :
    (s.translate bus access vaddr).2.1 =
      { s with mmu := (s.translate bus access vaddr).2.1.mmu } := by
  unfold translate
  split
  · split
    · rfl
    · split
      · rfl
      · split <;> rfl
  · rfl

end Supervisor

end

end TabLinux
