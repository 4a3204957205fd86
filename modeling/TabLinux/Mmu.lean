/-
The Sv39 MMU: a four-way set-associative TLB of 256 entries in front of a
three-level page-table walk, with hardware update of the accessed and dirty
bits and the boot-time identity fallback for the low kernel image.
-/
import TabLinux.Types
import Mathlib.Logic.Function.Basic

namespace TabLinux

variable {β : Type*} [Bus β]

/-- One cached translation.  `size` is 0, 1 or 2 for 4 KiB, 2 MiB and 1 GiB
pages, and `vaKey` is the virtual page number at that granularity. -/
structure TlbEntry where
  valid : Bool
  vaKey : U64
  ppn : U64
  flags : BitVec 8
  size : Fin 3
deriving DecidableEq, Repr

/-- 64 sets of four ways; entry `set * 4 + way` is way `way` of set `set`. -/
structure Tlb where
  sets : BitVec 8 → TlbEntry
  lru : BitVec 6 → BitVec 2

def Tlb.new : Tlb :=
  ⟨fun _ => ⟨false, 0, 0, 0, 0⟩, fun _ => 0⟩

def Tlb.flush (tlb : Tlb) : Tlb :=
  ⟨fun i => { tlb.sets i with valid := false }, fun _ => 0⟩

/-- The virtual page number of an address at a given page size. -/
def vpnAt (vaddr : U64) : Fin 3 → U64
  | 2 => vaddr >>> 30
  | 1 => vaddr >>> 21
  | 0 => vaddr >>> 12

def setOf (vpn : U64) : BitVec 6 :=
  vpn.setWidth 6

/-- The index of a way of a set in the flat entry array. -/
def entryIndex (set : BitVec 6) (way : BitVec 2) : BitVec 8 :=
  set ++ way

def Tlb.probe (tlb : Tlb) (vaddr : U64) (size : Fin 3) (way : BitVec 2) :
    Option TlbEntry :=
  let vpn := vpnAt vaddr size
  let e := tlb.sets (entryIndex (setOf vpn) way)
  if e.valid && e.size = size && e.vaKey = vpn then some e else none

/-- Probe the sizes finest first, and the four ways of each set in order. -/
def Tlb.lookup (tlb : Tlb) (vaddr : U64) : Option TlbEntry :=
  [0, 1, 2].findSome? fun size =>
    [0, 1, 2, 3].findSome? fun way => tlb.probe vaddr size way

def Tlb.insert (tlb : Tlb) (vaddr ppn : U64) (size : Fin 3) (flags : BitVec 8) : Tlb :=
  let vpn := vpnAt vaddr size
  let set := setOf vpn
  let way := tlb.lru set
  { sets := Function.update tlb.sets (entryIndex set way)
      ⟨true, vpn, ppn, flags, size⟩
    lru := Function.update tlb.lru set (tlb.lru set + 1) }

/-- The MMU.  The source's remaining fields record the last failing walk for
debugging and are never read back. -/
structure Mmu where
  tlb : Tlb

def Mmu.new : Mmu := ⟨Tlb.new⟩

def Mmu.flushTlb (mmu : Mmu) : Mmu := ⟨mmu.tlb.flush⟩

def pageFaultFor : AccessType → Exception
  | .instruction => .instructionPageFault
  | .load => .loadPageFault
  | .store => .storePageFault

def pageFault (access : AccessType) : Trap :=
  .exception (pageFaultFor access)

/-- Cached flags are the entry shifted right by one: R, W, X, U, G, A, D. -/
def adSatisfied (flags : BitVec 8) (access : AccessType) : Bool :=
  flags.getLsbD 5 && (access != .store || flags.getLsbD 6)

/-- The permission check on the R, W, X and U bits of an entry. -/
def checkPermissions (r w x u : Bool) (access : AccessType) (privLevel : Privilege)
    (sum mxr : Bool) : Except Trap Unit :=
  match access with
  | .instruction =>
      if !x then .error (pageFault .instruction)
      else if privLevel = .supervisor && u then .error (pageFault .instruction)
      else .ok ()
  | .load =>
      if !r && (!mxr || !x) then .error (pageFault .load)
      else if privLevel = .supervisor && u && !sum then .error (pageFault .load)
      else .ok ()
  | .store =>
      if !w then .error (pageFault .store)
      else if privLevel = .supervisor && u && !sum then .error (pageFault .store)
      else .ok ()

/-- The check shared by TLB hits and walks. -/
def applyPteFlags (flags : BitVec 8) (access : AccessType) (privLevel : Privilege)
    (sum mxr : Bool) : Except Trap Unit :=
  checkPermissions (flags.getLsbD 0) (flags.getLsbD 1) (flags.getLsbD 2)
    (flags.getLsbD 3) access privLevel sum mxr

/-- The bits of an address that select a byte inside a page of a given size. -/
def offsetMask : Fin 3 → U64
  | 2 => 0x3FFFFFFF
  | 1 => 0x1FFFFF
  | 0 => 0xFFF

def applyTlb (entry : TlbEntry) (vaddr : U64) (access : AccessType)
    (privLevel : Privilege) (sum mxr : Bool) : Except Trap U64 := do
  applyPteFlags entry.flags access privLevel sum mxr
  return entry.ppn <<< 12 ||| (vaddr &&& offsetMask entry.size)

/-- What a successful walk hands back to `translate`. -/
structure Walked where
  paddr : U64
  ppn : U64
  size : Fin 3
  flags : BitVec 8
  pteAddr : U64
deriving DecidableEq, Repr

/-- The nine bits of the address that index the table of a level. -/
def vpnIndex (vaddr : U64) (level : Nat) : U64 :=
  vaddr >>> (12 + 9 * level) &&& 0x1FF

/-- The frame number in bits 53..10 of a page-table entry. -/
def ptePpn (pte : U64) : U64 :=
  pte >>> 10 &&& 0xFFFFFFFFFFF

def pteFlags (pte : U64) : BitVec 8 :=
  (pte >>> 1 &&& 0x7F).setWidth 8

/-- The frame bits that a leaf of a level must leave clear. -/
def superpageMask : Nat → U64
  | 2 => 0x3FFFF
  | 1 => 0x1FF
  | _ => 0

def levelSize : Nat → Fin 3
  | 2 => 2
  | 1 => 1
  | _ => 0

/-- A leaf found at `level`: rejected if its superpage is misaligned. -/
def walkLeaf (vaddr : U64) (level : Nat) (pteAddr pte : U64) :
    Option Walked :=
  let ppn := ptePpn pte
  if ppn &&& superpageMask level ≠ 0 then none
  else
    let frame := ppn &&& ~~~ superpageMask level
    some
      { paddr := frame <<< 12 ||| (vaddr &&& offsetMask (levelSize level))
        ppn := frame
        size := levelSize level
        flags := pteFlags pte
        pteAddr := pteAddr }

/-- The walk loop, from the table of `level` down. -/
def walkFrom (vaddr : U64) (level : Nat) (tableAddr : U64) (bus : β) :
    Option Walked × β :=
  let pteAddr := tableAddr + vpnIndex vaddr level * 8
  let (pte, bus) := readU64 bus pteAddr
  if !pte.getLsbD 0 then (none, bus)
  else if pte.getLsbD 2 && !pte.getLsbD 1 then (none, bus)
  else if !pte.getLsbD 1 && !pte.getLsbD 2 && !pte.getLsbD 3 then
    match level with
    | 0 => (none, bus)
    | level + 1 => walkFrom vaddr level (ptePpn pte <<< 12) bus
  else (walkLeaf vaddr level pteAddr pte, bus)

/-- The root table of an address space. -/
def rootTable (satp : Satp) : U64 :=
  satp.ppn.zeroExtend 64 <<< 12

/-- A failing walk always reports the page fault of the access; `none` stands
for it.  The first read only feeds a debug field of the source, but it does
reach the bus. -/
def walkSv39 (bus : β) (satp : Satp) (vaddr : U64) : Option Walked × β :=
  let root := rootTable satp
  let (_, bus) := readU64 bus (root + 16)
  walkFrom vaddr 2 root bus

/-- Set the accessed bit, and the dirty bit on a store, in the entry in memory
unless the cached flags show that they are set already. -/
def setAd (bus : β) (pteAddr : U64) (flags : BitVec 8) (access : AccessType) :
    BitVec 8 × β :=
  if adSatisfied flags access then (flags, bus)
  else
    let (pte, bus) := readU64 bus pteAddr
    let pte := pte ||| 1#64 <<< 6
    let pte := if access = .store then pte ||| 1#64 <<< 7 else pte
    (pteFlags pte, writeU64 bus pteAddr pte)

/-- The identity fallback of the boot path.  The source tests the page
`[0x80201000, 0x80202000)` first and this enclosing range second, with the same
outcome. -/
def identityFallback (vaddr : U64) : Bool :=
  (0x80201000#64 ≤ vaddr && vaddr < 0x80202000#64) ||
    (0x80200000#64 ≤ vaddr && vaddr < 0x81800000#64)

/-- The part of `translate` after a TLB miss. -/
def Mmu.translateWalk (mmu : Mmu) (bus : β) (satp : Satp) (privLevel : Privilege)
    (sum mxr : Bool) (access : AccessType) (vaddr : U64) :
    Except Trap U64 × Mmu × β :=
  match walkSv39 bus satp vaddr with
  | (none, bus) =>
      if identityFallback vaddr then
        (.ok vaddr, ⟨mmu.tlb.insert vaddr (vaddr >>> 12) 0 0x67⟩, bus)
      else (.error (pageFault access), mmu, bus)
  | (some walked, bus) =>
      -- The permission check comes first: a faulting access leaves A and D alone.
      match applyPteFlags walked.flags access privLevel sum mxr with
      | .error trap => (.error trap, mmu, bus)
      | .ok () =>
          let (flags, bus) := setAd bus walked.pteAddr walked.flags access
          (.ok walked.paddr, ⟨mmu.tlb.insert vaddr walked.ppn walked.size flags⟩, bus)

/-- Bits 63..38 of the address are all equal. -/
def canonical (vaddr : U64) : Bool :=
  vaddr >>> 38 == 0 || vaddr >>> 38 == 0x3FFFFFF

def Mmu.translate (mmu : Mmu) (bus : β) (satp : Satp) (privLevel : Privilege)
    (sum mxr : Bool) (access : AccessType) (vaddr : U64) :
    Except Trap U64 × Mmu × β :=
  if satp.mode = 0 then (.ok vaddr, mmu, bus)
  else if satp.mode ≠ 8 then (.error (pageFault access), mmu, bus)
  else if !canonical vaddr then (.error (pageFault access), mmu, bus)
  else
    match mmu.tlb.lookup vaddr with
    | some entry =>
        if adSatisfied entry.flags access then
          (applyTlb entry vaddr access privLevel sum mxr, mmu, bus)
        else mmu.translateWalk bus satp privLevel sum mxr access vaddr
    | none => mmu.translateWalk bus satp privLevel sum mxr access vaddr

end TabLinux
