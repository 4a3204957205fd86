/-
Block formation and the tables that compiled code probes: the block table keyed
by physical address, the virtually keyed lookup cache and chain table in front
of it, the inlined data TLBs, and the filter of pages that hold chain keys.
-/
import TabLinux.Step
import Mathlib.Data.Finset.Insert
import Mathlib.Data.Fintype.Basic

namespace TabLinux

/-- CSR numbers that compiled code never touches: the read-only counters. -/
def isCounterCsr (csr : Csr) : Bool := 0xC00#12 ≤ csr && csr ≤ 0xC1F#12

/-- Division is left to the interpreter. -/
def RegOp.isDivision : RegOp → Bool
  | .div | .divu | .rem | .remu | .divw | .divuw | .remw | .remuw => true
  | _ => false

/-- Instructions that a block may hold in any position. -/
def Instr.isCompilable : Instr → Bool
  | .lui _ _ | .auipc _ _ | .opImm _ _ _ _ | .shiftImm _ _ _ _ | .shiftImmW _ _ _ _ => true
  | .op kind _ _ _ => !kind.isDivision
  | .load _ _ _ _ | .store _ _ _ _ | .fence _ _ => true
  | .lr _ _ _ _ _ | .sc _ _ _ _ _ _ | .amo _ _ _ _ _ _ _ => true
  | .fload _ _ _ _ | .fstore _ _ _ _ | .fp _ => true
  | .csrReg _ _ _ csr | .csrImm _ _ _ csr => !isCounterCsr csr
  | _ => false

/-- Branches and jumps. -/
def Instr.isTerminator : Instr → Bool
  | .jal _ _ | .jalr _ _ _ | .branch _ _ _ _ => true
  | _ => false

def Instr.isCsr : Instr → Bool
  | .csrReg _ _ _ _ | .csrImm _ _ _ _ => true
  | _ => false

/-- CSRs whose value gates interrupt delivery. -/
def isInterruptCsr (csr : Csr) : Bool :=
  csr = 0x100 || csr = 0x104 || csr = 0x144 || csr = 0x300 || csr = 0x304 || csr = 0x344

/-- One traced instruction: the instruction, its width in bytes, and its offset
from the first instruction of the trace. -/
structure Src where
  instr : Instr
  width : U64
  off : U32
deriving DecidableEq, Repr

/-- A compiled block ready to run: its absolute slot in the host's function
table, its length, the instructions it retires, and whether it ends in a branch. -/
structure Hit where
  idx : U32
  bytes : U32
  insns : U32
  branchy : Bool
deriving DecidableEq, Repr

/-- What is known about the block that starts at a physical address. -/
inductive BlockState where
  | cold (seen : U32)
  | queued
  | compiled (hit : Hit)
  | rejected
deriving DecidableEq, Repr

structure Slot where
  tag : U64
  state : BlockState
deriving DecidableEq, Repr

def Slot.empty : Slot := ⟨BitVec.allOnes 64, .cold 0⟩

/-- A chain-table entry, laid out as compiled code reads it.  Generation 0 is
never valid. -/
structure ChainEntry where
  key : U64
  gen : U32
  idx : U32
deriving DecidableEq, Repr

/-- An entry of the lookup cache: the virtual PC with the privilege folded in,
and the translation generation the entry is valid for. -/
structure VSlot where
  key : U64
  gen : U32
  hit : Hit
deriving DecidableEq, Repr

/-- An inlined-TLB entry: a virtual page, the generation it is valid for, and
the host address of the page. -/
structure InlineTlbEntry where
  vpn : U64
  gen : U32
  base : U64
deriving DecidableEq, Repr

def InlineTlbEntry.empty : InlineTlbEntry := ⟨BitVec.allOnes 64, 0, 0⟩

/-- Block tables.  The counters that only feed reports are left out. -/
structure Jit where
  slots : BitVec 18 → Slot
  chain : U16 → ChainEntry
  chainRas : BitVec 8 → ChainEntry
  rasSp : U32
  codePages : Finset U64
  smcDirty : Bool
  chainGen : U32
  dataGen : U32
  fsWord : U32
  vcache : BitVec 12 → VSlot
  tlbR : BitVec 12 → InlineTlbEntry
  tlbW : BitVec 12 → InlineTlbEntry
  pending : List (U64 × List Src)
  installedCount : U32
  keyVpns : BitVec 14 → U64
  keyVpnsFull : U32

def Jit.new : Jit where
  slots := fun _ => Slot.empty
  chain := fun _ => ⟨0, 0, 0⟩
  chainRas := fun _ => ⟨0, 0, 0⟩
  rasSp := 0
  codePages := ∅
  smcDirty := false
  chainGen := 1
  dataGen := 1
  fsWord := 0
  vcache := fun _ => ⟨BitVec.allOnes 64, BitVec.allOnes 32, ⟨0, 0, 0, false⟩⟩
  tlbR := fun _ => InlineTlbEntry.empty
  tlbW := fun _ => InlineTlbEntry.empty
  pending := []
  installedCount := 0
  keyVpns := fun _ => BitVec.allOnes 64
  keyVpnsFull := 0

/-- The word that compiled code compares entries with: a generation and the
privilege, plus one so that it is never the empty marker. -/
def genWord (gen : U32) (privLevel : Privilege) : U32 :=
  1#32 + (gen <<< 2 ||| privLevel.bits.setWidth 32)

def Supervisor.fsIsDirty (s : Supervisor) : Bool := s.mstatus.fs = 3

/-- Recompute the words before compiled code runs. -/
def Jit.refreshGen (jit : Jit) (s : Supervisor) : Jit :=
  { jit with
    chainGen := genWord s.transGen s.privLevel
    dataGen := genWord s.dataTransGen s.privLevel
    fsWord := if s.fsIsDirty then 1 else 0 }

/-- How far an insertion into the filter probes. -/
def keyVpnProbes : Nat := 8

def keyVpnSlot (vpn : U64) (probe : Nat) : BitVec 14 :=
  ((vpn * 0x9E3779B97F4A7C15) >>> 50).setWidth 14 + BitVec.ofNat 14 probe

/-- The low twelve bits of a generation, as the filter records them. -/
def keyGen (transGen : U32) : U64 := (transGen &&& 0xFFF).setWidth 64

/-- The record of a page that holds keys of a generation. -/
def packKey (vpn : U64) (transGen : U32) : U64 :=
  vpn <<< 12 ||| keyGen transGen

/-- Probe for a place to record a page: stop where it is recorded already, claim
a slot that is free or of another generation, and give up after the last probe. -/
def Jit.noteKeyPageFrom (jit : Jit) (vpn : U64) (transGen : U32) :
    List Nat → Jit
  | [] => { jit with keyVpnsFull := transGen + 1 }
  | probe :: probes =>
      let slot := keyVpnSlot vpn probe
      let entry := jit.keyVpns slot
      if entry = packKey vpn transGen then jit
      else if entry = BitVec.allOnes 64 ∨ entry &&& 0xFFF ≠ keyGen transGen then
        { jit with keyVpns := Function.update jit.keyVpns slot (packKey vpn transGen) }
      else jit.noteKeyPageFrom vpn transGen probes

/-- Record that the page of a virtual address holds keys. -/
def Jit.noteKeyPage (jit : Jit) (va : U64) (transGen : U32) : Jit :=
  jit.noteKeyPageFrom (va >>> 12) transGen (List.range keyVpnProbes)

/-- Might the page of a virtual address hold a key of this generation? -/
def Jit.pageMayHaveKeys (jit : Jit) (va : U64) (transGen : U32) : Bool :=
  jit.keyVpnsFull = transGen + 1 || (List.range keyVpnProbes).any fun probe =>
      jit.keyVpns (keyVpnSlot (va >>> 12) probe) = packKey (va >>> 12) transGen

/-- The slot of a virtual page in either inlined TLB. -/
def inlineTlbIndex (vpn : U64) : BitVec 12 := vpn.setWidth 12

/-- Retire the entry of one table for a page, if it is there. -/
def retirePage (tlb : BitVec 12 → InlineTlbEntry) (vpn : U64) :
    BitVec 12 → InlineTlbEntry :=
  let i := inlineTlbIndex vpn
  if (tlb i).vpn = vpn then Function.update tlb i { tlb i with gen := 0 } else tlb

def Jit.invalidateTlbPage (jit : Jit) (vaddr : U64) : Jit :=
  { jit with
    tlbR := retirePage jit.tlbR (vaddr >>> 12)
    tlbW := retirePage jit.tlbW (vaddr >>> 12) }

/-- Record a resolved translation in the table of loads or of stores. -/
def Jit.fillTlb (jit : Jit) (vaddr : U64) (hostPage : U32) (store : Bool) :
    Jit :=
  let vpn := vaddr >>> 12
  let entry : InlineTlbEntry := ⟨vpn, jit.dataGen, hostPage.setWidth 64⟩
  if store then
    { jit with tlbW := Function.update jit.tlbW (inlineTlbIndex vpn) entry }
  else
    { jit with tlbR := Function.update jit.tlbR (inlineTlbIndex vpn) entry }

/-- Does a physical page hold compiled blocks? -/
def Jit.isCodePage (jit : Jit) (ppn : U64) : Bool := ppn ∈ jit.codePages

def Jit.noteCodeWrite (jit : Jit) : Jit := { jit with smcDirty := true }

/-- Drop every block and everything that names one. -/
def Jit.flush (jit : Jit) : Jit :=
  { jit with
    slots := fun _ => Slot.empty
    pending := []
    vcache := fun i => { jit.vcache i with gen := BitVec.allOnes 32 }
    tlbR := fun _ => InlineTlbEntry.empty
    tlbW := fun _ => InlineTlbEntry.empty
    chain := fun i => { jit.chain i with gen := 0, key := 0 }
    chainRas := fun i => { jit.chainRas i with gen := 0, key := 0 }
    rasSp := 0
    codePages := ∅
    smcDirty := false
    installedCount := 0 }

/-- A block handed to the host: where it starts, and what a hit will report. -/
structure Built where
  paddr : U64
  bytes : U32
  insns : U32
  branchy : Bool
deriving DecidableEq, Repr

/-- The slot of a physical address in the block table. -/
def blockIndex (paddr : U64) : BitVec 18 := (paddr >>> 1).setWidth 18

/-- Record one installed block: its slot is claimed only if it is still queued
for the same address, but its page counts as code either way. -/
def Jit.installOne (jit : Jit) (built : Built) (idx : U32) : Jit :=
  let i := blockIndex built.paddr
  let slots :=
    if (jit.slots i).tag = built.paddr ∧ (jit.slots i).state = .queued then
      Function.update jit.slots i
        ⟨built.paddr, .compiled ⟨idx, built.bytes, built.insns, built.branchy⟩⟩
    else jit.slots
  { jit with
    slots := slots
    codePages := insert (built.paddr >>> 12) jit.codePages
    installedCount := jit.installedCount + 1 }

/-- Record a batch at consecutive table slots. -/
def Jit.installAll (jit : Jit) : List Built → U32 → Jit
  | [], _ => jit
  | built :: batch, idx => (jit.installOne built idx).installAll batch (idx + 1)

/-- A page that newly became code may be cached in the write TLB as data, so
the write TLB is dropped. -/
def Jit.installed (jit : Jit) (batch : List Built) (tableBase : U32) : Jit :=
  let newCodePage := batch.any fun built => built.paddr >>> 12 ∉ jit.codePages
  let jit := jit.installAll batch tableBase
  if newCodePage then { jit with tlbW := fun i => { jit.tlbW i with gen := 0 } } else jit

section

variable {β : Type*} [Bus β]

/-- Read the instruction at a virtual address without executing it: the first
halfword, the width (0 for an undefined compressed encoding) and the raw word.
The upper half is read next to the lower one, without a second translation. -/
def Supervisor.debugFetch (s : Supervisor) (bus : β) (vaddr : U64) :
    Option (U16 × U64 × U32) × Supervisor × β :=
  match s.translate bus .instruction vaddr with
  | (.error _, s, bus) => (none, s, bus)
  | (.ok paddr, s, bus) =>
      let (half, bus) := readU16 bus paddr
      if half &&& 3 ≠ 3 then
        match decompress half with
        | some _ => (some (half, 2, 0), s, bus)
        | none =>
            let (hi, bus) := readU16 bus (paddr + 2)
            (some (half, 0, hi ++ half), s, bus)
      else
        let (hi, bus) := readU16 bus (paddr + 2)
        (some (half, 4, hi ++ half), s, bus)

/-- Longest trace compiled as one block. -/
def maxRun : Nat := 64

/-- Executions of a block entry before it is compiled. -/
def hotThreshold : U32 := 16

/-- Where the trace goes after a terminator: along a direct jump, and along the
likely side of a branch, which is the taken side if it goes backwards. -/
def tracedNext (pc width : U64) : Instr → Option U64
  | .jal _ imm => some (pc + imm)
  | .branch _ _ _ imm => some (if imm.slt 0 then pc + imm else pc + width)
  | _ => none

/-- Trace forward from `pc`: within the page of `start`, over addresses not seen
before, up to the first instruction that cannot be compiled.  `fuel` is the room
left in the trace. -/
def Supervisor.traceFrom (s : Supervisor) (bus : β) (start : U64) :
    Nat → U64 → List U32 → List Src × Supervisor × β
  | 0, _, _ => ([], s, bus)
  | fuel + 1, pc, seen =>
      let off := (pc - start).setWidth 32
      if pc >>> 12 ≠ start >>> 12 then ([], s, bus)
      else if off ∈ seen then ([], s, bus)
      else
        match s.debugFetch bus pc with
        | (none, s, bus) => ([], s, bus)
        | (some (half, width, raw), s, bus) =>
            match if width = 2 then decompress half else some (decode raw) with
            | none => ([], s, bus)
            | some instr =>
                if (pc + width - 1) >>> 12 ≠ start >>> 12 then ([], s, bus)
                else if instr.isCompilable then
                  -- A CSR write may change the mapping, so it ends the trace.
                  if instr.isCsr then ([⟨instr, width, off⟩], s, bus)
                  else
                    let (rest, s, bus) := s.traceFrom bus start fuel (pc + width) (off :: seen)
                    (⟨instr, width, off⟩ :: rest, s, bus)
                else if instr.isTerminator then
                  match tracedNext pc width instr with
                  | none => ([⟨instr, width, off⟩], s, bus)
                  | some next =>
                      let (rest, s, bus) := s.traceFrom bus start fuel next (off :: seen)
                      (⟨instr, width, off⟩ :: rest, s, bus)
                else ([], s, bus)

/-- Trace the hot path forward from the current PC. -/
def Supervisor.decodeRun (s : Supervisor) (bus : β) : List Src × Supervisor × β :=
  s.traceFrom bus s.cpu.pc maxRun s.cpu.pc []

/-- The interpreter arrived at a block entry: the block to run, if it has been
compiled; otherwise count the visit, and queue the block once it is hot. -/
def Jit.onBlockStart (jit : Jit) (s : Supervisor) (bus : β) :
    Option Hit × Jit × Supervisor × β :=
  match s.translate bus .instruction s.cpu.pc with
  | (.error _, s, bus) => (none, jit, s, bus)
  | (.ok paddr, s, bus) =>
      let i := blockIndex paddr
      let put (state : BlockState) : Jit :=
        { jit with slots := Function.update jit.slots i ⟨paddr, state⟩ }
      if (jit.slots i).tag ≠ paddr then (none, put (.cold 1), s, bus)
      else
        match (jit.slots i).state with
        | .compiled hit => (some hit, jit, s, bus)
        | .queued => (none, jit, s, bus)
        | .rejected => (none, jit, s, bus)
        | .cold seen =>
            if seen + 1 < hotThreshold then (none, put (.cold (seen + 1)), s, bus)
            else
              let (run, s, bus) := s.decodeRun bus
              if run.isEmpty then (none, put .rejected, s, bus)
              else
                (none, { put .queued with pending := jit.pending ++ [(paddr, run)] }, s, bus)

/-- The lookup key of a PC at a privilege level. -/
def vcacheKey (pc : U64) (privLevel : Privilege) : U64 :=
  pc ^^^ privLevel.bits.setWidth 64 <<< 62

def vcacheIndex (key : U64) : BitVec 12 := (key >>> 1).setWidth 12

def chainIndex (pc : U64) : U16 := (pc >>> 1).setWidth 16

/-- The lookup cache holds a live entry for the current PC. -/
def Jit.vcacheHit (jit : Jit) (s : Supervisor) : Option Hit :=
  let key := vcacheKey s.cpu.pc s.privLevel
  let slot := jit.vcache (vcacheIndex key)
  if slot.key = key ∧ slot.gen = s.transGen then some slot.hit else none

/-- Remember a block under the current virtual PC, in the lookup cache and in
the chain table, and record the page in the key filter. -/
def Jit.insertKeys (jit : Jit) (s : Supervisor) (hit : Hit) : Jit :=
  let key := vcacheKey s.cpu.pc s.privLevel
  { jit with
    vcache := Function.update jit.vcache (vcacheIndex key) ⟨key, s.transGen, hit⟩
    chain := Function.update jit.chain (chainIndex s.cpu.pc)
      ⟨s.cpu.pc, jit.chainGen, hit.idx⟩ }.noteKeyPage s.cpu.pc s.transGen

/-- Look up a compiled block by virtual PC, going through the block table on a
miss. -/
def Jit.lookup (jit : Jit) (s : Supervisor) (bus : β) :
    Option Hit × Jit × Supervisor × β :=
  match jit.vcacheHit s with
  | some hit => (some hit, jit, s, bus)
  | none =>
      match jit.onBlockStart s bus with
      | (none, jit, s, bus) => (none, jit, s, bus)
      | (some hit, jit, s, bus) => (some hit, jit.insertKeys s hit, s, bus)

end

end TabLinux
