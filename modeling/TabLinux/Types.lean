/-
Shared vocabulary of the emulator: traps, privilege levels, access kinds, the
physical bus and the two status registers that address translation reads.
-/
import TabLinux.Library.ByteMemory
import TabLinux.Words

namespace TabLinux

open ByteMemory

universe u

/-- Synchronous exceptions, with the cause codes of the privileged ISA. -/
inductive Exception where
  | instructionAddressMisaligned
  | instructionAccessFault
  | illegalInstruction
  | breakpoint
  | loadAddressMisaligned
  | loadAccessFault
  | storeAddressMisaligned
  | storeAccessFault
  | environmentCallFromU
  | environmentCallFromS
  | environmentCallFromM
  | instructionPageFault
  | loadPageFault
  | storePageFault
deriving DecidableEq, Repr

def Exception.code : Exception → U64
  | .instructionAddressMisaligned => 0
  | .instructionAccessFault => 1
  | .illegalInstruction => 2
  | .breakpoint => 3
  | .loadAddressMisaligned => 4
  | .loadAccessFault => 5
  | .storeAddressMisaligned => 6
  | .storeAccessFault => 7
  | .environmentCallFromU => 8
  | .environmentCallFromS => 9
  | .environmentCallFromM => 11
  | .instructionPageFault => 12
  | .loadPageFault => 13
  | .storePageFault => 15

inductive Interrupt where
  | supervisorSoftware
  | machineSoftware
  | supervisorTimer
  | machineTimer
  | supervisorExternal
  | machineExternal
deriving DecidableEq, Repr

def Interrupt.code : Interrupt → U64
  | .supervisorSoftware => 1
  | .machineSoftware => 3
  | .supervisorTimer => 5
  | .machineTimer => 7
  | .supervisorExternal => 9
  | .machineExternal => 11

inductive Trap where
  | exception (cause : Exception)
  | interrupt (cause : Interrupt)
deriving DecidableEq, Repr

/-- Result of one instruction step. -/
inductive Status where
  | running
  | trap (cause : Trap)
  | wfi
deriving DecidableEq, Repr

inductive Privilege where
  | user
  | supervisor
  | machine
deriving DecidableEq, Repr

def Privilege.bits : Privilege → BitVec 2
  | .user => 0
  | .supervisor => 1
  | .machine => 3

inductive AccessType where
  | instruction
  | load
  | store
deriving DecidableEq, Repr

/-- The four access widths of the bus. -/
inductive Width where
  | u8
  | u16
  | u32
  | u64
deriving DecidableEq, Repr

@[reducible] def Width.bytes : Width → Nat
  | .u8 => 1
  | .u16 => 2
  | .u32 => 4
  | .u64 => 8

theorem Width.bytes_le (width : Width) : width.bytes ≤ 8 := by cases width <;> decide

/-- The value carried by an access of a given width. -/
@[reducible] def Width.Value (width : Width) : Type := BitVec (8 * width.bytes)

/-- Loads and stores at physical addresses.  The source's reads take the bus by
shared reference but devices keep interior state, so a read returns the bus it
leaves behind as well. -/
class Bus (β : Type u) where
  read : (width : Width) → β → U64 → width.Value × β
  write : (width : Width) → β → U64 → width.Value → β
  checkTimerInterrupt : β → Bool
  readMtime : β → U64
  checkExternalInterrupt : β → Bool

section

variable {β : Type u} [Bus β]

variable (bus : β) (addr : U64)

def readU16 : U16 × β :=
  Bus.read .u16 bus addr

def readU64 : U64 × β :=
  Bus.read .u64 bus addr

def writeU64 (val : U64) : β :=
  Bus.write .u64 bus addr val

end

/-- Plain physical memory: every address is backed by a byte and no device
listens. -/
abbrev Ram : Type := ByteMem 64

instance : Bus Ram where
  read width mem addr := (mem.load addr width.bytes, mem)
  write _ mem addr val := mem.store addr val
  checkTimerInterrupt _ := false
  readMtime _ := 0
  checkExternalInterrupt _ := false

/-- The double word that plain memory holds at `addr`. -/
def Ram.word (mem : Ram) (addr : U64) : U64 := mem.load addr 8

/-- Memory that holds a list of 32-bit words from address 0 on. -/
def Ram.ofWords (words : List U32) : Ram := fun addr =>
  (words.getD (addr >>> 2).toNat 0 >>> (8 * (addr.toNat % 4))).setWidth 8

theorem readU64_ram (mem : Ram) (addr : U64) : readU64 mem addr = (mem.word addr, mem) := rfl

/-- Aligned double words behave like the cells of an array. -/
theorem word_writeU64 (mem : Ram) {addr other : U64} (val : U64)
    (haddr : 8 ∣ addr.toNat) (hother : 8 ∣ other.toNat) :
    Ram.word (writeU64 mem addr val) other =
      if other = addr then val else mem.word other :=
  load_store_aligned (n := 8) mem addr other val (by decide) haddr hother

/-- The fields of `mstatus` that the emulator keeps.  Two-bit fields are stored
in bytes by the source and masked on every write; here the type keeps them in
range. -/
@[ext]
structure MStatus where
  sd : Bool
  mbe : Bool
  sbe : Bool
  sxl : BitVec 2
  uxl : BitVec 2
  tsr : Bool
  tw : Bool
  tvm : Bool
  mxr : Bool
  sum : Bool
  mprv : Bool
  xs : BitVec 2
  fs : BitVec 2
  mpp : BitVec 2
  vs : BitVec 2
  spp : Bool
  mpie : Bool
  spie : Bool
  mie : Bool
  sie : Bool
deriving DecidableEq, Repr

/-- A flag at bit `pos` of a register word. -/
def flagBit (flag : Bool) (pos : Nat) : U64 :=
  if flag then 1#64 <<< pos else 0#64

/-- A two-bit field whose low bit is bit `pos` of a register word. -/
def fieldBits (field : BitVec 2) (pos : Nat) : U64 :=
  field.zeroExtend 64 <<< pos

def MStatus.toBits (s : MStatus) : U64 :=
  flagBit s.sd 63 ||| flagBit s.mbe 37 ||| flagBit s.sbe 36 |||
  fieldBits s.sxl 34 ||| fieldBits s.uxl 32 |||
  flagBit s.tsr 22 ||| flagBit s.tw 21 ||| flagBit s.tvm 20 |||
  flagBit s.mxr 19 ||| flagBit s.sum 18 ||| flagBit s.mprv 17 |||
  fieldBits s.xs 15 ||| fieldBits s.fs 13 ||| fieldBits s.mpp 11 |||
  fieldBits s.vs 9 ||| flagBit s.spp 8 ||| flagBit s.mpie 7 |||
  flagBit s.spie 5 ||| flagBit s.mie 3 ||| flagBit s.sie 1

/-- `from_bits` overwrites every field, so no earlier value survives it. -/
def MStatus.fromBits (val : U64) : MStatus where
  sd := val.getLsbD 63
  mbe := val.getLsbD 37
  sbe := val.getLsbD 36
  sxl := val.extractLsb' 34 2
  uxl := val.extractLsb' 32 2
  tsr := val.getLsbD 22
  tw := val.getLsbD 21
  tvm := val.getLsbD 20
  mxr := val.getLsbD 19
  sum := val.getLsbD 18
  mprv := val.getLsbD 17
  xs := val.extractLsb' 15 2
  fs := val.extractLsb' 13 2
  mpp := val.extractLsb' 11 2
  vs := val.extractLsb' 9 2
  spp := val.getLsbD 8
  mpie := val.getLsbD 7
  spie := val.getLsbD 5
  mie := val.getLsbD 3
  sie := val.getLsbD 1

def MStatus.default : MStatus where
  sd := false
  mbe := false
  sbe := false
  sxl := 2
  uxl := 2
  tsr := false
  tw := false
  tvm := false
  mxr := false
  sum := false
  mprv := false
  xs := 0
  fs := 0
  mpp := 0
  vs := 0
  spp := false
  mpie := false
  spie := false
  mie := false
  sie := false

/-- The address-translation register.  The source masks `mode`, `asid` and
`ppn` to these widths wherever it builds one from a register word. -/
structure Satp where
  mode : BitVec 4
  asid : U16
  ppn : BitVec 44
deriving DecidableEq, Repr

def Satp.toBits (s : Satp) : U64 :=
  s.mode.zeroExtend 64 <<< 60 ||| s.asid.zeroExtend 64 <<< 44 ||| s.ppn.zeroExtend 64

/-- Only modes 0 (Bare) and 8 (Sv39) are supported; any other mode reads back
as 0. -/
def Satp.fromBits (val : U64) : Satp where
  mode := if val.extractLsb' 60 4 = 0 ∨ val.extractLsb' 60 4 = 8
    then val.extractLsb' 60 4 else 0
  asid := val.extractLsb' 44 16
  ppn := val.extractLsb' 0 44

def Satp.default : Satp := ⟨0, 0, 0⟩

end TabLinux
