/-
The SBI calls that supervisor mode makes with `ecall`, answered in place.
-/
import TabLinux.Types

namespace TabLinux

variable {β : Type*} [Bus β]

def sbiExtBase : U64 := 0x10
def sbiExtTime : U64 := 0x54494D45
def sbiExtIpi : U64 := 0x735049
def sbiExtHsm : U64 := 0x48534D
def sbiExtSrst : U64 := 0x53525354
def sbiExtDbcn : U64 := 0x4442434E
def sbiExtRfence : U64 := 0x52464E43

def sbiErrNotSupported : U64 := -2
def sbiErrInvalidParam : U64 := -3

/-- What a call returns in `a0` and `a1`. -/
structure SbiRet where
  error : U64
  value : U64
deriving DecidableEq, Repr

/-- Functions of one extension of which only function 0 is supported. -/
def sbiOnlyZero (first : SbiRet) (function : U64) : SbiRet :=
  if function = 0 then first else ⟨sbiErrNotSupported, 0⟩

def handleBase (a0 function : U64) : SbiRet :=
  if function = 0 then ⟨0, 0x02000000⟩
  else if function = 1 then ⟨0, 0x1⟩
  else if function = 2 then ⟨0, 0x02000000⟩
  else if function = 3 then
    let available := a0 ∈ [sbiExtBase, sbiExtTime, sbiExtDbcn, sbiExtIpi, sbiExtHsm,
      sbiExtSrst, sbiExtRfence] || a0.ult 0x09
    ⟨0, if available then 1 else 0⟩
  else if function = 4 || function = 5 || function = 6 then ⟨0, 0⟩
  else ⟨sbiErrNotSupported, 0⟩

section

variable (function : U64)

/-- Hart start is refused: there is one hart. -/
def handleHsm : SbiRet :=
  sbiOnlyZero ⟨sbiErrInvalidParam, 0⟩ function

def handleSrst : SbiRet := sbiOnlyZero ⟨0, 0⟩ function

def handleIpi : SbiRet := sbiOnlyZero ⟨0, 0⟩ function

def handleRfence : SbiRet := sbiOnlyZero ⟨0, 0⟩ function

end

/-- Kernel direct-mapped addresses name physical memory. -/
def vaToPa (va : U64) : U64 :=
  if !va.ult 0xffffffff80000000 then va - 0xffffffff80000000 + 0x80000000 else va

/-- Read `len` bytes one after the other, as the console write does. -/
def readBytes (bus : β) (addr : U64) : Nat → List (BitVec 8) × β
  | 0 => ([], bus)
  | len + 1 =>
      let (byte, bus) := Bus.read .u8 bus addr
      let (rest, bus) := readBytes bus (addr + 1) len
      (byte :: rest, bus)

/-- Debug console write: the bytes reach the console. -/
def handleDbcn (bus : β) (byteLen baseAddr : U64) :
    SbiRet × List (BitVec 8) × β :=
  let (bytes, bus) := readBytes bus (vaToPa baseAddr) byteLen.toNat
  (⟨0, byteLen⟩, bytes, bus)

/-- The CLINT comparator that both timer calls program. -/
def mtimecmpAddr : U64 := 0x02004000

/-- Answer a call: its return values, the console output it makes, and the bus
it leaves. -/
def handleEcall (bus : β) (a0 a1 a6 a7 : U64) : SbiRet × List (BitVec 8) × β :=
  if a7 = sbiExtDbcn then handleDbcn bus a0 a1
  else if a7 = sbiExtBase then (handleBase a0 a6, [], bus)
  else if a7 = sbiExtTime then
    (⟨0, 0⟩, [], writeU64 bus mtimecmpAddr (a1 <<< 32 ||| a0))
  else if a7 = sbiExtHsm then (handleHsm a6, [], bus)
  else if a7 = sbiExtSrst then (handleSrst a6, [], bus)
  else if a7 = sbiExtIpi then (handleIpi a6, [], bus)
  else if a7 = sbiExtRfence then (handleRfence a6, [], bus)
  else if a7 = 0x00 then (⟨0, 0⟩, [], writeU64 bus mtimecmpAddr a0)
  else if a7 = 0x01 then (⟨0, 0⟩, [a0.setWidth 8], bus)
  else if a7 = 0x02 then (⟨0, -1⟩, [], bus)
  else if a7 = 0x08 then (⟨0, -1⟩, [], bus)
  -- The remaining legacy calls, 3 to 7, do nothing on a single hart.
  else if a7.ult 0x08 then (⟨0, 0⟩, [], bus)
  else (⟨sbiErrNotSupported, 0⟩, [], bus)

end TabLinux
