/-
The register state of the hart, and the floating-point primitives that the
host's float unit provides.
-/
import TabLinux.Instr
import Mathlib.Logic.Function.Basic

namespace TabLinux

/-- Hart state.  The four `jit` words follow `x` in memory because compiled
code reads and writes them there. -/
structure Cpu where
  x : Reg → U64
  jitFault : U64
  jitNextPc : U64
  jitInsns : U64
  jitBudget : U64
  f : Reg → U64
  pc : U64
  fcsr : U64
  fsDirty : Bool

namespace Cpu

def new (pc : U64) : Cpu where
  x := fun _ => 0
  jitFault := 0
  jitNextPc := 0
  jitInsns := 0
  jitBudget := 0
  f := fun _ => 0
  pc := pc
  fcsr := 0
  fsDirty := false

def readReg (cpu : Cpu) (i : Reg) : U64 := cpu.x i

/-- Writes to register 0 are dropped. -/
def writeReg (cpu : Cpu) (i : Reg) (val : U64) : Cpu :=
  if i = 0 then cpu else { cpu with x := Function.update cpu.x i val }

def writeFreg (cpu : Cpu) (i : Reg) (val : U64) : Cpu :=
  { cpu with f := Function.update cpu.f i val }

/-- Step past an instruction of `width` bytes. -/
def advance (cpu : Cpu) (width : U64) : Cpu :=
  { cpu with pc := cpu.pc + width }

variable (cpu : Cpu) (i : Reg) (val : U64)

theorem writeReg_eq :
    ∃ x, cpu.writeReg i val = { cpu with x := x } := by
  unfold writeReg
  split
  · exact ⟨cpu.x, rfl⟩
  · exact ⟨_, rfl⟩

@[simp] theorem writeReg_f : (cpu.writeReg i val).f = cpu.f := by
  obtain ⟨_, hx⟩ := cpu.writeReg_eq i val
  rw [hx]

theorem writeReg_x {i : Reg} (hi : i ≠ 0) :
    (cpu.writeReg i val).x = Function.update cpu.x i val := by
  rw [writeReg, if_neg hi]

/-- What no instruction changes: register 0 and the words of compiled code. -/
def fixed : U64 × U64 × U64 × U64 × U64 :=
  (cpu.x 0, cpu.jitFault, cpu.jitNextPc, cpu.jitInsns, cpu.jitBudget)

theorem writeReg_fixed : (cpu.writeReg i val).fixed = cpu.fixed := by
  unfold writeReg
  split
  · rfl
  · rename_i hi
    exact congrArg (·, _) (Function.update_of_ne (Ne.symm hi) _ _)

@[simp] theorem writeReg_pc : (cpu.writeReg i val).pc = cpu.pc := by
  obtain ⟨_, hx⟩ := cpu.writeReg_eq i val
  rw [hx]

@[simp] theorem writeReg_fcsr : (cpu.writeReg i val).fcsr = cpu.fcsr := by
  obtain ⟨_, hx⟩ := cpu.writeReg_eq i val
  rw [hx]

@[simp] theorem writeReg_fsDirty : (cpu.writeReg i val).fsDirty = cpu.fsDirty := by
  obtain ⟨_, hx⟩ := cpu.writeReg_eq i val
  rw [hx]

end Cpu

/-- The float operations the source takes from its host, on bit patterns of
singles and doubles.  Nothing is assumed of them. -/
class FloatOps where
  addS : U32 → U32 → U32
  subS : U32 → U32 → U32
  mulS : U32 → U32 → U32
  divS : U32 → U32 → U32
  fmaS : U32 → U32 → U32 → U32
  sqrtS : U32 → U32
  eqS : U32 → U32 → Bool
  ltS : U32 → U32 → Bool
  leS : U32 → U32 → Bool
  addD : U64 → U64 → U64
  subD : U64 → U64 → U64
  mulD : U64 → U64 → U64
  divD : U64 → U64 → U64
  fmaD : U64 → U64 → U64 → U64
  sqrtD : U64 → U64
  truncD : U64 → U64
  eqD : U64 → U64 → Bool
  ltD : U64 → U64 → Bool
  leD : U64 → U64 → Bool
  widen : U32 → U64
  narrow : U64 → U32
  toI32 : U64 → U32
  toU32 : U64 → U32
  toI64 : U64 → U64
  toU64 : U64 → U64
  ofI32 : U32 → U64
  ofU32 : U32 → U64
  ofI64 : U64 → U64
  ofU64 : U64 → U64

/-- A float unit that answers zero to everything, for evaluating programs in
which no float operation matters. -/
@[reducible] def FloatOps.zero : FloatOps where
  addS _ _ := 0
  subS _ _ := 0
  mulS _ _ := 0
  divS _ _ := 0
  fmaS _ _ _ := 0
  sqrtS _ := 0
  eqS _ _ := false
  ltS _ _ := false
  leS _ _ := false
  addD _ _ := 0
  subD _ _ := 0
  mulD _ _ := 0
  divD _ _ := 0
  fmaD _ _ _ := 0
  sqrtD _ := 0
  truncD _ := 0
  eqD _ _ := false
  ltD _ _ := false
  leD _ _ := false
  widen _ := 0
  narrow _ := 0
  toI32 _ := 0
  toU32 _ := 0
  toI64 _ := 0
  toU64 _ := 0
  ofI32 _ := 0
  ofU32 _ := 0
  ofI64 _ := 0
  ofU64 _ := 0

end TabLinux
