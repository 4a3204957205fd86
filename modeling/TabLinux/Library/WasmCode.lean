/-
Straight-line WebAssembly: an operand stack, typed locals and one linear
memory.  The machine takes a guard on its binary operations, so that the same
rules serve the plain semantics and one that stops at the first operation
whose exact result does not fit its word.
-/
import TabLinux.Library.ByteMemory
import Mathlib.Logic.Function.Basic

namespace WasmCode

open ByteMemory

variable {mem : Memory} {base : BitVec 32} {offset index : Nat} {frame next : Frame}

inductive Val where
  | i32 (val : BitVec 32)
  | i64 (val : BitVec 64)
deriving DecidableEq, Repr

/-- Binary operations on 64-bit operands. -/
inductive BinOp where
  | add | sub | mul | and | shrU | shrS
deriving DecidableEq, Repr

/-- Arithmetic wraps and shift counts are taken modulo 64. -/
def BinOp.eval (op : BinOp) (a b : BitVec 64) : BitVec 64 :=
  match op with
  | .add => a + b
  | .sub => a - b
  | .mul => a * b
  | .and => a &&& b
  | .shrU => a >>> (b.toNat % 64)
  | .shrS => a.sshiftRight (b.toNat % 64)

/-- Whether the operation on the operands' unsigned values stays within 64 bits. -/
def BinOp.fits (op : BinOp) (a b : BitVec 64) : Bool :=
  match op with
  | .add => a.toNat + b.toNat < 2 ^ 64
  | .sub => b.toNat ≤ a.toNat
  | .mul => a.toNat * b.toNat < 2 ^ 64
  | .and | .shrU | .shrS => true

theorem BinOp.toNat_add_of_fits {a b : BitVec 64} (h : a.toNat + b.toNat < 2 ^ 64) :
    (add.eval a b).toNat = a.toNat + b.toNat :=
  BitVec.toNat_add_of_lt h

theorem BinOp.toNat_mul_of_fits {a b : BitVec 64} (h : a.toNat * b.toNat < 2 ^ 64) :
    (mul.eval a b).toNat = a.toNat * b.toNat :=
  BitVec.toNat_mul_of_lt h

/-- An arithmetic shift over all but the sign bit spreads the sign. -/
theorem sshiftRight_sign (a : BitVec 64) :
    BinOp.shrS.eval a 63 = if a.msb then BitVec.allOnes 64 else 0 := by
  apply BitVec.eq_of_getLsbD_eq
  intro i hi
  have hbit : (if 63 + i < 64 then a.getLsbD (63 + i) else a.msb) = a.msb := by
    split
    · have hzero : i = 0 := by omega
      rw [hzero, BitVec.msb_eq_getLsbD_last]
    · rfl
  have hshift : BinOp.shrS.eval a 63 = a.sshiftRight 63 := rfl
  rw [hshift, BitVec.getLsbD_sshiftRight, hbit]
  cases a.msb with
  | true =>
    rw [if_pos rfl, BitVec.getLsbD_allOnes, Bool.and_true]
    simp only [hi, Nat.not_le.mpr hi, decide_true, decide_false, Bool.not_false]
  | false => simp [hi]

inductive Op where
  | i64Const (val : BitVec 64)
  | localGet (index : Nat)
  | localSet (index : Nat)
  | localTee (index : Nat)
  | i64Bin (op : BinOp)
  | i64Extend32S
  | i64Load (offset : Nat)
  | i64Store (offset : Nat)
deriving DecidableEq, Repr

/-- A linear memory of at most the 32-bit address space. -/
structure Memory where
  bytes : ByteMem 32
  size : Nat
  size_le : size ≤ 2 ^ 32

structure Frame where
  stack : List Val
  locals : Nat → Val
  memory : Memory

section

variable (mem : Memory) (base : BitVec 32) (offset : Nat)

/-- The effective address of an eight-byte access, absent when it would leave
the memory. -/
def Memory.address : Option (BitVec 32) :=
  if base.toNat + offset + 8 ≤ mem.size then some (BitVec.ofNat 32 (base.toNat + offset))
  else none

def Memory.load : Option (BitVec 64) :=
  (mem.address base offset).map fun addr => mem.bytes.load addr 8

def Memory.store (val : BitVec 64) :
    Option Memory :=
  (mem.address base offset).map fun addr =>
    { mem with bytes := mem.bytes.store (n := 8) addr val }

end

theorem Memory.address_eq_some :
    (∃ addr, mem.address base offset = some addr) ↔ base.toNat + offset + 8 ≤ mem.size := by
  unfold address
  split
  · simp [*]
  · simp [*]

theorem Memory.load_of_le (mem : Memory) (h : base.toNat + offset + 8 ≤ mem.size) :
    mem.load base offset = some (mem.bytes.load (BitVec.ofNat 32 (base.toNat + offset)) 8) := by
  rw [load, address, if_pos h]
  rfl

theorem Memory.le_of_load {val : BitVec 64}
    (h : mem.load base offset = some val) : base.toNat + offset + 8 ≤ mem.size := by
  obtain ⟨addr, haddr, -⟩ := Option.map_eq_some_iff.mp h
  exact address_eq_some.mp ⟨addr, haddr⟩

/-- A store where a load succeeds: it succeeds too, is read back, and leaves
every disjoint word alone. -/
theorem Memory.store_of_load
    {old : BitVec 64} (h : mem.load base offset = some old) (val : BitVec 64) :
    ∃ next, mem.store base offset val = some next ∧ next.load base offset = some val ∧
      ∀ {other : Nat} {word : BitVec 64}, other + 8 ≤ offset ∨ offset + 8 ≤ other →
        mem.load base other = some word → next.load base other = some word := by
  have hle := le_of_load h
  have hsize := mem.size_le
  let addr := BitVec.ofNat 32 (base.toNat + offset)
  let next : Memory := { mem with bytes := mem.bytes.store (n := 8) addr val }
  have hstore : mem.store base offset val = some next := by
    rw [store, address, if_pos hle]
    rfl
  refine ⟨next, hstore, ?_, ?_⟩
  · rw [next.load_of_le hle]
    exact congrArg some (load_store_same (n := 8) _ _ _ (by decide))
  intro other word hdisjoint hother
  have hle' := le_of_load hother
  rw [← hother, mem.load_of_le hle', next.load_of_le hle']
  refine congrArg some (load_store_disjoint (n := 8) _ _ _ _ ?_)
  intro i hi
  have hstored : (base.toNat + offset) % 2 ^ 32 = base.toNat + offset := Nat.mod_eq_of_lt (by omega)
  have hread : (base.toNat + other + i) % 2 ^ 32 = base.toNat + other + i :=
    Nat.mod_eq_of_lt (by omega)
  rw [← BitVec.ofNat_add, BitVec.toNat_sub, BitVec.toNat_ofNat, BitVec.toNat_ofNat, hstored, hread]
  omega

/-- A guard on the operands of binary operations. -/
abbrev Guard : Type := BinOp → BitVec 64 → BitVec 64 → Bool

/-- The guard of the plain machine. -/
def anyOperands : Guard := fun _ _ _ => true

/-- One instruction; `none` is a trap, an ill-typed operand or a refused one. -/
def step (guard : Guard) (op : Op) (frame : Frame) : Option Frame :=
  match op with
  | .i64Const val => some { frame with stack := .i64 val :: frame.stack }
  | .localGet index => some { frame with stack := frame.locals index :: frame.stack }
  | .localSet index =>
      match frame.stack with
      | val :: stack =>
          some { frame with stack, locals := Function.update frame.locals index val }
      | [] => none
  | .localTee index =>
      match frame.stack with
      | val :: _ => some { frame with locals := Function.update frame.locals index val }
      | [] => none
  | .i64Bin op =>
      match frame.stack with
      | .i64 b :: .i64 a :: stack =>
          if guard op a b then some { frame with stack := .i64 (op.eval a b) :: stack }
          else none
      | _ => none
  | .i64Extend32S =>
      match frame.stack with
      | .i64 a :: stack =>
          some { frame with stack := .i64 ((a.setWidth 32).signExtend 64) :: stack }
      | _ => none
  | .i64Load offset =>
      match frame.stack with
      | .i32 base :: stack =>
          (frame.memory.load base offset).map fun val =>
            { frame with stack := .i64 val :: stack }
      | _ => none
  | .i64Store offset =>
      match frame.stack with
      | .i64 val :: .i32 base :: stack =>
          (frame.memory.store base offset val).map fun memory =>
            { frame with stack, memory }
      | _ => none

def run (guard : Guard) : List Op → Frame → Option Frame
  | [], frame => some frame
  | op :: code, frame => (step guard op frame).bind (run guard code)

@[simp] theorem run_nil (guard : Guard) (frame : Frame) : run guard [] frame = some frame := rfl

theorem run_append (guard : Guard) (front back : List Op) (frame : Frame) :
    run guard (front ++ back) frame = (run guard front frame).bind (run guard back) := by
  induction front generalizing frame with
  | nil => rfl
  | cons op front ih =>
    simp only [List.cons_append, run, Option.bind_assoc, ih]

/-- What a guarded run reaches, the plain machine reaches as well. -/
theorem step_anyOperands {guard : Guard} {op : Op}
    (h : step guard op frame = some next) : step anyOperands op frame = some next := by
  cases op with
  | i64Bin op =>
    -- The only instruction that looks at the guard.
    simp only [step] at h ⊢
    split at h
    case h_1 b a stack _ =>
      by_cases hguard : guard op a b = true
      · rw [if_pos hguard] at h
        exact h
      · rw [if_neg hguard] at h
        cases h
    case h_2 => cases h
  | _ => exact h

theorem run_anyOperands {guard : Guard} {code : List Op}
    (h : run guard code frame = some next) : run anyOperands code frame = some next := by
  induction code generalizing frame with
  | nil => exact h
  | cons op code ih =>
    obtain ⟨mid, hstep, hrest⟩ := Option.bind_eq_some_iff.mp h
    exact Option.bind_eq_some_iff.mpr ⟨mid, step_anyOperands hstep, ih hrest⟩

/-- Over these locals and this memory, `code` pushes `val` and changes nothing
else. -/
def Pushes (guard : Guard) (locals : Nat → Val) (memory : Memory) (code : List Op)
    (val : BitVec 64) : Prop :=
  ∀ stack, run guard code ⟨stack, locals, memory⟩ = some ⟨.i64 val :: stack, locals, memory⟩

section Rules

variable {guard : Guard} {locals : Nat → Val} {memory : Memory} {code left right : List Op}
  {a b val : BitVec 64}

theorem Pushes.const : Pushes guard locals memory [.i64Const val] val := fun _ => rfl

theorem Pushes.localGet (h : locals index = .i64 val) :
    Pushes guard locals memory [.localGet index] val := by
  intro stack
  simp only [run, step, h, Option.bind_some]

theorem Pushes.bin {op : BinOp} (hleft : Pushes guard locals memory left a)
    (hright : Pushes guard locals memory right b) (hguard : guard op a b = true) :
    Pushes guard locals memory (left ++ (right ++ [.i64Bin op])) (op.eval a b) := by
  intro stack
  rw [run_append, hleft, Option.bind_some, run_append, hright, Option.bind_some]
  simp only [run, step, hguard, if_true, Option.bind_some]

theorem Pushes.load (hbase : locals index = .i32 base) (hval : memory.load base offset = some val) :
    Pushes guard locals memory [.localGet index, .i64Load offset] val := by
  intro stack
  simp only [run, step, hbase, hval, Option.bind_some, Option.map_some]

theorem Pushes.extend32S (h : Pushes guard locals memory code val) :
    Pushes guard locals memory (code ++ [.i64Extend32S]) ((val.setWidth 32).signExtend 64) := by
  intro stack
  rw [run_append, h, Option.bind_some]
  rfl

/-- Storing a pushed value to a local and going on. -/
theorem Pushes.run_localSet (h : Pushes guard locals memory code val) (index : Nat)
    (rest : List Op) (stack : List Val) :
    run guard (code ++ (.localSet index :: rest)) ⟨stack, locals, memory⟩
      = run guard rest ⟨stack, Function.update locals index (.i64 val), memory⟩ := by
  rw [run_append, h, Option.bind_some]
  rfl

end Rules

end WasmCode
