/-
The multiply instructions of the block compiler.  WebAssembly has no 128-bit
product, so the high halves are assembled from four 32-bit partial products and
corrected for the signs; the interpreter's results are the reference.
-/
import TabLinux.MultiplyDivide
import TabLinux.Library.WasmCode
import Mathlib.Tactic.LinearCombination

namespace TabLinux

open WasmCode BinOp

universe u

variable {code : List Op} {guard : Guard}

variable {base s v : Nat} {rd : Reg} {val : U64}

-- Locals of a compiled block.
def lRegs : Nat := 0
def lTmp : Nat := 2
def lNext : Nat := 3
def lAddr : Nat := 5
def lVal : Nat := 11
def regLocalBase : Nat := 12

/-- Experiments of the compiler, both shipped switched off. -/
def regResidentOn : Bool := false
def regFwdOn : Bool := false

def regLocal (r : Reg) : Nat := regLocalBase + r.toNat

/-- Where the register file keeps `r`, from the address in `lRegs`. -/
def regOff (r : Reg) : Nat := r.toNat * 8

/-- The part of the emitter that arithmetic reads and writes: the code so far,
the register whose value `lVal` holds and the registers held in locals. -/
structure Emit where
  f : List Op
  fwd : Option Reg
  cached : Reg → Bool

section

variable (e : Emit)

def Emit.instruction (op : Op) : Emit := { e with f := e.f ++ [op] }

def Emit.get (r : Reg) : Emit :=
  if r = 0 then e.instruction (.i64Const 0)
  else if regResidentOn && e.cached r then e.instruction (.localGet (regLocal r))
  else if regFwdOn && e.fwd == some r then e.instruction (.localGet lVal)
  else (e.instruction (.localGet lRegs)).instruction (.i64Load (regOff r))

def Emit.setWith (r : Reg) (body : Emit → Emit) : Emit :=
  if r = 0 then e
  else
    let e := body (e.instruction (.localGet lRegs))
    let e :=
      if regResidentOn then
        let e := e.instruction (.localTee (regLocal r))
        { e with cached := Function.update e.cached r true }
      else if regFwdOn then e.instruction (.localTee lVal)
      else e
    { e.instruction (.i64Store (regOff r)) with fwd := some r }

def lowMask : U64 := 0xFFFFFFFF

/-- One half of a scratch local. -/
def Emit.half (loc : Nat) (high : Bool) : Emit :=
  let e := e.instruction (.localGet loc)
  if high then (e.instruction (.i64Const 32)).instruction (.i64Bin .shrU)
  else (e.instruction (.i64Const lowMask)).instruction (.i64Bin .and)

/-- Push the high half of the unsigned product of `lTmp` and `lAddr`; `lNext`
is overwritten. -/
def Emit.mulhuOfScratch : Emit :=
  -- u = ah*bl + ((al*bl) >> 32)
  let e := e.half lTmp true
  let e := e.half lAddr false
  let e := e.instruction (.i64Bin .mul)
  let e := e.half lTmp false
  let e := e.half lAddr false
  let e := e.instruction (.i64Bin .mul)
  let e := e.instruction (.i64Const 32)
  let e := e.instruction (.i64Bin .shrU)
  let e := e.instruction (.i64Bin .add)
  let e := e.instruction (.localSet lNext)
  -- v = al*bh + (u & LO)
  let e := e.half lTmp false
  let e := e.half lAddr true
  let e := e.instruction (.i64Bin .mul)
  let e := e.instruction (.localGet lNext)
  let e := e.instruction (.i64Const lowMask)
  let e := e.instruction (.i64Bin .and)
  let e := e.instruction (.i64Bin .add)
  -- ah*bh + (u >> 32) + (v >> 32)
  let e := e.instruction (.i64Const 32)
  let e := e.instruction (.i64Bin .shrU)
  let e := e.half lTmp true
  let e := e.half lAddr true
  let e := e.instruction (.i64Bin .mul)
  let e := e.instruction (.i64Bin .add)
  let e := e.instruction (.localGet lNext)
  let e := e.instruction (.i64Const 32)
  let e := e.instruction (.i64Bin .shrU)
  e.instruction (.i64Bin .add)

/-- Subtract local `v` from the top of the stack when local `s` is negative. -/
def Emit.mulhSignTerm (s v : Nat) : Emit :=
  let e := e.instruction (.localGet s)
  let e := e.instruction (.i64Const 63)
  let e := e.instruction (.i64Bin .shrS)
  let e := e.instruction (.localGet v)
  let e := e.instruction (.i64Bin .and)
  e.instruction (.i64Bin .sub)

/-- Both operands into the scratch locals. -/
def Emit.scratch (rs1 rs2 : Reg) : Emit :=
  let e := e.get rs1
  let e := e.instruction (.localSet lTmp)
  let e := e.get rs2
  e.instruction (.localSet lAddr)

/-- The instructions whose compiled code is described here. -/
inductive MulOp where
  | mul | mulh | mulhsu | mulhu | mulw
deriving DecidableEq, Repr

def MulOp.regOp : MulOp → RegOp
  | .mul => .mul
  | .mulh => .mulh
  | .mulhsu => .mulhsu
  | .mulhu => .mulhu
  | .mulw => .mulw

/-- The multiply arms of `emit`. -/
def Emit.emitMul (op : MulOp) (rd rs1 rs2 : Reg) : Emit :=
  e.setWith rd fun e =>
    match op with
    | .mul => ((e.get rs1).get rs2).instruction (.i64Bin .mul)
    | .mulhu => (e.scratch rs1 rs2).mulhuOfScratch
    | .mulh =>
        ((e.scratch rs1 rs2).mulhuOfScratch.mulhSignTerm lTmp lAddr).mulhSignTerm lAddr lTmp
    | .mulhsu => (e.scratch rs1 rs2).mulhuOfScratch.mulhSignTerm lTmp lAddr
    | .mulw => (((e.get rs1).get rs2).instruction (.i64Bin .mul)).instruction .i64Extend32S

end

/-- The code appended for reading a register. -/
def getCode (r : Reg) : List Op :=
  if r = 0 then [.i64Const 0] else [.localGet lRegs, .i64Load (regOff r)]

def halfCode (loc : Nat) (high : Bool) : List Op :=
  if high then [.localGet loc] ++ ([.i64Const 32] ++ [.i64Bin .shrU])
  else [.localGet loc] ++ ([.i64Const lowMask] ++ [.i64Bin .and])

/-- The product of one half of `lTmp` and one half of `lAddr`. -/
def partialCode (highTmp highAddr : Bool) : List Op :=
  halfCode lTmp highTmp ++ (halfCode lAddr highAddr ++ [.i64Bin .mul])

/-- The high word of what `code` pushes. -/
def shiftCode (code : List Op) : List Op := code ++ ([.i64Const 32] ++ [.i64Bin .shrU])

def middleCode : List Op :=
  partialCode true false ++ (shiftCode (partialCode false false) ++ [.i64Bin .add])

def carryCode : List Op :=
  partialCode false true
    ++ (([.localGet lNext] ++ ([.i64Const lowMask] ++ [.i64Bin .and])) ++ [.i64Bin .add])

def sumCode : List Op :=
  (shiftCode carryCode ++ (partialCode true true ++ [.i64Bin .add]))
    ++ (shiftCode [.localGet lNext] ++ [.i64Bin .add])

def mulhuCode : List Op := middleCode ++ (.localSet lNext :: sumCode)

/-- Both operands into the scratch locals, then `rest`. -/
def scratchCode (rs1 rs2 : Reg) (rest : List Op) : List Op :=
  getCode rs1 ++ (.localSet lTmp :: (getCode rs2 ++ (.localSet lAddr :: rest)))

def signCode (s v : Nat) : List Op :=
  ([.localGet s] ++ ([.i64Const 63] ++ [.i64Bin .shrS])) ++ ([.localGet v] ++ [.i64Bin .and])

namespace Emit

variable (e : Emit)

@[simp] theorem instruction_f (op : Op) : (e.instruction op).f = e.f ++ [op] := rfl

@[simp] theorem get_f (r : Reg) : (e.get r).f = e.f ++ getCode r := by
  unfold get getCode
  split
  · rfl
  · simp [regResidentOn, regFwdOn]

@[simp] theorem half_f (loc : Nat) (high : Bool) :
    (e.half loc high).f = e.f ++ halfCode loc high := by
  cases high with
  | true => simp [half, halfCode]
  | false => simp [half, halfCode]

@[simp] theorem mulhuOfScratch_f : e.mulhuOfScratch.f = e.f ++ mulhuCode := by
  simp only [mulhuOfScratch, instruction_f, half_f, mulhuCode, middleCode,
    sumCode, carryCode, shiftCode, partialCode, List.append_assoc, List.cons_append,
    List.nil_append]

@[simp] theorem mulhSignTerm_f (s v : Nat) :
    (e.mulhSignTerm s v).f = e.f ++ (signCode s v ++ [.i64Bin .sub]) := by
  simp [mulhSignTerm, signCode]

@[simp] theorem scratch_f (rs1 rs2 : Reg) : (e.scratch rs1 rs2).f
      = e.f ++ scratchCode rs1 rs2 [] := by
  simp [scratch, scratchCode]

end Emit

/-- A product of two digits has room for one more digit. -/
theorem digit_mul_add_lt {x y z : Nat} (hx : x < base) (hy : y < base)
    (hz : z < base) : x * y + z < base * base := by
  calc x * y + z < x * y + base := by omega
    _ ≤ x * base + base := by gcongr
    _ = (x + 1) * base := by ring
    _ ≤ base * base := by gcongr; exact hx

/-- The high half of a product of two-digit numbers, from its partial products. -/
theorem highProduct_eq {al ah bl bh : Nat} (hbase : 0 < base) :
    let middle := ah * bl + al * bl / base
    let carry := al * bh + middle % base
    carry / base + ah * bh + middle / base
      = (ah * base + al) * (bh * base + bl) / (base * base) := by
  intro middle carry
  have hlow := Nat.div_add_mod (al * bl) base
  have hmiddle := Nat.div_add_mod middle base
  have hcarry := Nat.div_add_mod carry base
  have hrest : base * (carry % base) + al * bl % base < base * base := by
    have hdigit := Nat.mod_lt (al * bl) hbase
    have hnext := Nat.mod_lt carry hbase
    calc base * (carry % base) + al * bl % base < base * (carry % base) + base := by omega
      _ = base * (carry % base + 1) := by ring
      _ ≤ base * base := by gcongr; exact hnext
  have hsplit : (ah * base + al) * (bh * base + bl) = base * (carry % base) + al * bl % base
        + base * base * (carry / base + ah * bh + middle / base) := by
    have hproduct : (ah * base + al) * (bh * base + bl)
        = ah * bh * (base * base) + base * (ah * bl) + base * (al * bh) + al * bl := by ring
    rw [hproduct]
    linear_combination hlow.symm + base * hmiddle.symm + base * hcarry.symm
  rw [hsplit, Nat.add_mul_div_left _ _ (Nat.mul_pos hbase hbase), Nat.div_eq_of_lt hrest,
    Nat.zero_add]

/-- One half of a word, as the emitted code isolates it. -/
def halfWord (a : U64) (high : Bool) : U64 :=
  if high then shrU.eval a 32 else and.eval a lowMask

def partialWord (a b : U64) (highTmp highAddr : Bool) : U64 :=
  mul.eval (halfWord a highTmp) (halfWord b highAddr)

def middleWord (a b : U64) : U64 :=
  add.eval (partialWord a b true false) (shrU.eval (partialWord a b false false) 32)

def carryWord (a b : U64) : U64 :=
  add.eval (partialWord a b false true) (and.eval (middleWord a b) lowMask)

def sumWord (a b : U64) : U64 :=
  add.eval (add.eval (shrU.eval (carryWord a b) 32) (partialWord a b true true))
    (shrU.eval (middleWord a b) 32)

theorem toNat_shrU (a : U64) : (shrU.eval a 32).toNat = a.toNat / 2 ^ 32 := by
  have hshift : shrU.eval a 32 = a >>> 32 := rfl
  rw [hshift, BitVec.toNat_ushiftRight, Nat.shiftRight_eq_div_pow]

theorem toNat_and_lowMask (a : U64) :
    (and.eval a lowMask).toNat = a.toNat % 2 ^ 32 := by
  have hand : and.eval a lowMask = a &&& lowMask := rfl
  have hmask : lowMask.toNat = 2 ^ 32 - 1 := rfl
  rw [hand, BitVec.toNat_and, hmask, Nat.and_two_pow_sub_one_eq_mod]

theorem halfWord_lt (a : U64) (high : Bool) : (halfWord a high).toNat < 2 ^ 32 := by
  cases high with
  | true =>
    have hvalue : (halfWord a true).toNat = a.toNat / 2 ^ 32 := toNat_shrU a
    omega
  | false =>
    have hvalue : (halfWord a false).toNat = a.toNat % 2 ^ 32 := toNat_and_lowMask a
    omega

theorem halfWord_join (a : U64) :
    (halfWord a true).toNat * 2 ^ 32 + (halfWord a false).toNat = a.toNat := by
  have hhigh : (halfWord a true).toNat = a.toNat / 2 ^ 32 := toNat_shrU a
  have hlow : (halfWord a false).toNat = a.toNat % 2 ^ 32 := toNat_and_lowMask a
  omega

section

variable (a b : U64)

/-- A partial product leaves room for another 32-bit term. -/
theorem partialWord_room (highTmp highAddr : Bool) {term : Nat} (hterm : term < 2 ^ 32) :
    (halfWord a highTmp).toNat * (halfWord b highAddr).toNat + term < 2 ^ 64 :=
  digit_mul_add_lt (halfWord_lt a highTmp) (halfWord_lt b highAddr) hterm

theorem partialWord_fits (highTmp highAddr : Bool) :
    (halfWord a highTmp).toNat * (halfWord b highAddr).toNat < 2 ^ 64 :=
  partialWord_room a b highTmp highAddr (Nat.two_pow_pos 32)

theorem toNat_partialWord (highTmp highAddr : Bool) : (partialWord a b highTmp highAddr).toNat
      = (halfWord a highTmp).toNat * (halfWord b highAddr).toNat :=
  toNat_mul_of_fits (partialWord_fits a b highTmp highAddr)

theorem middleWord_fits : (partialWord a b true false).toNat
      + (shrU.eval (partialWord a b false false) 32).toNat < 2 ^ 64 := by
  rw [toNat_partialWord]
  exact partialWord_room a b true false (halfWord_lt (partialWord a b false false) true)

theorem carryWord_fits : (partialWord a b false true).toNat
      + (and.eval (middleWord a b) lowMask).toNat < 2 ^ 64 := by
  rw [toNat_partialWord]
  exact partialWord_room a b false true (halfWord_lt (middleWord a b) false)

/-- The last sum, over the naturals, is the high half of the exact product. -/
theorem highHalf_partials :
    (shrU.eval (carryWord a b) 32).toNat + (partialWord a b true true).toNat
        + (shrU.eval (middleWord a b) 32).toNat
      = a.toNat * b.toNat / 2 ^ 64 := by
  have hmiddle := toNat_add_of_fits (middleWord_fits a b)
  have hcarry := toNat_add_of_fits (carryWord_fits a b)
  rw [toNat_shrU, toNat_partialWord] at hmiddle
  rw [toNat_and_lowMask, toNat_partialWord] at hcarry
  change (middleWord a b).toNat = _ at hmiddle
  change (carryWord a b).toNat = _ at hcarry
  rw [toNat_shrU, toNat_shrU, toNat_partialWord, hcarry, hmiddle, toNat_partialWord]
  rw [highProduct_eq (Nat.two_pow_pos 32), halfWord_join, halfWord_join, ← Nat.pow_add]

theorem product_high_lt : a.toNat * b.toNat / 2 ^ 64 < 2 ^ 64 := by
  apply Nat.div_lt_of_lt_mul
  exact Nat.mul_lt_mul'' a.isLt b.isLt

theorem sumWord_eq : sumWord a b = BitVec.ofNat 64 (a.toNat * b.toNat / 2 ^ 64) := by
  have hlt := product_high_lt a b
  have hhigh := highHalf_partials a b
  have hinner := toNat_add_of_fits
    (a := shrU.eval (carryWord a b) 32) (b := partialWord a b true true) (by omega)
  apply BitVec.eq_of_toNat_eq
  rw [sumWord, toNat_add_of_fits (by omega), hinner, hhigh, BitVec.toNat_ofNat,
    Nat.mod_eq_of_lt hlt]

end

section Sequences

variable {locals : Nat → Val} {memory : Memory} {a b : U64}

theorem halfCode_pushes {loc : Nat} (h : locals loc = .i64 a) (high : Bool) :
    Pushes fits locals memory (halfCode loc high) (halfWord a high) := by
  cases high with
  | true => exact (Pushes.localGet h).bin .const rfl
  | false => exact (Pushes.localGet h).bin .const rfl

theorem partialCode_pushes (htmp : locals lTmp = .i64 a) (haddr : locals lAddr = .i64 b)
    (highTmp highAddr : Bool) :
    Pushes fits locals memory (partialCode highTmp highAddr)
      (partialWord a b highTmp highAddr) := by
  apply (halfCode_pushes htmp highTmp).bin (halfCode_pushes haddr highAddr)
  exact decide_eq_true (partialWord_fits a b highTmp highAddr)

/-- The high word of a pushed value. -/
theorem shiftCode_pushes (h : Pushes fits locals memory code a) :
    Pushes fits locals memory (shiftCode code) (shrU.eval a 32) :=
  h.bin .const rfl

theorem middleCode_pushes (htmp : locals lTmp = .i64 a) (haddr : locals lAddr = .i64 b) :
    Pushes fits locals memory middleCode (middleWord a b) := by
  apply (partialCode_pushes htmp haddr true false).bin
    (shiftCode_pushes (partialCode_pushes htmp haddr false false))
  exact decide_eq_true (middleWord_fits a b)

theorem sumCode_pushes (htmp : locals lTmp = .i64 a) (haddr : locals lAddr = .i64 b)
    (hnext : locals lNext = .i64 (middleWord a b)) :
    Pushes fits locals memory sumCode (sumWord a b) := by
  have hmiddle : Pushes fits locals memory [.localGet lNext] (middleWord a b) :=
    .localGet hnext
  have hcarry : Pushes fits locals memory carryCode (carryWord a b) := by
    apply (partialCode_pushes htmp haddr false true).bin (halfCode_pushes hnext false)
    exact decide_eq_true (carryWord_fits a b)
  have hhigh := highHalf_partials a b
  have hlt := product_high_lt a b
  have hinner := toNat_add_of_fits
    (a := shrU.eval (carryWord a b) 32) (b := partialWord a b true true) (by omega)
  have hfits : add.fits (shrU.eval (carryWord a b) 32)
      (partialWord a b true true) = true := decide_eq_true (by omega)
  have hfirst := (shiftCode_pushes hcarry).bin (partialCode_pushes htmp haddr true true) hfits
  exact hfirst.bin (shiftCode_pushes hmiddle) (decide_eq_true (by omega))

/-- The unsigned sequence: no operation of it overflows, the floor of the exact
product over `2 ^ 64` is on top of the stack and only `lNext` has changed. -/
theorem mulhuCode_run (memory : Memory) (htmp : locals lTmp = .i64 a)
    (haddr : locals lAddr = .i64 b) (stack : List Val) :
    run fits mulhuCode ⟨stack, locals, memory⟩
      = some ⟨.i64 (BitVec.ofNat 64 (a.toNat * b.toNat / 2 ^ 64)) :: stack,
          Function.update locals lNext (.i64 (middleWord a b)), memory⟩ := by
  rw [mulhuCode, (middleCode_pushes htmp haddr).run_localSet, ← sumWord_eq]
  apply sumCode_pushes
  · rw [Function.update_of_ne (by decide), htmp]
  · rw [Function.update_of_ne (by decide), haddr]
  · rw [Function.update_self]

/-- The term a negative operand subtracts. -/
def signWord (s v : U64) : U64 := if s.msb then v else 0

theorem signCode_pushes
    (hguard : ∀ x y, guard .shrS x y = true ∧ guard .and x y = true) (hs : locals s = .i64 a)
    (hv : locals v = .i64 b) : Pushes guard locals memory (signCode s v) (signWord a b) := by
  have hvalue : and.eval (shrS.eval a 63) b = signWord a b := by
    rw [sshiftRight_sign, signWord]
    cases a.msb with
    | true => exact BitVec.allOnes_and
    | false => exact BitVec.zero_and
  rw [← hvalue]
  apply Pushes.bin
  · exact (Pushes.localGet hs).bin .const (hguard _ _).1
  · exact .localGet hv
  · exact (hguard _ _).2

/-- A sign term after code that has pushed a product. -/
theorem run_signTerm {stack : List Val} {product : U64}
    (hs : locals s = .i64 a) (hv : locals v = .i64 b) :
    run anyOperands (signCode s v ++ [.i64Bin .sub]) ⟨.i64 product :: stack, locals, memory⟩
      = some ⟨.i64 (product - signWord a b) :: stack, locals, memory⟩ := by
  rw [run_append, signCode_pushes (fun _ _ => ⟨rfl, rfl⟩) hs hv]
  rfl

end Sequences

theorem toInt_eq_toNat_sub (a : U64) : a.toInt = a.toNat - if a.msb then 2 ^ 64 else 0 := by
  rw [BitVec.toInt_eq_msb_cond]
  split
  · rfl
  · exact (Int.sub_zero _).symm

/-- Subtracting the other operand when the first is negative turns an unsigned
high half into the signed by unsigned one. -/
theorem mulhsu_correction (a b : U64) :
    BitVec.ofNat 64 (a.toNat * b.toNat / 2 ^ 64) - signWord a b
      = BitVec.ofInt 64 (a.toInt * b.toNat / 2 ^ 64) := by
  rw [toInt_eq_toNat_sub, signWord]
  apply BitVec.eq_of_toNat_eq
  cases a.msb with
  | false =>
    have hcast : ((a.toNat : Int) - 0) * b.toNat = ((a.toNat * b.toNat : Nat) : Int) := by
      push_cast
      ring
    simp only [Bool.false_eq_true, if_false, hcast, BitVec.ofNat_eq_ofNat, BitVec.sub_zero,
      BitVec.toNat_ofNat, BitVec.toNat_ofInt]
    omega
  | true =>
    have hcast : ((a.toNat : Int) - 2 ^ 64) * b.toNat
        = ((a.toNat * b.toNat : Nat) : Int) - 2 ^ 64 * (b.toNat : Int) := by
      push_cast
      ring
    simp only [if_true, hcast, BitVec.toNat_sub, BitVec.toNat_ofNat, BitVec.toNat_ofInt]
    omega

/-- The same for the second operand, after the first. -/
theorem mulh_correction (a b : U64) :
    BitVec.ofNat 64 (a.toNat * b.toNat / 2 ^ 64) - signWord a b - signWord b a
      = BitVec.ofInt 64 (a.toInt * b.toInt / 2 ^ 64) := by
  rw [mulhsu_correction, toInt_eq_toNat_sub b, signWord]
  have hlow : a.toNat = (a.toInt % 2 ^ 64).toNat := by
    have hvalue := congrArg BitVec.toNat (BitVec.ofInt_toInt (x := a))
    rw [BitVec.toNat_ofInt] at hvalue
    exact hvalue.symm
  apply BitVec.eq_of_toNat_eq
  cases b.msb with
  | false =>
    simp only [Bool.false_eq_true, if_false, BitVec.ofNat_eq_ofNat, BitVec.sub_zero, Int.sub_zero]
  | true =>
    have hcast : a.toInt * ((b.toNat : Int) - 2 ^ 64)
        = a.toInt * (b.toNat : Int) - 2 ^ 64 * a.toInt := by ring
    simp only [if_true, hcast, BitVec.toNat_sub, BitVec.toNat_ofInt]
    omega

theorem ofNat_highProduct (m n : Nat) :
    BitVec.ofNat 64 (m * n / 2 ^ 64) = BitVec.ofInt 64 (m * n / 2 ^ 64) := by
  rw [← BitVec.ofInt_natCast]
  push_cast
  rfl

/-- The frame's memory holds the registers of `cpu`, at the address in `lRegs`;
register 0 reads as zero. -/
structure HoldsRegisters (frame : Frame) (cpu : Cpu) : Prop where
  regs : ∃ base, frame.locals lRegs = .i32 base ∧
    ∀ r : Reg, frame.memory.load base (regOff r) = some (cpu.x r)
  zero : cpu.x 0 = 0

/-- The locals that arithmetic code may overwrite. -/
def scratchLocals : List Nat := [lTmp, lNext, lAddr]

/-- Code that pushes `val` and may overwrite scratch locals on the way. -/
def Leaves (guard : Guard) (frame : Frame) (code : List Op) (val : U64) : Prop :=
  ∀ stack, ∃ locals, (∀ i, i ∉ scratchLocals → locals i = frame.locals i) ∧
    run guard code { frame with stack } = some ⟨.i64 val :: stack, locals, frame.memory⟩

/-- Code that writes `val` to register `rd` of the memory that `frame` has for
`cpu`, and touches nothing else but scratch locals. -/
def WritesRegister (guard : Guard) (frame : Frame) (cpu : Cpu) (code : List Op) (rd : Reg)
    (val : U64) : Prop :=
  ∃ next, run guard code frame = some next ∧
    HoldsRegisters next (cpu.writeReg rd val) ∧
    next.stack = frame.stack ∧
    (∀ i, i ∉ scratchLocals → next.locals i = frame.locals i) ∧
    (next.memory = frame.memory ∨
      ∃ base, frame.locals lRegs = .i32 base ∧
        frame.memory.store base (regOff rd) val = some next.memory)

/-- What `setWith` puts around the code of a value. -/
def storeCode (rd : Reg) (code : List Op) : List Op :=
  if rd = 0 then [] else .localGet lRegs :: (code ++ [.i64Store (regOff rd)])

theorem Emit.setWith_f (e : Emit) (rd : Reg) {body : Emit → Emit}
    (hbody : ∀ e, (body e).f = e.f ++ code) : (e.setWith rd body).f = e.f ++ storeCode rd code := by
  unfold setWith storeCode
  split
  · exact (List.append_nil _).symm
  · simp [regResidentOn, regFwdOn, hbody]

theorem regOff_disjoint {r : Reg} (h : r ≠ rd) :
    regOff r + 8 ≤ regOff rd ∨ regOff rd + 8 ≤ regOff r := by
  have hne : r.toNat ≠ rd.toNat := fun heq => h (BitVec.eq_of_toNat_eq heq)
  unfold regOff
  omega

theorem Leaves.writes {frame : Frame} {cpu : Cpu}
    (hregs : HoldsRegisters frame cpu) (h : Leaves guard frame code val) (rd : Reg) :
    WritesRegister guard frame cpu (storeCode rd code) rd val := by
  by_cases hrd : rd = 0
  · subst hrd
    exact ⟨frame, rfl, hregs, rfl, fun _ _ => rfl, .inl rfl⟩
  obtain ⟨base, hbase, hload⟩ := hregs.regs
  obtain ⟨locals, hkept, hrun⟩ := h (.i32 base :: frame.stack)
  obtain ⟨memory, hstore, hsame, hother⟩ := Memory.store_of_load (hload rd) val
  refine ⟨⟨frame.stack, locals, memory⟩, ?_, ?_, rfl, hkept, .inr ⟨base, hbase, hstore⟩⟩
  · rw [storeCode, if_neg hrd, run, step, Option.bind_some, hbase, run_append, hrun]
    simp only [Option.bind_some, run, step, hstore, Option.map_some]
  refine ⟨⟨base, (hkept lRegs (by decide)).trans hbase, fun r => ?_⟩, ?_⟩
  · rw [cpu.writeReg_x _ hrd]
    by_cases hr : r = rd
    · subst hr
      rw [Function.update_self]
      exact hsame
    · rw [Function.update_of_ne hr]
      exact hother (regOff_disjoint hr) (hload r)
  · rw [cpu.writeReg_x _ hrd, Function.update_of_ne (Ne.symm hrd)]
    exact hregs.zero

theorem getCode_pushes {locals : Nat → Val} {memory : Memory} {cpu : Cpu} {base : U32}
    (hbase : locals lRegs = .i32 base)
    (hload : ∀ r : Reg, memory.load base (regOff r) = some (cpu.x r)) (hzero : cpu.x 0 = 0)
    (r : Reg) : Pushes guard locals memory (getCode r) (cpu.readReg r) := by
  unfold getCode Cpu.readReg
  split
  · rename_i hr
    rw [hr, hzero]
    exact .const
  · exact .load hbase (hload r)

/-- Both operands in the scratch locals, everything else as it was. -/
theorem run_scratch (guard : Guard) {frame : Frame} {cpu : Cpu}
    (hregs : HoldsRegisters frame cpu) (rs1 rs2 : Reg) (rest : List Op) (stack : List Val) :
    ∃ locals, locals lTmp = .i64 (cpu.readReg rs1) ∧ locals lAddr = .i64 (cpu.readReg rs2) ∧
      (∀ i, i ∉ scratchLocals → locals i = frame.locals i) ∧
      run guard (scratchCode rs1 rs2 rest) { frame with stack }
        = run guard rest ⟨stack, locals, frame.memory⟩ := by
  obtain ⟨base, hbase, hload⟩ := hregs.regs
  let first := Function.update frame.locals lTmp (.i64 (cpu.readReg rs1))
  have hbase' : first lRegs = .i32 base := hbase
  refine ⟨Function.update first lAddr (.i64 (cpu.readReg rs2)), rfl, rfl, ?_, ?_⟩
  · intro i hi
    simp only [scratchLocals, List.mem_cons, List.not_mem_nil, or_false, not_or] at hi
    rw [Function.update_of_ne hi.2.2]
    exact Function.update_of_ne hi.1 _ _
  · rw [scratchCode, (getCode_pushes hbase hload hregs.zero rs1).run_localSet]
    exact (getCode_pushes hbase' hload hregs.zero rs2).run_localSet lAddr rest stack

/-- The code of each multiply instruction. -/
def mulCode (op : MulOp) (rs1 rs2 : Reg) : List Op :=
  match op with
  | .mul => getCode rs1 ++ (getCode rs2 ++ [.i64Bin .mul])
  | .mulhu => scratchCode rs1 rs2 mulhuCode
  | .mulh =>
      scratchCode rs1 rs2 (mulhuCode ++ ((signCode lTmp lAddr ++ [.i64Bin .sub])
        ++ (signCode lAddr lTmp ++ [.i64Bin .sub])))
  | .mulhsu => scratchCode rs1 rs2 (mulhuCode ++ (signCode lTmp lAddr ++ [.i64Bin .sub]))
  | .mulw => (getCode rs1 ++ (getCode rs2 ++ [.i64Bin .mul])) ++ [.i64Extend32S]

theorem Emit.emitMul_f (e : Emit) (op : MulOp) (rd rs1 rs2 : Reg) :
    (e.emitMul op rd rs1 rs2).f = e.f ++ storeCode rd (mulCode op rs1 rs2) := by
  apply setWith_f
  intro e
  cases op with
  | _ => simp [mulCode, scratchCode]

section Multiply

variable {frame : Frame} {cpu : Cpu} (hregs : HoldsRegisters frame cpu) (rs1 rs2 : Reg)
include hregs

/-- The unsigned high half, with every operation exact. -/
theorem leaves_mulhu : Leaves fits frame (mulCode .mulhu rs1 rs2)
      (BitVec.ofNat 64 ((cpu.readReg rs1).toNat * (cpu.readReg rs2).toNat / 2 ^ 64)) := by
  intro stack
  obtain ⟨locals, htmp, haddr, hkept, hrun⟩ := run_scratch fits hregs rs1 rs2 mulhuCode stack
  refine ⟨_, ?_, hrun.trans (mulhuCode_run _ htmp haddr stack)⟩
  intro i hi
  have hnext : i ≠ lNext := fun heq => hi (heq ▸ by decide)
  rw [Function.update_of_ne hnext]
  exact hkept i hi

/-- Sign terms on top of the unsigned sequence.  Both scratch operands survive
it, so the terms read them unchanged. -/
theorem leaves_signed {terms : List Op}
    (hterms : ∀ (locals : Nat → Val) (stack : List Val),
      locals lTmp = .i64 (cpu.readReg rs1) → locals lAddr = .i64 (cpu.readReg rs2) →
      run anyOperands terms
          ⟨.i64 (BitVec.ofNat 64
            ((cpu.readReg rs1).toNat * (cpu.readReg rs2).toNat / 2 ^ 64)) :: stack,
            locals, frame.memory⟩
        = some ⟨.i64 val :: stack, locals, frame.memory⟩) :
    Leaves anyOperands frame (scratchCode rs1 rs2 (mulhuCode ++ terms)) val := by
  intro stack
  obtain ⟨locals, htmp, haddr, hkept, hrun⟩ :=
    run_scratch anyOperands hregs rs1 rs2 (mulhuCode ++ terms) stack
  have hunsigned := run_anyOperands (mulhuCode_run frame.memory htmp haddr stack)
  refine ⟨Function.update locals lNext
    (.i64 (middleWord (cpu.readReg rs1) (cpu.readReg rs2))), ?_, ?_⟩
  · intro i hi
    have hnext : i ≠ lNext := fun heq => hi (heq ▸ by decide)
    rw [Function.update_of_ne hnext]
    exact hkept i hi
  · rw [hrun, run_append, hunsigned]
    exact hterms _ stack htmp haddr

theorem leaves_mulhsu : Leaves anyOperands frame (mulCode .mulhsu rs1 rs2)
      (BitVec.ofInt 64 ((cpu.readReg rs1).toInt * (cpu.readReg rs2).toNat / 2 ^ 64)) := by
  apply leaves_signed hregs
  intro locals stack htmp haddr
  rw [run_signTerm htmp haddr, mulhsu_correction]

theorem leaves_mulh : Leaves anyOperands frame (mulCode .mulh rs1 rs2)
      (BitVec.ofInt 64 ((cpu.readReg rs1).toInt * (cpu.readReg rs2).toInt / 2 ^ 64)) := by
  apply leaves_signed hregs
  intro locals stack htmp haddr
  rw [run_append, run_signTerm htmp haddr, Option.bind_some, run_signTerm haddr htmp,
    mulh_correction]

theorem pushes_mul : Pushes anyOperands frame.locals frame.memory (mulCode .mul rs1 rs2)
      (cpu.readReg rs1 * cpu.readReg rs2) := by
  obtain ⟨base, hbase, hload⟩ := hregs.regs
  exact (getCode_pushes hbase hload hregs.zero rs1).bin
    (getCode_pushes hbase hload hregs.zero rs2) rfl

/-- Every compiled multiply leaves the value the interpreter computes. -/
theorem leaves_eval (op : MulOp) : Leaves anyOperands frame (mulCode op rs1 rs2)
      (op.regOp.eval (cpu.readReg rs1) (cpu.readReg rs2)) := by
  cases op with
  | mul =>
    intro stack
    exact ⟨frame.locals, fun _ _ => rfl, pushes_mul hregs rs1 rs2 stack⟩
  | mulw =>
    intro stack
    refine ⟨frame.locals, fun _ _ => rfl, ?_⟩
    have hvalue := (pushes_mul hregs rs1 rs2).extend32S stack
    rw [BitVec.setWidth_mul _ _ (by decide)] at hvalue
    exact hvalue
  | mulhu =>
    intro stack
    obtain ⟨locals, hkept, hrun⟩ := leaves_mulhu hregs rs1 rs2 stack
    refine ⟨locals, hkept, ?_⟩
    have hvalue := RegOp.eval_mulhu (cpu.readReg rs1) (cpu.readReg rs2)
    rw [MulOp.regOp, hvalue, ← ofNat_highProduct]
    exact run_anyOperands hrun
  | mulh =>
    have hvalue := RegOp.eval_mulh (cpu.readReg rs1) (cpu.readReg rs2)
    exact hvalue ▸ leaves_mulh hregs rs1 rs2
  | mulhsu =>
    have hvalue := RegOp.eval_mulhsu (cpu.readReg rs1) (cpu.readReg rs2)
    exact hvalue ▸ leaves_mulhsu hregs rs1 rs2

end Multiply

/-- The compiled high multiplies.  The sequence for `Mulhu` runs without an
operation of it leaving 64 bits and writes the floor of the unsigned product
over `2 ^ 64`; those for `Mulh` and `Mulhsu` write the high half of the exact
signed and mixed products; and after each of them the register file is the one
the interpreter leaves. -/
theorem compiledMultiply_exact [FloatOps] {β : Type u} [Bus β] (e : Emit)
    (rd rs1 rs2 : Reg) {cpu : Cpu} {frame : Frame} (hregs : HoldsRegisters frame cpu) :
    (∃ code, (e.emitMul .mulhu rd rs1 rs2).f = e.f ++ code ∧
      WritesRegister fits frame cpu code rd
        (BitVec.ofNat 64 ((cpu.readReg rs1).toNat * (cpu.readReg rs2).toNat / 2 ^ 64))) ∧
    (∃ code, (e.emitMul .mulh rd rs1 rs2).f = e.f ++ code ∧
      WritesRegister anyOperands frame cpu code rd
        (BitVec.ofInt 64 ((cpu.readReg rs1).toInt * (cpu.readReg rs2).toInt / 2 ^ 64))) ∧
    (∃ code, (e.emitMul .mulhsu rd rs1 rs2).f = e.f ++ code ∧
      WritesRegister anyOperands frame cpu code rd
        (BitVec.ofInt 64 ((cpu.readReg rs1).toInt * (cpu.readReg rs2).toNat / 2 ^ 64))) ∧
    ∀ (op : MulOp) (width : U64) (bus : β), ∃ code next,
      (e.emitMul op rd rs1 rs2).f = e.f ++ code ∧
      run anyOperands code frame = some next ∧
      HoldsRegisters next (executeWidth cpu (.op op.regOp rd rs1 rs2) width bus).2.1 := by
  refine ⟨⟨_, e.emitMul_f .mulhu rd rs1 rs2, ?_⟩, ⟨_, e.emitMul_f .mulh rd rs1 rs2, ?_⟩,
    ⟨_, e.emitMul_f .mulhsu rd rs1 rs2, ?_⟩, ?_⟩
  · exact (leaves_mulhu hregs rs1 rs2).writes hregs rd
  · exact (leaves_mulh hregs rs1 rs2).writes hregs rd
  · exact (leaves_mulhsu hregs rs1 rs2).writes hregs rd
  intro op width bus
  obtain ⟨next, hrun, hholds, -⟩ := (leaves_eval hregs rs1 rs2 op).writes hregs rd
  exact ⟨_, next, e.emitMul_f op rd rs1 rs2, hrun, hholds.regs, hholds.zero⟩

/-- Registers with minus one in `x1` and two in `x2`. -/
def operandCpu : Cpu := ((Cpu.new 0).writeReg 1 (BitVec.allOnes 64)).writeReg 2 2

/-- The same registers at the start of a memory of one page. -/
def operandFrame : Frame where
  stack := []
  locals := fun _ => .i32 0
  memory := ⟨fun addr => if addr.toNat / 8 = 1 then 0xFF else if addr = 16 then 2 else 0,
    65536, by decide⟩

theorem operandFrame_holdsRegisters : HoldsRegisters operandFrame operandCpu :=
  ⟨⟨0, rfl, by decide +kernel⟩, rfl⟩

/-- A product over one of its own operands: `x1` becomes the high half of
minus one times two. -/
theorem compiledMultiply_exact_aliased :
    HoldsRegisters operandFrame operandCpu ∧
    ∃ code, ((Emit.mk [] none fun _ => false).emitMul .mulhsu 1 1 2).f = [] ++ code ∧
      WritesRegister anyOperands operandFrame operandCpu code 1 (BitVec.allOnes 64) :=
  letI := FloatOps.zero
  ⟨operandFrame_holdsRegisters,
    (compiledMultiply_exact (β := Ram) _ 1 1 2 operandFrame_holdsRegisters).2.2.1⟩

end TabLinux
