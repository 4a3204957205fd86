/-
The F and D compute instructions: OP-FP and the fused multiply-add forms, with
NaN boxing, canonical NaNs and the accrued exception flags.  Loads and stores
of `f` registers are executed elsewhere.
-/
import TabLinux.Cpu

namespace TabLinux

open FloatOps

variable [FloatOps]

def fflagNX : U64 := 1
def fflagOF : U64 := 4
def fflagDZ : U64 := 8
def fflagNV : U64 := 16

def canonNanS : U32 := 0x7fc00000
def canonNanD : U64 := 0x7ff8000000000000

/-- An improperly boxed single reads as the canonical NaN. -/
def unboxS (bits : U64) : U32 :=
  if bits >>> 32 = 0xFFFFFFFF then bits.setWidth 32 else canonNanS

def isNanS (b : U32) : Bool :=
  b &&& 0x7f800000 = 0x7f800000 && b &&& 0x007fffff ≠ 0

def isInfS (b : U32) : Bool :=
  b &&& 0x7f800000 = 0x7f800000 && b &&& 0x007fffff = 0

def isFiniteS (b : U32) : Bool :=
  b &&& 0x7f800000 ≠ 0x7f800000

def isNanD (b : U64) : Bool :=
  b &&& 0x7ff0000000000000 = 0x7ff0000000000000 && b &&& 0x000fffffffffffff ≠ 0

def isInfD (b : U64) : Bool :=
  b &&& 0x7ff0000000000000 = 0x7ff0000000000000 && b &&& 0x000fffffffffffff = 0

def isFiniteD (b : U64) : Bool :=
  b &&& 0x7ff0000000000000 ≠ 0x7ff0000000000000

def isSnanS (b : U32) : Bool := isNanS b && b &&& 0x00400000 = 0

def isSnanD (b : U64) : Bool := isNanD b && b &&& 0x0008000000000000 = 0

def negS (b : U32) : U32 := b ^^^ 0x80000000

def negD (b : U64) : U64 := b ^^^ 0x8000000000000000

/-- A result with NaN made canonical, boxed for the register file. -/
def resultS (v : U32) : U64 := boxS (if isNanS v then canonNanS else v)

def resultD (v : U64) : U64 := if isNanD v then canonNanD else v

/-- Result of one FP instruction: flags to accrue, whether FP state was
written, and whether the encoding was valid at all. -/
structure FpResult where
  flags : U64
  dirty : Bool
  ok : Bool
deriving DecidableEq, Repr

def FpResult.bad : FpResult := ⟨0, false, false⟩

/-- Raise a flag under a condition. -/
def raise (cond : Bool) (flag : U64) : U64 := if cond then flag else 0

def fclassBits (sign expMax expZero mantZero quiet : Bool) : U64 :=
  if expMax && mantZero then (if sign then 1#64 <<< 0 else 1#64 <<< 7)
  else if expMax then (if quiet then 1#64 <<< 9 else 1#64 <<< 8)
  else if expZero && mantZero then (if sign then 1#64 <<< 3 else 1#64 <<< 4)
  else if expZero then (if sign then 1#64 <<< 2 else 1#64 <<< 5)
  else if sign then 1#64 <<< 1
  else 1#64 <<< 6

def fclassS (b : U32) : U64 :=
  fclassBits (b >>> 31 = 1) (b &&& 0x7f800000 = 0x7f800000) (b &&& 0x7f800000 = 0)
    (b &&& 0x007fffff = 0) (b &&& 0x00400000 ≠ 0)

def fclassD (b : U64) : U64 :=
  fclassBits (b >>> 63 = 1) (b &&& 0x7ff0000000000000 = 0x7ff0000000000000)
    (b &&& 0x7ff0000000000000 = 0) (b &&& 0x000fffffffffffff = 0)
    (b &&& 0x0008000000000000 ≠ 0)

/-- Exact residual of a double operation by error-free transforms. -/
def residualD (op : BitVec 5) (a b v : U64) : U64 :=
  if op = 0 then
    let bb := subD v a
    addD (subD a (subD v bb)) (subD b bb)
  else if op = 1 then
    let nb := negD b
    let bb := subD v a
    addD (subD a (subD v bb)) (subD nb bb)
  else if op = 2 then fmaD a b (negD v)
  else fmaD (negD v) b a

def inexactS (exact : U64) (v : U32) : Bool :=
  isFiniteS v && !eqD (widen v) exact

/-- Conversion to an integer: `top` for NaN and at or above `high`, `bottom`
where `below` holds, and the truncated value in range. -/
def cvtSaturating (v top high bottom : U64) (below : U64 → Bool)
    (inRange : U64 → U64) : U64 × U64 :=
  if isNanD v then (top, fflagNV)
  else
    let r := truncD v
    if leD high r then (top, fflagNV)
    else if below r then (bottom, fflagNV)
    else (inRange r, raise (!eqD r v) fflagNX)

def f64ToI64 (v : U64) : U64 × U64 :=
  cvtSaturating v 0x7FFFFFFFFFFFFFFF 0x43E0000000000000 0x8000000000000000
    (ltD · 0xC3E0000000000000) toI64

def f64ToU64 (v : U64) : U64 × U64 :=
  cvtSaturating v 0xFFFFFFFFFFFFFFFF 0x43F0000000000000 0
    (leD · 0xBFF0000000000000) toU64

def f64ToI32 (v : U64) : U64 × U64 :=
  cvtSaturating v 0x7FFFFFFF 0x41E0000000000000 0xFFFFFFFF80000000
    (ltD · 0xC1E0000000000000) (fun r => wordResult (toI32 r))

def f64ToU32 (v : U64) : U64 × U64 :=
  cvtSaturating v 0xFFFFFFFFFFFFFFFF 0x41F0000000000000 0
    (leD · 0xBFF0000000000000) (fun r => wordResult (toU32 r))

/-- FMIN and FMAX on values with comparisons `eq` and `lt`; `none` when both
operands are NaN. -/
def minMax {n : Nat} (eq lt : BitVec n → BitVec n → Bool) (a b : BitVec n)
    (aNan bNan isMax negA : Bool) : Option (BitVec n) :=
  match aNan, bNan with
  | true, true => none
  | true, false => some b
  | false, true => some a
  | false, false =>
      if eq a b then
        -- Zeros of different sign compare equal: min takes the negative one.
        some (if (if isMax then !negA else negA) then a else b)
      else if lt a b != isMax then some a
      else some b

def rdOf (raw : U32) : Reg := raw.extractLsb' 7 5
def rs1Of (raw : U32) : Reg := raw.extractLsb' 15 5
def rs2Of (raw : U32) : Reg := raw.extractLsb' 20 5
def rs3Of (raw : U32) : Reg := raw.extractLsb' 27 5
def funct3Of (raw : U32) : BitVec 3 := raw.extractLsb' 12 3
def fmtOf (raw : U32) : BitVec 2 := raw.extractLsb' 25 2
def opcodeOf (raw : U32) : BitVec 7 := raw.extractLsb' 0 7

/-- `funct7 >> 2`, the operation of an OP-FP word. -/
def fpOpOf (raw : U32) : BitVec 5 := raw.extractLsb' 27 5

variable (cpu : Cpu) (raw : U32)

/-- The fused forms; the N forms negate the product. -/
def fpFused : FpResult × Cpu :=
  let negProd := opcodeOf raw = 0x4b || opcodeOf raw = 0x4f
  let negAdd := opcodeOf raw = 0x47 || opcodeOf raw = 0x4f
  let fa := cpu.f (rs1Of raw)
  let fb := cpu.f (rs2Of raw)
  let fc := cpu.f (rs3Of raw)
  if fmtOf raw = 0 then
    let a := if negProd then negS (unboxS fa) else unboxS fa
    let b := unboxS fb
    let c := if negAdd then negS (unboxS fc) else unboxS fc
    let v := fmaS a b c
    let exact := addD
      (mulD (widen a) (widen b)) (widen c)
    let nx := raise (isFiniteS a && isFiniteS b && isFiniteS c && inexactS exact v) fflagNX
    let nv := raise ((isNanS a || isNanS b || isNanS c) &&
      (isSnanS (fa.setWidth 32) || isSnanS (fb.setWidth 32) || isSnanS (fc.setWidth 32))) fflagNV
    (⟨nx ||| nv, true, true⟩, cpu.writeFreg (rdOf raw) (resultS v))
  else if fmtOf raw = 1 then
    let a := if negProd then negD fa else fa
    let b := fb
    let c := if negAdd then negD fc else fc
    let v := fmaD a b c
    let p := mulD a b
    let pe := fmaD a b (negD p)
    let s := addD p c
    let bb := subD s p
    let se := addD (subD p (subD s bb)) (subD c bb)
    let nx := raise (isFiniteD a && isFiniteD b && isFiniteD c && isFiniteD v &&
      !eqD (addD pe se) 0) fflagNX
    let nv := raise (isSnanD fa || isSnanD fb || isSnanD fc) fflagNV
    (⟨nx ||| nv, true, true⟩, cpu.writeFreg (rdOf raw) (resultD v))
  else (FpResult.bad, cpu)

/-- The flags of a division by its operands alone. -/
def divideFlags (aNan aZero bZero : Bool) : U64 :=
  if bZero && !aNan && !aZero then fflagDZ
  else if aZero && bZero then fflagNV
  else 0

/-- FADD, FSUB, FMUL and FDIV for `op` 0 to 3. -/
def fpArith : FpResult × Cpu :=
  let op := fpOpOf raw
  let fa := cpu.f (rs1Of raw)
  let fb := cpu.f (rs2Of raw)
  if fmtOf raw = 0 then
    let a := unboxS fa
    let b := unboxS fb
    let snan := raise (isSnanS (fa.setWidth 32) || isSnanS (fb.setWidth 32)) fflagNV
    let divide := if op = 3 then
      divideFlags (isNanS a) (eqS a 0) (eqS b 0) else 0
    let v := if op = 0 then addS a b else if op = 1 then subS a b
      else if op = 2 then mulS a b else divS a b
    let invalid := raise (isNanS v && !isNanS a && !isNanS b) fflagNV
    let x := widen a
    let y := widen b
    let exact := if op = 0 then addD x y else if op = 1 then subD x y
      else if op = 2 then mulD x y else divD x y
    let rounding :=
      if isInfS v && isFiniteS a && isFiniteS b && op ≠ 3 then fflagOF ||| fflagNX
      else raise (isFiniteS a && isFiniteS b && inexactS exact v) fflagNX
    (⟨snan ||| divide ||| invalid ||| rounding, true, true⟩, cpu.writeFreg (rdOf raw) (resultS v))
  else if fmtOf raw = 1 then
    let a := fa
    let b := fb
    let snan := raise (isSnanD fa || isSnanD fb) fflagNV
    let divide := if op = 3 then
      divideFlags (isNanD a) (eqD a 0) (eqD b 0) else 0
    let v := if op = 0 then addD a b else if op = 1 then subD a b
      else if op = 2 then mulD a b else divD a b
    let invalid := raise (isNanD v && !isNanD a && !isNanD b) fflagNV
    let rounding :=
      if isInfD v && isFiniteD a && isFiniteD b && op ≠ 3 then fflagOF ||| fflagNX
      else raise (isFiniteD a && isFiniteD b && isFiniteD v &&
        !eqD (residualD op a b v) 0) fflagNX
    (⟨snan ||| divide ||| invalid ||| rounding, true, true⟩, cpu.writeFreg (rdOf raw) (resultD v))
  else (FpResult.bad, cpu)

/-- FSQRT; every format other than single is taken as double. -/
def fpSqrt : FpResult × Cpu :=
  if fmtOf raw = 0 then
    let a := unboxS (cpu.f (rs1Of raw))
    let v := sqrtS a
    let nv := raise (ltS a 0) fflagNV
    let nx := raise (isFiniteS a && ltS 0 a &&
      inexactS (sqrtD (widen a)) v) fflagNX
    (⟨nv ||| nx, true, true⟩, cpu.writeFreg (rdOf raw) (resultS v))
  else
    let a := cpu.f (rs1Of raw)
    let v := sqrtD a
    let nv := raise (ltD a 0) fflagNV
    let nx := raise (isFiniteD a && ltD 0 a &&
      !eqD (fmaD (negD v) v a) 0) fflagNX
    (⟨nv ||| nx, true, true⟩, cpu.writeFreg (rdOf raw) (resultD v))

/-- The sign a sign-injection form gives to its first operand. -/
def injectedSign {n : Nat} (funct3 : BitVec 3) (a b mask : BitVec n) :
    Option (BitVec n) :=
  if funct3 = 0 then some (b &&& mask)
  else if funct3 = 1 then some (~~~ b &&& mask)
  else if funct3 = 2 then some ((a ^^^ b) &&& mask)
  else none

def fpSgnj : FpResult × Cpu :=
  let fa := cpu.f (rs1Of raw)
  let fb := cpu.f (rs2Of raw)
  if fmtOf raw = 0 then
    match injectedSign (funct3Of raw) (unboxS fa) (unboxS fb) 0x80000000 with
    | none => (FpResult.bad, cpu)
    | some sign => (⟨0, true, true⟩,
        cpu.writeFreg (rdOf raw) (boxS ((unboxS fa &&& 0x7fffffff) ||| sign)))
  else if fmtOf raw = 1 then
    match injectedSign (funct3Of raw) fa fb 0x8000000000000000 with
    | none => (FpResult.bad, cpu)
    | some sign => (⟨0, true, true⟩,
        cpu.writeFreg (rdOf raw) ((fa &&& 0x7fffffffffffffff) ||| sign))
  else (FpResult.bad, cpu)

def fpMinMax : FpResult × Cpu :=
  let isMax : Bool := funct3Of raw = 1
  let fa := cpu.f (rs1Of raw)
  let fb := cpu.f (rs2Of raw)
  if fmtOf raw = 0 then
    let a := unboxS fa
    let b := unboxS fb
    let nv := raise (isSnanS (fa.setWidth 32) || isSnanS (fb.setWidth 32)) fflagNV
    let v := minMax eqS ltS a b (isNanS a) (isNanS b) isMax (a.getLsbD 31)
    (⟨nv, true, true⟩, cpu.writeFreg (rdOf raw) (boxS (v.getD canonNanS)))
  else if fmtOf raw = 1 then
    let nv := raise (isSnanD fa || isSnanD fb) fflagNV
    let v := minMax eqD ltD fa fb (isNanD fa) (isNanD fb) isMax (fa.getLsbD 63)
    (⟨nv, true, true⟩, cpu.writeFreg (rdOf raw) (v.getD canonNanD))
  else (FpResult.bad, cpu)

/-- FCVT.S.D and FCVT.D.S. -/
def fpCvtFloat : FpResult × Cpu :=
  let fa := cpu.f (rs1Of raw)
  if fmtOf raw = 0 && rs2Of raw = 1 then
    let nv := raise (isSnanD fa) fflagNV
    let v := narrow fa
    let rounding :=
      if isNanS v then 0
      else if isInfS v && isFiniteD fa then fflagOF ||| fflagNX
      else raise (!eqD (widen v) fa) fflagNX
    (⟨nv ||| rounding, true, true⟩, cpu.writeFreg (rdOf raw) (resultS v))
  else if fmtOf raw = 1 && rs2Of raw = 0 then
    let nv := raise (isSnanS (fa.setWidth 32)) fflagNV
    (⟨nv, true, true⟩, cpu.writeFreg (rdOf raw) (resultD (widen (unboxS fa))))
  else (FpResult.bad, cpu)

/-- FEQ, FLT and FLE of operands with comparisons `eq`, `lt` and `le`. -/
def fpComparison {n : Nat} (funct3 : BitVec 3) (eq lt le : BitVec n → BitVec n → Bool)
    (a b : BitVec n) : Option Bool :=
  if funct3 = 2 then some (eq a b)
  else if funct3 = 1 then some (lt a b)
  else if funct3 = 0 then some (le a b)
  else none

def fpCompare : FpResult × Cpu :=
  let fa := cpu.f (rs1Of raw)
  let fb := cpu.f (rs2Of raw)
  -- FEQ is quiet: only a signalling NaN raises.  FLT and FLE raise on any NaN.
  let flags (sig anyNan : Bool) :=
    raise ((funct3Of raw = 2 && sig) || (funct3Of raw ≠ 2 && anyNan)) fflagNV
  if fmtOf raw = 0 then
    match fpComparison (funct3Of raw) eqS ltS leS
        (unboxS fa) (unboxS fb) with
    | none => (FpResult.bad, cpu)
    | some res =>
        (⟨flags (isSnanS (fa.setWidth 32) || isSnanS (fb.setWidth 32))
            (isNanS (unboxS fa) || isNanS (unboxS fb)), false, true⟩,
          cpu.writeReg (rdOf raw) (boolWord res))
  else if fmtOf raw = 1 then
    match fpComparison (funct3Of raw) eqD ltD leD fa fb with
    | none => (FpResult.bad, cpu)
    | some res =>
        (⟨flags (isSnanD fa || isSnanD fb) (isNanD fa || isNanD fb), false, true⟩,
          cpu.writeReg (rdOf raw) (boolWord res))
  else (FpResult.bad, cpu)

/-- FCLASS, FMV.X.W and FMV.X.D. -/
def fpToX : FpResult × Cpu :=
  let fa := cpu.f (rs1Of raw)
  let v :=
    if funct3Of raw = 1 && fmtOf raw = 0 then some (fclassS (fa.setWidth 32))
    else if funct3Of raw = 1 && fmtOf raw = 1 then some (fclassD fa)
    else if funct3Of raw = 0 && fmtOf raw = 0 then some (wordResult (fa.setWidth 32))
    else if funct3Of raw = 0 && fmtOf raw = 1 then some fa
    else none
  match v with
  | none => (FpResult.bad, cpu)
  | some v => (⟨0, false, true⟩, cpu.writeReg (rdOf raw) v)

/-- FMV.W.X and FMV.D.X. -/
def fpOfX : FpResult × Cpu :=
  let x := cpu.readReg (rs1Of raw)
  if fmtOf raw = 0 then
    (⟨0, true, true⟩, cpu.writeFreg (rdOf raw) (boxS (x.setWidth 32)))
  else if fmtOf raw = 1 then (⟨0, true, true⟩, cpu.writeFreg (rdOf raw) x)
  else (FpResult.bad, cpu)

/-- Float to integer. -/
def fpToInt : FpResult × Cpu :=
  let convert (v : U64) : FpResult × Cpu :=
    let res :=
      if rs2Of raw = 0 then some (f64ToI32 v)
      else if rs2Of raw = 1 then some (f64ToU32 v)
      else if rs2Of raw = 2 then some (f64ToI64 v)
      else if rs2Of raw = 3 then some (f64ToU64 v)
      else none
    match res with
    | none => (FpResult.bad, cpu)
    | some (res, flags) => (⟨flags, false, true⟩, cpu.writeReg (rdOf raw) res)
  if fmtOf raw = 0 then convert (widen (unboxS (cpu.f (rs1Of raw))))
  else if fmtOf raw = 1 then convert (cpu.f (rs1Of raw))
  else (FpResult.bad, cpu)

/-- Integer to float. -/
def fpOfInt : FpResult × Cpu :=
  let x := cpu.readReg (rs1Of raw)
  let v :=
    if rs2Of raw = 0 then some (ofI32 (x.setWidth 32))
    else if rs2Of raw = 1 then some (ofU32 (x.setWidth 32))
    else if rs2Of raw = 2 then some (ofI64 x)
    else if rs2Of raw = 3 then some (ofU64 x)
    else none
  match v with
  | none => (FpResult.bad, cpu)
  | some v =>
      if fmtOf raw = 0 then
        let f := narrow v
        (⟨raise (!eqD (widen f) v) fflagNX, true, true⟩,
          cpu.writeFreg (rdOf raw) (boxS f))
      else if fmtOf raw = 1 then
        let back := if rs2Of raw = 2 then toI64 v else toU64 v
        let nx := raise ((rs2Of raw = 2 || rs2Of raw = 3) && back ≠ x) fflagNX
        (⟨nx, true, true⟩, cpu.writeFreg (rdOf raw) v)
      else (FpResult.bad, cpu)

/-- Execute one OP-FP or fused multiply-add word. -/
def fpuExecute : FpResult × Cpu :=
  let opcode := opcodeOf raw
  if opcode = 0x43 || opcode = 0x47 || opcode = 0x4b || opcode = 0x4f then
    fpFused cpu raw
  else if opcode ≠ 0x53 then (FpResult.bad, cpu)
  else
    match fpOpOf raw with
    | 0b00000#5 | 0b00001#5 | 0b00010#5 | 0b00011#5 => fpArith cpu raw
    | 0b01011#5 => fpSqrt cpu raw
    | 0b00100#5 => fpSgnj cpu raw
    | 0b00101#5 => fpMinMax cpu raw
    | 0b01000#5 => fpCvtFloat cpu raw
    | 0b10100#5 => fpCompare cpu raw
    | 0b11100#5 => fpToX cpu raw
    | 0b11110#5 => fpOfX cpu raw
    | 0b11000#5 => fpToInt cpu raw
    | 0b11010#5 => fpOfInt cpu raw
    | _ => (FpResult.bad, cpu)

end TabLinux
