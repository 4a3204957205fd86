/-
Overflow-checked machine arithmetic: the operations of a language that stops
the program where a result does not fit, a shift is as wide as the word, or a
division has no result.
-/
import Mathlib.Algebra.Group.Int.Defs
import Mathlib.Algebra.Group.Nat.Defs
import Mathlib.Logic.Basic

namespace Checked

inductive Fault where
  | overflow | shift | division | index
deriving DecidableEq, Repr

variable {w : Nat}

def mulU (x y : BitVec w) : Except Fault (BitVec w) :=
  if x.toNat * y.toNat < 2 ^ w then .ok (x * y) else .error .overflow

def mulS (x y : BitVec w) : Except Fault (BitVec w) :=
  if -2 ^ (w - 1) ≤ x.toInt * y.toInt ∧ x.toInt * y.toInt < 2 ^ (w - 1) then .ok (x * y)
  else .error .overflow

def shl (x : BitVec w) (s : Nat) : Except Fault (BitVec w) :=
  if s < w then .ok (x <<< s) else .error .shift

def shr (x : BitVec w) (s : Nat) : Except Fault (BitVec w) :=
  if s < w then .ok (x >>> s) else .error .shift

def sar (x : BitVec w) (s : Nat) : Except Fault (BitVec w) :=
  if s < w then .ok (x.sshiftRight s) else .error .shift

def divU (x y : BitVec w) : Except Fault (BitVec w) :=
  if y = 0 then .error .division else .ok (x.udiv y)

def remU (x y : BitVec w) : Except Fault (BitVec w) :=
  if y = 0 then .error .division else .ok (x.umod y)

/-- The one quotient of signed words that is no signed word. -/
def QuotientOverflows (x y : BitVec w) : Prop :=
  x = BitVec.intMin w ∧ y = BitVec.allOnes w

instance (x y : BitVec w) : Decidable (QuotientOverflows x y) :=
  inferInstanceAs (Decidable (_ ∧ _))

def divS (x y : BitVec w) : Except Fault (BitVec w) :=
  if y = 0 then .error .division
  else if QuotientOverflows x y then .error .overflow
  else .ok (x.sdiv y)

def remS (x y : BitVec w) : Except Fault (BitVec w) :=
  if y = 0 then .error .division
  else if QuotientOverflows x y then .error .overflow
  else .ok (x.srem y)

section Rules

variable {x y : BitVec w} {s : Nat}

theorem mulU_eq_ok (h : x.toNat * y.toNat < 2 ^ w) : mulU x y = .ok (x * y) := if_pos h

theorem mulU_eq_error (h : ¬x.toNat * y.toNat < 2 ^ w) : mulU x y = .error .overflow := if_neg h

theorem mulS_eq_ok (hlo : -2 ^ (w - 1) ≤ x.toInt * y.toInt)
    (hhi : x.toInt * y.toInt < 2 ^ (w - 1)) : mulS x y = .ok (x * y) := if_pos ⟨hlo, hhi⟩

theorem shl_eq_ok (h : s < w) : shl x s = .ok (x <<< s) := if_pos h

theorem shr_eq_ok (h : s < w) : shr x s = .ok (x >>> s) := if_pos h

theorem sar_eq_ok (h : s < w) : sar x s = .ok (x.sshiftRight s) := if_pos h

theorem divU_eq_ok (hy : y ≠ 0) : divU x y = .ok (x.udiv y) := if_neg hy

theorem remU_eq_ok (hy : y ≠ 0) : remU x y = .ok (x.umod y) := if_neg hy

theorem divS_eq_ok (hy : y ≠ 0) (h : ¬QuotientOverflows x y) : divS x y = .ok (x.sdiv y) := by
  rw [divS, if_neg hy, if_neg h]

theorem remS_eq_ok (hy : y ≠ 0) (h : ¬QuotientOverflows x y) : remS x y = .ok (x.srem y) := by
  rw [remS, if_neg hy, if_neg h]

/-- An unsigned product of words fits in a word of twice the width. -/
theorem mulU_zeroExtend (a b : BitVec w) :
    mulU (a.zeroExtend (w + w)) (b.zeroExtend (w + w)) =
      .ok (a.zeroExtend (w + w) * b.zeroExtend (w + w)) := by
  apply mulU_eq_ok
  rw [BitVec.toNat_setWidth_of_le (by omega), BitVec.toNat_setWidth_of_le (by omega), Nat.pow_add]
  exact Nat.mul_lt_mul'' a.isLt b.isLt

end Rules

end Checked
