/-
The fixed fields of the FP words: what the manual defines, and which of them the
execution of a word reads.
-/
import TabLinux.FpEvents

namespace TabLinux

section

variable (raw : U32)

/-- The single or the double format. -/
def FpFormat : Prop := fmtOf raw = 0 ∨ fmtOf raw = 1

abbrev isFusedOpcode : Bool :=
  opcodeOf raw = 0x43 || opcodeOf raw = 0x47 || opcodeOf raw = 0x4b || opcodeOf raw = 0x4f

/-- The fields of an OP-FP word that are no operands have their defined values. -/
def FpFixed : Prop :=
  match fpOpOf raw with
  | 0b00000#5 | 0b00001#5 | 0b00010#5 | 0b00011#5 => True
  | 0b01011#5 => rs2Of raw = 0
  | 0b00100#5 | 0b10100#5 => funct3Of raw ∈ [0, 1, 2]
  | 0b00101#5 => funct3Of raw ∈ [0, 1]
  | 0b01000#5 => rs2Of raw = if fmtOf raw = 0 then 1 else 0
  | 0b11100#5 => funct3Of raw ∈ [0, 1] ∧ rs2Of raw = 0
  | 0b11110#5 => funct3Of raw = 0 ∧ rs2Of raw = 0
  | 0b11000#5 | 0b11010#5 => rs2Of raw ∈ [0, 1, 2, 3]
  | _ => False

/-- The words of the F and D extensions. -/
def FpDefined : Prop :=
  FpFormat raw ∧ (isFusedOpcode raw = true ∨ opcodeOf raw = 0x53 ∧ FpFixed raw)

/-- The fields that no arm looks at: the format and `rs2` of FSQRT, `funct3` of FMIN and
FMAX, `rs2` of the moves to `x` and of FCLASS, both fields of the moves from `x`. -/
def FpUnread : Prop :=
  match fpOpOf raw with
  | 0b01011#5 => FpFormat raw ∧ rs2Of raw = 0
  | 0b00101#5 => FpFormat raw → funct3Of raw ∈ [0, 1]
  | 0b11100#5 => FpFormat raw → funct3Of raw ∈ [0, 1] → rs2Of raw = 0
  | 0b11110#5 => FpFormat raw → funct3Of raw = 0 ∧ rs2Of raw = 0
  | _ => True

end

section

variable [FloatOps] (cpu : Cpu) (raw : U32)

theorem fpFused_ok : (fpFused cpu raw).1.ok = true ↔ FpFormat raw := by
  simp only [fpFused, FpFormat]
  split_ifs <;> simp_all [FpResult.bad]

/-- Which OP-FP words each arm accepts. -/
theorem fpArith_ok : (fpArith cpu raw).1.ok = true ↔ FpFormat raw := by
  simp only [fpArith, FpFormat]
  split_ifs <;> simp_all [FpResult.bad]

theorem fpSqrt_ok : (fpSqrt cpu raw).1.ok = true := by
  simp only [fpSqrt]
  split_ifs <;> rfl

omit [FloatOps] in
theorem fpSgnj_ok : (fpSgnj cpu raw).1.ok = true ↔ FpFormat raw ∧ funct3Of raw ∈ [0, 1, 2] := by
  simp only [fpSgnj, FpFormat, injectedSign]
  split_ifs <;> simp_all [FpResult.bad]

theorem fpMinMax_ok : (fpMinMax cpu raw).1.ok = true ↔ FpFormat raw := by
  simp only [fpMinMax, FpFormat]
  split_ifs <;> simp_all [FpResult.bad]

theorem fpCvtFloat_ok : (fpCvtFloat cpu raw).1.ok = true ↔
    FpFormat raw ∧ rs2Of raw = if fmtOf raw = 0 then 1 else 0 := by
  simp only [fpCvtFloat, FpFormat]
  split_ifs <;> simp_all [FpResult.bad]

theorem fpCompare_ok :
    (fpCompare cpu raw).1.ok = true ↔ FpFormat raw ∧ funct3Of raw ∈ [0, 1, 2] := by
  simp only [fpCompare, FpFormat, fpComparison]
  split_ifs <;> simp_all [FpResult.bad]

omit [FloatOps] in
theorem fpToX_ok : (fpToX cpu raw).1.ok = true ↔ FpFormat raw ∧ funct3Of raw ∈ [0, 1] := by
  simp only [fpToX, FpFormat]
  split_ifs <;> simp_all [FpResult.bad]
  tauto

omit [FloatOps] in
theorem fpOfX_ok : (fpOfX cpu raw).1.ok = true ↔ FpFormat raw := by
  simp only [fpOfX, FpFormat]
  split_ifs <;> simp_all [FpResult.bad]

theorem fpToInt_ok : (fpToInt cpu raw).1.ok = true ↔ FpFormat raw ∧ rs2Of raw ∈ [0, 1, 2, 3] := by
  simp only [fpToInt, FpFormat]
  split_ifs <;> simp_all [FpResult.bad]

theorem fpOfInt_ok : (fpOfInt cpu raw).1.ok = true ↔ FpFormat raw ∧ rs2Of raw ∈ [0, 1, 2, 3] := by
  simp only [fpOfInt, FpFormat]
  split_ifs <;> simp_all [FpResult.bad]

theorem fpuExecute_defined_iff :
    (((fpuExecute cpu raw).1.ok = true → FpDefined raw) ↔
        (opcodeOf raw = 0x53 → FpUnread raw)) ∧
      ((fpuExecute cpu raw).1.ok = false → (fpuExecute cpu raw).2 = cpu) := by
  refine ⟨?_, fun hok => ?_⟩
  · rw [fpuExecute, FpDefined]
    by_cases hfused : isFusedOpcode raw = true
    · have hop : opcodeOf raw ≠ 0x53 := by
        intro hop
        simp [isFusedOpcode, hop] at hfused
      rw [if_pos hfused, fpFused_ok]
      exact iff_of_true (fun hformat => ⟨hformat, .inl hfused⟩) (absurd · hop)
    rw [if_neg hfused]
    by_cases hop : opcodeOf raw = 0x53
    · rw [if_neg (not_not.mpr hop), FpFixed, FpUnread]
      split <;> rename_i h <;> simp [h, hop, fpArith_ok, fpSgnj_ok, fpMinMax_ok, fpCvtFloat_ok,
        fpCompare_ok, fpToX_ok, fpOfX_ok, fpToInt_ok, fpOfInt_ok, fpSqrt_ok, FpResult.bad]
      all_goals tauto
    · rw [if_pos hop]
      exact iff_of_true (fun h => by cases h) (absurd · hop)
  · have hout := fpuExecute_outcome cpu raw
    generalize fpuExecute cpu raw = out at hok hout
    cases hout with
    | bad => rfl
    | float => cases hok
    | int => cases hok

end

/-- A square root in the half format is taken as one in the double format. -/
theorem halfSqrt_accepted :
    letI := FloatOps.zero
    (fpuExecute (Cpu.new 0) 0x5C000053).1.ok = true ∧ ¬FpDefined 0x5C000053 := by
  refine ⟨rfl, fun hdefined => ?_⟩
  have hformat := hdefined.1
  revert hformat
  unfold FpFormat
  decide

end TabLinux
