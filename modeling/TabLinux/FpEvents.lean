/-
The floating-point status as a machine of its own.

`mstatus` keeps the FS field and, as a stored bit, its summary SD.  What a step of
the hart does to the floating-point state and to these fields is one of six events,
and the interpreter and the shims of compiled code perform them.
-/
import TabLinux.FsGating

namespace TabLinux

open FloatOps

variable {β : Type*} [Bus β]
variable (bus : β)

variable (s : Supervisor) (instr : Instr) (width : U64)

/-- The floating-point state and the status fields that describe it. -/
@[ext]
structure FpView where
  f : Reg → U64
  fcsr : U64
  fsDirty : Bool
  fs : BitVec 2
  xs : BitVec 2
  vs : BitVec 2
  sd : Bool

def Supervisor.fpView (s : Supervisor) : FpView :=
  ⟨s.cpu.f, s.cpu.fcsr, s.cpu.fsDirty, s.mstatus.fs, s.mstatus.xs, s.mstatus.vs, s.mstatus.sd⟩

/-- What one instruction can do to the view. -/
inductive FpEvent where
  /-- Nothing. -/
  | keep
  /-- A pending dirty mark reaches the status field. -/
  | settle
  | load (rd : Reg) (val : U64)
  /-- A compute instruction with its result and the registers it leaves. -/
  | arith (r : FpResult) (f : Reg → U64)
  | fcsr (val : U64)
  /-- A value written over the status fields. -/
  | status (val : U64)

namespace FpView

def settle (v : FpView) : FpView :=
  if v.fsDirty then { v with fsDirty := false, fs := 3 } else v

def apply (v : FpView) : FpEvent → FpView
  | .keep => v
  | .settle => v.settle
  | .load rd val => { v with f := Function.update v.f rd val, fsDirty := true }.settle
  | .arith r f =>
      if r.ok then
        { v with f := f, fcsr := v.fcsr ||| r.flags, fsDirty := v.fsDirty || r.dirty }.settle
      else { v with f := f }.settle
  | .fcsr val => { v with fcsr := val, fs := 3 }
  | .status val =>
      { v with
        fs := val.extractLsb' 13 2
        xs := val.extractLsb' 15 2
        vs := val.extractLsb' 9 2
        sd := val.getLsbD 63 }

end FpView

/-- A compute instruction is refused, writes an `f` register and says so, or writes
an `x` register.  Then it does not say so, and its flags are the unmarked ones. -/
inductive FpOutcome (cpu : Cpu) (unmarked : U64) : FpResult × Cpu → Prop
  | bad (hnone : unmarked = 0) : FpOutcome cpu unmarked (FpResult.bad, cpu)
  | float (flags : U64) (rd : Reg) (val : U64) (hnone : unmarked = 0) :
      FpOutcome cpu unmarked (⟨flags, true, true⟩, cpu.writeFreg rd val)
  | int (flags : U64) (rd : Reg) (val : U64) (hflags : unmarked = flags) :
      FpOutcome cpu unmarked (⟨flags, false, true⟩, cpu.writeReg rd val)

namespace FpOutcome

variable {cpu : Cpu} {unmarked : U64} {out : FpResult × Cpu}

variable (h : FpOutcome cpu unmarked out)
include h

theorem fcsr_eq : out.2.fcsr = cpu.fcsr := by
  cases h with
  | bad => rfl
  | float => rfl
  | int flags rd val => exact cpu.writeReg_fcsr rd val

theorem fsDirty_eq : out.2.fsDirty = cpu.fsDirty := by
  cases h with
  | bad => rfl
  | float => rfl
  | int flags rd val => exact cpu.writeReg_fsDirty rd val

/-- Only a result that is marked dirty changed an `f` register. -/
theorem f_eq (hclean : out.1.dirty = false) : out.2.f = cpu.f := by
  cases h with
  | bad => rfl
  | float => cases hclean
  | int flags rd val => exact cpu.writeReg_f rd val

/-- A refused word is not marked dirty. -/
theorem dirty_eq (hbad : out.1.ok = false) : out.1.dirty = false := by
  cases h with
  | bad => rfl
  | float => cases hbad
  | int => cases hbad

theorem unmarked_eq (hbad : out.1.ok = false) : unmarked = 0 := by
  cases h with
  | bad hnone => exact hnone
  | float => cases hbad
  | int => cases hbad

end FpOutcome

section

variable [FloatOps]

/-- A conversion to the integers of a kind (`i32`, `u32`, `i64` and `u64` are 0 to 3) has no
result for what is no number or beyond their range. -/
def noInteger (kind : Reg) (v : U64) : Bool :=
  let r := truncD v
  isNanD v ||
    if kind = 0 then leD 0x41E0000000000000 r || ltD r 0xC1E0000000000000
    else if kind = 1 then leD 0x41F0000000000000 r || leD r 0xBFF0000000000000
    else if kind = 2 then leD 0x43E0000000000000 r || ltD r 0xC3E0000000000000
    else leD 0x43F0000000000000 r || leD r 0xBFF0000000000000

def conversionFlags (kind : Reg) (v : U64) : U64 :=
  if 3 < kind then 0
  else if noInteger kind v then fflagNV
  else raise (!eqD (truncD v) v) fflagNX

/-- FEQ minds signalling NaNs, FLT and FLE mind all. -/
def comparisonFlags (funct3 : BitVec 3) (nan signals : Bool) : U64 :=
  if funct3 = 2 then raise signals fflagNV
  else if funct3 = 0 || funct3 = 1 then raise nan fflagNV
  else 0

variable (cpu : Cpu) (raw : U32)

/-- The flags that a word raises without saying that the state is dirty, by its fields and its
operands: those of comparisons and of conversions to integers. -/
def unmarkedFlags : U64 :=
  let fa := cpu.f (rs1Of raw)
  let fb := cpu.f (rs2Of raw)
  let flags (nan signals : Bool) (v : U64) :=
    if fpOpOf raw = 0b10100 then comparisonFlags (funct3Of raw) nan signals
    else if fpOpOf raw = 0b11000 then conversionFlags (rs2Of raw) v
    else 0
  if opcodeOf raw ≠ 0x53 then 0
  else if fmtOf raw = 0 then
    flags (isNanS (unboxS fa) || isNanS (unboxS fb))
      (isSnanS (fa.setWidth 32) || isSnanS (fb.setWidth 32)) (widen (unboxS fa))
  else if fmtOf raw = 1 then flags (isNanD fa || isNanD fb) (isSnanD fa || isSnanD fb) fa
  else 0

/-- The families that write an `f` register, and those that raise no flags. -/
theorem fpFloat_outcome :
    FpOutcome cpu 0 (fpFused cpu raw) ∧ FpOutcome cpu 0 (fpArith cpu raw) ∧
      FpOutcome cpu 0 (fpSqrt cpu raw) ∧ FpOutcome cpu 0 (fpSgnj cpu raw) ∧
      FpOutcome cpu 0 (fpMinMax cpu raw) ∧ FpOutcome cpu 0 (fpCvtFloat cpu raw) ∧
      FpOutcome cpu 0 (fpToX cpu raw) ∧ FpOutcome cpu 0 (fpOfX cpu raw) ∧
      FpOutcome cpu 0 (fpOfInt cpu raw) := by
  unfold fpFused fpArith fpSqrt fpSgnj fpMinMax fpCvtFloat fpToX fpOfX fpOfInt
  dsimp only
  refine ⟨?_, ?_, ?_, ?_, ?_, ?_, ?_, ?_, ?_⟩ <;> repeat'
    first | exact .bad rfl | exact .float _ _ _ rfl | exact .int _ _ _ rfl | split

theorem fpCompare_outcome (hop : opcodeOf raw = 0x53) (hcompare : fpOpOf raw = 0b10100) :
    FpOutcome cpu (unmarkedFlags cpu raw) (fpCompare cpu raw) := by
  unfold fpCompare unmarkedFlags comparisonFlags fpComparison
  rw [hcompare, hop]
  generalize fmtOf raw = fmt
  generalize funct3Of raw = funct3
  by_cases hs : fmt = 0 <;> by_cases hd : fmt = 1 <;> by_cases h2 : funct3 = 2 <;>
    by_cases h1 : funct3 = 1 <;> by_cases h0 : funct3 = 0 <;> simp_all <;>
    first | exact .bad rfl | exact .int _ _ _ rfl

theorem cvtSaturating_snd (v top high bottom : U64) (below : U64 → Bool) (inRange : U64 → U64) :
    (cvtSaturating v top high bottom below inRange).2 =
      if isNanD v || (leD high (truncD v) || below (truncD v)) then
        fflagNV
      else raise (!eqD (truncD v) v) fflagNX := by
  unfold cvtSaturating
  dsimp only
  repeat' split
  all_goals simp_all

theorem fpToInt_outcome (hop : opcodeOf raw = 0x53) (hconvert : fpOpOf raw = 0b11000) :
    FpOutcome cpu (unmarkedFlags cpu raw) (fpToInt cpu raw) := by
  have hkind : ∀ kind : Reg, 3#5 < kind ∧ kind ≠ 0#5 ∧ kind ≠ 1#5 ∧ kind ≠ 2#5 ∧ kind ≠ 3#5 ∨
      kind = 0 ∨ kind = 1 ∨ kind = 2 ∨ kind = 3 := by decide
  unfold unmarkedFlags fpToInt conversionFlags noInteger
  rw [hconvert, hop]
  rcases hkind (rs2Of raw) with hnone | hkind | hkind | hkind | hkind
  · simp [hnone]
    exact .bad rfl
  all_goals
    rw [hkind]
    simp [f64ToI32, f64ToU32, f64ToI64, f64ToU64]
    repeat' first | exact .bad rfl | exact .int _ _ _ (by simp [cvtSaturating_snd]) | split

theorem fpuExecute_outcome : FpOutcome cpu (unmarkedFlags cpu raw) (fpuExecute cpu raw) := by
  obtain ⟨hfused, harith, hsqrt, hsgnj, hminmax, hcvt, htox, hofx, hofint⟩ :=
    fpFloat_outcome cpu raw
  unfold fpuExecute
  dsimp only
  by_cases hop : opcodeOf raw = 0x53
  · have hother : fpOpOf raw ≠ 0b10100#5 → fpOpOf raw ≠ 0b11000#5 → unmarkedFlags cpu raw = 0 := by
      intro hcompare hconvert
      unfold unmarkedFlags
      simp [hop, hcompare, hconvert]
    rw [if_neg (by rw [hop]; decide), if_neg (not_not.mpr hop)]
    split
    case h_9 hcompare => exact fpCompare_outcome cpu raw hop hcompare
    case h_12 hconvert => exact fpToInt_outcome cpu raw hop hconvert
    all_goals
      rw [hother (by simp_all) (by simp_all)]
      first | assumption | exact .bad rfl
  · rw [show unmarkedFlags cpu raw = 0 from if_pos hop]
    split
    · exact hfused
    · exact .bad rfl

end

/-- A write to a CSR, seen by the status. -/
def Supervisor.csrEvent (s : Supervisor) (csr : Csr) (val : U64) : FpEvent :=
  if csr = 0x001 then .fcsr (mergeBits s.cpu.fcsr 0x1f val)
  else if csr = 0x002 then .fcsr (mergeBits s.cpu.fcsr 0xe0 (val <<< 5))
  else if csr = 0x003 then .fcsr (val &&& 0xff)
  else if csr = 0x300 then .status val
  else if csr = 0x100 then .status (mergeBits s.mstatus.toBits sstatusMask val)
  else .keep

/-- A CSR instruction, in the interpreter or in compiled code. -/
def Supervisor.csrOpEvent (s : Supervisor) (bus : β) (csr : Csr) (src : Reg)
    (val : U64) (op : CsrOp) : FpEvent :=
  if s.csrDenied csr op src then .keep
  else if csrWillWrite op src then s.csrEvent csr (op.combine (s.csrRead bus csr) val)
  else .keep

/-- A floating-point load whose address translates. -/
def Supervisor.floadEvent (s : Supervisor) (bus : β) (fw : FWidth) (rd rs1 : Reg)
    (imm : U64) (faulted : FpEvent) : FpEvent :=
  match s.translate bus .load (s.cpu.address rs1 imm) with
  | (.error _, _, _) => faulted
  | (.ok paddr, _, bus) => .load rd (fw.boxed (Bus.read fw.width bus paddr).1)

section

variable [FloatOps]

namespace Supervisor

def arithEvent (s : Supervisor) (raw : U32) : FpEvent :=
  .arith (fpuExecute s.cpu raw).1 (fpuExecute s.cpu raw).2.f

variable (s : Supervisor) (bus : β)

/-- The event of an instruction that the base path executes. -/
def baseEvent (instr : Instr) : FpEvent :=
  if s.mstatus.fs = 0 && instr.isFp then .keep
  else
    match instr with
    | .fload fw rd rs1 imm => s.floadEvent bus fw rd rs1 imm .settle
    | .fp raw => s.arithEvent raw
    | _ => .settle

/-- The event of an executed instruction. -/
def execEvent (instr : Instr) : FpEvent :=
  match instr with
  | .csrReg op _ rs1 csr => s.csrOpEvent bus csr rs1 (s.cpu.readReg rs1) op
  | .csrImm op _ zimm csr => s.csrOpEvent bus csr zimm (zimm.setWidth 64) op
  | .ecall | .ebreak | .mret | .sret | .wfi | .sfenceVma _ _
  | .lr _ _ _ _ _ | .sc _ _ _ _ _ _ => .keep
  | instr => s.baseEvent bus instr

/-- The event of a compiled floating-point instruction. -/
def fpJitEvent (call : FpCall) : FpEvent :=
  if s.mstatus.fs = 0 then .keep
  else
    match call with
    | .load fw rd rs1 imm => s.floadEvent bus fw rd rs1 imm .keep
    | .store _ _ rs1 imm =>
        match (s.translate bus .store (s.cpu.address rs1 imm)).1 with
        | .error _ => .keep
        | .ok _ => .settle
    | .arith raw => if (fpuExecute s.cpu raw).1.ok then s.arithEvent raw else .keep

/-- The event of a step: nothing where an interrupt or a fetch fault comes first. -/
def stepEvent : FpEvent :=
  match (s.pollDevices bus).checkInterrupts with
  | some _ => .keep
  | none =>
      match (s.pollDevices bus).fetch bus with
      | (.error _, _, _) => .keep
      | (.ok (instr, _), s, bus) => (s.flushedFor instr).execEvent bus instr

end Supervisor

end

theorem CacheEffect.fpView_eq {s s' : Supervisor} (h : CacheEffect s s') :
    s'.fpView = s.fpView := by
  rw [h]
  rfl

namespace Supervisor

theorem takeTrapWithVaddr_fpView (trap : Trap) (faultVaddr : Option U64) :
    (s.takeTrapWithVaddr trap faultVaddr).2.fpView = s.fpView := by
  unfold takeTrapWithVaddr
  split <;> rfl

theorem settleFs_fpView : s.settleFs.fpView = s.fpView.settle := by
  unfold settleFs FpView.settle
  cases hdirty : s.cpu.fsDirty with
  | false => simp [fpView, hdirty]
  | true => simp [fpView, hdirty]

theorem csrWrite_fpView (csr : Csr) (val : U64) :
    (s.csrWrite csr val).fpView = s.fpView.apply (s.csrEvent csr val) := by
  by_cases h1 : csr = 0x001
  · subst h1
    rfl
  by_cases h2 : csr = 0x002
  · subst h2
    rfl
  by_cases h3 : csr = 0x003
  · subst h3
    rfl
  by_cases hm : csr = 0x300
  · subst hm
    rfl
  by_cases hs : csr = 0x100
  · subst hs
    rfl
  have hkeep : s.csrEvent csr val = .keep := by
    simp only [csrEvent, h1, h2, h3, hm, hs, ↓reduceIte]
  rw [hkeep]
  unfold csrWrite
  repeat' with_reducible
    refine iteInduction (motive := fun t : Supervisor => t.fpView = s.fpView.apply .keep)
      (fun hif => ?_) (fun _ => ?_)
  all_goals first
    | contradiction
    | exact (s.writeSatp_effect val).fpView_eq
    | rfl

section

variable (csr : Csr) (rd src : Reg) (val : U64) (op : CsrOp)

theorem csrAccess_fpView (hallowed : s.csrDenied csr op src = false) :
    (s.csrAccess bus csr rd src val op).fpView =
      s.fpView.apply (s.csrOpEvent bus csr src val op) := by
  have hreg : ∀ (t : Supervisor) (v : U64),
      { t with cpu := t.cpu.writeReg rd v }.fpView = t.fpView := by
    intro t v
    simp [fpView]
  unfold csrAccess
  rw [hreg]
  unfold csrOpEvent
  rw [hallowed]
  cases hwrite : csrWillWrite op src with
  | false => rfl
  | true => exact s.csrWrite_fpView csr _

theorem csrOp_fpView (width : U64) :
    (s.csrOp bus csr rd src val op width).2.fpView =
      s.fpView.apply (s.csrOpEvent bus csr src val op) := by
  unfold csrOp
  cases hdenied : s.csrDenied csr op src with
  | true =>
    have hkeep : s.csrOpEvent bus csr src val op = .keep := by
      simp [csrOpEvent, hdenied]
    rw [hkeep]
    exact s.takeTrapWithVaddr_fpView _ none
  | false => exact s.csrAccess_fpView bus csr rd src val op hdenied

theorem csrJit_fpView :
    (s.csrJit bus csr rd src val op).2.fpView =
      s.fpView.apply (s.csrOpEvent bus csr src val op) := by
  unfold csrJit
  cases hdenied : s.csrDenied csr op src with
  | true => simp [csrOpEvent, hdenied, FpView.apply]
  | false => exact s.csrAccess_fpView bus csr rd src val op hdenied

end

/-- An access that does not touch the view, wherever it lands. -/
theorem withPaddr_fpView (access : AccessType) (vaddr : U64)
    (next : Supervisor → β → U64 → Supervisor × β)
    (hnext : ∀ s bus paddr, (next s bus paddr).1.fpView = s.fpView) :
    (s.withPaddr bus access vaddr next).2.1.fpView = s.fpView := by
  have htranslate := (s.translate_fetchEffect bus access vaddr).cacheEffect.fpView_eq
  unfold withPaddr
  rcases hres : s.translate bus access vaddr with ⟨_ | paddr, s', bus'⟩ <;> rw [hres] at htranslate
  · exact (s'.takeTrapWithVaddr_fpView _ _).trans htranslate
  · exact (hnext s' bus' paddr).trans htranslate

theorem commitSc_fpView (aw : AtomicWidth) (granule : U64) (rd rs2 : Reg)
    (width paddr : U64) :
    (s.commitSc bus aw granule rd rs2 width paddr).1.fpView = s.fpView := by
  unfold commitSc
  split <;> simp [fpView, Cpu.advance]

/-- Memory instructions other than floating-point loads. -/
theorem executeTranslated_fpView (bus : β) (hload : ∀ fw rd rs1 imm, instr ≠ .fload fw rd rs1 imm) :
    (s.executeTranslated instr width bus).2.1.fpView = s.fpView := by
  cases instr
  case load | store | fstore | amo =>
    refine s.withPaddr_fpView bus _ _ _ fun s bus paddr => ?_
    simp [fpView, Cpu.advance]
  case fload fw rd rs1 imm => exact absurd rfl (hload fw rd rs1 imm)
  all_goals exact s.takeTrapWithVaddr_fpView _ none

/-- A floating-point load, before the dirty mark is settled. -/
theorem fload_fpView (fw : FWidth) (rd rs1 : Reg) (imm width : U64) :
    (s.executeTranslated (.fload fw rd rs1 imm) width bus).2.1.fpView.settle =
      s.fpView.apply (s.floadEvent bus fw rd rs1 imm .settle) := by
  have htranslate :=
    (s.translate_fetchEffect bus .load (s.cpu.address rs1 imm)).cacheEffect.fpView_eq
  change (s.withPaddr bus .load (s.cpu.address rs1 imm) _).2.1.fpView.settle = _
  unfold withPaddr floadEvent
  rcases hres : s.translate bus .load (s.cpu.address rs1 imm) with ⟨_ | paddr, s', bus'⟩ <;>
    rw [hres] at htranslate
  · exact congrArg FpView.settle ((s'.takeTrapWithVaddr_fpView _ _).trans htranslate)
  · simp only [FWidth.translated_eq]
    rw [← htranslate]
    rfl

end Supervisor

section

variable [FloatOps]

namespace Supervisor

/-- The base interpreter changes the floating-point state by compute instructions
and loads only. -/
theorem executeWidth_fpView (bus : β) (hfp : instr.isFp = false) :
    { s with cpu := (executeWidth s.cpu instr width bus).2.1 }.fpView = s.fpView := by
  cases instr
  case fp | fload | fstore => cases hfp
  all_goals simp [executeWidth, executeAmo, fpView, Cpu.advance]

theorem executeWidth_fp_fpView (raw : U32) (width : U64) (bus : β) :
    { s with cpu := (executeWidth s.cpu (.fp raw) width bus).2.1 }.fpView.settle =
      s.fpView.apply (s.arithEvent raw) := by
  have hout := fpuExecute_outcome s.cpu raw
  have hfcsr := hout.fcsr_eq
  have hdirty := hout.fsDirty_eq
  unfold executeWidth arithEvent FpView.apply
  rcases hres : fpuExecute s.cpu raw with ⟨⟨flags, dirty, ok⟩, cpu⟩
  rw [hres] at hfcsr hdirty
  dsimp only at hfcsr hdirty
  cases ok with
  | true => simp [hres, fpView, Cpu.advance, hfcsr, hdirty]
  | false => simp [hres, fpView, hfcsr, hdirty]

/-- Past the gate, instructions other than loads and compute instructions settle. -/
theorem baseEvent_settle {s : Supervisor} {bus : β} {instr : Instr}
    (hgate : ¬ (s.mstatus.fs = 0 && instr.isFp) = true)
    (hload : ∀ fw rd rs1 imm, instr ≠ .fload fw rd rs1 imm) (hfp : ∀ raw, instr ≠ .fp raw) :
    s.baseEvent bus instr = .settle := by
  unfold baseEvent
  rw [if_neg hgate]
  split
  · exact absurd rfl (hload _ _ _ _)
  · exact absurd rfl (hfp _)
  · rfl

theorem executeBase_fpView (bus : β) :
    (s.executeBase instr width bus).2.1.fpView = s.fpView.apply (s.baseEvent bus instr) := by
  unfold executeBase
  by_cases hgate : (s.mstatus.fs = 0 && instr.isFp) = true
  · rw [if_pos hgate, show s.baseEvent bus instr = .keep from if_pos hgate]
    exact s.takeTrapWithVaddr_fpView _ none
  rw [if_neg hgate]
  cases htranslated : instr.isTranslated with
  | true =>
    change (s.executeTranslated instr width bus).2.1.settleFs.fpView = _
    rw [settleFs_fpView]
    by_cases hload : ∃ fw rd rs1 imm, instr = .fload fw rd rs1 imm
    · obtain ⟨fw, rd, rs1, imm, rfl⟩ := hload
      rw [s.fload_fpView, baseEvent, if_neg hgate]
    simp only [not_exists] at hload
    rw [s.executeTranslated_fpView instr width bus hload,
      baseEvent_settle hgate hload (by rintro raw rfl; cases htranslated)]
    rfl
  | false =>
    change { s with cpu := (executeWidth s.cpu instr width bus).2.1 }.settleFs.fpView = _
    rw [settleFs_fpView]
    by_cases hfp : ∃ raw, instr = .fp raw
    · obtain ⟨raw, rfl⟩ := hfp
      rw [s.executeWidth_fp_fpView, baseEvent, if_neg hgate]
    simp only [not_exists] at hfp
    have hload : ∀ fw rd rs1 imm, instr ≠ .fload fw rd rs1 imm := by
      rintro fw rd rs1 imm rfl
      cases htranslated
    have hbase : instr.isFp = false := by
      cases instr
      case fp raw => exact absurd rfl (hfp raw)
      case fload | fstore => cases htranslated
      all_goals rfl
    rw [s.executeWidth_fpView instr width bus hbase, baseEvent_settle hgate hload hfp]
    rfl

theorem executeSupervisor_fpView (bus : β) :
    (s.executeSupervisor instr width bus).2.1.fpView = s.fpView.apply (s.execEvent bus instr) := by
  have htrap : ∀ trap, (s.takeTrap trap).2.fpView = s.fpView :=
    fun trap => s.takeTrapWithVaddr_fpView trap none
  have hguarded : ∀ (c : Prop) [Decidable c] (yes no : Status × Supervisor × β),
      yes.2.1.fpView = s.fpView → no.2.1.fpView = s.fpView →
        (if c then yes else no).2.1.fpView = s.fpView :=
    fun c _ yes no hyes hno => ite_keep (fun out : Status × Supervisor × β => out.2.1.fpView)
      hyes hno
  cases instr
  case csrReg op rd rs1 csr => exact s.csrOp_fpView bus csr rd rs1 _ op width
  case csrImm op rd zimm csr => exact s.csrOp_fpView bus csr rd zimm _ op width
  case ecall =>
    refine hguarded _ _ _ ?_ (htrap _)
    simp [fpView, Cpu.advance]
  case ebreak => exact htrap _
  case mret => rfl
  case sret => exact hguarded _ _ _ (htrap _) rfl
  case wfi =>
    refine hguarded _ _ _ (htrap _) ?_
    change ((s.pollNow bus).park width).2.fpView = s.fpView
    unfold park
    split
    · exact (s.pollNow bus).takeTrapWithVaddr_fpView _ none
    · rfl
  case sfenceVma rs1 rs2 =>
    exact hguarded _ _ _ (htrap _) (s.sfenceVma_effect rs1).fpView_eq
  case lr =>
    refine s.withPaddr_fpView bus _ _ _ fun s bus paddr => ?_
    simp [fpView, Cpu.advance]
  case sc aw rd rs1 rs2 aq rl =>
    exact s.withPaddr_fpView bus _ _ _ fun s bus paddr =>
      s.commitSc_fpView bus aw _ rd rs2 width paddr
  all_goals exact s.executeBase_fpView _ width bus

theorem finishStep_fpView (bus : β) :
    (s.finishStep instr width bus).2.1.fpView =
      s.fpView.apply ((s.flushedFor instr).execEvent bus instr) := by
  have hexec := (s.flushedFor instr).executeSupervisor_fpView instr width bus
  rw [(s.flushedFor_effect instr).fpView_eq] at hexec
  rw [← hexec]
  unfold finishStep
  rcases deliver_cases _ _ _ with ⟨trap, hout⟩ | hout
  · rw [hout]
    exact takeTrapWithVaddr_fpView _ trap none
  · rw [hout]
    rfl

/-- One step of the hart performs one event. -/
theorem step_fpView : (s.step bus).2.1.fpView = s.fpView.apply (s.stepEvent bus) := by
  have hpolled : (s.pollDevices bus).fpView = s.fpView := ite_keep Supervisor.fpView rfl rfl
  have hfetch := ((s.pollDevices bus).fetch_effect bus).cacheEffect.fpView_eq
  unfold step stepPolled stepEvent
  cases (s.pollDevices bus).checkInterrupts with
  | some trap => exact ((s.pollDevices bus).takeTrapWithVaddr_fpView trap none).trans hpolled
  | none =>
    rcases hres : (s.pollDevices bus).fetch bus with ⟨⟨trap, vaddr⟩ | ⟨instr, width⟩, s', bus'⟩ <;>
      rw [hres, hpolled] at hfetch
    · exact (s'.takeTrapWithVaddr_fpView trap vaddr).trans hfetch
    · rw [← hfetch]
      exact s'.finishStep_fpView instr width bus'

/-- So does a floating-point call of compiled code. -/
theorem fpJit_fpView (call : FpCall) :
    (s.fpJit bus call).2.1.fpView = s.fpView.apply (s.fpJitEvent bus call) := by
  unfold fpJit fpJitEvent
  split
  · rfl
  cases call with
  | load fw rd rs1 imm =>
    have htranslate :=
      (s.translate_fetchEffect bus .load (s.cpu.address rs1 imm)).cacheEffect.fpView_eq
    unfold floadEvent
    dsimp only
    rcases hres : s.translate bus .load (s.cpu.address rs1 imm) with ⟨_ | paddr, s', bus'⟩ <;>
      rw [hres] at htranslate
    · exact htranslate
    · rw [← htranslate]
      exact settleFs_fpView _
  | store fw rs2 rs1 imm =>
    have htranslate :=
      (s.translate_fetchEffect bus .store (s.cpu.address rs1 imm)).cacheEffect.fpView_eq
    dsimp only
    rcases hres : s.translate bus .store (s.cpu.address rs1 imm) with ⟨_ | paddr, s', bus'⟩ <;>
      rw [hres] at htranslate
    · exact htranslate
    · rw [← htranslate]
      exact settleFs_fpView _
  | arith raw =>
    have hout := fpuExecute_outcome s.cpu raw
    have hfcsr := hout.fcsr_eq
    have hdirty := hout.fsDirty_eq
    have hf := hout.f_eq ∘ hout.dirty_eq
    unfold arithEvent
    dsimp only
    rcases hres : fpuExecute s.cpu raw with ⟨⟨flags, dirty, ok⟩, cpu⟩
    rw [hres] at hfcsr hdirty hf
    dsimp only at hfcsr hdirty hf
    cases ok with
    | true =>
      refine (settleFs_fpView _).trans ?_
      simp [FpView.apply, fpView, hfcsr, hdirty]
    | false => simp [FpView.apply, fpView, hfcsr, hdirty, hf rfl]

end Supervisor

end

end TabLinux
