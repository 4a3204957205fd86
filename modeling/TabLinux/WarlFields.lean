/-
Fields that may only ever hold legal values.  Every step of the hart and every
service it performs for compiled code keeps them legal, with one exception:
writes to `sstatus` reach UXL unchecked.
-/
import TabLinux.FpStatus
import TabLinux.Spaces
import TabLinux.StatusView

namespace TabLinux

universe u

variable {β : Type u} [Bus β]

variable {s : Supervisor}

variable (cpu : Cpu) (raw : U32)

variable {s' : Supervisor} {v : WarlView}

/-- No bit above the five exception flags. -/
def FlagBits (flags : U64) : Prop := Within 0x1f flags

namespace FlagBits

theorem zero : FlagBits 0 := rfl

theorem or {left right : U64} (hleft : FlagBits left) (hright : FlagBits right) :
    FlagBits (left ||| right) :=
  Within.or hleft hright

theorem ite {c : Prop} [Decidable c] {yes no : U64} (hyes : FlagBits yes)
    (hno : FlagBits no) : FlagBits (if c then yes else no) :=
  ite_holds FlagBits hyes hno

theorem raise {flag : U64} (hflag : FlagBits flag) (cond : Bool) :
    FlagBits (TabLinux.raise cond flag) :=
  ite hflag zero

theorem nx : FlagBits fflagNX := rfl

theorem nv : FlagBits fflagNV := rfl

theorem ofNx : FlagBits (fflagOF ||| fflagNX) := rfl

theorem divideFlags (aNan aZero bZero : Bool) : FlagBits (TabLinux.divideFlags aNan aZero bZero) :=
  ite rfl (ite nv zero)

end FlagBits

section

variable [FloatOps]

theorem cvtSaturating_flags (v top high bottom : U64) (below : U64 → Bool)
    (inRange : U64 → U64) :
    FlagBits (cvtSaturating v top high bottom below inRange).2 := by
  rw [cvtSaturating_snd]
  exact .ite .nv (.raise .nx _)

theorem fpFused_flags : FlagBits (fpFused cpu raw).1.flags := by
  unfold fpFused
  split
  · exact .or (.raise .nx _) (.raise .nv _)
  split
  · exact .or (.raise .nx _) (.raise .nv _)
  · exact .zero

theorem fpArith_flags : FlagBits (fpArith cpu raw).1.flags := by
  unfold fpArith
  split
  · exact .or (.or (.or (.raise .nv _) (.ite (.divideFlags _ _ _) .zero)) (.raise .nv _))
      (.ite .ofNx (.raise .nx _))
  split
  · exact .or (.or (.or (.raise .nv _) (.ite (.divideFlags _ _ _) .zero)) (.raise .nv _))
      (.ite .ofNx (.raise .nx _))
  · exact .zero

theorem fpSqrt_flags : FlagBits (fpSqrt cpu raw).1.flags := by
  unfold fpSqrt
  split
  · exact .or (.raise .nv _) (.raise .nx _)
  · exact .or (.raise .nv _) (.raise .nx _)

theorem fpCvtFloat_flags : FlagBits (fpCvtFloat cpu raw).1.flags := by
  unfold fpCvtFloat
  split
  · exact .or (.raise .nv _) (.ite .zero (.ite .ofNx (.raise .nx _)))
  split
  · exact .raise .nv _
  · exact .zero

omit [FloatOps] in
theorem convert_flags {res : Option (U64 × U64)}
    (hres : ∀ out, res = some out → FlagBits out.2) :
    FlagBits (match res with
      | none => (FpResult.bad, cpu)
      | some (res, flags) => (⟨flags, false, true⟩, cpu.writeReg (rdOf raw) res)).1.flags := by
  cases res with
  | none => exact .zero
  | some out => exact hres out rfl

/-- The conversions to integers, whichever the encoding selects. -/
theorem fpToInt_flags : FlagBits (fpToInt cpu raw).1.flags := by
  have hselect : ∀ (v : U64) (out : U64 × U64),
      (if rs2Of raw = 0 then some (f64ToI32 v)
        else if rs2Of raw = 1 then some (f64ToU32 v)
        else if rs2Of raw = 2 then some (f64ToI64 v)
        else if rs2Of raw = 3 then some (f64ToU64 v)
        else none) = some out → FlagBits out.2 := by
    intro v out hout
    split_ifs at hout <;> cases hout <;> exact cvtSaturating_flags _ _ _ _ _ _
  unfold fpToInt
  dsimp only
  split
  · exact convert_flags cpu raw (hselect _)
  split
  · exact convert_flags cpu raw (hselect _)
  · exact .zero

/-- The families that raise at most one flag. -/
theorem fpSingle_flags :
    FlagBits (fpSgnj cpu raw).1.flags ∧ FlagBits (fpMinMax cpu raw).1.flags ∧
      FlagBits (fpCompare cpu raw).1.flags ∧ FlagBits (fpToX cpu raw).1.flags ∧
      FlagBits (fpOfX cpu raw).1.flags ∧ FlagBits (fpOfInt cpu raw).1.flags := by
  unfold fpSgnj fpMinMax fpCompare fpToX fpOfX fpOfInt
  dsimp only
  refine ⟨?_, ?_, ?_, ?_, ?_, ?_⟩ <;> repeat' first
      | exact .zero
      | exact .raise .nv _
      | exact .raise .nx _
      | split

theorem fpuExecute_flags : FlagBits (fpuExecute cpu raw).1.flags := by
  obtain ⟨hsgnj, hminmax, hcompare, htox, hofx, hofint⟩ := fpSingle_flags cpu raw
  unfold fpuExecute
  dsimp only
  split
  · exact fpFused_flags cpu raw
  split
  · exact .zero
  split
  all_goals first
    | assumption
    | exact fpArith_flags cpu raw
    | exact fpSqrt_flags cpu raw
    | exact fpCvtFloat_flags cpu raw
    | exact fpToInt_flags cpu raw
    | exact .zero

end

/-- What an event adds to `fcsr` lies within its eight bits. -/
def FpEvent.Fits : FpEvent → Prop
  | .arith r _ => FlagBits r.flags
  | .fcsr val => Within 0xff val
  | _ => True

theorem FpView.settle_fcsr (v : FpView) : v.settle.fcsr = v.fcsr := by
  unfold settle
  split
  · rfl
  · rfl

theorem FpView.apply_fcsr {v : FpView} (h : Within 0xff v.fcsr) {event : FpEvent}
    (hfits : event.Fits) : Within 0xff (v.apply event).fcsr := by
  cases event with
  | keep => exact h
  | settle =>
    rw [apply, settle_fcsr]
    exact h
  | load rd val =>
    rw [apply, settle_fcsr]
    exact h
  | arith r f =>
    have hflags : Within 0xff r.flags := hfits.mono (by decide)
    unfold apply
    dsimp only
    split
    · rw [settle_fcsr]
      exact h.or hflags
    · rw [settle_fcsr]
      exact h
  | fcsr val => exact hfits
  | status val => exact h

theorem Supervisor.csrEvent_fits (h : Within 0xff s.cpu.fcsr) (csr : Csr)
    (val : U64) : (s.csrEvent csr val).Fits := by
  unfold csrEvent
  split_ifs
  · exact h.mergeBits (by decide)
  · exact h.mergeBits (by decide)
  · exact .of_and (by decide) val
  · trivial
  · trivial
  · trivial

theorem Supervisor.csrOpEvent_fits (h : Within 0xff s.cpu.fcsr) (bus : β) (csr : Csr)
    (src : Reg) (val : U64) (op : CsrOp) : (s.csrOpEvent bus csr src val op).Fits := by
  unfold csrOpEvent
  split_ifs
  · trivial
  · exact s.csrEvent_fits h csr _
  · trivial

theorem Supervisor.floadEvent_fits (s : Supervisor) (bus : β) (fw : FWidth) (rd rs1 : Reg)
    (imm : U64) {faulted : FpEvent} (h : faulted.Fits) :
    (s.floadEvent bus fw rd rs1 imm faulted).Fits := by
  unfold floadEvent
  split
  · exact h
  · trivial

section

variable [FloatOps]

theorem Supervisor.execEvent_fits (h : Within 0xff s.cpu.fcsr) (bus : β) (instr : Instr) :
    (s.execEvent bus instr).Fits := by
  have hbase : ∀ instr, (s.baseEvent bus instr).Fits := by
    intro instr
    unfold baseEvent
    split
    · trivial
    split
    · exact s.floadEvent_fits bus _ _ _ _ trivial
    · exact fpuExecute_flags s.cpu _
    · trivial
  cases instr
  case csrReg op rd rs1 csr => exact s.csrOpEvent_fits h bus csr rs1 _ op
  case csrImm op rd zimm csr => exact s.csrOpEvent_fits h bus csr zimm _ op
  case ecall | ebreak | mret | sret | wfi | sfenceVma | lr | sc => trivial
  all_goals exact hbase _

theorem Supervisor.stepEvent_fits (h : Within 0xff s.cpu.fcsr) (bus : β) :
    (s.stepEvent bus).Fits := by
  have hpolled : (s.pollDevices bus).cpu.fcsr = s.cpu.fcsr :=
    ite_keep (fun t : Supervisor => t.cpu.fcsr) rfl rfl
  have hfetch := ((s.pollDevices bus).fetch_effect bus).cacheEffect.cpu_eq
  unfold stepEvent
  split
  · trivial
  split
  · trivial
  rename_i instr width s' bus' hres
  rw [hres] at hfetch
  apply execEvent_fits
  rw [(s'.flushedFor_effect instr).cpu_eq, hfetch, hpolled]
  exact h

theorem Supervisor.fpJitEvent_fits (s : Supervisor) (bus : β) (call : FpCall) :
    (s.fpJitEvent bus call).Fits := by
  unfold fpJitEvent
  split
  · trivial
  cases call with
  | load fw rd rs1 imm => exact s.floadEvent_fits bus fw rd rs1 imm trivial
  | store fw rs2 rs1 imm =>
    dsimp only
    split
    · trivial
    · trivial
  | arith raw =>
    dsimp only
    split
    · exact fpuExecute_flags s.cpu raw
    · trivial

end

/-- The integer fields whose values are restricted, and what is fixed. -/
@[ext]
structure WarlView where
  uxl : BitVec 2
  sxl : BitVec 2
  satp : Satp
  pmpaddr : BitVec 6 → U64
  fixed : U64 × U64 × U64 × U64 × U64

def Supervisor.warlView (s : Supervisor) : WarlView :=
  ⟨s.mstatus.uxl, s.mstatus.sxl, s.satp, s.pmpaddr, s.cpu.fixed⟩

/-- A CSR write as the view sees it. -/
def WarlView.write (v : WarlView) (csr : Csr) (val : U64) : WarlView :=
  if csr = 0x300 then { v with uxl := 2, sxl := 2 }
  else if 0x3B0#12 ≤ csr && csr ≤ 0x3EF#12 then
    let addr := val &&& 0x003FFFFFFFFFFFFF
    { v with pmpaddr := Function.update v.pmpaddr ((csr - 0x3B0).setWidth 6) addr }
  else if csr = 0x100 then { v with uxl := val.extractLsb' 32 2 }
  else if csr = 0x180 then { v with satp := Satp.fromBits val }
  else v

theorem CacheEffect.warlView_eq (h : CacheEffect s s') : s'.warlView = s.warlView := by
  rw [h]
  rfl

theorem Supervisor.takeTrapWithVaddr_warlView (s : Supervisor) (trap : Trap)
    (faultVaddr : Option U64) :
    (s.takeTrapWithVaddr trap faultVaddr).2.warlView = s.warlView := by
  unfold takeTrapWithVaddr
  split
  · rfl
  · rfl

theorem Supervisor.settleFs_warlView (s : Supervisor) : s.settleFs.warlView = s.warlView := by
  unfold settleFs
  split
  · rfl
  · rfl

theorem MStatus.fromBits_sstatus (m : MStatus) (val : U64) :
    (fromBits (mergeBits m.toBits sstatusMask val)).uxl = val.extractLsb' 32 2 ∧
      (fromBits (mergeBits m.toBits sstatusMask val)).sxl = m.sxl := by
  constructor
  · exact ((mergeBits_agreeOn_new m.toBits sstatusMask val).field_eq rfl rfl).symm
  have hdisjoint : (3#64 <<< 34) &&& sstatusMask = 0 := by decide
  have hkept : m.toBits.extractLsb' 34 2 = _ :=
    (mergeBits_agreeOn_old hdisjoint m.toBits val).field_eq rfl rfl
  exact hkept.symm.trans (congrArg sxl m.fromBits_toBits)

/-- The two ranges of physical memory protection registers do not meet. -/
theorem pmpaddr_not_pmpcfg {csr : Csr}
    (haddr : (decide (0x3B0#12 ≤ csr) && decide (csr ≤ 0x3EF#12)) = true)
    (hcfg : (decide (0x3A0#12 ≤ csr) && decide (csr ≤ 0x3AF#12)) = true) : False := by
  simp only [Bool.and_eq_true, decide_eq_true_eq] at haddr hcfg
  bv_omega

namespace Supervisor

theorem csrWrite_warlView (s : Supervisor) (csr : Csr) (val : U64) :
    (s.csrWrite csr val).warlView = s.warlView.write csr val := by
  by_cases hmstatus : csr = 0x300
  · subst hmstatus
    rfl
  by_cases hsstatus : csr = 0x100
  · subst hsstatus
    obtain ⟨huxl, hsxl⟩ := s.mstatus.fromBits_sstatus val
    exact WarlView.ext huxl hsxl rfl rfl rfl
  by_cases hsatp : csr = 0x180
  · subst hsatp
    exact (s.writeSatp_effect val).warlView_eq
  unfold WarlView.write
  rw [if_neg hmstatus, if_neg hsstatus, if_neg hsatp]
  by_cases hpmp : (decide (0x3B0#12 ≤ csr) && decide (csr ≤ 0x3EF#12)) = true
  · rw [if_pos hpmp]
    unfold csrWrite
    repeat' with_reducible
      refine iteInduction (motive := fun t : Supervisor => t.warlView = _) (fun hif => ?_)
        (fun _ => ?_)
    all_goals first
      | rfl
      | exact absurd hpmp (by subst hif; decide)
      | exact (pmpaddr_not_pmpcfg hpmp hif).elim
      | contradiction
  · rw [if_neg hpmp]
    unfold csrWrite
    repeat' with_reducible
      refine iteInduction (motive := fun t : Supervisor => t.warlView = s.warlView)
        (fun hif => ?_) (fun _ => ?_)
    all_goals first
      | contradiction
      | rfl

variable (s : Supervisor) (bus : β)

/-- A CSR access changes the view by its write alone. -/
theorem csrAccess_warlView (csr : Csr) (rd src : Reg) (val : U64) (op : CsrOp) :
    (s.csrAccess bus csr rd src val op).warlView =
      if csrWillWrite op src then s.warlView.write csr (op.combine (s.csrRead bus csr) val)
      else s.warlView := by
  have hreg : ∀ (t : Supervisor) (v : U64),
      { t with cpu := t.cpu.writeReg rd v }.warlView = t.warlView := by
    intro t v
    exact WarlView.ext rfl rfl rfl rfl (t.cpu.writeReg_fixed rd v)
  unfold csrAccess
  rw [hreg]
  split
  · exact s.csrWrite_warlView csr _
  · rfl

/-- An access that does not touch the view, wherever it lands. -/
theorem withPaddr_warlView (access : AccessType)
    (vaddr : U64) (next : Supervisor → β → U64 → Supervisor × β)
    (hnext : ∀ s bus paddr, (next s bus paddr).1.warlView = s.warlView) :
    (s.withPaddr bus access vaddr next).2.1.warlView = s.warlView := by
  have htranslate := (s.translate_fetchEffect bus access vaddr).cacheEffect.warlView_eq
  unfold withPaddr
  rcases hres : s.translate bus access vaddr with ⟨_ | paddr, s', bus'⟩ <;> rw [hres] at htranslate
  · exact (s'.takeTrapWithVaddr_warlView _ _).trans htranslate
  · exact (hnext s' bus' paddr).trans htranslate

theorem sbiCall_warlView (width : U64) : (s.sbiCall bus width).1.warlView = s.warlView := by
  unfold sbiCall
  generalize handleEcall bus (s.cpu.readReg 10) (s.cpu.readReg 11) (s.cpu.readReg 16)
    (s.cpu.readReg 17) = out
  obtain ⟨ret, bytes, bus'⟩ := out
  have hfixed := (Cpu.writeReg_fixed (s.cpu.writeReg 10 ret.error) 11 ret.value).trans
    (s.cpu.writeReg_fixed 10 ret.error)
  exact WarlView.ext rfl rfl rfl rfl hfixed

end Supervisor

section

variable [FloatOps]

omit [FloatOps] in
theorem FpOutcome.fixed_eq {flags : U64} {out : FpResult × Cpu} (h : FpOutcome cpu flags out) :
    out.2.fixed = cpu.fixed := by
  cases h with
  | bad => rfl
  | float => rfl
  | int flags rd val => exact cpu.writeReg_fixed rd val

theorem executeWidth_fixed (instr : Instr) (width : U64) (bus : β) :
    (executeWidth cpu instr width bus).2.1.fixed = cpu.fixed := by
  cases instr
  case fp raw =>
    have hfixed := (fpuExecute_outcome cpu raw).fixed_eq
    unfold executeWidth
    dsimp only
    split
    · exact hfixed
    · exact hfixed
  all_goals first
    | exact cpu.writeReg_fixed _ _
    | rfl

omit [FloatOps] in
theorem HartEffect.warlView_eq (h : HartEffect s s')
    (hfixed : s'.cpu.fixed = s.cpu.fixed) : s'.warlView = s.warlView := by
  refine WarlView.ext ?_ ?_ ?_ ?_ hfixed <;> rw [h] <;> rfl

theorem HartOutcome.warlView_eq {bus : β} {out : Status × Supervisor × β}
    (h : HartOutcome s bus out) : out.2.1.warlView = s.warlView := by
  induction h with
  | refused cause => exact s.takeTrapWithVaddr_warlView _ none
  | memory access vaddr next effect fixed =>
    refine s.withPaddr_warlView bus access vaddr next fun t bus paddr => ?_
    exact (effect t bus paddr).warlView_eq (fixed t bus paddr)
  | base instr width =>
    exact WarlView.ext rfl rfl rfl rfl (executeWidth_fixed s.cpu instr width bus)
  | settled h ih => exact (Supervisor.settleFs_warlView _).trans ih

/-- Instructions that do not access a CSR leave the view alone. -/
theorem Supervisor.executeSupervisor_warlView (s : Supervisor) {instr : Instr}
    (width : U64) (bus : β) (hinstr : instr.csrTarget = none) :
    (s.executeSupervisor instr width bus).2.1.warlView = s.warlView := by
  cases hpath : s.takesOwnPath instr with
  | false => exact (executeSupervisor_hart hpath width bus).warlView_eq
  | true =>
    have houtcome := (executeSupervisor_own hpath width bus).1
    generalize (s.executeSupervisor instr width bus).2.1 = s' at houtcome ⊢
    cases houtcome with
    | hart hnone effect => cases hnone.symm.trans hpath
    | csrReg hallowed | csrImm hallowed => cases hinstr
    | sbi hpriv => exact s.sbiCall_warlView bus width
    | mret => rfl
    | sret hallowed => rfl
    | wait hallowed =>
      unfold waitForInterrupt park
      split
      · exact (s.pollNow bus).takeTrapWithVaddr_warlView _ none
      · rfl
    | fence hallowed => exact (s.sfenceVma_effect _).warlView_eq

namespace Supervisor

/-- Retiring an instruction and delivering its trap leave the view alone. -/
theorem finishStep_warlView (s : Supervisor) (instr : Instr) (width : U64) (bus : β) :
    (s.finishStep instr width bus).2.1.warlView =
      ((s.flushedFor instr).executeSupervisor instr width bus).2.1.warlView := by
  unfold finishStep
  rcases deliver_cases _ _ _ with ⟨trap, hout⟩ | hout
  · rw [hout]
    exact takeTrapWithVaddr_warlView _ trap none
  · rw [hout]
    rfl

theorem fpJit_warlView (s : Supervisor) (bus : β) (call : FpCall) :
    (s.fpJit bus call).2.1.warlView = s.warlView := by
  unfold fpJit
  split
  · rfl
  cases call with
  | load fw rd rs1 imm =>
    have htranslate :=
      (s.translate_fetchEffect bus .load (s.cpu.address rs1 imm)).cacheEffect.warlView_eq
    dsimp only
    rcases hres : s.translate bus .load (s.cpu.address rs1 imm) with ⟨_ | paddr, s', bus'⟩ <;>
      rw [hres] at htranslate
    · exact htranslate
    · exact (settleFs_warlView _).trans htranslate
  | store fw rs2 rs1 imm =>
    have htranslate :=
      (s.translate_fetchEffect bus .store (s.cpu.address rs1 imm)).cacheEffect.warlView_eq
    dsimp only
    rcases hres : s.translate bus .store (s.cpu.address rs1 imm) with ⟨_ | paddr, s', bus'⟩ <;>
      rw [hres] at htranslate
    · exact htranslate
    · exact (settleFs_warlView _).trans htranslate
  | arith raw =>
    have hfixed := (fpuExecute_outcome s.cpu raw).fixed_eq
    dsimp only
    split
    · exact WarlView.ext rfl rfl rfl rfl hfixed
    · exact (settleFs_warlView _).trans (WarlView.ext rfl rfl rfl rfl hfixed)

end Supervisor

end

/-- The restricted fields hold legal values. -/
structure WarlFields (s : Supervisor) : Prop where
  uxl : s.mstatus.uxl = 2
  sxl : s.mstatus.sxl = 2
  mode : s.satp.mode = 0 ∨ s.satp.mode = 8
  fcsr : s.cpu.fcsr.toNat < 256
  pmpaddr : ∀ i, (s.pmpaddr i).toNat < 2 ^ 54
  zero : s.cpu.x 0 = 0
  fsDirty : s.cpu.fsDirty = false

/-- Those of them that every transition keeps. -/
structure WarlKept (s : Supervisor) : Prop where
  sxl : s.mstatus.sxl = 2
  mode : s.satp.Legal
  fcsr : Within 0xff s.cpu.fcsr
  pmpaddr : ∀ i, (s.pmpaddr i).toNat < 2 ^ 54
  zero : s.cpu.x 0 = 0
  fsDirty : s.cpu.fsDirty = false

/-- A step of the hart, or a call of one of its services by compiled code, with
the bus it finds. -/
inductive HartCall (β : Type u) where
  | step (bus : β)
  | csrJit (bus : β) (csr : Csr) (rd src : Reg) (val : U64) (op : CsrOp)
  | fpJit (bus : β) (call : FpCall)

/-- The operand leaves UXL at 2 when it is combined with a word that has it. -/
def CsrOp.keepsUxl (op : CsrOp) (val : U64) : Bool :=
  match op with
  | .rw => val.extractLsb' 32 2 = 2
  | .rs => !val.getLsbD 32
  | .rc => !val.getLsbD 33

/-- A CSR access that does not write `sstatus`, or only with such an operand. -/
def Supervisor.sparesUxl (s : Supervisor) (csr : Csr) (src : Reg) (val : U64)
    (op : CsrOp) : Bool :=
  csr ≠ 0x100 || s.csrDenied csr op src || !csrWillWrite op src || op.keepsUxl val

/-- The same for an instruction. -/
def Supervisor.instrSparesUxl (s : Supervisor) : Instr → Bool
  | .csrReg op _ rs1 csr => s.sparesUxl csr rs1 (s.cpu.readReg rs1) op
  | .csrImm op _ zimm csr => s.sparesUxl csr zimm (zimm.setWidth 64) op
  | _ => true

/-- What a call must meet in the state it finds. -/
def HartCall.SparesUxl (s : Supervisor) : HartCall β → Prop
  | .step bus => ∀ instr, s.stepInstr bus = some instr → s.instrSparesUxl instr = true
  | .csrJit _ csr _ src val op => s.sparesUxl csr src val op = true
  | .fpJit _ _ => True

theorem CsrOp.combine_uxl {old : U64} (hold : old.extractLsb' 32 2 = 2) (op : CsrOp)
    (val : U64) : (op.combine old val).extractLsb' 32 2 = 2 ↔ op.keepsUxl val = true := by
  have hlow : val.getLsbD 32 = (val.extractLsb' 32 2).getLsbD 0 := by
    rw [BitVec.getLsbD_extractLsb']
    rfl
  have hhigh : val.getLsbD 33 = (val.extractLsb' 32 2).getLsbD 1 := by
    rw [BitVec.getLsbD_extractLsb']
    rfl
  unfold combine keepsUxl
  rw [hlow, hhigh]
  cases op with
  | rw => exact (decide_eq_true_iff).symm
  | rs =>
    rw [BitVec.extractLsb'_or, hold]
    generalize val.extractLsb' 32 2 = field
    revert field
    decide
  | rc =>
    rw [BitVec.extractLsb'_and, BitVec.extractLsb'_not_of_lt (by decide), hold]
    generalize val.extractLsb' 32 2 = field
    revert field
    decide

/-- A view whose fields other than UXL are legal. -/
structure WarlView.Kept (v : WarlView) : Prop where
  sxl : v.sxl = 2
  mode : v.satp.Legal
  pmpaddr : ∀ i, (v.pmpaddr i).toNat < 2 ^ 54
  zero : v.fixed.1 = 0

theorem WarlView.Kept.write (h : v.Kept) (csr : Csr) (val : U64) :
    (v.write csr val).Kept := by
  obtain ⟨hsxl, hmode, hpmpaddr, hzero⟩ := h
  unfold WarlView.write
  split_ifs
  · exact ⟨rfl, hmode, hpmpaddr, hzero⟩
  · refine ⟨hsxl, hmode, fun i => ?_, hzero⟩
    dsimp only
    rw [Function.update_apply]
    split
    · rw [BitVec.toNat_and]
      exact Nat.and_lt_two_pow _ (by decide)
    · exact hpmpaddr i
  · exact ⟨hsxl, hmode, hpmpaddr, hzero⟩
  · exact ⟨hsxl, Satp.fromBits_legal val, hpmpaddr, hzero⟩
  · exact ⟨hsxl, hmode, hpmpaddr, hzero⟩

theorem WarlView.write_fixed (csr : Csr) (val : U64) : (v.write csr val).fixed = v.fixed := by
  unfold write
  split_ifs <;> rfl

theorem WarlView.write_uxl (huxl : v.uxl = 2) (csr : Csr) (val : U64) :
    (v.write csr val).uxl = 2 ↔ (csr = 0x100 → val.extractLsb' 32 2 = 2) := by
  by_cases hsstatus : csr = 0x100
  · subst hsstatus
    exact ⟨fun h _ => h, fun h => h rfl⟩
  refine iff_of_true ?_ fun h => absurd h hsstatus
  unfold write
  rw [if_neg hsstatus]
  split_ifs
  · rfl
  · exact huxl
  · exact huxl
  · exact huxl

namespace Supervisor

section

variable (s : Supervisor) (bus : β) (csr : Csr)

/-- The view that a CSR instruction leaves, in the interpreter or in compiled
code. -/
def csrView (src : Reg) (val : U64) (op : CsrOp) : WarlView :=
  if s.csrDenied csr op src then s.warlView
  else if csrWillWrite op src then
    s.warlView.write csr (op.combine (s.csrRead bus csr) val)
  else s.warlView

theorem csrOp_warlView (rd src : Reg) (val : U64) (op : CsrOp) (width : U64) :
    (s.csrOp bus csr rd src val op width).2.warlView = s.csrView bus csr src val op := by
  unfold csrOp csrView
  split
  · exact s.takeTrapWithVaddr_warlView _ none
  · exact s.csrAccess_warlView bus csr rd src val op

theorem csrJit_warlView (rd src : Reg) (val : U64) (op : CsrOp) :
    (s.csrJit bus csr rd src val op).2.warlView = s.csrView bus csr src val op := by
  unfold csrJit csrView
  split
  · rfl
  · exact s.csrAccess_warlView bus csr rd src val op

end

/-- What CSR writes keep, a CSR instruction keeps. -/
theorem csrView_keeps {P : WarlView → Prop} (hwrite : ∀ v csr val, P v → P (v.write csr val))
    (h : P s.warlView) (bus : β) (csr : Csr) (src : Reg) (val : U64) (op : CsrOp) :
    P (s.csrView bus csr src val op) := by
  unfold csrView
  split_ifs
  · exact h
  · exact hwrite _ csr _ h
  · exact h

theorem csrView_uxl (huxl : s.mstatus.uxl = 2) (bus : β) (csr : Csr)
    (src : Reg) (val : U64) (op : CsrOp) :
    (s.csrView bus csr src val op).uxl = 2 ↔ s.sparesUxl csr src val op = true := by
  have hview : s.warlView.uxl = 2 := huxl
  unfold csrView sparesUxl
  by_cases hsstatus : csr = 0x100
  · subst hsstatus
    have hold : (s.csrRead bus 0x100).extractLsb' 32 2 = 2 :=
      (congrArg MStatus.uxl s.mstatus.fromBits_toBits).trans huxl
    cases s.csrDenied 0x100 op src with
    | true => simp [hview]
    | false =>
      cases csrWillWrite op src with
      | false => simp [hview]
      | true =>
        rw [if_neg Bool.false_ne_true, if_pos rfl, WarlView.write_uxl hview]
        exact ⟨fun h => (CsrOp.combine_uxl hold op val).mp (h rfl),
          fun h _ => (CsrOp.combine_uxl hold op val).mpr h⟩
  · have hspared : (decide (csr ≠ 0x100)) = true := decide_eq_true hsstatus
    rw [hspared]
    refine iff_of_true ?_ rfl
    split_ifs
    · exact huxl
    · exact (WarlView.write_uxl hview csr _).mpr fun h => absurd h hsstatus
    · exact huxl

end Supervisor

section

variable [FloatOps]

def HartCall.exec (s : Supervisor) : HartCall β → Supervisor
  | .step bus => (s.step bus).2.1
  | .csrJit bus csr rd src val op => (s.csrJit bus csr rd src val op).2
  | .fpJit bus call => (s.fpJit bus call).2.1

namespace Supervisor

omit [FloatOps] in
/-- The condition reads registers, the privilege level and `mstatus` only. -/
theorem instrSparesUxl_congr {t : Supervisor} (hcpu : t.cpu = s.cpu)
    (hpriv : t.privLevel = s.privLevel) (hmstatus : t.mstatus = s.mstatus) (instr : Instr) :
    t.instrSparesUxl instr = s.instrSparesUxl instr := by
  unfold instrSparesUxl sparesUxl csrDenied
  rw [hcpu, hpriv, hmstatus]

omit [FloatOps] in
theorem pollDevices_same (s : Supervisor) (bus : β) :
    (s.pollDevices bus).warlView = s.warlView ∧ (s.pollDevices bus).cpu = s.cpu ∧
      (s.pollDevices bus).privLevel = s.privLevel ∧
      (s.pollDevices bus).mstatus = s.mstatus :=
  ite_holds (fun t : Supervisor => t.warlView = s.warlView ∧ t.cpu = s.cpu ∧
      t.privLevel = s.privLevel ∧ t.mstatus = s.mstatus)
    ⟨rfl, rfl, rfl, rfl⟩ ⟨rfl, rfl, rfl, rfl⟩

/-- The view that an instruction leaves. -/
def instrView (s : Supervisor) (bus : β) : Instr → WarlView
  | .csrReg op _ rs1 csr => s.csrView bus csr rs1 (s.cpu.readReg rs1) op
  | .csrImm op _ zimm csr => s.csrView bus csr zimm (zimm.setWidth 64) op
  | _ => s.warlView

theorem executeSupervisor_instrView (s : Supervisor) (instr : Instr) (width : U64) (bus : β) :
    (s.executeSupervisor instr width bus).2.1.warlView = s.instrView bus instr := by
  cases instr
  case csrReg op rd rs1 csr => exact s.csrOp_warlView bus csr rd rs1 _ op width
  case csrImm op rd zimm csr => exact s.csrOp_warlView bus csr rd zimm _ op width
  all_goals exact s.executeSupervisor_warlView width bus rfl

omit [FloatOps] in
theorem instrView_keeps {P : WarlView → Prop} (hwrite : ∀ v csr val, P v → P (v.write csr val))
    (h : P s.warlView) (bus : β) (instr : Instr) : P (s.instrView bus instr) := by
  cases instr
  case csrReg | csrImm => exact csrView_keeps hwrite h bus _ _ _ _
  all_goals exact h

omit [FloatOps] in
/-- An instruction keeps UXL exactly under the condition. -/
theorem instrView_uxl (huxl : s.mstatus.uxl = 2) (bus : β) (instr : Instr) :
    (s.instrView bus instr).uxl = 2 ↔ s.instrSparesUxl instr = true := by
  cases instr
  case csrReg | csrImm => exact csrView_uxl huxl bus _ _ _ _
  all_goals exact iff_of_true huxl rfl

/-- A step delivers a trap, or executes an instruction in a state that differs in caches
only. -/
theorem step_warlView (s : Supervisor) (bus : β) :
    (s.stepInstr bus = none ∧ (s.step bus).2.1.warlView = s.warlView) ∨
      ∃ (instr : Instr) (t : Supervisor) (bus' : β), s.stepInstr bus = some instr ∧
        (s.step bus).2.1.warlView = t.instrView bus' instr ∧ t.warlView = s.warlView ∧
        t.instrSparesUxl instr = s.instrSparesUxl instr := by
  obtain ⟨hview, hcpu, hpriv, hmstatus⟩ := s.pollDevices_same bus
  rcases s.step_cases bus with
    ⟨hnone, s', trap, faultVaddr, hfetch, hstep⟩ | ⟨instr, width, s', bus', hsome, hfetch, hstep⟩
  · refine Or.inl ⟨hnone, ?_⟩
    rw [hstep, takeTrapWithVaddr_warlView, hfetch.cacheEffect.warlView_eq, hview]
  · have hcache := hfetch.cacheEffect.trans (s'.flushedFor_effect instr)
    refine Or.inr ⟨instr, s'.flushedFor instr, bus', hsome, ?_, hcache.warlView_eq.trans hview,
      instrSparesUxl_congr (hcache.cpu_eq.trans hcpu) (hcache.privLevel_eq.trans hpriv)
        (hcache.mstatus_eq.trans hmstatus) instr⟩
    rw [hstep, s'.finishStep_warlView, executeSupervisor_instrView]

theorem step_warl_keeps {P : WarlView → Prop} (hwrite : ∀ v csr val, P v → P (v.write csr val))
    (h : P s.warlView) (bus : β) : P (s.step bus).2.1.warlView := by
  rcases s.step_warlView bus with ⟨-, hview⟩ | ⟨instr, t, bus', -, hview, ht, -⟩
  · rw [hview]
    exact h
  · rw [hview]
    exact instrView_keeps hwrite (ht ▸ h) bus' instr

/-- A step keeps the view legal, and UXL exactly under the condition. -/
theorem step_warl (h : s.warlView.Kept) (bus : β) :
    (s.step bus).2.1.warlView.Kept ∧
      (s.mstatus.uxl = 2 → ((s.step bus).2.1.mstatus.uxl = 2 ↔
        ∀ instr, s.stepInstr bus = some instr → s.instrSparesUxl instr = true)) := by
  refine ⟨step_warl_keeps (fun _ csr val h => h.write csr val) h bus, fun huxl => ?_⟩
  rcases s.step_warlView bus with ⟨hnone, hview⟩ | ⟨instr, t, bus', hsome, hview, ht, hcond⟩
  · refine iff_of_true ((congrArg WarlView.uxl hview).trans huxl) fun instr hinstr => ?_
    cases hnone.symm.trans hinstr
  · have hiff := instrView_uxl ((congrArg WarlView.uxl ht).trans huxl) bus' instr
    rw [hcond, ← hview] at hiff
    rw [hsome]
    exact hiff.trans ⟨fun h _ hinstr => Option.some.inj hinstr ▸ h, fun h => h instr rfl⟩

/-- No instruction changes what is fixed. -/
theorem step_fixed (s : Supervisor) (bus : β) : (s.step bus).2.1.cpu.fixed = s.cpu.fixed :=
  step_warl_keeps (P := fun v => v.fixed = s.cpu.fixed)
    (fun _ csr val h => (WarlView.write_fixed csr val).trans h) rfl bus

end Supervisor

namespace HartCall

def event (s : Supervisor) : HartCall β → FpEvent
  | .step bus => s.stepEvent bus
  | .csrJit bus csr _ src val op => s.csrOpEvent bus csr src val op
  | .fpJit bus call => s.fpJitEvent bus call

theorem exec_fpView (s : Supervisor) (call : HartCall β) :
    (call.exec s).fpView = s.fpView.apply (call.event s) := by
  cases call with
  | step bus => exact s.step_fpView bus
  | csrJit bus csr rd src val op => exact s.csrJit_fpView bus csr rd src val op
  | fpJit bus call => exact s.fpJit_fpView bus call

theorem event_fits (h : Within 0xff s.cpu.fcsr) (call : HartCall β) : (call.event s).Fits := by
  cases call with
  | step bus => exact s.stepEvent_fits h bus
  | csrJit bus csr rd src val op => exact s.csrOpEvent_fits h bus csr src val op
  | fpJit bus call => exact s.fpJitEvent_fits bus call

theorem exec_warl (h : s.warlView.Kept) (call : HartCall β) :
    (call.exec s).warlView.Kept ∧
      (s.mstatus.uxl = 2 → ((call.exec s).mstatus.uxl = 2 ↔ call.SparesUxl s)) := by
  cases call with
  | step bus => exact s.step_warl h bus
  | csrJit bus csr rd src val op =>
    have hview := s.csrJit_warlView bus csr rd src val op
    refine ⟨?_, fun huxl => ?_⟩
    · exact hview ▸ Supervisor.csrView_keeps (fun _ _ _ h => h.write _ _) h bus csr src val op
    have hiff := s.csrView_uxl huxl bus csr src val op
    rw [← hview] at hiff
    exact hiff
  | fpJit bus call =>
    have hview := s.fpJit_warlView bus call
    exact ⟨hview ▸ h, fun huxl => iff_of_true ((congrArg WarlView.uxl hview).trans huxl) trivial⟩

end HartCall

theorem WarlKept.exec (h : WarlKept s) (call : HartCall β) : WarlKept (call.exec s) := by
  have hfcsr : Within 0xff (s.fpView.apply (call.event s)).fcsr :=
    FpView.apply_fcsr h.fcsr (call.event_fits h.fcsr)
  have hclean := FpView.apply_clean (v := s.fpView) h.fsDirty (call.event s)
  rw [← call.exec_fpView s] at hfcsr hclean
  obtain ⟨hsxl, hmode, hpmpaddr, hzero⟩ := (call.exec_warl ⟨h.sxl, h.mode, h.pmpaddr, h.zero⟩).1
  exact ⟨hsxl, hmode, hfcsr, hpmpaddr, hzero, hclean⟩

/-- From reset on, the restricted fields are legal in every state of a run of
steps and calls exactly when no CSR access of it writes another value than 2 to
UXL through `sstatus`. -/
theorem run_warlFields_iff (pc hartid : U64) (calls : List (HartCall β)) :
    (∀ n, WarlFields (Runs.run HartCall.exec (Supervisor.new pc hartid) (calls.take n))) ↔
      Runs.Along HartCall.exec HartCall.SparesUxl (Supervisor.new pc hartid) calls := by
  have hreset : WarlKept (Supervisor.new pc hartid) :=
    ⟨rfl, .inl rfl, .zero 0xff, fun _ => Nat.two_pow_pos 54, rfl, rfl⟩
  have hfields : ∀ s, WarlKept s → (WarlFields s ↔ s.mstatus.uxl = 2) := by
    intro s h
    refine ⟨fun hs => hs.uxl, fun huxl => ?_⟩
    exact ⟨huxl, h.sxl, h.mode, h.fcsr.toNat_lt (n := 8) (by decide), h.pmpaddr, h.zero, h.fsDirty⟩
  refine Runs.forall_take_iff_along (fun s call h => h.exec call) ?_ hreset
    ((hfields _ hreset).mpr rfl)
  intro s call hs hgood
  rw [hfields _ (hs.exec call)]
  exact (call.exec_warl ⟨hs.sxl, hs.mode, hs.pmpaddr, hs.zero⟩).2 hgood.uxl

end

/-- `csrwi sstatus, 0` as the first instruction after reset. -/
def sstatusFirst : Ram := Ram.ofWords [0x10005073]

/-- It leaves UXL at 0. -/
theorem sstatus_write_clears_uxl :
    letI := FloatOps.zero
    (Runs.run HartCall.exec (Supervisor.new 0 0) [HartCall.step sstatusFirst]).mstatus.uxl = 0 ∧
      ¬ WarlFields (Runs.run HartCall.exec (Supervisor.new 0 0) [HartCall.step sstatusFirst]) := by
  have huxl : (@Runs.run _ _ (@HartCall.exec Ram _ FloatOps.zero) (Supervisor.new 0 0)
      [HartCall.step sstatusFirst]).mstatus.uxl = 0 := by
    decide +kernel
  refine ⟨huxl, fun h => ?_⟩
  exact absurd (huxl.symm.trans h.uxl) (by decide)

end TabLinux
