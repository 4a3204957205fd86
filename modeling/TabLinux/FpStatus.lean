/-
What the status fields say about the floating-point state: when a changed register or
flag is seen in FS, and when FS, XS and VS are seen in their summary SD.
-/
import TabLinux.FpEvents
import TabLinux.StatusBits
import TabLinux.Library.Runs

namespace TabLinux

universe u

variable {β : Type u} [Bus β]
variable (bus : β)

variable {v : FpView}

variable (s : Supervisor)

/-- A changed `f` register or `fcsr` goes with a Dirty status field. -/
def FpView.Tracked (v v' : FpView) : Prop :=
  v'.f ≠ v.f ∨ v'.fcsr ≠ v.fcsr → v'.fs = 3

theorem FpView.settle_regs (v : FpView) : v.settle.f = v.f ∧ v.settle.fcsr = v.fcsr := by
  unfold settle
  split <;> exact ⟨rfl, rfl⟩

theorem FpView.settle_fs (v : FpView) : v.settle.fs = if v.fsDirty then 3 else v.fs := by
  unfold settle
  split <;> rfl

theorem FpView.Tracked.of_regs {v' : FpView} (hf : v'.f = v.f) (hfcsr : v'.fcsr = v.fcsr) :
    v.Tracked v' := by
  rintro (h | h)
  · exact absurd hf h
  · exact absurd hfcsr h

def FpEvent.isArith : FpEvent → Bool
  | .arith _ _ => true
  | _ => false

/-- Every event but a compute instruction keeps track. -/
theorem FpView.apply_tracked {e : FpEvent} (he : e.isArith = false) : v.Tracked (v.apply e) := by
  cases e with
  | keep => exact .of_regs rfl rfl
  | settle => exact .of_regs v.settle_regs.1 v.settle_regs.2
  | load => exact fun _ => rfl
  | arith => cases he
  | fcsr => exact fun _ => rfl
  | status => exact .of_regs rfl rfl

theorem Supervisor.csrOpEvent_isArith (csr : Csr) (src : Reg) (val : U64)
    (op : CsrOp) : (s.csrOpEvent bus csr src val op).isArith = false := by
  unfold csrOpEvent csrEvent
  repeat' split
  all_goals rfl

theorem Supervisor.floadEvent_isArith (fw : FWidth) (rd rs1 : Reg) (imm : U64)
    {faulted : FpEvent} (hfaulted : faulted.isArith = false) :
    (s.floadEvent bus fw rd rs1 imm faulted).isArith = false := by
  unfold floadEvent
  split
  · exact hfaulted
  · rfl

section

variable [FloatOps]

/-- The word raises a flag that is not set yet without marking the state dirty, while
the status field is Initial or Clean. -/
structure Supervisor.RaisesUntracked (s : Supervisor) (raw : U32) : Prop where
  enabled : s.mstatus.fs ≠ 0
  clean : s.mstatus.fs ≠ 3
  settled : s.cpu.fsDirty = false
  raises : s.cpu.fcsr ||| unmarkedFlags s.cpu raw ≠ s.cpu.fcsr

theorem Supervisor.not_raisesUntracked {s : Supervisor} {raw : U32}
    (hnone : unmarkedFlags s.cpu raw = 0) : ¬ s.RaisesUntracked raw :=
  fun h => h.raises (by rw [hnone]; exact BitVec.or_zero)

theorem Supervisor.arithEvent_tracked_iff {s : Supervisor} (hfs : s.mstatus.fs ≠ 0)
    (raw : U32) :
    s.fpView.Tracked (s.fpView.apply (s.arithEvent raw)) ↔ ¬ s.RaisesUntracked raw := by
  have hout := fpuExecute_outcome s.cpu raw
  unfold arithEvent
  generalize fpuExecute s.cpu raw = out at hout
  cases hout with
  | bad hnone =>
    exact iff_of_true (.of_regs (FpView.settle_regs _).1 (FpView.settle_regs _).2)
      (not_raisesUntracked hnone)
  | float flags rd val hnone =>
    refine iff_of_true (fun _ => ?_) (not_raisesUntracked hnone)
    simp [FpView.apply, FpView.settle_fs]
  | int flags rd val hflags =>
    -- the registers are untouched, so only `fcsr` can need the status field
    simp only [FpView.Tracked, FpView.apply, FpView.settle_regs, FpView.settle_fs,
      s.cpu.writeReg_f rd val, Bool.or_false, ↓reduceIte, fpView, ne_eq, not_true_eq_false,
      false_or, ← hflags]
    constructor
    · intro htracked h
      have hfs3 := htracked h.raises
      rw [h.settled] at hfs3
      exact h.clean hfs3
    · intro h hraises
      by_cases hsettled : s.cpu.fsDirty = true
      · rw [if_pos hsettled]
      rw [if_neg hsettled]
      by_contra hclean
      exact h ⟨hfs, hclean, by simpa using hsettled, hraises⟩

/-- An executed instruction keeps track unless it is such a word. -/
theorem Supervisor.execEvent_tracked_iff (instr : Instr) :
    s.fpView.Tracked (s.fpView.apply (s.execEvent bus instr)) ↔
      ∀ raw, instr = .fp raw → ¬ s.RaisesUntracked raw := by
  by_cases hfp : ∃ raw, instr = .fp raw
  · obtain ⟨raw, rfl⟩ := hfp
    have hsingle : (∀ raw', Instr.fp raw = .fp raw' → ¬ s.RaisesUntracked raw') ↔
        ¬ s.RaisesUntracked raw :=
      ⟨fun h => h raw rfl, fun h raw' heq => by cases heq; exact h⟩
    rw [hsingle]
    change s.fpView.Tracked (s.fpView.apply (s.baseEvent bus (.fp raw))) ↔ _
    unfold baseEvent
    by_cases hfs : s.mstatus.fs = 0
    · rw [if_pos (by simp [hfs, Instr.isFp])]
      exact iff_of_true (FpView.apply_tracked rfl) fun h => h.enabled hfs
    have hgate : ¬ (s.mstatus.fs = 0 && (Instr.fp raw).isFp) = true := by
      simp only [hfs, decide_false, Bool.false_and, Bool.false_eq_true, not_false_eq_true]
    rw [if_neg hgate]
    exact arithEvent_tracked_iff hfs raw
  · simp only [not_exists] at hfp
    refine iff_of_true (FpView.apply_tracked ?_) fun raw heq => absurd heq (hfp raw)
    have hbase : (s.baseEvent bus instr).isArith = false := by
      unfold baseEvent
      split
      · rfl
      split
      · exact s.floadEvent_isArith bus _ _ _ _ rfl
      · exact absurd rfl (hfp _)
      · rfl
    cases instr
    case csrReg | csrImm => exact s.csrOpEvent_isArith bus _ _ _ _
    case ecall | ebreak | mret | sret | wfi | sfenceVma | lr | sc => rfl
    all_goals exact hbase

/-- `f` registers and `fcsr` of the hart, against the status field. -/
def FpTracked (s s' : Supervisor) : Prop :=
  s'.cpu.f ≠ s.cpu.f ∨ s'.cpu.fcsr ≠ s.cpu.fcsr → s'.mstatus.fs = 3

namespace Supervisor

theorem RaisesUntracked.of_eq {s s' : Supervisor} {raw : U32}
    (h : s.RaisesUntracked raw) (hcpu : s'.cpu = s.cpu) (hmstatus : s'.mstatus = s.mstatus) :
    s'.RaisesUntracked raw where
  enabled := by rw [hmstatus]; exact h.enabled
  clean := by rw [hmstatus]; exact h.clean
  settled := by rw [hcpu]; exact h.settled
  raises := by rw [hcpu]; exact h.raises

/-- The state in which a step executes has the registers and the status of the state
the step started in. -/
theorem stepEvent_tracked_iff :
    s.fpView.Tracked (s.fpView.apply (s.stepEvent bus)) ↔
      ∀ raw, s.stepInstr bus = some (.fp raw) → ¬ s.RaisesUntracked raw := by
  have hpolled : (s.pollDevices bus).cpu = s.cpu ∧ (s.pollDevices bus).mstatus = s.mstatus :=
    ite_holds (fun t : Supervisor => t.cpu = s.cpu ∧ t.mstatus = s.mstatus) ⟨rfl, rfl⟩ ⟨rfl, rfl⟩
  have hfetch := ((s.pollDevices bus).fetch_effect bus).cacheEffect
  unfold stepEvent stepInstr polledInstr
  cases (s.pollDevices bus).checkInterrupts with
  | some trap => exact iff_of_true (FpView.apply_tracked rfl) fun raw h => by cases h
  | none =>
    rcases hres : (s.pollDevices bus).fetch bus with ⟨⟨trap, vaddr⟩ | ⟨instr, width⟩, s', bus'⟩ <;>
      rw [hres] at hfetch
    · exact iff_of_true (FpView.apply_tracked rfl) fun raw h => by cases h
    have heffect := hfetch.trans (s'.flushedFor_effect instr)
    have hcpu : (s'.flushedFor instr).cpu = s.cpu := heffect.cpu_eq.trans hpolled.1
    have hmstatus : (s'.flushedFor instr).mstatus = s.mstatus := by
      rw [heffect]
      exact hpolled.2
    have hview : (s'.flushedFor instr).fpView = s.fpView := by
      unfold fpView
      rw [hcpu, hmstatus]
    have hexec := (s'.flushedFor instr).execEvent_tracked_iff bus' instr
    rw [hview] at hexec
    refine hexec.trans ⟨fun h raw hraw hraises => ?_, fun h raw hraw hraises => ?_⟩
    · exact h raw (Option.some.inj hraw) (hraises.of_eq hcpu hmstatus)
    · exact h raw (congrArg some hraw) (hraises.of_eq hcpu.symm hmstatus.symm)

theorem fpJitEvent_tracked_iff (call : FpCall) :
    s.fpView.Tracked (s.fpView.apply (s.fpJitEvent bus call)) ↔
      ∀ raw, call = .arith raw → ¬ s.RaisesUntracked raw := by
  unfold fpJitEvent
  by_cases hfs : s.mstatus.fs = 0
  · rw [if_pos hfs]
    exact iff_of_true (FpView.apply_tracked rfl) fun raw _ h => h.enabled hfs
  rw [if_neg hfs]
  cases call with
  | load fw rd rs1 imm =>
    refine iff_of_true (FpView.apply_tracked ?_) fun raw h => by cases h
    exact s.floadEvent_isArith bus fw rd rs1 imm rfl
  | store fw rs2 rs1 imm =>
    refine iff_of_true (FpView.apply_tracked ?_) fun raw h => by cases h
    dsimp only
    split <;> rfl
  | arith raw =>
    have hsingle : (∀ raw', FpCall.arith raw = .arith raw' → ¬ s.RaisesUntracked raw') ↔
        ¬ s.RaisesUntracked raw :=
      ⟨fun h => h raw rfl, fun h raw' heq => by cases heq; exact h⟩
    rw [hsingle]
    dsimp only
    cases hok : (fpuExecute s.cpu raw).1.ok with
    | true => exact arithEvent_tracked_iff hfs raw
    | false =>
      have hnone := (fpuExecute_outcome s.cpu raw).unmarked_eq hok
      exact iff_of_true (FpView.apply_tracked rfl) (not_raisesUntracked hnone)

/-- A step, and a floating-point call of compiled code, leaves a changed `f` register
or `fcsr` with a Dirty status field unless it executes a word that raises a flag
untracked. -/
theorem fpTracked_iff (s : Supervisor) (bus : β) :
    (FpTracked s (s.step bus).2.1 ↔
      ∀ raw, s.stepInstr bus = some (.fp raw) → ¬ s.RaisesUntracked raw) ∧
    ∀ call, FpTracked s (s.fpJit bus call).2.1 ↔
      ∀ raw, call = .arith raw → ¬ s.RaisesUntracked raw := by
  constructor
  · rw [← s.stepEvent_tracked_iff bus, ← s.step_fpView bus]
    rfl
  intro call
  rw [← s.fpJitEvent_tracked_iff bus call, ← s.fpJit_fpView bus call]
  rfl

end Supervisor

end

/-- `lui x5, 2; csrs mstatus, x5; flt.s x1, f1, f2`: the state is made Initial, and two
improperly boxed singles, which read as NaN, are compared. -/
def compareProgram : Ram := Ram.ofWords [0x000022B7, 0x3002A073, 0xA02090D3]

/-- The state before the comparison. -/
def compareState : Supervisor × Ram :=
  letI := FloatOps.zero
  (Supervisor.new 0 0).run compareProgram 2

/-- The comparison raises the invalid flag and leaves the status Initial. -/
theorem compare_raises_untracked :
    compareState.1.mstatus.fs = 1 ∧ compareState.1.cpu.fcsr = 0 ∧
      (@Supervisor.step FloatOps.zero Ram _ compareState.1 compareState.2).2.1.cpu.fcsr = 16 ∧
      (@Supervisor.step FloatOps.zero Ram _ compareState.1 compareState.2).2.1.mstatus.fs = 1 := by
  decide +kernel

/-- Bit 63 of a status word says whether one of its three state fields is Dirty. -/
def SummaryBit (val : U64) : Prop :=
  val.getLsbD 63 = true ↔
    val.extractLsb' 13 2 = 3 ∨ val.extractLsb' 15 2 = 3 ∨ val.extractLsb' 9 2 = 3

instance (val : U64) : Decidable (SummaryBit val) :=
  inferInstanceAs (Decidable (_ ↔ _))

/-- The stored bit against the stored fields. -/
def FpView.SdHolds (v : FpView) : Prop :=
  v.sd = true ↔ v.fs = 3 ∨ v.xs = 3 ∨ v.vs = 3

/-- An event keeps the stored bit right when it makes FS Dirty only with the bit set
already, and when a status value carries its own summary. -/
def FpEvent.KeepsSd (v : FpView) : FpEvent → Prop
  | .keep | .settle => True
  | .load _ _ | .fcsr _ => v.sd = true
  | .arith r _ => r.ok = true → r.dirty = true → v.sd = true
  | .status val => SummaryBit val

namespace FpView

theorem settle_clean (hclean : v.fsDirty = false) : v.settle = v := by
  simp [settle, hclean]

theorem settle_fsDirty (v : FpView) : v.settle.fsDirty = false := by
  unfold settle
  split
  · rfl
  · simpa using ‹¬ v.fsDirty = true›

theorem apply_clean (hclean : v.fsDirty = false) (e : FpEvent) : (v.apply e).fsDirty = false := by
  cases e with
  | keep => exact hclean
  | settle => exact v.settle_fsDirty
  | load => exact settle_fsDirty _
  | arith r f =>
    exact ite_keep (fun w : FpView => w.fsDirty) (settle_fsDirty _) (settle_fsDirty _)
  | fcsr => exact hclean
  | status => exact hclean

theorem sdHolds_dirty (hfs : v.fs = 3) : v.SdHolds ↔ v.sd = true := by
  simp [FpView.SdHolds, hfs]

theorem apply_sdHolds_iff (hclean : v.fsDirty = false) (hsd : v.SdHolds) (e : FpEvent) :
    (v.apply e).SdHolds ↔ e.KeepsSd v := by
  cases e with
  | keep => exact iff_of_true hsd trivial
  | settle =>
    refine iff_of_true ?_ trivial
    change v.settle.SdHolds
    rw [settle_clean hclean]
    exact hsd
  | load => exact sdHolds_dirty rfl
  | arith r f =>
    obtain ⟨flags, dirty, ok⟩ := r
    cases ok with
    | false =>
      refine iff_of_true ?_ fun h => by cases h
      have hview : v.apply (.arith ⟨flags, dirty, false⟩ f) = { v with f := f } :=
        settle_clean hclean
      rw [hview]
      exact hsd
    | true =>
      cases dirty with
      | true =>
        have hview : v.apply (.arith ⟨flags, true, true⟩ f) =
            { v with f := f, fcsr := v.fcsr ||| flags, fsDirty := false, fs := 3 } := by
          simp [apply, settle]
        rw [hview, sdHolds_dirty rfl]
        exact ⟨fun h _ _ => h, fun h => h rfl rfl⟩
      | false =>
        refine iff_of_true ?_ fun _ h => by cases h
        have hview : v.apply (.arith ⟨flags, false, true⟩ f) =
            { v with f := f, fcsr := v.fcsr ||| flags } := by
          simp [apply, settle, hclean]
        rw [hview]
        exact hsd
  | fcsr => exact sdHolds_dirty rfl
  | status => exact Iff.rfl

end FpView

theorem MStatus.toBits_sd (m : MStatus) : m.toBits.getLsbD 63 = m.sd :=
  congrArg sd m.fromBits_toBits

theorem MStatus.toBits_fields (m : MStatus) :
    m.toBits.extractLsb' 13 2 = m.fs ∧ m.toBits.extractLsb' 15 2 = m.xs ∧
      m.toBits.extractLsb' 9 2 = m.vs :=
  ⟨congrArg fs m.fromBits_toBits, congrArg xs m.fromBits_toBits, congrArg vs m.fromBits_toBits⟩

/-- The two status registers read with a truthful summary. -/
def Supervisor.SdSummary (s : Supervisor) (bus : β) : Prop :=
  SummaryBit (s.csrRead bus 0x300) ∧ SummaryBit (s.csrRead bus 0x100)

instance (s : Supervisor) (bus : β) : Decidable (s.SdSummary bus) :=
  inferInstanceAs (Decidable (_ ∧ _))

theorem Supervisor.sdSummary_iff : s.SdSummary bus ↔ s.fpView.SdHolds := by
  have hbit : SummaryBit s.mstatus.toBits ↔ s.fpView.SdHolds := by
    obtain ⟨hfs, hxs, hvs⟩ := s.mstatus.toBits_fields
    unfold SummaryBit
    rw [hfs, hxs, hvs, s.mstatus.toBits_sd]
    exact Iff.rfl
  exact ⟨fun h => hbit.mp h.1, fun h => ⟨hbit.mpr h, hbit.mpr h⟩⟩

/-- A step of the hart, or an instruction that compiled code hands to a shim, with the
bus it finds. -/
inductive HartAct (β : Type u) where
  | step (bus : β)
  | fpJit (bus : β) (call : FpCall)
  | csrJit (bus : β) (csr : Csr) (rd src : Reg) (imm : Bool) (op : CsrOp)

section

variable [FloatOps]

def HartAct.exec (s : Supervisor) : HartAct β → Supervisor
  | .step bus => (s.step bus).2.1
  | .fpJit bus call => (s.fpJit bus call).2.1
  | .csrJit bus csr rd src imm op => (s.csrJit bus csr rd src (s.csrSource src imm) op).2

def HartAct.event (s : Supervisor) : HartAct β → FpEvent
  | .step bus => s.stepEvent bus
  | .fpJit bus call => s.fpJitEvent bus call
  | .csrJit bus csr _ src imm op => s.csrOpEvent bus csr src (s.csrSource src imm) op

/-- Every act performs its event. -/
theorem HartAct.exec_fpView (act : HartAct β) :
    (act.exec s).fpView = s.fpView.apply (act.event s) := by
  cases act with
  | step bus => exact s.step_fpView bus
  | fpJit bus call => exact s.fpJit_fpView bus call
  | csrJit bus csr rd src imm op => exact s.csrJit_fpView bus csr rd src _ op

/-- What an act must meet in the state it finds. -/
def HartAct.KeepsSd (s : Supervisor) (act : HartAct β) : Prop :=
  (act.event s).KeepsSd s.fpView

/-- From reset on, the status registers read with a truthful summary in every state
of a run exactly when no act of it makes FS Dirty with SD clear or writes a status word
whose bit 63 is not the summary of its fields. -/
theorem run_sdSummary_iff (pc hartid : U64) (acts : List (HartAct β)) (bus : β) :
    (∀ n, (Runs.run HartAct.exec (Supervisor.new pc hartid)
      (acts.take n)).SdSummary bus) ↔
      Runs.Along HartAct.exec HartAct.KeepsSd (Supervisor.new pc hartid) acts := by
  have hclean : ∀ (s : Supervisor) (act : HartAct β), s.fpView.fsDirty = false →
      (act.exec s).fpView.fsDirty = false := by
    intro s act hclean
    rw [act.exec_fpView s]
    exact FpView.apply_clean hclean _
  have hreset : (Supervisor.new pc hartid).SdSummary bus := by
    rw [Supervisor.sdSummary_iff]
    change (false = true ↔ (0 : BitVec 2) = 3 ∨ (0 : BitVec 2) = 3 ∨ (0 : BitVec 2) = 3)
    decide
  have hstep : ∀ (s : Supervisor) (act : HartAct β), s.fpView.fsDirty = false →
      s.SdSummary bus → ((act.exec s).SdSummary bus ↔ act.KeepsSd s) := by
    intro s act hclean hsd
    rw [Supervisor.sdSummary_iff, act.exec_fpView s]
    exact FpView.apply_sdHolds_iff hclean ((s.sdSummary_iff bus).mp hsd) _
  exact Runs.forall_take_iff_along hclean hstep rfl hreset

end

/-- `csrwi fflags, 1` as the first instruction after reset. -/
def fflagsFirst : Ram := Ram.ofWords [0x0010D073]

/-- FS is Dirty and both status registers read with SD clear. -/
theorem fflags_write_leaves_sd_clear :
    letI := FloatOps.zero
    let s := Runs.run HartAct.exec (Supervisor.new 0 0) [HartAct.step fflagsFirst]
    (s.csrRead fflagsFirst 0x300).extractLsb' 13 2 = 3 ∧
      (s.csrRead fflagsFirst 0x300).getLsbD 63 = false ∧
      (s.csrRead fflagsFirst 0x100).getLsbD 63 = false ∧ ¬ s.SdSummary fflagsFirst := by
  decide +kernel

end TabLinux
