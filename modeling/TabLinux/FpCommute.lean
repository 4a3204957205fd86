/-
Replacing the floating-point state.  While `mstatus.fs` is Off, a user-mode step
commutes with replacing the whole floating-point state, as long as it is not a
CSR instruction that names `fflags`, `frm` or `fcsr`.
-/
import TabLinux.StepEffects

namespace TabLinux

universe u v

variable {α : Type v} {β : Type u}

variable {s : Supervisor} {fp : FpState} {csr : Csr}

variable {rd src : Reg} {op : CsrOp} {instr : Instr}

/-- The floating-point registers, `fcsr`, and what the status field says about
them. -/
structure FpState where
  f : Reg → U64
  fcsr : U64
  fsDirty : Bool
  fs : BitVec 2

def Supervisor.fpState (s : Supervisor) : FpState :=
  ⟨s.cpu.f, s.cpu.fcsr, s.cpu.fsDirty, s.mstatus.fs⟩

def Cpu.withFp (cpu : Cpu) (fp : FpState) : Cpu :=
  { cpu with f := fp.f, fcsr := fp.fcsr, fsDirty := fp.fsDirty }

/-- Replace the floating-point state. -/
def Supervisor.withFp (s : Supervisor) (fp : FpState) : Supervisor :=
  { s with cpu := s.cpu.withFp fp, mstatus := { s.mstatus with fs := fp.fs } }

theorem Supervisor.withFp_fpState (s : Supervisor) : s.withFp s.fpState = s := rfl

theorem CacheEffect.fpState_eq {s' : Supervisor} (h : CacheEffect s s') :
    s'.fpState = s.fpState := by
  rw [h]
  rfl

/-- Replace the floating-point state of an outcome. -/
def outWithFp (fp : FpState) (out : α × Supervisor × β) : α × Supervisor × β :=
  (out.1, out.2.1.withFp fp, out.2.2)

theorem Cpu.writeReg_withFp (cpu : Cpu) (fp : FpState) (i : Reg) (val : U64) :
    (cpu.withFp fp).writeReg i val = (cpu.writeReg i val).withFp fp := by
  unfold writeReg
  split <;> rfl

theorem Supervisor.takeTrapWithVaddr_withFp (s : Supervisor) (fp : FpState) (trap : Trap)
    (faultVaddr : Option U64) :
    ((s.withFp fp).takeTrapWithVaddr trap faultVaddr).2 =
      (s.takeTrapWithVaddr trap faultVaddr).2.withFp fp := by
  have hdelegates : (s.withFp fp).delegates trap = s.delegates trap := delegates_congr trap rfl rfl
  have hpriv : (s.withFp fp).privLevel = s.privLevel := rfl
  unfold takeTrapWithVaddr
  rw [hdelegates, hpriv]
  split <;> rfl

/-- Delivering a trap, as an outcome. -/
theorem Supervisor.trapOutcome_withFp (s : Supervisor) (fp : FpState) (bus : β)
    (trap : Trap) (faultVaddr : Option U64) :
    (((s.withFp fp).takeTrapWithVaddr trap faultVaddr).1,
      ((s.withFp fp).takeTrapWithVaddr trap faultVaddr).2, bus) =
      outWithFp fp ((s.takeTrapWithVaddr trap faultVaddr).1,
        (s.takeTrapWithVaddr trap faultVaddr).2, bus) := by
  simp only [outWithFp, takeTrapWithVaddr_withFp, takeTrapWithVaddr_status]

variable [Bus β]

section

variable (s : Supervisor) (fp : FpState)

theorem Supervisor.translate_withFp (bus : β) (access : AccessType) (vaddr : U64) :
    (s.withFp fp).translate bus access vaddr = outWithFp fp (s.translate bus access vaddr) :=
  ite_map (outWithFp fp) (ite_map _ rfl (ite_map _ rfl (ite_map _ rfl rfl))) rfl

theorem Supervisor.withPaddr_withFp (bus : β)
    (access : AccessType) (vaddr : U64) (next : Supervisor → β → U64 → Supervisor × β)
    (hnext : ∀ s bus paddr, next (s.withFp fp) bus paddr =
      ((next s bus paddr).1.withFp fp, (next s bus paddr).2)) :
    (s.withFp fp).withPaddr bus access vaddr next =
      outWithFp fp (s.withPaddr bus access vaddr next) := by
  unfold withPaddr
  rw [s.translate_withFp fp bus access vaddr]
  rcases s.translate bus access vaddr with ⟨trap | paddr, s', bus'⟩
  · exact s'.trapOutcome_withFp fp bus' trap (some vaddr)
  · simp only [outWithFp, hnext]

theorem Supervisor.executeTranslated_withFp (instr : Instr) (width : U64) (bus : β)
    (hinstr : instr.isFp = false) :
    (s.withFp fp).executeTranslated instr width bus =
      outWithFp fp (s.executeTranslated instr width bus) := by
  cases instr
  case fp | fload | fstore => cases hinstr
  case load =>
    simp only [executeTranslated]
    refine s.withPaddr_withFp fp bus _ _ _ fun s bus paddr => ?_
    simp only [withFp, Cpu.writeReg_withFp]
    rfl
  case store =>
    simp only [executeTranslated]
    exact s.withPaddr_withFp fp bus _ _ _ fun _ _ _ => rfl
  case amo =>
    simp only [executeTranslated]
    refine s.withPaddr_withFp fp bus _ _ _ fun s bus paddr => ?_
    simp only [withFp, Cpu.writeReg_withFp]
    rfl
  all_goals exact s.trapOutcome_withFp fp bus _ none

end

theorem executeWidth_withFp [FloatOps] (cpu : Cpu) (fp : FpState) (instr : Instr)
    (width : U64) (bus : β) (hinstr : instr.isFp = false) :
    executeWidth (cpu.withFp fp) instr width bus =
      ((executeWidth cpu instr width bus).1,
        (executeWidth cpu instr width bus).2.1.withFp fp,
        (executeWidth cpu instr width bus).2.2) := by
  cases instr
  case fp | fload | fstore => cases hinstr
  all_goals first
    | rfl
    | (simp only [executeWidth, executeAmo, Cpu.writeReg_withFp]; rfl)

section

variable (s : Supervisor) (fp : FpState) (bus : β) (aw : AtomicWidth)

theorem Supervisor.loadReserved_withFp (rd rs1 : Reg) (width : U64) :
    (s.withFp fp).loadReserved bus aw rd rs1 width =
      outWithFp fp (s.loadReserved bus aw rd rs1 width) := by
  unfold loadReserved
  refine s.withPaddr_withFp fp bus _ _ _ fun s bus paddr => ?_
  simp only [withFp, Cpu.writeReg_withFp]
  rfl

theorem Supervisor.commitSc_withFp (granule : U64) (rd rs2 : Reg) (width paddr : U64) :
    (s.withFp fp).commitSc bus aw granule rd rs2 width paddr =
      ((s.commitSc bus aw granule rd rs2 width paddr).1.withFp fp,
        (s.commitSc bus aw granule rd rs2 width paddr).2) := by
  have hsame : (s.withFp fp).reservationAddr = s.reservationAddr := rfl
  unfold commitSc
  rw [hsame]
  split <;> simp only [withFp, Cpu.writeReg_withFp] <;> rfl

theorem Supervisor.storeConditional_withFp (rd rs1 rs2 : Reg) (width : U64) :
    (s.withFp fp).storeConditional bus aw rd rs1 rs2 width =
      outWithFp fp (s.storeConditional bus aw rd rs1 rs2 width) :=
  s.withPaddr_withFp fp bus _ _ _ fun s bus paddr =>
    s.commitSc_withFp fp bus aw _ rd rs2 width paddr

end

/-- The floating-point unit is off: the field says so and nothing is pending. -/
def FpState.Off (fp : FpState) : Prop := fp.fs = 0 ∧ fp.fsDirty = false

/-- At the gate: with FS Off in both runs, an FP instruction traps in both, and
any other instruction commutes. -/
theorem Supervisor.executeBase_withFp [FloatOps] (hs : s.fpState.Off) (hfp : fp.Off)
    (instr : Instr) (width : U64) (bus : β) :
    (s.withFp fp).executeBase instr width bus = outWithFp fp (s.executeBase instr width bus) := by
  obtain ⟨hfs, hclean⟩ := hs
  obtain ⟨hfs', hclean'⟩ := hfp
  have hgate : s.mstatus.fs = 0 := hfs
  have hgate' : (s.withFp fp).mstatus.fs = 0 := hfs'
  unfold executeBase
  cases hinstr : instr.isFp with
  | true =>
    simp only [hgate, hgate', decide_true, Bool.and_self, ↓reduceIte]
    exact s.trapOutcome_withFp fp bus _ none
  | false =>
    simp only [Bool.and_false, Bool.false_eq_true, ↓reduceIte]
    have hsettle : ∀ s' : Supervisor, s'.cpu.fsDirty = false →
        (s'.withFp fp).settleFs = s'.settleFs.withFp fp := by
      intro s' hs'
      rw [settleFs_clean hs', settleFs_clean hclean']
    split
    · have hself := s.executeTranslated_withFp s.fpState instr width bus hinstr
      have hdirty : (s.executeTranslated instr width bus).2.1.cpu.fsDirty = false := by
        rw [s.withFp_fpState] at hself
        rw [hself]
        exact hclean
      rw [s.executeTranslated_withFp fp instr width bus hinstr]
      exact Prod.ext rfl (Prod.ext (hsettle _ hdirty) rfl)
    · have hself := executeWidth_withFp s.cpu s.fpState instr width bus hinstr
      have hdirty : (executeWidth s.cpu instr width bus).2.1.fsDirty = false := by
        rw [show s.cpu.withFp s.fpState = s.cpu from rfl] at hself
        rw [hself]
        exact hclean
      have hwidth : executeWidth (s.withFp fp).cpu instr width bus = _ :=
        executeWidth_withFp s.cpu fp instr width bus hinstr
      rw [hwidth]
      exact Prod.ext rfl (Prod.ext
        (hsettle { s with cpu := (executeWidth s.cpu instr width bus).2.1 } hdirty) rfl)

/-- `fflags`, `frm` and `fcsr`. -/
def fpCsr (csr : Csr) : Bool := csr = 0x001 || csr = 0x002 || csr = 0x003

/-- A CSR access that shows or changes the floating-point state. -/
def touchesFcsr (csr : Csr) (op : CsrOp) (rd src : Reg) : Bool :=
  fpCsr csr && (csrWillWrite op src || rd ≠ 0)

def Instr.touchesFcsr : Instr → Bool
  | .csrReg kind rd src csr | .csrImm kind rd src csr =>
      TabLinux.touchesFcsr csr kind rd src
  | _ => false

namespace Supervisor

/-- Among the CSRs that user mode may name, only the floating-point ones read
the floating-point state. -/
theorem csrRead_withFp (s : Supervisor) (fp : FpState) (bus : β)
    (hpriv : csrPriv csr = 0) (hfp : fpCsr csr = false) :
    (s.withFp fp).csrRead bus csr = s.csrRead bus csr := by
  have hne : ∀ other : BitVec 12, csrPriv other ≠ 0 → csr ≠ other := by
    rintro other hother rfl
    exact hother hpriv
  simp only [fpCsr, Bool.or_eq_false_iff, decide_eq_false_iff_not] at hfp
  unfold csrRead
  rw [if_neg hfp.1.1, if_neg hfp.1.2, if_neg hfp.2, if_neg hfp.1.1, if_neg hfp.1.2,
    if_neg hfp.2, if_neg (hne 0x300 (by decide)), if_neg (hne 0x300 (by decide))]
  simp only [hne 0x100 (by decide), ↓reduceIte]
  simp only [withFp]

theorem csrWrite_unprivileged (s : Supervisor) (val : U64)
    (hpriv : csrPriv csr = 0) (hfp : fpCsr csr = false) : s.csrWrite csr val = s := by
  have heffect := s.csrWrite_effect csr val
  generalize s.csrWrite csr val = s' at heffect ⊢
  cases heffect with
  | ignored => rfl
  | fcsr _ hcsr => rcases hcsr with rfl | rfl | rfl <;> exact absurd hfp (by decide)
  | register hreg => exact absurd hpriv hreg
  | satp hcsr => subst hcsr; exact absurd hpriv (by decide)

theorem csrAccess_withFp (s : Supervisor) (fp : FpState) (bus : β)
    (val : U64) (hpriv : csrPriv csr = 0) (hfree : touchesFcsr csr op rd src = false) :
    (s.withFp fp).csrAccess bus csr rd src val op =
      (s.csrAccess bus csr rd src val op).withFp fp := by
  unfold csrAccess
  cases hfp : fpCsr csr with
  | false =>
    simp only [csrWrite_unprivileged _ _ hpriv hfp, ite_self, s.csrRead_withFp fp bus hpriv hfp]
    simp only [withFp, Cpu.writeReg_withFp]
  | true =>
    simp only [touchesFcsr, hfp, Bool.true_and, Bool.or_eq_false_iff, ne_eq,
      decide_eq_false_iff_not, not_not] at hfree
    obtain ⟨hwrite, rfl⟩ := hfree
    simp only [hwrite]
    rfl

theorem csrOp_withFp (huser : s.privLevel = .user) (fp : FpState) (bus : β)
    (val : U64) (width : U64) (hfree : touchesFcsr csr op rd src = false) :
    (((s.withFp fp).csrOp bus csr rd src val op width).1,
      ((s.withFp fp).csrOp bus csr rd src val op width).2, bus) =
      outWithFp fp ((s.csrOp bus csr rd src val op width).1,
        (s.csrOp bus csr rd src val op width).2, bus) := by
  have hsame : (s.withFp fp).csrDenied csr op src = s.csrDenied csr op src := rfl
  unfold csrOp
  rw [hsame]
  cases hdenied : s.csrDenied csr op src with
  | true => exact s.trapOutcome_withFp fp bus _ none
  | false =>
    have hpriv := csrPriv_of_not_denied huser hdenied
    simp only [Bool.false_eq_true, ↓reduceIte, s.csrAccess_withFp fp bus val hpriv hfree]
    rfl

omit [Bus β] in
theorem park_withFp (s : Supervisor) (fp : FpState) (bus : β) (width : U64) :
    (((s.withFp fp).park width).1, ((s.withFp fp).park width).2, bus) =
      outWithFp fp ((s.park width).1, (s.park width).2, bus) := by
  have hcheck : (s.withFp fp).checkInterrupts = s.checkInterrupts := rfl
  unfold park
  rw [hcheck]
  cases s.checkInterrupts with
  | some trap => exact s.trapOutcome_withFp fp bus trap none
  | none => rfl

theorem sfenceVma_withFp (s : Supervisor) (fp : FpState) (rs1 : Reg) :
    (s.withFp fp).sfenceVma rs1 = (s.sfenceVma rs1).withFp fp :=
  ite_map (fun s : Supervisor => s.withFp fp)
    (ite_map (fun s : Supervisor => s.withFp fp) rfl rfl) rfl

end Supervisor

section

variable [FloatOps]

theorem Supervisor.executeSupervisor_withFp (huser : s.privLevel = .user) (hs : s.fpState.Off)
    (hfp : fp.Off) (width : U64) (bus : β) (hfree : instr.touchesFcsr = false) :
    (s.withFp fp).executeSupervisor instr width bus =
      outWithFp fp (s.executeSupervisor instr width bus) := by
  cases instr
  case csrReg | csrImm => exact csrOp_withFp huser fp bus _ width hfree
  case ecall =>
    exact ite_map (outWithFp fp) rfl (s.trapOutcome_withFp fp bus _ none)
  case ebreak => exact s.trapOutcome_withFp fp bus _ none
  case mret => rfl
  case sret => exact ite_map (outWithFp fp) (s.trapOutcome_withFp fp bus _ none) rfl
  case wfi =>
    exact ite_map (outWithFp fp) (s.trapOutcome_withFp fp bus _ none)
      ((s.pollNow bus).park_withFp fp bus width)
  case sfenceVma rs1 rs2 =>
    refine ite_map (outWithFp fp) (s.trapOutcome_withFp fp bus _ none) ?_
    rw [s.sfenceVma_withFp fp rs1]
    rfl
  case lr => exact s.loadReserved_withFp fp bus _ _ _ width
  case sc => exact s.storeConditional_withFp fp bus _ _ _ _ width
  all_goals exact executeBase_withFp hs hfp _ width bus

end

namespace Supervisor

section

variable (s : Supervisor) (fp : FpState)

theorem fetchTranslate_withFp (bus : β) (vaddr : U64) :
    (s.withFp fp).fetchTranslate bus vaddr = outWithFp fp (s.fetchTranslate bus vaddr) := by
  refine ite_map (outWithFp fp) rfl ?_
  rw [s.translate_withFp fp bus .instruction vaddr]
  rcases s.translate bus .instruction vaddr with ⟨trap | paddr, s', bus'⟩ <;> rfl

theorem fetchUpperHalf_withFp (bus : β) (loPaddr : U64) :
    (s.withFp fp).fetchUpperHalf bus loPaddr = outWithFp fp (s.fetchUpperHalf bus loPaddr) := by
  refine ite_map (outWithFp fp) rfl ?_
  have htranslate : (s.withFp fp).translate bus .instruction ((s.withFp fp).cpu.pc + 2) = _ :=
    s.translate_withFp fp bus .instruction (s.cpu.pc + 2)
  rw [htranslate]
  rcases s.translate bus .instruction (s.cpu.pc + 2) with ⟨trap | paddr, s', bus'⟩ <;> rfl

theorem fetchDecode_withFp (bus : β) (paddr : U64) :
    (s.withFp fp).fetchDecode bus paddr = outWithFp fp (s.fetchDecode bus paddr) := by
  unfold fetchDecode
  rcases readU16 bus paddr with ⟨half, bus⟩
  have hupper := s.fetchUpperHalf_withFp fp bus paddr
  dsimp only
  by_cases hwide : half &&& 3 ≠ 3
  · rw [if_pos hwide, if_pos hwide, hupper]
    cases decompress half <;> rfl
  · rw [if_neg hwide, if_neg hwide, hupper]
    rcases s.fetchUpperHalf bus paddr with ⟨trap | hi, s', bus'⟩ <;> rfl

theorem fetch_withFp (bus : β) : (s.withFp fp).fetch bus = outWithFp fp (s.fetch bus) := by
  have htranslate : (s.withFp fp).fetchTranslate bus (s.withFp fp).cpu.pc = _ :=
    s.fetchTranslate_withFp fp bus s.cpu.pc
  unfold fetch
  rw [htranslate]
  rcases s.fetchTranslate bus s.cpu.pc with ⟨trap | paddr, s', bus'⟩
  · rfl
  have hhit : (s'.withFp fp).dcacheHit paddr = s'.dcacheHit paddr := rfl
  simp only [outWithFp, hhit]
  cases s'.dcacheHit paddr with
  | some fetched => rfl
  | none =>
    simp only [s'.fetchDecode_withFp fp bus' paddr]
    rcases s'.fetchDecode bus' paddr with ⟨fault | fetched, s'', bus''⟩ <;> rfl

theorem pollDevices_withFp (bus : β) :
    (s.withFp fp).pollDevices bus = (s.pollDevices bus).withFp fp :=
  ite_map (fun s : Supervisor => s.withFp fp) rfl rfl

omit [Bus β] in
theorem deliver_withFp (status : Status)
    (bus : β) : (s.withFp fp).deliver status bus = outWithFp fp (s.deliver status bus) := by
  cases status with
  | trap trap => exact ite_map (outWithFp fp) rfl (s.trapOutcome_withFp fp bus trap none)
  | running => rfl
  | wfi => rfl

theorem flushedFor_withFp (instr : Instr) :
    (s.withFp fp).flushedFor instr = (s.flushedFor instr).withFp fp :=
  ite_map (fun s : Supervisor => s.withFp fp) rfl rfl

end

theorem pollDevices_user (huser : s.privLevel = .user) (bus : β) :
    (s.pollDevices bus).privLevel = .user :=
  ite_keep Supervisor.privLevel huser huser

theorem pollDevices_fpState (s : Supervisor) (bus : β) : (s.pollDevices bus).fpState = s.fpState :=
  ite_keep Supervisor.fpState rfl rfl

end Supervisor

section

variable [FloatOps]

variable (huser : s.privLevel = .user) (hs : s.fpState.Off) (hfp : fp.Off)
include huser hs hfp

theorem Supervisor.finishStep_withFp (width : U64) (bus : β) (hfree :
    instr.touchesFcsr = false) :
    (s.withFp fp).finishStep instr width bus = outWithFp fp (s.finishStep instr width bus) := by
  have hflush := s.flushedFor_effect instr
  have huser' : (s.flushedFor instr).privLevel = .user := hflush.privLevel_eq.trans huser
  have hs' : (s.flushedFor instr).fpState.Off := hflush.fpState_eq ▸ hs
  unfold finishStep
  rw [s.flushedFor_withFp fp instr, executeSupervisor_withFp huser' hs' hfp width bus hfree]
  exact deliver_withFp (countRetired _ _) fp _ _

theorem Supervisor.stepPolled_withFp (bus : β)
    (hfree : ∀ instr, s.polledInstr bus = some instr → instr.touchesFcsr = false) :
    (s.withFp fp).stepPolled bus = outWithFp fp (s.stepPolled bus) := by
  have hcheck : (s.withFp fp).checkInterrupts = s.checkInterrupts := rfl
  have heffect := (s.fetch_effect bus).cacheEffect
  unfold polledInstr at hfree
  unfold stepPolled
  rw [hcheck, s.fetch_withFp fp bus]
  cases hinterrupt : s.checkInterrupts with
  | some trap => exact s.trapOutcome_withFp fp bus trap none
  | none =>
    rw [hinterrupt] at hfree
    rcases hres : s.fetch bus with ⟨⟨trap, vaddr⟩ | ⟨instr, width⟩, s', bus'⟩
    · exact s'.trapOutcome_withFp fp bus' trap vaddr
    rw [hres] at heffect hfree
    have huser' : s'.privLevel = .user := heffect.privLevel_eq.trans huser
    have hs' : s'.fpState.Off := heffect.fpState_eq ▸ hs
    exact finishStep_withFp huser' hs' hfp width bus' (hfree instr rfl)

/-- A user-mode step with FS Off that does not touch `fcsr` commutes with
replacing the floating-point state. -/
theorem Supervisor.step_withFp (bus : β)
    (hfree : ∀ instr, s.stepInstr bus = some instr → instr.touchesFcsr = false) :
    (s.withFp fp).step bus = outWithFp fp (s.step bus) := by
  have hs' : (s.pollDevices bus).fpState.Off := s.pollDevices_fpState bus ▸ hs
  unfold step
  rw [s.pollDevices_withFp fp bus]
  exact stepPolled_withFp (pollDevices_user huser bus) hs' hfp bus hfree

end

end TabLinux
