/-
The device bits of `mip` and the lines behind them.

A step delivers an interrupt only because of a bit of `mip`, either before it fetches or
from a `wfi` that has just polled the devices.  Between two polls a step clears such bits
and, unless it writes the register, sets none.
-/
import TabLinux.Interrupts
import TabLinux.Library.Results
import TabLinux.StepEffects

namespace TabLinux

open Results

variable {β : Type*} [Bus β]
variable {bus : β}

variable {instr : Instr} {s s' : Supervisor} {width : U64} {i : Interrupt} {csr : Csr}

variable {src : Reg} {op : CsrOp}

def Trap.IsException (trap : Trap) : Prop := trap.isInterrupt = false

def Status.isInterrupt : Status → Bool
  | .trap cause => cause.isInterrupt
  | _ => false

theorem checkPermissions_exception (r w x u : Bool) (access : AccessType)
    (privLevel : Privilege) (sum mxr : Bool) :
    Yields Trap.IsException (fun _ => True)
      (checkPermissions r w x u access privLevel sum mxr) := by
  cases access <;> exact .ite (fun _ => rfl) fun _ => .ite (fun _ => rfl) fun _ => trivial

theorem Mmu.translateWalk_exception (mmu : Mmu) (bus : β) (satp : Satp) (privLevel : Privilege)
    (sum mxr : Bool) (access : AccessType) (vaddr : U64) :
    Yields Trap.IsException (fun _ => True)
      (mmu.translateWalk bus satp privLevel sum mxr access vaddr).1 := by
  unfold translateWalk
  rcases walkSv39 bus satp vaddr with ⟨_ | walked, bus'⟩
  · dsimp only
    split
    · trivial
    · rfl
  · have hcheck := checkPermissions_exception (walked.flags.getLsbD 0) (walked.flags.getLsbD 1)
      (walked.flags.getLsbD 2) (walked.flags.getLsbD 3) access privLevel sum mxr
    rw [← applyPteFlags.eq_1] at hcheck
    dsimp only
    cases happly : applyPteFlags walked.flags access privLevel sum mxr with
    | error trap =>
      rw [happly] at hcheck
      exact hcheck
    | ok _ => trivial

theorem Mmu.translate_exception (mmu : Mmu) (bus : β) (satp : Satp) (privLevel : Privilege)
    (sum mxr : Bool) (access : AccessType) (vaddr : U64) :
    Yields Trap.IsException (fun _ => True)
      (mmu.translate bus satp privLevel sum mxr access vaddr).1 := by
  unfold translate
  split
  · trivial
  split
  · rfl
  split
  · rfl
  split
  · split
    · exact (checkPermissions_exception _ _ _ _ access privLevel sum mxr).bind fun _ _ => trivial
    · exact mmu.translateWalk_exception bus satp privLevel sum mxr access vaddr
  · exact mmu.translateWalk_exception bus satp privLevel sum mxr access vaddr

namespace Supervisor

variable (s : Supervisor)

variable (bus : β)

theorem translate_exception (access : AccessType) (vaddr : U64) :
    Yields Trap.IsException (fun _ => True) (s.translate bus access vaddr).1 := by
  have hmmu : ∀ privLevel,
      Yields Trap.IsException (fun _ => True) (s.mmuTranslate bus privLevel access vaddr).1 :=
    fun _ => s.mmu.translate_exception bus s.satp _ _ _ access vaddr
  unfold translate
  split
  · split
    · trivial
    split
    · trivial
    split
    · trivial
    · exact hmmu _
  · exact hmmu _

theorem fetchUpperHalf_exception (loPaddr : U64) :
    Yields Trap.IsException (fun _ => True) (s.fetchUpperHalf bus loPaddr).1 := by
  have htranslate := s.translate_exception bus .instruction (s.cpu.pc + 2)
  unfold fetchUpperHalf
  split
  · trivial
  rcases hres : s.translate bus .instruction (s.cpu.pc + 2) with ⟨_ | paddr, s', bus'⟩ <;>
    rw [hres] at htranslate
  · exact htranslate
  · trivial

theorem fetchDecode_exception (paddr : U64) :
    Yields (fun fault : FetchFault => fault.1.IsException) (fun _ => True)
      (s.fetchDecode bus paddr).1 := by
  unfold fetchDecode
  rcases readU16 bus paddr with ⟨half, bus⟩
  have hupper := s.fetchUpperHalf_exception bus paddr
  dsimp only
  split
  · cases decompress half with
    | some instr => trivial
    | none => rfl
  · rcases hres : s.fetchUpperHalf bus paddr with ⟨_ | hi, s', bus'⟩ <;> rw [hres] at hupper
    · exact hupper
    · trivial

theorem fetchTranslate_exception (vaddr : U64) :
    Yields Trap.IsException (fun _ => True) (s.fetchTranslate bus vaddr).1 := by
  have htranslate := s.translate_exception bus .instruction vaddr
  unfold fetchTranslate
  split
  · trivial
  rcases hres : s.translate bus .instruction vaddr with ⟨_ | paddr, s', bus'⟩ <;>
    rw [hres] at htranslate
  · exact htranslate
  · trivial

theorem fetch_exception :
    Yields (fun fault : FetchFault => fault.1.IsException) (fun _ => True) (s.fetch bus).1 := by
  have htranslate := s.fetchTranslate_exception bus s.cpu.pc
  unfold fetch
  rcases hres : s.fetchTranslate bus s.cpu.pc with ⟨_ | paddr, s', bus'⟩ <;> rw [hres] at htranslate
  · exact htranslate
  have hdecode := s'.fetchDecode_exception bus' paddr
  dsimp only
  cases s'.dcacheHit paddr with
  | some fetched => trivial
  | none =>
    rcases hres' : s'.fetchDecode bus' paddr with ⟨_ | fetched, s'', bus''⟩ <;>
      rw [hres'] at hdecode
    · exact hdecode
    · trivial

theorem takeTrap_exception (e : Exception) : (s.takeTrap (.exception e)).1.isInterrupt = false := by
  rw [takeTrap, takeTrapWithVaddr_status]
  rfl

theorem withPaddr_exception (access : AccessType)
    (vaddr : U64) (next : Supervisor → β → U64 → Supervisor × β) :
    (s.withPaddr bus access vaddr next).1.isInterrupt = false := by
  have htranslate := s.translate_exception bus access vaddr
  unfold withPaddr
  rcases hres : s.translate bus access vaddr with ⟨trap | paddr, s', bus'⟩ <;>
    rw [hres] at htranslate
  · rw [takeTrapWithVaddr_status]
    exact htranslate
  · rfl

end Supervisor

section

variable [FloatOps]

theorem executeWidth_exception (cpu : Cpu) (instr : Instr) (width : U64) (bus : β) :
    (executeWidth cpu instr width bus).1.isInterrupt = false := by
  cases instr
  case fp raw =>
    unfold executeWidth
    dsimp only
    split <;> rfl
  all_goals rfl

theorem HartOutcome.exception {out : Status × Supervisor × β} (h : HartOutcome s bus out) :
    out.1.isInterrupt = false := by
  induction h with
  | refused cause => exact s.takeTrap_exception cause
  | memory access vaddr next effect zero => exact s.withPaddr_exception bus access vaddr next
  | base instr width => exact executeWidth_exception s.cpu instr width bus
  | settled h ih => exact ih

namespace Supervisor

/-- No instruction but `wfi` ends in an interrupt. -/
theorem executeSupervisor_exception (s : Supervisor) (hwfi : instr ≠ .wfi)
    (width : U64) (bus : β) :
    (s.executeSupervisor instr width bus).1.isInterrupt = false := by
  cases hpath : s.takesOwnPath instr with
  | false => exact (executeSupervisor_hart hpath width bus).exception
  | true =>
    rw [(executeSupervisor_own hpath width bus).2 hwfi]
    rfl

/-- Executing an instruction ends in an interrupt only where a `wfi` finds one after its
poll. -/
theorem executeSupervisor_interrupt
    (h : (s.executeSupervisor instr width bus).1.isInterrupt = true) :
    ∃ trap, instr = .wfi ∧ (s.pollNow bus).checkInterrupts = some trap ∧
      s.executeSupervisor instr width bus =
        (.trap trap, ((s.pollNow bus).takeTrap trap).2, bus) := by
  by_cases hwfi : instr = .wfi
  · subst hwfi
    unfold executeSupervisor at h ⊢
    dsimp only at h ⊢
    by_cases htw : s.trappedBy s.mstatus.tw = true
    · rw [if_pos htw, s.takeTrap_exception] at h
      cases h
    rw [if_neg htw, waitForInterrupt, park] at h ⊢
    cases hcheck : (s.pollNow bus).checkInterrupts with
    | none =>
      rw [hcheck] at h
      cases h
    | some trap =>
      refine ⟨trap, rfl, rfl, ?_⟩
      dsimp only
      rw [takeTrap, takeTrapWithVaddr_status]
  · rw [s.executeSupervisor_exception hwfi] at h
    cases h

omit [Bus β] [FloatOps] in
theorem deliver_status (s : Supervisor) (status : Status) (bus : β) :
    (s.deliver status bus).1 = status := by
  cases status with
  | running => rfl
  | wfi => rfl
  | trap cause =>
    unfold deliver
    dsimp only
    split
    · rfl
    · exact s.takeTrapWithVaddr_status cause none

theorem finishStep_interrupt (h : (s.finishStep instr width bus).1.isInterrupt = true) :
    ∃ trap, (s.pollNow bus).checkInterrupts = some trap ∧
      s.finishStep instr width bus = (.trap trap,
        ((s.pollNow bus).takeTrap trap).2.countRetired (s.cpu.pc + width), bus) := by
  unfold finishStep at h ⊢
  rw [deliver_status] at h
  obtain ⟨trap, rfl, hcheck, hexec⟩ := executeSupervisor_interrupt h
  have hflushed : s.flushedFor .wfi = s := if_neg nofun
  rw [hflushed] at hcheck hexec
  refine ⟨trap, hcheck, ?_⟩
  rw [hflushed, hexec]
  dsimp only [deliver]
  rw [if_pos]
  exact (s.pollNow bus).takeTrapWithVaddr_delivered trap none

/-- An interrupt is delivered before the fetch, with the bits of the start of the step, or
by a `wfi`, with those of its own poll. -/
theorem step_interrupt (h : (s.step bus).1.isInterrupt = true) :
    (∃ trap, (s.pollDevices bus).checkInterrupts = some trap ∧
      s.step bus = (.trap trap, ((s.pollDevices bus).takeTrap trap).2, bus)) ∨
    ∃ trap s' bus' fallThrough, FetchEffect (s.pollDevices bus) s' ∧
      (s'.pollNow bus').checkInterrupts = some trap ∧
      s.step bus = (.trap trap,
        ((s'.pollNow bus').takeTrap trap).2.countRetired fallThrough, bus') := by
  have hfetch := (s.pollDevices bus).fetch_effect bus
  have hfault := (s.pollDevices bus).fetch_exception bus
  unfold step stepPolled at h ⊢
  cases hcheck : (s.pollDevices bus).checkInterrupts with
  | some trap =>
    refine Or.inl ⟨trap, rfl, ?_⟩
    dsimp only
    rw [takeTrap, takeTrapWithVaddr_status]
  | none =>
    rw [hcheck] at h
    rcases hres : (s.pollDevices bus).fetch bus with ⟨⟨trap, vaddr⟩ | ⟨instr, width⟩, s', bus'⟩
    · rw [hres] at h hfault
      rw [takeTrapWithVaddr_status] at h
      cases hfault.symm.trans h
    · rw [hres] at h hfetch
      obtain ⟨trap, hcheck', hfinish⟩ := finishStep_interrupt h
      exact Or.inr ⟨trap, s', bus', _, hfetch, hcheck', hfinish⟩

end Supervisor

end

namespace Supervisor

/-- Has the comparator of the CLINT or that of the hart been reached? -/
def timerFired (s : Supervisor) (bus : β) : Bool :=
  Bus.checkTimerInterrupt bus || !(Bus.readMtime bus).ult s.stimecmp

/-- The device line behind an interrupt of the supervisor. -/
def lineUp (s : Supervisor) (bus : β) : Interrupt → Bool
  | .supervisorTimer => s.timerFired bus
  | .supervisorExternal => Bus.checkExternalInterrupt bus
  | _ => true

/-- The device bits of `mip` are set only for lines that are up. -/
structure Shows (s : Supervisor) (bus : β) : Prop where
  timer : s.mip.getLsbD 5 = true → s.timerFired bus = true
  external : s.mip.getLsbD 9 = true → Bus.checkExternalInterrupt bus = true
  machineTimer : s.mip.getLsbD 7 = false

theorem lineUp_congr (hstimecmp : s'.stimecmp = s.stimecmp) (bus : β)
    (i : Interrupt) : s'.lineUp bus i = s.lineUp bus i := by
  cases i <;> simp only [lineUp, timerFired, hstimecmp]

theorem raised_of_checkInterrupts (h : s.checkInterrupts = some (.interrupt i)) :
    ∃ source : Interrupt, source.MapsTo i ∧ s.mip.getLsbD source.code.toNat = true := by
  have hbit : ∀ {j}, s.raised j = true → s.mip.getLsbD j.code.toNat = true := by
    intro j hraised
    rw [raised, BitVec.getLsbD_and, Bool.and_eq_true] at hraised
    exact hraised.1
  rw [checkInterrupts_eq] at h
  cases hS : servedInS.find? s.deliverableInS with
  | some j =>
    rw [hS] at h
    cases h
    have hdeliver := List.find?_some hS
    simp only [deliverableInS, Bool.and_eq_true] at hdeliver
    refine ⟨j, ?_, hbit hdeliver.2.1⟩
    cases j <;> simp [Interrupt.MapsTo, Interrupt.reportedInS]
  | none =>
    rw [hS, Option.map_none, Option.none_or, Option.or_none, Option.map_eq_some_iff] at h
    obtain ⟨j, hM, hj⟩ := h
    cases hj
    have hdeliver := List.find?_some hM
    simp only [deliverableInM, Bool.and_eq_true] at hdeliver
    exact ⟨i, Or.inl rfl, hbit hdeliver.2.1⟩

theorem Shows.lineUp (h : s.Shows bus)
    (htaken : s.checkInterrupts = some (.interrupt i)) : s.lineUp bus i = true := by
  obtain ⟨source, hmaps, hbit⟩ := raised_of_checkInterrupts htaken
  rcases hmaps with rfl | ⟨rfl, rfl⟩
  · cases source
    case supervisorTimer => exact h.timer hbit
    case supervisorExternal => exact h.external hbit
    all_goals rfl
  · cases h.machineTimer.symm.trans hbit

/-- What a poll leaves behind shows the lines. -/
theorem pollNow_shows (hmachine : s.mip.getLsbD 7 = false) (bus : β) :
    (s.pollNow bus).Shows bus := by
  have hbits : ∀ k, (s.pollNow bus).mip.getLsbD k =
      if k = 9 then Bus.checkExternalInterrupt bus
      else if k = 5 then s.timerFired bus else s.mip.getLsbD k := by
    intro k
    change (putBit (putBit s.mip 5 _) 9 _).getLsbD k = _
    rw [getLsbD_putBit _ (by decide), getLsbD_putBit _ (by decide)]
    rfl
  refine ⟨fun h => ?_, fun h => ?_, ?_⟩
  · rw [hbits] at h
    exact h
  · rw [hbits] at h
    exact h
  · rw [hbits]
    exact hmachine

/-- No bit of `mip` has been set, and the interval between polls goes on. -/
structure Lowers (s s' : Supervisor) : Prop where
  mip : ∀ k, s'.mip.getLsbD k = true → s.mip.getLsbD k = true
  countdown : s'.intSyncCountdown = s.intSyncCountdown

theorem Lowers.of_eq (hmip : s'.mip = s.mip)
    (hcountdown : s'.intSyncCountdown = s.intSyncCountdown) : s.Lowers s' :=
  ⟨fun _ h => hmip ▸ h, hcountdown⟩

theorem Lowers.trans {s'' : Supervisor} (h : s.Lowers s') (h' : s'.Lowers s'') : s.Lowers s'' :=
  ⟨fun k hk => h.mip k (h'.mip k hk), h'.countdown.trans h.countdown⟩

end Supervisor

theorem getLsbD_clearPending {mip : U64} {trap : Trap} {k : Nat}
    (h : (clearPending mip trap).getLsbD k = true) : mip.getLsbD k = true := by
  have hput : ∀ {word : U64} {pos : Nat}, pos < 64 →
      (putBit word pos false).getLsbD k = true → word.getLsbD k = true := by
    intro word pos hpos hbit
    rw [getLsbD_putBit word hpos] at hbit
    split at hbit
    · cases hbit
    · exact hbit
  unfold clearPending at h
  split at h
  · exact hput (by decide) h
  · exact hput (by decide) (hput (by decide) h)
  · exact hput (by decide) h
  · exact h

namespace Supervisor

variable (s : Supervisor)

theorem takeTrapWithVaddr_lowers (trap : Trap)
    (faultVaddr : Option U64) : s.Lowers (s.takeTrapWithVaddr trap faultVaddr).2 := by
  unfold takeTrapWithVaddr
  split
  · exact ⟨fun _ => getLsbD_clearPending, rfl⟩
  · exact .of_eq rfl rfl

theorem takeTrapWithVaddr_stimecmp (trap : Trap) (faultVaddr : Option U64) :
    (s.takeTrapWithVaddr trap faultVaddr).2.stimecmp = s.stimecmp := by
  unfold takeTrapWithVaddr
  split <;> rfl

/-- The instruction, executed in this state, writes the CSR. -/
def writesCsr (csr : Csr) : Instr → Bool
  | .csrReg op _ rs1 number => number = csr && csrWillWrite op rs1 && !s.csrDenied number op rs1
  | .csrImm op _ zimm number =>
      number = csr && csrWillWrite op zimm && !s.csrDenied number op zimm
  | _ => false

/-- The next step writes the CSR. -/
def stepWrites (bus : β) (csr : Csr) : Bool :=
  (s.stepInstr bus).any ((s.pollDevices bus).writesCsr csr)

theorem csrWrite_mip (hmip : csr ≠ 0x344) (hsip : csr ≠ 0x144)
    (val : U64) : (s.csrWrite csr val).mip = s.mip := by
  unfold csrWrite
  repeat' with_reducible
    refine iteInduction (motive := fun s' : Supervisor => s'.mip = s.mip)
      (fun hif => ?_) (fun _ => ?_)
  all_goals first
    | rfl
    | exact absurd hif hmip
    | exact absurd hif hsip
    | rw [s.writeSatp_effect val]

theorem csrWrite_stimecmp (hcsr : csr ≠ 0x14D) (val : U64) :
    (s.csrWrite csr val).stimecmp = s.stimecmp := by
  unfold csrWrite
  repeat' with_reducible
    refine iteInduction (motive := fun s' : Supervisor => s'.stimecmp = s.stimecmp)
      (fun hif => ?_) (fun _ => ?_)
  all_goals first
    | rfl
    | exact absurd hif hcsr
    | rw [s.writeSatp_effect val]

end Supervisor

theorem CsrEffect.countdown_eq {val : U64} (h : CsrEffect s csr val s') :
    s'.intSyncCountdown = s.intSyncCountdown := by
  cases h with
  | ignored => rfl
  | fcsr => rfl
  | register hpriv effect => rw [effect]
  | satp hcsr => rw [s.writeSatp_effect val]

theorem Supervisor.csrAccess_lowers (s : Supervisor) (bus : β) (rd : Reg)
    (val : U64) (hmip : csrWillWrite op src = true → csr ≠ 0x344 ∧ csr ≠ 0x144) :
    s.Lowers (s.csrAccess bus csr rd src val op) := by
  unfold csrAccess
  split
  · rename_i hwrites
    exact .of_eq (s.csrWrite_mip (hmip hwrites).1 (hmip hwrites).2 _)
      (s.csrWrite_effect csr _).countdown_eq
  · exact .of_eq rfl rfl

theorem Supervisor.csrAccess_stimecmp (s : Supervisor) (bus : β) (rd : Reg)
    (val : U64) (hcsr : csrWillWrite op src = true → csr ≠ 0x14D) :
    (s.csrAccess bus csr rd src val op).stimecmp = s.stimecmp := by
  unfold csrAccess
  split
  · rename_i hwrites
    exact s.csrWrite_stimecmp (hcsr hwrites) _
  · rfl

theorem ExecEffect.lowers (h : ExecEffect s s') : s.Lowers s' := by
  cases h with
  | quiet effect =>
    rw [effect]
    exact .of_eq rfl rfl
  | @trap s' effect trap faultVaddr =>
    refine Supervisor.Lowers.trans ?_ (s'.takeTrapWithVaddr_lowers trap faultVaddr)
    rw [effect]
    exact .of_eq rfl rfl

theorem ExecEffect.stimecmp_eq (h : ExecEffect s s') : s'.stimecmp = s.stimecmp := by
  cases h with
  | quiet effect => rw [effect]
  | trap effect trap faultVaddr =>
    rw [Supervisor.takeTrapWithVaddr_stimecmp, effect]

theorem CacheEffect.lowers (h : CacheEffect s s') : s.Lowers s' := by
  rw [h]
  exact .of_eq rfl rfl

theorem CacheEffect.stimecmp_eq (h : CacheEffect s s') : s'.stimecmp = s.stimecmp := by
  rw [h]

/-- The number of a CSR that an allowed write does not name. -/
theorem ne_of_not_writesCsr {number : BitVec 12} {writes denied : Bool}
    (hdenied : denied = false) (h : (decide (number = csr) && writes && !denied) = false)
    (hwrites : writes = true) : number ≠ csr := by
  subst hdenied hwrites
  simpa using h

theorem ExecOutcome.lowers (h : ExecOutcome s bus width instr s') (hwfi : instr ≠ .wfi)
    (hmip : s.writesCsr 0x344 instr = false) (hsip : s.writesCsr 0x144 instr = false) :
    s.Lowers s' := by
  cases h with
  | hart hpath effect => exact effect.lowers
  | @csrReg op rd src csr hallowed =>
    refine (s.csrAccess_lowers bus rd _ fun hwrites => ⟨?_, ?_⟩).trans (.of_eq rfl rfl)
    · exact ne_of_not_writesCsr hallowed hmip hwrites
    · exact ne_of_not_writesCsr hallowed hsip hwrites
  | @csrImm op rd src csr hallowed =>
    refine (s.csrAccess_lowers bus rd _ fun hwrites => ⟨?_, ?_⟩).trans (.of_eq rfl rfl)
    · exact ne_of_not_writesCsr hallowed hmip hwrites
    · exact ne_of_not_writesCsr hallowed hsip hwrites
  | sbi hpriv => exact .of_eq rfl rfl
  | mret => exact .of_eq rfl rfl
  | sret hallowed => exact .of_eq rfl rfl
  | wait hallowed => exact absurd rfl hwfi
  | fence hallowed => exact (s.sfenceVma_effect _).lowers.trans (.of_eq rfl rfl)

theorem ExecOutcome.of_wfi (h : ExecOutcome s bus width .wfi s') :
    ExecEffect s s' ∨ s' = (s.waitForInterrupt bus width).2 := by
  cases h with
  | hart hpath effect => exact Or.inl effect
  | wait hallowed => exact Or.inr rfl

theorem Supervisor.waitForInterrupt_stimecmp (s : Supervisor) (bus : β) (width : U64) :
    (s.waitForInterrupt bus width).2.stimecmp = s.stimecmp := by
  unfold waitForInterrupt park
  split
  · exact (s.pollNow bus).takeTrapWithVaddr_stimecmp _ none
  · rfl

theorem ExecOutcome.stimecmp_eq (h : ExecOutcome s bus width instr s')
    (hcsr : s.writesCsr 0x14D instr = false) : s'.stimecmp = s.stimecmp := by
  cases h with
  | hart hpath effect => exact effect.stimecmp_eq
  | @csrReg op rd src csr hallowed =>
    exact s.csrAccess_stimecmp bus rd _ fun hwrites => ne_of_not_writesCsr hallowed hcsr hwrites
  | @csrImm op rd src csr hallowed =>
    exact s.csrAccess_stimecmp bus rd _ fun hwrites => ne_of_not_writesCsr hallowed hcsr hwrites
  | sbi hpriv => rfl
  | mret => rfl
  | sret hallowed => rfl
  | wait hallowed => exact s.waitForInterrupt_stimecmp bus width
  | fence hallowed => exact (s.sfenceVma_effect _).stimecmp_eq

namespace Supervisor

theorem pollDevices_stimecmp (s : Supervisor) (bus : β) :
    (s.pollDevices bus).stimecmp = s.stimecmp := by
  unfold pollDevices
  dsimp only
  split <;> rfl

/-- The bits at the start of a step: freshly polled, or those of the last step. -/
theorem pollDevices_shows (hmachine : s.mip.getLsbD 7 = false)
    (h : s.intSyncCountdown = 0 ∨ s.Shows bus) : (s.pollDevices bus).Shows bus := by
  unfold pollDevices
  dsimp only
  split
  · refine pollNow_shows ?_ bus
    exact hmachine
  rename_i hcountdown
  have hshows := h.resolve_left hcountdown
  exact ⟨hshows.timer, hshows.external, hshows.machineTimer⟩

theorem writesCsr_congr (hpriv : s'.privLevel = s.privLevel)
    (hmstatus : s'.mstatus = s.mstatus) (csr : Csr) (instr : Instr) :
    s'.writesCsr csr instr = s.writesCsr csr instr := by
  cases instr <;> simp only [writesCsr, csrDenied, hpriv, hmstatus]

theorem Shows.of_lowers (h : s.Shows bus) (hlowers : s.Lowers s')
    (hstimecmp : s'.stimecmp = s.stimecmp) : s'.Shows bus := by
  refine ⟨fun hbit => ?_, fun hbit => h.external (hlowers.mip 9 hbit), ?_⟩
  · rw [timerFired, hstimecmp]
    exact h.timer (hlowers.mip 5 hbit)
  rw [Bool.eq_false_iff]
  intro hbit
  cases h.machineTimer.symm.trans (hlowers.mip 7 hbit)

omit [Bus β] in
/-- What comes after the execution of an instruction clears bits at most. -/
theorem retire_lowers (s : Supervisor) (fallThrough : U64) (status : Status) (bus : β) :
    s.Lowers ((s.countRetired fallThrough).deliver status bus).2.1 ∧
      ((s.countRetired fallThrough).deliver status bus).2.1.stimecmp = s.stimecmp ∧
      ((s.countRetired fallThrough).deliver status bus).2.2 = bus := by
  rcases (s.countRetired fallThrough).deliver_cases status bus with ⟨trap, hout⟩ | hout
  · rw [hout]
    refine ⟨?_, takeTrapWithVaddr_stimecmp _ trap none, rfl⟩
    refine Supervisor.Lowers.trans ?_ (takeTrapWithVaddr_lowers _ trap none)
    exact .of_eq rfl rfl
  · rw [hout]
    exact ⟨.of_eq rfl rfl, rfl, rfl⟩

theorem waitForInterrupt_shows (hmachine : s.mip.getLsbD 7 = false) (bus : β)
    (width : U64) : (s.waitForInterrupt bus width).2.Shows bus := by
  have hpolled := pollNow_shows hmachine bus
  unfold waitForInterrupt park
  split
  · exact hpolled.of_lowers (takeTrapWithVaddr_lowers _ _ none)
      (takeTrapWithVaddr_stimecmp _ _ none)
  · exact hpolled.of_lowers (.of_eq rfl rfl) rfl

end Supervisor

section

variable [FloatOps]

namespace Supervisor

theorem executeSupervisor_wfi_bus (s : Supervisor) (width : U64) (bus : β) :
    (s.executeSupervisor .wfi width bus).2.2 = bus := by
  unfold executeSupervisor
  dsimp only
  split <;> rfl

/-- Unless it writes `mip`, an instruction sets no bit of it, or it is a `wfi` that has
polled. -/
theorem finishStep_pending (hmachine : s.mip.getLsbD 7 = false)
    (hmip : s.writesCsr 0x344 instr = false) (hsip : s.writesCsr 0x144 instr = false)
    (width : U64) (bus : β) :
    s.Lowers (s.finishStep instr width bus).2.1 ∨
      (s.finishStep instr width bus).2.1.Shows (s.finishStep instr width bus).2.2 := by
  have hflushed := s.flushedFor_effect instr
  have houtcome := (s.flushedFor instr).executeSupervisor_outcome instr width bus
  have hretire := retire_lowers
    ((s.flushedFor instr).executeSupervisor instr width bus).2.1 (s.cpu.pc + width)
    ((s.flushedFor instr).executeSupervisor instr width bus).1
    ((s.flushedFor instr).executeSupervisor instr width bus).2.2
  obtain ⟨hlowers, hstimecmp, hbus⟩ := hretire
  unfold finishStep
  by_cases hwfi : instr = .wfi
  · subst hwfi
    rcases houtcome.of_wfi with heffect | hwait
    · exact Or.inl ((hflushed.lowers.trans heffect.lowers).trans hlowers)
    have hflushed' : (s.flushedFor .wfi).mip.getLsbD 7 = false := by rwa [hflushed]
    have hshows := waitForInterrupt_shows hflushed' bus width
    rw [← hwait] at hshows
    right
    rw [hbus]
    refine Supervisor.Shows.of_lowers ?_ hlowers hstimecmp
    rwa [executeSupervisor_wfi_bus]
  · have hsame : ∀ csr, (s.flushedFor instr).writesCsr csr instr = s.writesCsr csr instr :=
      fun csr => writesCsr_congr hflushed.privLevel_eq hflushed.mstatus_eq csr instr
    have hexec := houtcome.lowers hwfi ((hsame _).trans hmip) ((hsame _).trans hsip)
    exact Or.inl ((hflushed.lowers.trans hexec).trans hlowers)

theorem finishStep_stimecmp (hcsr : s.writesCsr 0x14D instr = false)
    (width : U64) (bus : β) : (s.finishStep instr width bus).2.1.stimecmp = s.stimecmp := by
  have hflushed := s.flushedFor_effect instr
  have houtcome := (s.flushedFor instr).executeSupervisor_outcome instr width bus
  have hsame : (s.flushedFor instr).writesCsr 0x14D instr = s.writesCsr 0x14D instr :=
    writesCsr_congr hflushed.privLevel_eq hflushed.mstatus_eq _ instr
  unfold finishStep
  rw [(retire_lowers _ _ _ _).2.1, houtcome.stimecmp_eq (hsame.trans hcsr), hflushed.stimecmp_eq]

/-- A step sets no bit of `mip` that it does not write, or has just polled. -/
theorem step_pending (hmachine : (s.pollDevices bus).mip.getLsbD 7 = false)
    (hmip : s.stepWrites bus 0x344 = false) (hsip : s.stepWrites bus 0x144 = false) :
    (s.pollDevices bus).Lowers (s.step bus).2.1 ∨ (s.step bus).2.1.Shows (s.step bus).2.2 := by
  rcases s.step_cases bus with ⟨-, s', trap, vaddr, hfetch, hstep⟩ |
    ⟨instr, width, s', bus', hinstr, hfetch, hstep⟩
  · rw [hstep]
    exact Or.inl (hfetch.cacheEffect.lowers.trans (s'.takeTrapWithVaddr_lowers trap vaddr))
  have heffect := hfetch.cacheEffect
  have hsame : ∀ csr, s'.writesCsr csr instr = s.stepWrites bus csr := by
    intro csr
    rw [stepWrites, hinstr, Option.any_some]
    exact writesCsr_congr heffect.privLevel_eq heffect.mstatus_eq csr instr
  have hmachine' : s'.mip.getLsbD 7 = false := by rwa [heffect]
  rw [hstep]
  exact (finishStep_pending hmachine' ((hsame _).trans hmip)
    ((hsame _).trans hsip) width bus').imp_left fun hlowers => heffect.lowers.trans hlowers

theorem step_stimecmp (hcsr : s.stepWrites bus 0x14D = false) :
    (s.step bus).2.1.stimecmp = s.stimecmp := by
  rw [← s.pollDevices_stimecmp bus]
  rcases s.step_cases bus with ⟨-, s', trap, vaddr, hfetch, hstep⟩ |
    ⟨instr, width, s', bus', hinstr, hfetch, hstep⟩
  · rw [hstep, takeTrapWithVaddr_stimecmp, hfetch.cacheEffect.stimecmp_eq]
  have heffect := hfetch.cacheEffect
  have hsame : s'.writesCsr 0x14D instr = s.stepWrites bus 0x14D := by
    rw [stepWrites, hinstr, Option.any_some]
    exact writesCsr_congr heffect.privLevel_eq heffect.mstatus_eq _ instr
  rw [hstep, finishStep_stimecmp (hsame.trans hcsr), heffect.stimecmp_eq]

/-- Bits that show the lines make every delivery one of a line that is up. -/
theorem step_lineUp (h : (s.pollDevices bus).Shows bus)
    (hdelivered : (s.step bus).1 = .trap (.interrupt i)) :
    (s.step bus).2.1.lineUp (s.step bus).2.2 i = true := by
  have hinterrupt : (s.step bus).1.isInterrupt = true := by rw [hdelivered]; rfl
  rcases step_interrupt hinterrupt with ⟨trap, hcheck, hstep⟩ |
    ⟨trap, s', bus', fallThrough, hfetch, hcheck, hstep⟩
  · rw [hstep] at hdelivered ⊢
    cases hdelivered
    have hstimecmp : ((s.pollDevices bus).takeTrap (.interrupt i)).2.stimecmp =
        (s.pollDevices bus).stimecmp := takeTrapWithVaddr_stimecmp _ _ none
    exact (lineUp_congr hstimecmp bus i).trans (h.lineUp hcheck)
  · rw [hstep] at hdelivered ⊢
    cases hdelivered
    have hmachine : s'.mip.getLsbD 7 = false := by
      rw [hfetch]
      exact h.machineTimer
    have hstimecmp : (((s'.pollNow bus').takeTrap (.interrupt i)).2.countRetired
        fallThrough).stimecmp = (s'.pollNow bus').stimecmp :=
      takeTrapWithVaddr_stimecmp _ _ none
    exact (lineUp_congr hstimecmp bus' i).trans ((pollNow_shows hmachine bus').lineUp hcheck)

end Supervisor

end

end TabLinux
