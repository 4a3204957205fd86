/-
What a snapshot leaves out.  The TLB, the fetch-page and decode caches, the generations and
what is owed to the host are not saved.  Harts that differ in nothing else go on alike, as
long as their caches hold what memory holds.
-/
import TabLinux.StepEffects

namespace TabLinux

open Supervisor

/-- The hart with the caches, the generations and the block mark of another, and with output
before its own. -/
def Supervisor.recast (s h : Supervisor) (printed : List (BitVec 8)) : Supervisor :=
  { s with
    mmu := h.mmu
    fetchVpn := h.fetchVpn
    fetchPriv := h.fetchPriv
    fetchPpn := h.fetchPpn
    transGen := h.transGen
    dataTransGen := h.dataTransGen
    asidTbl := h.asidTbl
    asidGenNext := h.asidGenNext
    pendingFlush := h.pendingFlush
    icacheGen := h.icacheGen
    blockStart := h.blockStart
    dcache := h.dcache
    consoleBuf := printed ++ s.consoleBuf }

/-- `s` is `s'` but for these, and has printed more. -/
def Alike (printed : List (BitVec 8)) (s s' : Supervisor) : Prop := s = s'.recast s printed

section

variable {β : Type*} {printed : List (BitVec 8)} {s s' : Supervisor}

theorem Alike.exists_recast (h : Alike printed s s') : ∃ other, s = s'.recast other printed :=
  ⟨s, h⟩

/-- Fetching and translating change nothing that counts. -/
theorem Alike.fetched {t t' : Supervisor} (h : Alike printed s s') (hs : FetchEffect s t)
    (hs' : FetchEffect s' t') : Alike printed t t' := by
  rw [FetchEffect] at hs hs'
  rw [Alike] at h ⊢
  rw [hs, h, hs']
  rfl

/-- The same outcome with harts that are alike. -/
structure AlikePair {α : Type*} (printed : List (BitVec 8)) (out out' : α × Supervisor) :
    Prop where
  outcome : out.1 = out'.1
  hart : Alike printed out.2 out'.2

/-- The same outcome and bus with harts that are alike. -/
structure AlikeOut {α : Type*} (printed : List (BitVec 8)) (out out' : α × Supervisor × β) :
    Prop where
  outcome : out.1 = out'.1
  hart : Alike printed out.2.1 out'.2.1
  bus : out.2.2 = out'.2.2

theorem AlikeOut.exists_eq {α : Type*} {out out' : α × Supervisor × β}
    (h : AlikeOut printed out out') :
    ∃ res t t' bus, out = (res, t, bus) ∧ out' = (res, t', bus) ∧ Alike printed t t' :=
  ⟨out.1, out.2.1, out'.2.1, out.2.2, rfl,
    Prod.ext h.outcome.symm (Prod.ext rfl h.bus.symm), h.hart⟩

theorem AlikePair.on {α : Type*} {out out' : α × Supervisor} (h : AlikePair printed out out')
    (bus : β) : AlikeOut printed (out.1, out.2, bus) (out'.1, out'.2, bus) :=
  ⟨h.outcome, h.hart, rfl⟩

/-- Branch by branch, when the condition does not look at what differs. -/
theorem alike_ite {α : Type*} {c : Prop} [Decidable c] {R : α → α → Prop} {yes no yes' no' : α}
    (hyes : R yes yes') (hno : R no no') : R (if c then yes else no) (if c then yes' else no') := by
  split
  · exact hyes
  · exact hno

namespace Alike

variable (h : Alike printed s s')
include h

theorem takeTrapWithVaddr (trap : Trap) (faultVaddr : Option U64) :
    AlikePair printed (s.takeTrapWithVaddr trap faultVaddr)
      (s'.takeTrapWithVaddr trap faultVaddr) := by
  obtain ⟨other, rfl⟩ := h.exists_recast
  exact alike_ite ⟨rfl, rfl⟩ ⟨rfl, rfl⟩

theorem takeTrap (trap : Trap) : AlikePair printed (s.takeTrap trap) (s'.takeTrap trap) :=
  h.takeTrapWithVaddr trap none

theorem checkInterrupts : s.checkInterrupts = s'.checkInterrupts := by
  obtain ⟨other, rfl⟩ := h.exists_recast
  rfl

theorem doMret : AlikePair printed s.doMret s'.doMret := by
  obtain ⟨other, rfl⟩ := h.exists_recast
  exact ⟨rfl, rfl⟩

theorem doSret : AlikePair printed s.doSret s'.doSret := by
  obtain ⟨other, rfl⟩ := h.exists_recast
  exact ⟨rfl, rfl⟩

/-- Any change of the hart's own registers. -/
theorem withCpu {f : Cpu → Cpu} :
    Alike printed { s with cpu := f s.cpu } { s' with cpu := f s'.cpu } := by
  obtain ⟨other, rfl⟩ := h.exists_recast
  rfl

theorem settleFs : Alike printed s.settleFs s'.settleFs := by
  obtain ⟨other, rfl⟩ := h.exists_recast
  exact alike_ite rfl rfl

theorem countRetired (fallThrough : U64) :
    Alike printed (s.countRetired fallThrough) (s'.countRetired fallThrough) := by
  obtain ⟨other, rfl⟩ := h.exists_recast
  rfl

theorem flushedFor (instr : Instr) : Alike printed (s.flushedFor instr) (s'.flushedFor instr) := by
  obtain ⟨other, rfl⟩ := h.exists_recast
  exact alike_ite rfl rfl

/-- The spaces that each remembers decide what they select, but not what counts. -/
theorem switchAddressSpace (old new : U64) :
    Alike printed (s.switchAddressSpace old new) (s'.switchAddressSpace old new) := by
  obtain ⟨other, rfl⟩ := h.exists_recast
  unfold switchAddressSpace
  dsimp only
  split
  · split <;> rfl
  · split <;> rfl

theorem sfenceVma (rs1 : Reg) : Alike printed (s.sfenceVma rs1) (s'.sfenceVma rs1) := by
  obtain ⟨other, rfl⟩ := h.exists_recast
  unfold sfenceVma
  dsimp only
  split
  · split
    · split <;> rfl
    · split <;> rfl
  · rfl

theorem writeSatp (val : U64) : Alike printed (s.writeSatp val) (s'.writeSatp val) := by
  have hflushed : Alike printed
      { s with
        satp := Satp.fromBits val, mmu := s.mmu.flushTlb, fetchVpn := BitVec.allOnes 64 }
      { s' with
        satp := Satp.fromBits val, mmu := s'.mmu.flushTlb, fetchVpn := BitVec.allOnes 64 } := by
    obtain ⟨other, rfl⟩ := h.exists_recast
    rfl
  have hold : s.satp = s'.satp := by
    rw [h]
    rfl
  unfold Supervisor.writeSatp
  rw [hold]
  refine alike_ite (hflushed.switchAddressSpace _ _) ?_
  obtain ⟨other, rfl⟩ := h.exists_recast
  rfl

theorem csrWrite (csr : Csr) (val : U64) :
    Alike printed (s.csrWrite csr val) (s'.csrWrite csr val) := by
  have hsatp := h.writeSatp val
  obtain ⟨other, rfl⟩ := h.exists_recast
  unfold csrWrite
  iterate 26 refine alike_ite rfl ?_
  exact alike_ite hsatp rfl

theorem cpu_eq : s.cpu = s'.cpu := by
  rw [h]
  rfl

end Alike

variable [Bus β]

namespace Alike

variable (h : Alike printed s s') (bus : β)
include h

theorem csrOp (csr : Csr) (rd src : Reg) (val : U64) (op : CsrOp) (width : U64) :
    AlikePair printed (s.csrOp bus csr rd src val op width)
      (s'.csrOp bus csr rd src val op width) := by
  have hread : s.csrRead bus csr = s'.csrRead bus csr := by
    obtain ⟨other, rfl⟩ := h.exists_recast
    rfl
  have hdenied : s.csrDenied csr op src = s'.csrDenied csr op src := by
    obtain ⟨other, rfl⟩ := h.exists_recast
    rfl
  have hwritten : Alike printed (s.csrAccess bus csr rd src val op)
      (s'.csrAccess bus csr rd src val op) := by
    unfold csrAccess
    rw [hread]
    have hcsr : Alike printed
        (if csrWillWrite op src then s.csrWrite csr (op.combine (s'.csrRead bus csr) val) else s)
        (if csrWillWrite op src then s'.csrWrite csr (op.combine (s'.csrRead bus csr) val)
          else s') := alike_ite (h.csrWrite csr _) h
    exact hcsr.withCpu (f := fun cpu => cpu.writeReg rd (s'.csrRead bus csr))
  unfold Supervisor.csrOp
  rw [hdenied]
  exact alike_ite (h.takeTrap _) ⟨rfl, hwritten.withCpu (f := fun cpu => cpu.advance width)⟩

theorem pollNow : Alike printed (s.pollNow bus) (s'.pollNow bus) := by
  obtain ⟨other, rfl⟩ := h.exists_recast
  rfl

theorem pollDevices : Alike printed (s.pollDevices bus) (s'.pollDevices bus) := by
  obtain ⟨other, rfl⟩ := h.exists_recast
  exact alike_ite rfl rfl

theorem waitForInterrupt (width : U64) :
    AlikePair printed (s.waitForInterrupt bus width) (s'.waitForInterrupt bus width) := by
  have hpolled := h.pollNow bus
  unfold Supervisor.waitForInterrupt Supervisor.park
  rw [hpolled.checkInterrupts]
  split
  · exact hpolled.takeTrap _
  obtain ⟨other, hrecast⟩ := hpolled.exists_recast
  rw [hrecast]
  exact ⟨rfl, rfl⟩

theorem sbiCall (width : U64) :
    Alike printed (s.sbiCall bus width).1 (s'.sbiCall bus width).1 ∧
      (s.sbiCall bus width).2 = (s'.sbiCall bus width).2 := by
  obtain ⟨other, rfl⟩ := h.exists_recast
  refine ⟨?_, rfl⟩
  have hprinted : ∀ bytes, (s'.recast other printed).consoleBuf ++ bytes =
      printed ++ (s'.consoleBuf ++ bytes) := fun bytes => List.append_assoc _ _ _
  unfold sbiCall
  dsimp only
  rw [hprinted]
  rfl

end Alike

/-- The harts translate every address alike. -/
def TranslateAlike (printed : List (BitVec 8)) (s s' : Supervisor) (bus : β) : Prop :=
  ∀ access vaddr, AlikeOut printed (s.translate bus access vaddr) (s'.translate bus access vaddr)

variable {bus : β}

theorem TranslateAlike.withPaddr (h : TranslateAlike printed s s' bus)
    (access : AccessType) (vaddr : U64) {next next' : Supervisor → β → U64 → Supervisor × β}
    (hnext : ∀ {t t' : Supervisor} (bus : β) (paddr : U64), Alike printed t t' →
      Alike printed (next t bus paddr).1 (next' t' bus paddr).1 ∧
        (next t bus paddr).2 = (next' t' bus paddr).2) :
    AlikeOut printed (s.withPaddr bus access vaddr next) (s'.withPaddr bus access vaddr next') := by
  obtain ⟨res, t, t', bus1, hout, hout', hhart⟩ := (h access vaddr).exists_eq
  unfold Supervisor.withPaddr
  rw [hout, hout']
  cases res with
  | error trap => exact (hhart.takeTrapWithVaddr trap (some vaddr)).on bus1
  | ok paddr =>
    obtain ⟨hstate, hmem⟩ := hnext bus1 paddr hhart
    exact ⟨rfl, hstate, hmem⟩

theorem Alike.executeTranslated (h : Alike printed s s')
    (ht : TranslateAlike printed s s' bus) (instr : Instr) (width : U64) :
    AlikeOut printed (s.executeTranslated instr width bus)
      (s'.executeTranslated instr width bus) := by
  cases instr with
  | load op rd rs1 imm =>
    dsimp only [Supervisor.executeTranslated]
    rw [h.cpu_eq]
    refine ht.withPaddr _ _ fun bus paddr halike => ⟨?_, rfl⟩
    exact halike.withCpu (f := fun cpu =>
      (cpu.writeReg rd (op.translated (Bus.read op.width bus paddr).1)).advance width)
  | fload fw rd rs1 imm =>
    dsimp only [Supervisor.executeTranslated]
    rw [h.cpu_eq]
    refine ht.withPaddr _ _ fun bus paddr halike => ⟨?_, rfl⟩
    exact halike.withCpu (f := fun cpu => Cpu.advance
      { cpu.writeFreg rd (fw.translated (Bus.read fw.width bus paddr).1) with fsDirty := true }
      width)
  | store w rs1 rs2 imm =>
    dsimp only [Supervisor.executeTranslated]
    rw [h.cpu_eq]
    refine ht.withPaddr _ _ fun bus paddr halike => ⟨?_, ?_⟩
    · exact halike.withCpu (f := fun cpu => cpu.advance width)
    · rw [halike.cpu_eq]
  | fstore fw rs1 rs2 imm =>
    dsimp only [Supervisor.executeTranslated]
    rw [h.cpu_eq]
    refine ht.withPaddr _ _ fun bus paddr halike => ⟨?_, ?_⟩
    · exact halike.withCpu (f := fun cpu => cpu.advance width)
    · rw [halike.cpu_eq]
  | amo op aw rd rs1 rs2 aq rl =>
    dsimp only [Supervisor.executeTranslated]
    rw [h.cpu_eq]
    refine ht.withPaddr _ _ fun bus paddr halike => ⟨?_, ?_⟩
    · exact halike.withCpu (f := fun cpu => (cpu.writeReg rd (op.translated aw
        (Bus.read aw.width bus paddr).1 (cpu.readReg rs2)).2).advance width)
    · rw [halike.cpu_eq]
  | _ => exact (h.takeTrap _).on bus

theorem Alike.loadReserved (h : Alike printed s s')
    (ht : TranslateAlike printed s s' bus) (aw : AtomicWidth) (rd rs1 : Reg) (width : U64) :
    AlikeOut printed (s.loadReserved bus aw rd rs1 width)
      (s'.loadReserved bus aw rd rs1 width) := by
  unfold Supervisor.loadReserved
  rw [h.cpu_eq]
  refine ht.withPaddr _ _ fun bus paddr halike => ⟨?_, rfl⟩
  obtain ⟨other, rfl⟩ := halike.exists_recast
  rfl

theorem Alike.storeConditional (h : Alike printed s s')
    (ht : TranslateAlike printed s s' bus) (aw : AtomicWidth) (rd rs1 rs2 : Reg) (width : U64) :
    AlikeOut printed (s.storeConditional bus aw rd rs1 rs2 width)
      (s'.storeConditional bus aw rd rs1 rs2 width) := by
  unfold Supervisor.storeConditional
  rw [h.cpu_eq]
  refine ht.withPaddr _ _ fun bus paddr halike => ?_
  obtain ⟨other, rfl⟩ := halike.exists_recast
  exact alike_ite
    (R := fun out out' : Supervisor × β => Alike printed out.1 out'.1 ∧ out.2 = out'.2)
    ⟨rfl, rfl⟩ ⟨rfl, rfl⟩

/-- The hart with the caches of a new one, and without its output. -/
def Supervisor.uncached (s : Supervisor) : Supervisor :=
  { s.recast (.new 0 0) [] with consoleBuf := [] }

omit [Bus β] in
theorem Alike.uncached (h : Alike printed s s') : s.uncached = s'.uncached := by
  obtain ⟨other, rfl⟩ := h.exists_recast
  rfl

/-- The TLB answers as a walk does, and hides no write of one. -/
def Supervisor.Transparent (s : Supervisor) (bus : β) : Prop :=
  ∀ access vaddr, (s.translate bus access vaddr).1 = (s.uncached.translate bus access vaddr).1 ∧
    (s.translate bus access vaddr).2.2 = (s.uncached.translate bus access vaddr).2.2

theorem Alike.translate (h : Alike printed s s') (hs : s.Transparent bus)
    (hs' : s'.Transparent bus) : TranslateAlike printed s s' bus := by
  intro access vaddr
  obtain ⟨hres, hbus⟩ := hs access vaddr
  obtain ⟨hres', hbus'⟩ := hs' access vaddr
  rw [h.uncached] at hres hbus
  exact ⟨hres.trans hres'.symm, h.fetched (s.translate_fetchEffect bus access vaddr)
    (s'.translate_fetchEffect bus access vaddr), hbus.trans hbus'.symm⟩

/-- The caches give the next instruction that they would give if they were empty, with the
same loads and walks, and when it executes the TLB is transparent. -/
structure Supervisor.Settled (s : Supervisor) (bus : β) : Prop where
  fetched : (s.fetch bus).1 = (s.uncached.fetch bus).1
  leaves : (s.fetch bus).2.2 = (s.uncached.fetch bus).2.2
  executes : ∀ {instr width}, (s.fetch bus).1 = .ok (instr, width) →
    ((s.fetch bus).2.1.flushedFor instr).Transparent (s.fetch bus).2.2

variable [FloatOps]

theorem Alike.executeBase (h : Alike printed s s')
    (ht : TranslateAlike printed s s' bus) (instr : Instr) (width : U64) :
    AlikeOut printed (s.executeBase instr width bus) (s'.executeBase instr width bus) := by
  have hmstatus : s.mstatus = s'.mstatus := by
    rw [h]
    rfl
  have htranslated := h.executeTranslated ht instr width
  have hcpu : Alike printed { s with cpu := (executeWidth s'.cpu instr width bus).2.1 }
      { s' with cpu := (executeWidth s'.cpu instr width bus).2.1 } :=
    h.withCpu (f := fun _ => (executeWidth s'.cpu instr width bus).2.1)
  rw [hmstatus] at hcpu
  unfold Supervisor.executeBase
  rw [hmstatus, h.cpu_eq]
  refine alike_ite ((h.takeTrap _).on bus) (alike_ite ?_ ?_)
  · exact ⟨htranslated.outcome, htranslated.hart.settleFs, htranslated.bus⟩
  · exact ⟨rfl, hcpu.settleFs, rfl⟩

theorem Alike.executeSupervisor (h : Alike printed s s')
    (ht : TranslateAlike printed s s' bus) (instr : Instr) (width : U64) :
    AlikeOut printed (s.executeSupervisor instr width bus)
      (s'.executeSupervisor instr width bus) := by
  have hmstatus : s.mstatus = s'.mstatus := by
    rw [h]
    rfl
  have hpriv : s.privLevel = s'.privLevel := by
    rw [h]
    rfl
  have hsbi : s.sbiEnabled = s'.sbiEnabled := by
    rw [h]
    rfl
  have htrapped : ∀ bit, s.trappedBy bit = s'.trappedBy bit := by
    intro bit
    rw [trappedBy, trappedBy, hpriv]
  have hillegal := (h.takeTrap (.exception .illegalInstruction)).on bus
  cases instr with
  | csrReg op rd rs1 csr =>
    dsimp only [Supervisor.executeSupervisor]
    rw [h.cpu_eq]
    exact (h.csrOp bus csr rd rs1 _ op width).on bus
  | csrImm op rd zimm csr => exact (h.csrOp bus csr rd zimm _ op width).on bus
  | ecall =>
    dsimp only [Supervisor.executeSupervisor]
    rw [hsbi, hpriv]
    obtain ⟨hstate, hmem⟩ := h.sbiCall bus width
    exact alike_ite ⟨rfl, hstate, hmem⟩ ((h.takeTrap _).on bus)
  | ebreak => exact (h.takeTrapWithVaddr _ none).on bus
  | mret => exact h.doMret.on bus
  | sret =>
    dsimp only [Supervisor.executeSupervisor]
    rw [hmstatus, htrapped]
    exact alike_ite hillegal (h.doSret.on bus)
  | wfi =>
    dsimp only [Supervisor.executeSupervisor]
    rw [hmstatus, htrapped]
    exact alike_ite hillegal ((h.waitForInterrupt bus width).on bus)
  | sfenceVma rs1 rs2 =>
    dsimp only [Supervisor.executeSupervisor]
    rw [hmstatus, htrapped]
    exact alike_ite hillegal
      ⟨rfl, (h.sfenceVma rs1).withCpu (f := fun cpu => cpu.advance width), rfl⟩
  | lr aw rd rs1 aq rl => exact h.loadReserved ht aw rd rs1 width
  | sc aw rd rs1 rs2 aq rl => exact h.storeConditional ht aw rd rs1 rs2 width
  | _ => exact h.executeBase ht _ width

theorem Alike.finishStep (h : Alike printed s s') {instr : Instr}
    (ht : TranslateAlike printed (s.flushedFor instr) (s'.flushedFor instr) bus) (width : U64) :
    AlikeOut printed (s.finishStep instr width bus) (s'.finishStep instr width bus) := by
  obtain ⟨status, t, t', bus1, hout, hout', hhart⟩ :=
    ((h.flushedFor instr).executeSupervisor ht instr width).exists_eq
  unfold Supervisor.finishStep
  rw [h.cpu_eq, hout, hout']
  dsimp only
  have hcounted := hhart.countRetired (s'.cpu.pc + width)
  have hdelivered : (t.countRetired (s'.cpu.pc + width)).trapDelivered =
      (t'.countRetired (s'.cpu.pc + width)).trapDelivered := by
    rw [hcounted]
    rfl
  cases status with
  | trap trap =>
    unfold deliver
    rw [hdelivered]
    exact alike_ite ⟨rfl, hcounted, rfl⟩ ((hcounted.takeTrap trap).on bus1)
  | running => exact ⟨rfl, hcounted, rfl⟩
  | wfi => exact ⟨rfl, hcounted, rfl⟩

variable {bus : β}

/-- Harts that are alike and whose caches are settled take the same step. -/
theorem Alike.stepPolled (h : Alike printed s s') (hs : s.Settled bus) (hs' : s'.Settled bus) :
    AlikeOut printed (s.stepPolled bus) (s'.stepPolled bus) := by
  have houtcome : (s.fetch bus).1 = (s'.fetch bus).1 := by
    rw [hs.fetched, hs'.fetched, h.uncached]
  have hbus : (s.fetch bus).2.2 = (s'.fetch bus).2.2 := by
    rw [hs.leaves, hs'.leaves, h.uncached]
  have hhart := h.fetched (s.fetch_effect bus) (s'.fetch_effect bus)
  have hnext := @hs.executes
  have hnext' := @hs'.executes
  unfold Supervisor.stepPolled
  rw [h.checkInterrupts]
  split
  · exact (h.takeTrap _).on bus
  generalize s.fetch bus = out at houtcome hbus hhart hnext ⊢
  generalize s'.fetch bus = out' at houtcome hbus hhart hnext' ⊢
  obtain ⟨res, t, bus1⟩ := out
  obtain ⟨res', t', bus1'⟩ := out'
  dsimp only at houtcome hbus hhart hnext hnext' ⊢
  subst houtcome hbus
  rcases res with ⟨trap, vaddr⟩ | ⟨instr, width⟩
  · exact (hhart.takeTrapWithVaddr trap vaddr).on bus1
  exact hhart.finishStep ((hhart.flushedFor instr).translate (hnext rfl) (hnext' rfl)) width

theorem Alike.step (h : Alike printed s s') (hs : (s.pollDevices bus).Settled bus)
    (hs' : (s'.pollDevices bus).Settled bus) : AlikeOut printed (s.step bus) (s'.step bus) :=
  (h.pollDevices bus).stepPolled hs hs'

end

end TabLinux
