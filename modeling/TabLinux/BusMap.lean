/-
The hart reaches its bus through the operations of the bus only.  A map between buses that
commutes with these operations therefore commutes with a whole step.  Two such maps are used:
forgetting a record of the accesses made, and forgetting that a bus is in a set of buses
which every access keeps.
-/
import TabLinux.StepEffects

namespace TabLinux

universe u v

variable {β : Type u} {γ : Type v} [Bus β] [Bus γ]

/-- The same outcome with the bus replaced. -/
def withBus {α : Type*} (f : β → γ) (out : α × β) : α × γ := (out.1, f out.2)

def onBus {α σ : Type*} (f : β → γ) (out : α × σ × β) : α × σ × γ := (out.1, out.2.1, f out.2.2)

/-- A map that commutes with the operations of the bus. -/
structure BusMap (f : β → γ) : Prop where
  read : ∀ width bus addr, Bus.read width (f bus) addr = withBus f (Bus.read width bus addr)
  write : ∀ width bus addr val, Bus.write width (f bus) addr val = f (Bus.write width bus addr val)
  timer : ∀ bus, Bus.checkTimerInterrupt (f bus) = Bus.checkTimerInterrupt bus
  mtime : ∀ bus, Bus.readMtime (f bus) = Bus.readMtime bus
  external : ∀ bus, Bus.checkExternalInterrupt (f bus) = Bus.checkExternalInterrupt bus

section

variable {f : β → γ} (hf : BusMap f)
include hf

theorem walkFrom_map (vaddr : U64) (level : Nat) (tableAddr : U64) (bus : β) :
    walkFrom vaddr level tableAddr (f bus) =
      withBus f (walkFrom vaddr level tableAddr bus) := by
  induction level generalizing tableAddr bus with
  | zero =>
    rw [walkFrom, walkFrom, readU64, readU64, hf.read]
    exact ite_map (withBus f) rfl (ite_map (withBus f) rfl (ite_map (withBus f) rfl rfl))
  | succ level ih =>
    rw [walkFrom, walkFrom, readU64, readU64, hf.read]
    exact ite_map (withBus f) rfl (ite_map (withBus f) rfl (ite_map (withBus f) (ih _ _) rfl))

theorem walkSv39_map (bus : β) (satp : Satp) (vaddr : U64) :
    walkSv39 (f bus) satp vaddr = withBus f (walkSv39 bus satp vaddr) := by
  rw [walkSv39, walkSv39, readU64, readU64, hf.read]
  exact walkFrom_map hf _ _ _ _

theorem setAd_map (bus : β) (pteAddr : U64) (flags : BitVec 8) (access : AccessType) :
    setAd (f bus) pteAddr flags access = withBus f (setAd bus pteAddr flags access) := by
  rw [setAd, setAd, readU64, readU64, hf.read]
  split
  · rfl
  · dsimp only [withBus, writeU64]
    rw [hf.write]

theorem Mmu.translateWalk_map (mmu : Mmu) (bus : β) (satp : Satp) (privLevel : Privilege)
    (sum mxr : Bool) (access : AccessType) (vaddr : U64) :
    mmu.translateWalk (f bus) satp privLevel sum mxr access vaddr =
      onBus f (mmu.translateWalk bus satp privLevel sum mxr access vaddr) := by
  rw [translateWalk, translateWalk, walkSv39_map hf]
  rcases walkSv39 bus satp vaddr with ⟨_ | walked, bus'⟩
  · dsimp only [withBus]
    split <;> rfl
  dsimp only [withBus]
  split
  · rfl
  · rw [setAd_map hf]
    rfl

theorem Mmu.translate_map (mmu : Mmu) (bus : β) (satp : Satp) (privLevel : Privilege)
    (sum mxr : Bool) (access : AccessType) (vaddr : U64) :
    mmu.translate (f bus) satp privLevel sum mxr access vaddr =
      onBus f (mmu.translate bus satp privLevel sum mxr access vaddr) := by
  unfold translate
  split
  · rfl
  split
  · rfl
  split
  · rfl
  split
  · split
    · rfl
    · exact translateWalk_map hf mmu bus satp privLevel sum mxr access vaddr
  · exact translateWalk_map hf mmu bus satp privLevel sum mxr access vaddr

namespace Supervisor

variable (s : Supervisor) (bus : β)

theorem mmuTranslate_map (privLevel : Privilege) (access : AccessType) (vaddr : U64) :
    s.mmuTranslate (f bus) privLevel access vaddr =
      onBus f (s.mmuTranslate bus privLevel access vaddr) := by
  rw [mmuTranslate, mmuTranslate, Mmu.translate_map hf]
  rfl

theorem translate_map (access : AccessType) (vaddr : U64) :
    s.translate (f bus) access vaddr = onBus f (s.translate bus access vaddr) := by
  unfold translate
  split
  · split
    · rfl
    · split
      · rfl
      · split
        · rfl
        · exact mmuTranslate_map hf s bus _ access vaddr
  · exact mmuTranslate_map hf s bus _ access vaddr

theorem fetchTranslate_map (vaddr : U64) :
    s.fetchTranslate (f bus) vaddr = onBus f (s.fetchTranslate bus vaddr) := by
  rw [fetchTranslate, fetchTranslate, translate_map hf]
  split
  · rfl
  · rcases s.translate bus .instruction vaddr with ⟨_ | paddr, s', bus'⟩ <;> rfl

theorem fetchUpperHalf_map (loPaddr : U64) :
    s.fetchUpperHalf (f bus) loPaddr = onBus f (s.fetchUpperHalf bus loPaddr) := by
  rw [fetchUpperHalf, fetchUpperHalf, translate_map hf]
  split
  · dsimp only [readU16]
    rw [hf.read]
    rfl
  rcases s.translate bus .instruction (s.cpu.pc + 2) with ⟨_ | paddr, s', bus'⟩
  · rfl
  dsimp only [onBus, readU16]
  rw [hf.read]
  rfl

theorem fetchDecode_map (paddr : U64) :
    s.fetchDecode (f bus) paddr = onBus f (s.fetchDecode bus paddr) := by
  rw [fetchDecode, fetchDecode, readU16, readU16, hf.read]
  dsimp only [withBus]
  rw [fetchUpperHalf_map hf]
  split
  · split
    · rfl
    · rfl
  · rcases s.fetchUpperHalf (Bus.read .u16 bus paddr).2 paddr with ⟨_ | hi, s', bus'⟩ <;> rfl

theorem fetch_map : s.fetch (f bus) = onBus f (s.fetch bus) := by
  rw [fetch, fetch, fetchTranslate_map hf]
  rcases s.fetchTranslate bus s.cpu.pc with ⟨_ | paddr, s', bus'⟩
  · rfl
  dsimp only [onBus]
  split
  · rfl
  · rw [fetchDecode_map hf]
    rcases s'.fetchDecode bus' paddr with ⟨_ | fetched, s'', bus''⟩ <;> rfl

end Supervisor

theorem executeAmo_map (cpu : Cpu) (bus : β) (op : AmoOp) (aw : AtomicWidth) (addr : U64)
    (rd rs2 : Reg) :
    executeAmo cpu (f bus) op aw addr rd rs2 =
      withBus f (executeAmo cpu bus op aw addr rd rs2) := by
  rw [executeAmo, executeAmo, hf.read]
  dsimp only [withBus]
  rw [hf.write]

namespace Supervisor

variable (s : Supervisor)

theorem withPaddr_map (bus : β) (access : AccessType)
    (vaddr : U64) (next : Supervisor → β → U64 → Supervisor × β)
    (next' : Supervisor → γ → U64 → Supervisor × γ)
    (hnext : ∀ s bus paddr, next' s (f bus) paddr = withBus f (next s bus paddr)) :
    s.withPaddr (f bus) access vaddr next' = onBus f (s.withPaddr bus access vaddr next) := by
  rw [withPaddr, withPaddr, translate_map hf]
  rcases s.translate bus access vaddr with ⟨_ | paddr, s', bus'⟩
  · rfl
  dsimp only [onBus]
  rw [hnext]
  rfl

theorem executeTranslated_map (instr : Instr) (width : U64) (bus : β) :
    s.executeTranslated instr width (f bus) = onBus f (s.executeTranslated instr width bus) := by
  cases instr with
  | load | fload =>
    dsimp only [executeTranslated]
    refine withPaddr_map hf s bus _ _ _ _ fun s bus paddr => ?_
    rw [hf.read]
    rfl
  | store | fstore =>
    dsimp only [executeTranslated]
    refine withPaddr_map hf s bus _ _ _ _ fun s bus paddr => ?_
    rw [hf.write]
    rfl
  | amo =>
    dsimp only [executeTranslated]
    refine withPaddr_map hf s bus _ _ _ _ fun s bus paddr => ?_
    rw [hf.read]
    dsimp only [withBus]
    rw [hf.write]
  | _ => rfl

theorem loadReserved_map (bus : β) (aw : AtomicWidth) (rd rs1 : Reg) (width : U64) :
    s.loadReserved (f bus) aw rd rs1 width = onBus f (s.loadReserved bus aw rd rs1 width) := by
  unfold loadReserved
  refine withPaddr_map hf s bus _ _ _ _ fun s bus paddr => ?_
  rw [hf.read]
  rfl

theorem storeConditional_map (bus : β) (aw : AtomicWidth) (rd rs1 rs2 : Reg) (width : U64) :
    s.storeConditional (f bus) aw rd rs1 rs2 width =
      onBus f (s.storeConditional bus aw rd rs1 rs2 width) := by
  unfold storeConditional
  refine withPaddr_map hf s bus _ _ _ _ fun s bus paddr => ?_
  rw [commitSc, commitSc, hf.write]
  exact ite_map (withBus f) rfl rfl

end Supervisor

theorem readBytes_map (bus : β) (addr : U64) (len : Nat) :
    readBytes (f bus) addr len = withBus f (readBytes bus addr len) := by
  induction len generalizing bus addr with
  | zero => rfl
  | succ len ih =>
    rw [readBytes, readBytes, hf.read]
    dsimp only [withBus]
    rw [ih]
    rfl

theorem handleEcall_map (bus : β) (a0 a1 a6 a7 : U64) :
    handleEcall (f bus) a0 a1 a6 a7 = onBus f (handleEcall bus a0 a1 a6 a7) := by
  unfold handleEcall handleDbcn writeU64
  rw [readBytes_map hf, hf.write, hf.write]
  repeat' refine ite_map (onBus f) rfl ?_
  rfl

namespace Supervisor

variable (s : Supervisor) (bus : β)

theorem sbiCall_map (width : U64) :
    s.sbiCall (f bus) width = withBus f (s.sbiCall bus width) := by
  rw [sbiCall, sbiCall, handleEcall_map hf]
  rfl

theorem csrOp_map (csr : Csr) (rd src : Reg)
    (val : U64) (op : CsrOp) (width : U64) :
    s.csrOp (f bus) csr rd src val op width = s.csrOp bus csr rd src val op width := by
  have hread : s.csrRead (f bus) csr = s.csrRead bus csr := by
    unfold csrRead
    rw [hf.mtime]
  rw [csrOp, csrOp, csrAccess, csrAccess, hread]

theorem pollNow_map : s.pollNow (f bus) = s.pollNow bus := by
  rw [pollNow, pollNow, syncDeviceInterrupts, syncDeviceInterrupts, hf.timer, hf.mtime, hf.external]

theorem pollDevices_map : s.pollDevices (f bus) = s.pollDevices bus := by
  rw [pollDevices, pollDevices]
  rw [pollNow_map hf]

end Supervisor

variable [FloatOps]

theorem executeWidth_map (cpu : Cpu) (instr : Instr) (width : U64) (bus : β) :
    executeWidth cpu instr width (f bus) = onBus f (executeWidth cpu instr width bus) := by
  cases instr with
  | load | fload | lr =>
    rw [executeWidth, executeWidth, hf.read]
    rfl
  | store | fstore | sc =>
    rw [executeWidth, executeWidth, hf.write]
    rfl
  | amo =>
    rw [executeWidth, executeWidth, executeAmo_map hf]
    rfl
  | fp => exact ite_map (onBus f) rfl rfl
  | _ => rfl

namespace Supervisor

section

variable (s : Supervisor) (instr : Instr) (width : U64) (bus : β)

theorem executeBase_map : s.executeBase instr width (f bus) = onBus f
    (s.executeBase instr width bus) := by
  unfold executeBase
  rw [executeTranslated_map hf, executeWidth_map hf]
  exact ite_map (onBus f) rfl (ite_map (onBus f) rfl rfl)

theorem executeSupervisor_map :
    s.executeSupervisor instr width (f bus) = onBus f (s.executeSupervisor instr width bus) := by
  cases instr with
  | csrReg | csrImm =>
    dsimp only [executeSupervisor]
    rw [csrOp_map hf]
    rfl
  | ecall =>
    dsimp only [executeSupervisor]
    rw [sbiCall_map hf]
    exact ite_map (onBus f) rfl rfl
  | ebreak | mret => rfl
  | sret | sfenceVma => exact ite_map (onBus f) rfl rfl
  | wfi =>
    dsimp only [executeSupervisor, waitForInterrupt]
    rw [pollNow_map hf]
    exact ite_map (onBus f) rfl rfl
  | lr => exact loadReserved_map hf s bus _ _ _ width
  | sc => exact storeConditional_map hf s bus _ _ _ _ width
  | _ => exact executeBase_map hf s _ width bus

theorem finishStep_map : s.finishStep instr width (f bus) = onBus f
    (s.finishStep instr width bus) := by
  rw [finishStep, finishStep, executeSupervisor_map hf]
  rcases (s.flushedFor instr).executeSupervisor instr width bus with ⟨_ | trap | _, s', bus'⟩
  case trap => exact ite_map (onBus f) rfl rfl
  all_goals rfl

end

/-- A step over the image of a bus is the image of the step. -/
theorem step_map (s : Supervisor) (bus : β) : s.step (f bus) = onBus f (s.step bus) := by
  rw [step, step, pollDevices_map hf]
  generalize s.pollDevices bus = s
  rw [stepPolled, stepPolled, fetch_map hf]
  split
  · rfl
  rcases s.fetch bus with ⟨⟨trap, vaddr⟩ | ⟨instr, width⟩, s', bus'⟩
  · rfl
  · exact finishStep_map hf s' instr width bus'

end Supervisor

end

/-- A bus with a record of the accesses made, oldest first. -/
structure Traced (β : Type u) where
  bus : β
  accesses : List (U64 × Width)

instance : Bus (Traced β) where
  read width t addr :=
    let out := Bus.read width t.bus addr
    (out.1, ⟨out.2, t.accesses ++ [(addr, width)]⟩)
  write width t addr val := ⟨Bus.write width t.bus addr val, t.accesses ++ [(addr, width)]⟩
  checkTimerInterrupt t := Bus.checkTimerInterrupt t.bus
  readMtime t := Bus.readMtime t.bus
  checkExternalInterrupt t := Bus.checkExternalInterrupt t.bus

theorem Traced.busMap : BusMap (bus : Traced β → β) :=
  ⟨fun _ _ _ => rfl, fun _ _ _ _ => rfl, fun _ => rfl, fun _ => rfl, fun _ => rfl⟩

section

variable [FloatOps]

/-- The addresses and widths that the next step reads and writes. -/
def Supervisor.accesses (s : Supervisor) (bus : β) : List (U64 × Width) :=
  (s.step (Traced.mk bus [])).2.2.accesses

/-- The buses with a property that every access keeps. -/
@[reducible] def Bus.restrict {Inv : β → Prop}
    (hread : ∀ width bus addr, Inv bus → Inv (Bus.read width bus addr).2)
    (hwrite : ∀ width bus addr val, Inv bus → Inv (Bus.write width bus addr val)) :
    Bus { bus : β // Inv bus } where
  read width b addr :=
    ((Bus.read width b.1 addr).1, ⟨(Bus.read width b.1 addr).2, hread width b.1 addr b.2⟩)
  write width b addr val := ⟨Bus.write width b.1 addr val, hwrite width b.1 addr val b.2⟩
  checkTimerInterrupt b := Bus.checkTimerInterrupt b.1
  readMtime b := Bus.readMtime b.1
  checkExternalInterrupt b := Bus.checkExternalInterrupt b.1

/-- What every access keeps, a step keeps. -/
theorem Supervisor.step_keeps {Inv : β → Prop}
    (hread : ∀ width bus addr, Inv bus → Inv (Bus.read width bus addr).2)
    (hwrite : ∀ width bus addr val, Inv bus → Inv (Bus.write width bus addr val))
    (s : Supervisor) {bus : β} (hbus : Inv bus) : Inv (s.step bus).2.2 := by
  let _ := Bus.restrict hread hwrite
  have hmap : BusMap (Subtype.val : { bus : β // Inv bus } → β) :=
    ⟨fun _ _ _ => rfl, fun _ _ _ _ => rfl, fun _ => rfl, fun _ => rfl, fun _ => rfl⟩
  have hstep := step_map hmap s ⟨bus, hbus⟩
  rw [hstep]
  exact (s.step (⟨bus, hbus⟩ : { bus : β // Inv bus })).2.2.2

/-- The property holds as long as the record has accesses of one kind only. -/
def Traced.Keeps (Good : U64 × Width → Prop) (Inv : β → Prop) (t : Traced β) : Prop :=
  (∀ access ∈ t.accesses, Good access) → Inv t.bus

/-- What the accesses of one kind keep, a step keeps that makes only such accesses. -/
theorem Supervisor.step_keeps_of_accesses {Inv : β → Prop} {Good : U64 × Width → Prop}
    (hread : ∀ width bus addr, Good (addr, width) → Inv bus → Inv (Bus.read width bus addr).2)
    (hwrite : ∀ width bus addr val, Good (addr, width) → Inv bus →
      Inv (Bus.write width bus addr val))
    {s : Supervisor} {bus : β} (hgood : ∀ access ∈ s.accesses bus, Good access)
    (hbus : Inv bus) : Inv (s.step bus).2.2 := by
  have htraced : (s.step (Traced.mk bus [])).2.2.Keeps Good Inv := by
    refine s.step_keeps ?_ ?_ fun _ => hbus
    · intro width t addr hkeeps hall
      obtain ⟨hold, hnew⟩ := List.forall_mem_append.mp hall
      exact hread width t.bus addr (hnew _ (List.mem_singleton_self _)) (hkeeps hold)
    · intro width t addr val hkeeps hall
      obtain ⟨hold, hnew⟩ := List.forall_mem_append.mp hall
      exact hwrite width t.bus addr val (hnew _ (List.mem_singleton_self _)) (hkeeps hold)
  have hstep := step_map Traced.busMap s (Traced.mk bus [])
  rw [hstep]
  exact htraced hgood

end

end TabLinux
