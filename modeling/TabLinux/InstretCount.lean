/-
The counter of retired instructions over runs of the machine.  The interpreter advances
it at the end of every instruction it executes, unless the instruction wrote it; compiled
code reaches it through CSR instructions only.
-/
import TabLinux.PendingBits
import TabLinux.RunLoop
import TabLinux.Library.Runs

namespace TabLinux

open Runs Supervisor

universe u

variable (s : Supervisor)

/-- The counter, and whether the current instruction wrote it. -/
structure Instret where
  minstret : U64
  wroteMinstret : Bool
deriving DecidableEq, Repr

def Supervisor.instret (s : Supervisor) : Instret := ⟨s.minstret, s.wroteMinstret⟩

/-- A write, if there is one. -/
def Instret.put (c : Instret) : Option U64 → Instret
  | some val => ⟨val, true⟩
  | none => c

/-- The end of an instruction. -/
def Instret.retire (c : Instret) : Instret :=
  ⟨if c.wroteMinstret then c.minstret else c.minstret + 1, false⟩

/-- The value that an access to a CSR writes to the counter. -/
def Supervisor.csrInstret (s : Supervisor) (csr : Csr) (src : Reg) (val : U64)
    (op : CsrOp) : Option U64 :=
  if csr = 0xB02 ∧ csrWillWrite op src ∧ s.csrDenied csr op src = false then
    some (op.combine s.minstret val)
  else none

/-- The value that an instruction writes to the counter. -/
def Supervisor.instrInstret (s : Supervisor) : Instr → Option U64
  | .csrReg op _ rs1 csr => s.csrInstret csr rs1 (s.cpu.readReg rs1) op
  | .csrImm op _ zimm csr => s.csrInstret csr zimm (zimm.setWidth 64) op
  | _ => none

section

variable {β : Type u}
variable (m : Machine β)

theorem HartEffect.instret_eq {s s' : Supervisor} (h : HartEffect s s') :
    s'.instret = s.instret := by
  rw [h]
  rfl

theorem CacheEffect.instret_eq {s s' : Supervisor} (h : CacheEffect s s') :
    s'.instret = s.instret := by
  rw [h]
  rfl

theorem Supervisor.takeTrapWithVaddr_instret (trap : Trap) (faultVaddr : Option U64) :
    (s.takeTrapWithVaddr trap faultVaddr).2.instret = s.instret := by
  unfold takeTrapWithVaddr
  split <;> rfl

theorem ExecEffect.instret_eq {s s' : Supervisor} (h : ExecEffect s s') :
    s'.instret = s.instret := by
  cases h with
  | quiet effect => exact effect.instret_eq
  | trap effect trap faultVaddr =>
    exact (takeTrapWithVaddr_instret _ trap faultVaddr).trans effect.instret_eq

theorem Supervisor.csrWrite_instret (csr : Csr) (val : U64) :
    (s.csrWrite csr val).instret = s.instret.put (if csr = 0xB02 then some val else none) := by
  by_cases hcsr : csr = 0xB02
  · subst hcsr
    rfl
  rw [if_neg hcsr]
  unfold csrWrite
  repeat' with_reducible
    refine iteInduction (motive := fun s' : Supervisor => s'.instret = s.instret.put none)
      (fun hif => ?_) (fun _ => ?_)
  all_goals first
    | rfl
    | exact absurd hif hcsr
    | exact (s.writeSatp_effect val).instret_eq

variable [Bus β]

theorem Supervisor.csrRead_minstret (bus : β) :
    s.csrRead bus 0xB02 = s.minstret ∧ s.csrRead bus 0xC02 = s.minstret := by
  constructor <;> simp [csrRead]

theorem Supervisor.csrAccess_instret {s : Supervisor} {csr : Csr} {src : Reg} {op : CsrOp}
    (hallowed : s.csrDenied csr op src = false) (bus : β) (rd : Reg) (val : U64) :
    (s.csrAccess bus csr rd src val op).instret = s.instret.put (s.csrInstret csr src val op) := by
  have hcpu : (s.csrAccess bus csr rd src val op).instret =
      (if csrWillWrite op src then s.csrWrite csr (op.combine (s.csrRead bus csr) val)
        else s).instret := rfl
  rw [hcpu, csrInstret]
  by_cases hwrites : csrWillWrite op src
  · rw [if_pos hwrites, s.csrWrite_instret]
    by_cases hcsr : csr = 0xB02
    · subst hcsr
      rw [if_pos rfl, if_pos ⟨rfl, hwrites, hallowed⟩, (s.csrRead_minstret bus).1]
    · rw [if_neg hcsr, if_neg fun h => hcsr h.1]
  · rw [if_neg hwrites, if_neg fun h => hwrites h.2.1]
    rfl

theorem Supervisor.park_instret (width : U64) : (s.park width).2.instret = s.instret := by
  unfold park
  split
  · exact s.takeTrapWithVaddr_instret _ none
  · rfl

theorem ExecOutcome.instret_eq {s s' : Supervisor} {bus : β} {width : U64} {instr : Instr}
    (h : ExecOutcome s bus width instr s') : s'.instret = s.instret.put (s.instrInstret instr) := by
  cases h with
  | hart hpath effect =>
    have hnone : s.instrInstret instr = none := by
      cases instr
      case csrReg op rd rs1 csr =>
        have hdenied : s.csrDenied csr op rs1 = true := by
          simpa [takesOwnPath] using hpath
        exact if_neg fun h => by simp [hdenied] at h
      case csrImm op rd zimm csr =>
        have hdenied : s.csrDenied csr op zimm = true := by
          simpa [takesOwnPath] using hpath
        exact if_neg fun h => by simp [hdenied] at h
      all_goals rfl
    rw [hnone]
    exact effect.instret_eq
  | @csrReg op rd rs1 csr hallowed => exact csrAccess_instret hallowed bus rd _
  | @csrImm op rd zimm csr hallowed => exact csrAccess_instret hallowed bus rd _
  | sbi hpriv => rfl
  | mret => rfl
  | sret hallowed => rfl
  | wait hallowed => exact (s.pollNow bus).park_instret width
  | fence hallowed => exact (s.sfenceVma_effect _).instret_eq

namespace Supervisor

/-- The value that the next step writes to the counter. -/
def stepInstret (s : Supervisor) (bus : β) : Option U64 :=
  (s.stepInstr bus).bind (s.pollDevices bus).instrInstret

theorem instrInstret_congr {s s' : Supervisor} (hcpu : s'.cpu = s.cpu)
    (hpriv : s'.privLevel = s.privLevel) (hmstatus : s'.mstatus = s.mstatus)
    (hinstret : s'.instret = s.instret) (instr : Instr) :
    s'.instrInstret instr = s.instrInstret instr := by
  have hminstret : s'.minstret = s.minstret := congrArg Instret.minstret hinstret
  have hcsr : ∀ csr src val op, s'.csrInstret csr src val op = s.csrInstret csr src val op := by
    intro csr src val op
    have hdenied : s'.csrDenied csr op src = s.csrDenied csr op src := by
      simp only [csrDenied, hpriv, hmstatus]
    rw [csrInstret, csrInstret, hdenied, hminstret]
  cases instr
  case csrReg op rd rs1 csr =>
    simp only [instrInstret, hcsr, hcpu]
  case csrImm op rd zimm csr =>
    simp only [instrInstret, hcsr]
  all_goals rfl

theorem pollDevices_instret (bus : β) : (s.pollDevices bus).instret = s.instret :=
  ite_keep instret rfl rfl

omit [Bus β] in
theorem deliver_instret (status : Status) (bus : β) :
    (s.deliver status bus).2.1.instret = s.instret := by
  rcases s.deliver_cases status bus with ⟨trap, hout⟩ | hout
  · rw [hout]
    exact s.takeTrapWithVaddr_instret trap none
  · rw [hout]

end Supervisor

section

variable [FloatOps]

theorem Supervisor.finishStep_instret (instr : Instr) (width : U64) (bus : β) :
    (s.finishStep instr width bus).2.1.instret = (s.instret.put (s.instrInstret instr)).retire := by
  have hflushed := s.flushedFor_effect instr
  have houtcome := (s.flushedFor instr).executeSupervisor_outcome instr width bus
  have hsame := instrInstret_congr hflushed.cpu_eq hflushed.privLevel_eq
    hflushed.mstatus_eq hflushed.instret_eq instr
  refine (deliver_instret _ _ _).trans ?_
  rw [← hsame, ← hflushed.instret_eq, ← houtcome.instret_eq]
  rfl

/-- A step that executes no instruction leaves the counter alone. -/
theorem Supervisor.step_instret_none {s : Supervisor} {bus : β} (h : s.stepInstr bus = none) :
    (s.step bus).2.1.instret = s.instret := by
  rcases s.step_cases bus with ⟨-, s', trap, vaddr, hfetch, hstep⟩ |
    ⟨instr, width, s', bus', hinstr, hfetch, hstep⟩
  · rw [hstep, takeTrapWithVaddr_instret, hfetch.cacheEffect.instret_eq, s.pollDevices_instret]
  · cases h.symm.trans hinstr

theorem Supervisor.step_instret_some {s : Supervisor} {bus : β} {instr : Instr}
    (h : s.stepInstr bus = some instr) :
    (s.step bus).2.1.instret = (s.instret.put (s.stepInstret bus)).retire := by
  rcases s.step_cases bus with ⟨hnone, -⟩ | ⟨instr', width, s', bus', hinstr, hfetch, hstep⟩
  · cases h.symm.trans hnone
  have heffect := hfetch.cacheEffect
  have hsame := instrInstret_congr heffect.cpu_eq heffect.privLevel_eq
    heffect.mstatus_eq heffect.instret_eq instr'
  rw [hstep, finishStep_instret, hsame, heffect.instret_eq, s.pollDevices_instret,
    stepInstret, hinstr, Option.bind_some]

end

/-- The value that an act of compiled code writes to the counter. -/
def Machine.actInstret (m : Machine β) : Act β → Option U64
  | .csr csr _ src val op _ => m.cpu.csrInstret csr src val op
  | _ => none

omit [Bus β] in
theorem Machine.drainFlush_instret : m.drainFlush.cpu.instret = m.cpu.instret := by
  unfold drainFlush
  split
  · rfl
  · dsimp only
    split <;> rfl

omit [Bus β] in
theorem Machine.syncIcache_instret : m.syncIcache.cpu.instret = m.cpu.instret :=
  ite_keep (fun m' : Machine β => m'.cpu.instret) rfl rfl

theorem CsrService.instret_eq {m m' : Machine β} {csr : Csr} {rd src : Reg}
    {val : U64} {op : CsrOp} (hservice : CsrService m csr rd src val op m') :
    m'.cpu.instret = m.cpu.instret.put (m.cpu.csrInstret csr src val op) := by
  cases hservice with
  | denied pc hdenied =>
    rw [csrInstret, if_neg fun h => by simp [hdenied] at h]
    rfl
  | interrupted pc mip hallowed | done mip hallowed =>
    rw [← csrAccess_instret hallowed m.bus rd val]
    rfl

namespace Machine

theorem enter_instret : m.enter.cpu.instret = m.cpu.instret := by
  have heffect := (m.jit.lookup_effect m.cpu m.bus).cacheEffect
  unfold enter
  rcases hres : m.jit.lookup m.cpu m.bus with ⟨_ | hit, jit, s, bus⟩ <;>
    rw [hres] at heffect <;> exact heffect.instret_eq

theorem hop_instret (pc : U64) : (m.hop pc).cpu.instret = m.cpu.instret := by
  have heffect := ((m.landAt pc).jit.lookup_effect (m.landAt pc).cpu (m.landAt pc).bus).cacheEffect
  unfold hop
  dsimp only
  rcases hres : (m.landAt pc).jit.lookup (m.landAt pc).cpu (m.landAt pc).bus with
    ⟨_ | hit, jit, s, bus⟩ <;> rw [hres] at heffect <;> exact heffect.instret_eq

theorem interpret_instret [FloatOps] : m.interpret.cpu.instret = (m.cpu.step m.bus).2.1.instret :=
  ite_keep instret rfl rfl

/-- Acts of compiled code write the counter through CSR instructions only. -/
theorem doAct_instret [FloatOps] (act : Act β) :
    (m.doAct act).cpu.instret = m.cpu.instret.put (m.actInstret act) := by
  cases act with
  | regs x f | device effect => rfl
  | load width addr pc => exact (m.jitLoad_effect width addr pc).1.instret_eq
  | store width addr val pc => exact (m.jitStore_effect width addr val pc).1.instret_eq
  | inlineStore width addr val =>
    change (m.inlineStore width addr val).cpu.instret = _
    rw [m.inlineStore_eq width addr val]
    rfl
  | csr csr rd src val op pc => exact (m.jitCsr_service csr rd src val op pc).instret_eq
  | fp call pc => exact (m.jitFp_effect call pc).1.instret_eq
  | hop pc => exact m.hop_instret pc

/-- What is neither the interpreter nor compiled code leaves the counter alone. -/
theorem perform_instret [FloatOps] {event : Event β} (hinterpret : event ≠ .interpret)
    (hact : ∀ act, event ≠ .act act) : (m.perform event).cpu.instret = m.cpu.instret := by
  have hkeep := fun (c : Prop) [Decidable c] (yes no : Machine β)
      (hyes : yes.cpu.instret = m.cpu.instret) (hno : no.cpu.instret = m.cpu.instret) =>
    iteInduction (c := c) (motive := fun m' : Machine β => m'.cpu.instret = m.cpu.instret)
      (fun _ => hyes) (fun _ => hno)
  cases event with
  | service tick =>
    exact (syncIcache_instret _).trans (drainFlush_instret _)
  | choose => exact hkeep _ _ _ (hkeep _ _ _ rfl rfl) rfl
  | enter => exact m.enter_instret
  | interpret => exact absurd rfl hinterpret
  | act act => exact absurd rfl (hact act)
  | leave pc => exact hkeep _ _ _ rfl rfl
  | build ok => exact hkeep _ _ _ rfl rfl
  | installed tableBase => exact hkeep _ _ _ rfl rfl
  | discard | enable on => rfl

end Machine

/-- An input of a run: an event, or the mark that compiled code has completed an
instruction. -/
inductive TierInput (β : Type u) where
  | event (event : Event β)
  | committed

def Status.isTrap : Status → Bool
  | .trap _ => true
  | _ => false

section

variable [FloatOps]

def Machine.take (m : Machine β) : TierInput β → Machine β
  | .event event => m.exec event
  | .committed => m

/-- The next step executes an instruction, and it does not trap. -/
def Supervisor.completes (s : Supervisor) (bus : β) : Bool :=
  (s.stepInstr bus).isSome && !(s.step bus).1.isTrap

namespace Machine

/-- The instructions that an input completes, in either tier. -/
def completed (m : Machine β) : TierInput β → Nat
  | .event .interpret => if m.phase = .interp && m.cpu.completes m.bus then 1 else 0
  | .event _ => 0
  | .committed => if m.phase = .compiled then 1 else 0

def completions : Machine β → List (TierInput β) → Nat
  | _, [] => 0
  | m, input :: inputs => m.completed input + (m.take input).completions inputs

/-- The value that an input writes to the counter. -/
def writesInstret (m : Machine β) : TierInput β → Option U64
  | .event .interpret => if m.phase = .interp then m.cpu.stepInstret m.bus else none
  | .event (.act act) => if m.allows (.act act) then m.actInstret act else none
  | _ => none

/-- An instruction that is executed does not trap; compiled code completes no instruction
and does not write the counter. -/
def countsExactly (m : Machine β) : TierInput β → Bool
  | .event .interpret =>
      m.phase ≠ .interp || (m.cpu.stepInstr m.bus).isNone || m.cpu.completes m.bus
  | .event (.act act) => !m.allows (.act act) || (m.actInstret act).isNone
  | .event _ => true
  | .committed => m.phase ≠ .compiled

/-- Reads see what was written just before them. -/
def SeesWrites (m : Machine β) (inputs : List (TierInput β)) : Prop :=
  ∀ before input after val bus, inputs = before ++ input :: after →
    (run take m before).writesInstret input = some val →
    ((run take m before).take input).cpu.csrRead (bus : β) 0xB02 = val

/-- Between two reads without a write the counter grows by the instructions that
completed. -/
def GrowsByCompletions (m : Machine β) (inputs : List (TierInput β)) : Prop :=
  ∀ before between after, inputs = before ++ (between ++ after) →
    Along take (fun m input => m.writesInstret input = none)
      (run take m before) between →
    (run take m (before ++ between)).cpu.minstret =
      (run take m before).cpu.minstret +
        BitVec.ofNat 64 ((run take m before).completions between)

variable {input : TierInput β}

theorem take_written {m : Machine β} {val : U64}
    (h : m.writesInstret input = some val) : (m.take input).cpu.minstret = val := by
  suffices hinstret : ∃ flag, (m.take input).cpu.instret = ⟨val, flag⟩ by
    obtain ⟨flag, hinstret⟩ := hinstret
    exact congrArg Instret.minstret hinstret
  cases input with
  | committed => cases h
  | event event =>
    cases event with
    | interpret =>
      unfold writesInstret at h
      dsimp only at h
      split at h
      · rename_i hphase
        have hallows : m.allows .interpret = true := by
          simpa [allows] using hphase
        cases hinstr : m.cpu.stepInstr m.bus with
        | none =>
          rw [stepInstret, hinstr] at h
          cases h
        | some instr =>
          refine ⟨false, ?_⟩
          rw [take, exec, if_pos hallows, perform,
            m.interpret_instret, step_instret_some hinstr, h]
          rfl
      · cases h
    | act act =>
      unfold writesInstret at h
      dsimp only at h
      split at h
      · rename_i hallows
        refine ⟨true, ?_⟩
        rw [take, exec, if_pos hallows, perform, m.doAct_instret, h]
        rfl
      · cases h
    | service _ | choose | enter | leave _ | build _ | installed _ | discard | enable _ =>
      cases h

theorem exec_of_not_allowed {m : Machine β} {event : Event β}
    (h : m.allows event = false) : m.exec event = m :=
  if_neg (by rw [h]; decide)

/-- The interpreter's turn, found without the flag. -/
theorem take_interpret {m : Machine β} (hflag : m.cpu.wroteMinstret = false)
    (hexact : m.countsExactly (.event .interpret) = true)
    (hwrites : m.writesInstret (.event .interpret) = none) :
    (m.take (.event .interpret)).cpu.instret =
      ⟨m.cpu.minstret + BitVec.ofNat 64 (m.completed (.event .interpret)), false⟩ := by
  have hinstret : m.cpu.instret = ⟨m.cpu.minstret, false⟩ := by
    rw [← hflag]
    rfl
  unfold completed
  by_cases hphase : m.phase = .interp
  · have hallows : m.allows .interpret = true := by simpa [allows] using hphase
    have hstep : m.cpu.stepInstret m.bus = none := by
      simpa [writesInstret, hphase] using hwrites
    rw [take, exec, if_pos hallows, perform, m.interpret_instret]
    cases hinstr : m.cpu.stepInstr m.bus with
    | none =>
      have hincomplete : m.cpu.completes m.bus = false := by
        simp [completes, hinstr]
      rw [step_instret_none hinstr, hincomplete, Bool.and_false, hinstret]
      simp
    | some instr =>
      have hcompletes : m.cpu.completes m.bus = true := by
        simpa [countsExactly, hphase, hinstr] using hexact
      rw [step_instret_some hinstr, hstep, hcompletes, hinstret]
      simp [hphase, Instret.put, Instret.retire]
  · have hallows : m.allows .interpret = false := by simpa [allows] using hphase
    rw [take, exec_of_not_allowed hallows, hinstret]
    simp [hphase]

/-- An input that counts exactly and writes nothing, found without the flag. -/
theorem take_instret {m : Machine β}
    (hflag : m.cpu.wroteMinstret = false) (hexact : m.countsExactly input = true)
    (hwrites : m.writesInstret input = none) :
    (m.take input).cpu.instret = ⟨m.cpu.minstret + BitVec.ofNat 64 (m.completed input), false⟩ := by
  have hkept : m.cpu.instret = ⟨m.cpu.minstret + BitVec.ofNat 64 0, false⟩ := by
    rw [BitVec.add_zero, ← hflag]
    rfl
  have hevent : ∀ event, event ≠ .interpret → (∀ act, event ≠ .act act) →
      (m.take (.event event)).cpu.instret = m.cpu.instret := by
    intro event hinterpret hact
    cases hallows : m.allows event with
    | false => rw [take, exec_of_not_allowed hallows]
    | true =>
      rw [take, exec, if_pos hallows]
      exact m.perform_instret hinterpret hact
  cases input with
  | committed =>
    have hphase : m.phase ≠ .compiled := by simpa [countsExactly] using hexact
    rw [completed, if_neg hphase]
    exact hkept
  | event event =>
    cases event with
    | interpret => exact take_interpret hflag hexact hwrites
    | act act =>
      refine Eq.trans ?_ hkept
      cases hallows : m.allows (.act act) with
      | false => rw [take, exec_of_not_allowed hallows]
      | true =>
        have hnone : m.actInstret act = none := by
          simpa [writesInstret, hallows] using hwrites
        rw [take, exec, if_pos hallows, perform, m.doAct_instret, hnone]
        rfl
    | service _ | choose | enter | leave _ | build _ | installed _ | discard | enable _ =>
      exact Eq.trans (hevent _ (by nofun) (by nofun)) hkept

/-- The flag does not outlive the interpreter's instruction. -/
theorem take_flag {m : Machine β}
    (hflag : m.cpu.wroteMinstret = false) (hexact : m.countsExactly input = true) :
    (m.take input).cpu.wroteMinstret = false := by
  cases hwrites : m.writesInstret input with
  | none => exact congrArg Instret.wroteMinstret (take_instret hflag hexact hwrites)
  | some val =>
    cases input with
    | committed => cases hwrites
    | event event =>
      cases event with
      | interpret =>
        cases hinstr : m.cpu.stepInstr m.bus with
        | none => simp [writesInstret, stepInstret, hinstr] at hwrites
        | some instr =>
          have hphase : m.phase = .interp := by
            by_contra hphase
            simp [writesInstret, hphase] at hwrites
          have hallows : m.allows .interpret = true := by
            simpa [allows] using hphase
          have hinstret := step_instret_some hinstr
          rw [← m.interpret_instret] at hinstret
          rw [take, exec, if_pos hallows]
          exact congrArg Instret.wroteMinstret hinstret
      | act act =>
        have hnone : ¬ m.allows (.act act) = true ∨ m.actInstret act = none := by
          simpa [countsExactly] using hexact
        rcases hnone with hdenied | hnone
        · simp [writesInstret, hdenied] at hwrites
        · simp [writesInstret, hnone] at hwrites
      | service _ | choose | enter | leave _ | build _ | installed _ | discard | enable _ =>
        cases hwrites

theorem seesWrites (inputs : List (TierInput β)) : m.SeesWrites inputs := by
  intro before input after val bus _ hwrites
  rw [(csrRead_minstret _ bus).1]
  exact take_written hwrites

theorem minstret_completions {m : Machine β} {inputs : List (TierInput β)}
    (hflag : m.cpu.wroteMinstret = false)
    (hexact : Along take (fun m input => m.countsExactly input = true) m inputs)
    (hwrites : Along take (fun m input => m.writesInstret input = none) m inputs) :
    (run take m inputs).cpu.minstret =
      m.cpu.minstret + BitVec.ofNat 64 (m.completions inputs) := by
  induction inputs generalizing m with
  | nil => exact (BitVec.add_zero _).symm
  | cons input inputs ih =>
    obtain ⟨hnow, hrest⟩ := hexact
    obtain ⟨hquiet, hquiets⟩ := hwrites
    have hinstret := take_instret hflag hnow hquiet
    have hminstret : (m.take input).cpu.minstret =
        m.cpu.minstret + BitVec.ofNat 64 (m.completed input) :=
      congrArg Instret.minstret hinstret
    have hflag' : (m.take input).cpu.wroteMinstret = false :=
      congrArg Instret.wroteMinstret hinstret
    change (run take (m.take input) inputs).cpu.minstret = _
    rw [ih hflag' hrest hquiets, hminstret, completions, BitVec.ofNat_add, BitVec.add_assoc]

end Machine

/-- A read sees the last write.  Between writes the counter is exact in every run in which
no executed instruction traps and no instruction completes in compiled code. -/
theorem instret_counts_completions (m : Machine β) (hflag : m.cpu.wroteMinstret = false)
    (inputs : List (TierInput β)) :
    m.SeesWrites inputs ∧
      (Along Machine.take (fun m input => m.countsExactly input = true) m inputs →
        m.GrowsByCompletions inputs) := by
  refine ⟨m.seesWrites inputs, ?_⟩
  rintro hexact before between after rfl hwrites
  obtain ⟨hbefore, hrest⟩ := along_append.mp hexact
  obtain ⟨hbetween, -⟩ := along_append.mp hrest
  have hstep : ∀ (m : Machine β) (input : TierInput β), m.cpu.wroteMinstret = false →
      m.countsExactly input = true → (m.take input).cpu.wroteMinstret = false :=
    fun _ _ => Machine.take_flag
  have hflag' := Along.invariant hstep hflag hbefore
  rw [run_append]
  exact Machine.minstret_completions hflag' hbetween hwrites

end

end

/-- A machine in machine mode at the code at 0x100. -/
def machineAt (words : List U32) : Machine Ram :=
  Machine.new (new 0x100 0) (fun addr => Ram.ofWords words (addr - 0x100)) loopWindow

def rounds (n : Nat) : List (TierInput Ram) := (List.replicate n (interpRound.map .event)).flatten

/-- `csrw minstret, x0; addi x1, x1, 1; csrr x2, minstret` in the interpreter. -/
theorem instret_counts_completions_written :
    letI := FloatOps.zero
    (machineAt [0xB0201073, 0x00108093, 0xB0202173]).SeesWrites (rounds 3) ∧
      (machineAt [0xB0201073, 0x00108093, 0xB0202173]).GrowsByCompletions (rounds 3) :=
  have hcounts := @instret_counts_completions Ram _ FloatOps.zero
    (machineAt [0xB0201073, 0x00108093, 0xB0202173]) rfl (rounds 3)
  ⟨hcounts.1, hcounts.2 (by decide +kernel)⟩

/-- The loop in machine mode, about to run as a block, with a `nop` behind it. -/
def compiledLoop : Machine Ram :=
  letI := FloatOps.zero
  run Machine.exec
    (Machine.new { loopCpu with privLevel := .machine } (loopRam [0x13]) loopWindow) warmLoop

/-- The counter and the instructions completed after a run. -/
def Machine.counted (m : Machine Ram) (inputs : List (TierInput Ram)) : U64 × Nat :=
  letI := FloatOps.zero
  ((run take m inputs).cpu.minstret, m.completions inputs)

/-- An `ecall` that traps is counted, two instructions of a block are not, and after a block
has written 5 to the counter the interpreter's next instruction is not. -/
theorem minstret_miscounts :
    (machineAt [0x73]).counted (rounds 1) = (1, 0) ∧
      compiledLoop.phase = .compiled ∧
      compiledLoop.counted [.committed, .committed] = (compiledLoop.cpu.minstret, 2) ∧
      compiledLoop.counted [.event (.act (.csr 0xB02 0 1 5 .rw 0x100)), .committed] = (5, 1) ∧
      compiledLoop.counted ([.event (.act (.csr 0xB02 0 1 5 .rw 0x100)), .committed,
        .event (.leave 0x108)] ++ rounds 1) = (5, 2) := by
  decide +kernel

end TabLinux
