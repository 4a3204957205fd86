/-
Which interrupt is taken and where it lands.

The privileged ISA fixes a priority between interrupt sources: those destined for
machine mode first, and within one destination MEI, MSI, MTI, SEI, SSI, STI.  The
emulator looks at the delegated sources first and in an order of its own, and it
decides a second time, when it delivers the trap, which mode the trap goes to.
-/
import TabLinux.Trap

namespace TabLinux

open Interrupt

variable {s : Supervisor} {i j : Interrupt}

/-- The architectural priority of the sources, highest first. -/
def Interrupt.byPriority : List Interrupt :=
  [.machineExternal, .machineSoftware, .machineTimer,
    .supervisorExternal, .supervisorSoftware, .supervisorTimer]

/-- A delegated machine timer interrupt is reported as the supervisor's. -/
def Interrupt.reportedInS : Interrupt → Interrupt
  | .machineTimer => .supervisorTimer
  | i => i

/-- Does a source lead to a reported cause? -/
def Interrupt.MapsTo (source cause : Interrupt) : Prop :=
  source = cause ∨ source = .machineTimer ∧ cause = .supervisorTimer

namespace Supervisor

section

variable (s : Supervisor)

/-- Pending and enabled, whatever the destination. -/
def raised (i : Interrupt) : Bool :=
  (s.mip &&& s.mie).getLsbD i.code.toNat

def delegated (i : Interrupt) : Bool :=
  s.mideleg.getLsbD i.code.toNat

/-- Interrupts destined for machine mode are taken below it, or in it with MIE. -/
def mEnabled : Bool :=
  s.privLevel ≠ .machine || s.mstatus.mie

/-- Delegated interrupts are taken in user mode, or in supervisor mode with SIE. -/
def sEnabled : Bool :=
  s.privLevel = .user || (s.privLevel = .supervisor && s.mstatus.sie)

def deliverableInM (i : Interrupt) : Bool :=
  s.mEnabled && (s.raised i && !s.delegated i)

def deliverableInS (i : Interrupt) : Bool :=
  s.sEnabled && (s.raised i && s.delegated i)

/-- What the privileged ISA takes next. -/
def nextInterrupt : Option Interrupt :=
  (byPriority.find? s.deliverableInM).or
    ((byPriority.find? s.deliverableInS).map reportedInS)

end

theorem not_deliverableInM_of_S (h : s.deliverableInS i = true) : s.deliverableInM i = false := by
  simp only [deliverableInS, Bool.and_eq_true] at h
  simp [deliverableInM, h.2.2]

theorem sEnabled_below_machine (h : s.sEnabled = true) : s.privLevel ≠ .machine := by
  intro hmachine
  simp [sEnabled, hmachine] at h

/-- The sources that the emulator serves in supervisor mode, in its order. -/
def servedInS : List Interrupt :=
  [.machineTimer, .supervisorTimer, .supervisorSoftware, .supervisorExternal]

theorem find?_map_or {α γ : Type} (p : α → Bool) (f : α → γ) (a : α) (l : List α)
    (rest : Option γ) :
    (((a :: l).find? p).map f).or rest =
      if p a then some (f a) else ((l.find? p).map f).or rest := by
  cases h : p a <;> simp [List.find?, h]

/-- `checkInterrupts` is two searches: the delegated sources it serves, then the
sources left to machine mode in the architectural order. -/
theorem checkInterrupts_eq (s : Supervisor) :
    s.checkInterrupts =
      ((servedInS.find? s.deliverableInS).map (Trap.interrupt ∘ reportedInS)).or
        (((byPriority.find? s.deliverableInM).map Trap.interrupt).or none) := by
  have hguard : (s.sEnabled && decide (s.privLevel ≠ .machine)) = s.sEnabled := by
    cases hs : s.sEnabled with
    | false => rfl
    | true => simp [sEnabled_below_machine hs]
  have hS : ∀ i : Interrupt, s.deliverableInS i =
      (s.sEnabled && (s.mip &&& s.mie &&& s.mideleg).getLsbD i.code.toNat) := by
    intro i
    simp [deliverableInS, raised, delegated]
  have hM : ∀ i : Interrupt, s.deliverableInM i =
      (s.mEnabled && (s.mip &&& s.mie &&& ~~~ s.mideleg).getLsbD i.code.toNat) := by
    intro i
    cases i <;> simp [deliverableInM, raised, delegated, code]
  unfold checkInterrupts
  simp only [← sEnabled.eq_1, ← mEnabled.eq_1, hguard]
  by_cases hpending : s.mip &&& s.mie = 0
  · have hnone : ∀ i, s.raised i = false := fun i => by simp [raised, hpending]
    simp [hpending, servedInS, byPriority, deliverableInS, deliverableInM, hnone]
  rw [if_neg hpending]
  simp only [servedInS, byPriority, find?_map_or, hS, hM]
  rfl

theorem mem_byPriority (i : Interrupt) : i ∈ byPriority := by
  cases i <;> simp [byPriority]

/-- When the emulator's order agrees with the architecture's.  With something
destined for machine mode, no delegated source it serves may be deliverable, or both
orders must come to the supervisor timer.  Otherwise MEI and MSI must not be
delegated, and of SEI, SSI and STI only one may compete, unless MTI hides them. -/
structure PriorityAgrees (s : Supervisor) : Prop where
  machine : (∃ i, s.deliverableInM i = true) →
    (∀ i ∈ servedInS, s.deliverableInS i = false) ∨
      (s.deliverableInS .machineTimer = true ∧
        byPriority.find? s.deliverableInM = some .supervisorTimer)
  supervisor : (∀ i, s.deliverableInM i = false) →
    s.deliverableInS .machineExternal = false ∧
    s.deliverableInS .machineSoftware = false ∧
    (s.deliverableInS .machineTimer = true ∨
      ¬ (s.deliverableInS .supervisorExternal ∧ s.deliverableInS .supervisorSoftware) ∧
      ¬ (s.deliverableInS .supervisorExternal ∧ s.deliverableInS .supervisorTimer) ∧
      ¬ (s.deliverableInS .supervisorSoftware ∧ s.deliverableInS .supervisorTimer))

/-- A delegated source is reported under the name of an undelegated one only when
the machine timer is reported as the supervisor timer. -/
theorem reportedInS_eq_iff (hi : s.deliverableInM i = true) (hj : s.deliverableInS j = true) :
    j.reportedInS = i ↔ j = .machineTimer ∧ i = .supervisorTimer := by
  constructor
  · intro h
    by_cases hmti : j = .machineTimer
    · subst hmti
      exact ⟨rfl, h.symm⟩
    have hji : j = i := by
      cases j <;> simp_all [reportedInS]
    rw [hji] at hj
    rw [not_deliverableInM_of_S hj] at hi
    cases hi
  · rintro ⟨rfl, rfl⟩
    rfl

theorem machineTimer_of_find_served (hj : servedInS.find? s.deliverableInS = some j) :
    j = .machineTimer ↔ s.deliverableInS .machineTimer = true := by
  constructor
  · rintro rfl
    exact List.find?_some hj
  · intro hmti
    simpa [servedInS, List.find?, hmti, eq_comm] using hj

/-- With nothing left to machine mode the two orders differ on delegated sources
only. -/
theorem served_eq_byPriority_iff (d : Interrupt → Bool) :
    (servedInS.find? d).map reportedInS =
        (byPriority.find? d).map reportedInS ↔
      d .machineExternal = false ∧ d .machineSoftware = false ∧
      (d .machineTimer = true ∨
        ¬ (d .supervisorExternal ∧ d .supervisorSoftware) ∧
        ¬ (d .supervisorExternal ∧ d .supervisorTimer) ∧
        ¬ (d .supervisorSoftware ∧ d .supervisorTimer)) := by
  cases h11 : d .machineExternal <;> cases h3 : d .machineSoftware <;>
  cases h7 : d .machineTimer <;> cases h9 : d .supervisorExternal <;>
  cases h1 : d .supervisorSoftware <;> cases h5 : d .supervisorTimer <;>
    simp [servedInS, byPriority, reportedInS, h11, h3, h7, h9, h1, h5]

/-- The emulator takes the interrupt that the architecture takes in exactly the
states of `PriorityAgrees`. -/
theorem checkInterrupts_eq_nextInterrupt_iff (s : Supervisor) :
    s.checkInterrupts = s.nextInterrupt.map Trap.interrupt ↔ s.PriorityAgrees := by
  rw [checkInterrupts_eq, nextInterrupt, Option.or_none, ← Option.map_map, ← Option.map_or,
    (Option.map_injective (fun _ _ => Trap.interrupt.inj)).eq_iff]
  cases hM : byPriority.find? s.deliverableInM with
  | none =>
    have hnone : ∀ i, s.deliverableInM i = false := by
      intro i
      simpa using List.find?_eq_none.mp hM i (mem_byPriority i)
    rw [Option.or_none, Option.none_or, served_eq_byPriority_iff]
    constructor
    · intro h
      refine ⟨?_, fun _ => h⟩
      rintro ⟨i, hi⟩
      rw [hnone i] at hi
      cases hi
    · intro h
      exact h.supervisor hnone
  | some i =>
    have hi : s.deliverableInM i = true := List.find?_some hM
    rw [Option.some_or]
    have hvacuous : ¬ ∀ i, s.deliverableInM i = false := by
      intro h
      rw [h i] at hi
      cases hi
    cases hS : servedInS.find? s.deliverableInS with
    | none =>
      have hunserved : ∀ j ∈ servedInS, s.deliverableInS j = false := by
        intro j hj
        simpa using List.find?_eq_none.mp hS j hj
      simp only [Option.map_none, Option.none_or, true_iff]
      exact ⟨fun _ => .inl hunserved, fun h => absurd h hvacuous⟩
    | some j =>
      have hj : s.deliverableInS j = true := List.find?_some hS
      simp only [Option.map_some, Option.some_or, Option.some.injEq]
      rw [reportedInS_eq_iff hi hj, machineTimer_of_find_served hS]
      constructor
      · rintro ⟨hmti, rfl⟩
        exact ⟨fun _ => .inr ⟨hmti, hM⟩, fun h => absurd h hvacuous⟩
      intro h
      rcases h.machine ⟨i, hi⟩ with hunserved | ⟨hmti, hsti⟩
      · rw [hunserved j (List.mem_of_find?_eq_some hS)] at hj
        cases hj
      · rw [hM] at hsti
        exact ⟨hmti, Option.some.inj hsti⟩

/-- The external and the timer interrupt of the supervisor wait together, both
delegated as they are after reset. -/
def timerAndExternal : Supervisor :=
  { new 0 0 with privLevel := .user, mip := 0x220, mie := 0x220 }

theorem timer_taken_before_external :
    timerAndExternal.nextInterrupt = some .supervisorExternal ∧
      timerAndExternal.checkInterrupts = some (.interrupt .supervisorTimer) := by
  decide

/-- The mode a taken interrupt lands in is one it may land in. -/
def LandsRight (s : Supervisor) : Prop :=
  ∀ trap, s.checkInterrupts = some trap →
    ∃ cause, trap = .interrupt cause ∧
      ((s.takeTrap trap).2.privLevel = .supervisor →
        (∃ source, source.MapsTo cause ∧ s.raised source = true ∧
          s.delegated source = true) ∧
        (s.privLevel = .user ∨ s.privLevel = .supervisor ∧ s.mstatus.sie = true)) ∧
      ((s.takeTrap trap).2.privLevel = .machine →
        s.raised cause = true ∧ s.delegated cause = false ∧
        (s.privLevel ≠ .machine ∨ s.mstatus.mie = true))

/-- The one combination in which delivery overrules the selection: the supervisor
timer is not delegated but the machine timer is, and no delegated machine timer
interrupt is there to justify the supervisor's handler. -/
structure TimerMisdelivered (s : Supervisor) : Prop where
  taken : s.checkInterrupts = some (.interrupt .supervisorTimer)
  below : s.privLevel ≠ .machine
  undelegated : s.delegated .supervisorTimer = false
  machineTimer : s.delegated .machineTimer = true
  unjustified : s.deliverableInS .machineTimer = false

theorem takeTrap_privLevel (s : Supervisor) (trap : Trap) :
    (s.takeTrap trap).2.privLevel =
      if s.delegates trap = true ∧ s.privLevel ≠ .machine then .supervisor
      else .machine := by
  unfold takeTrap takeTrapWithVaddr
  cases hpriv : s.privLevel <;> cases s.delegates trap <;> rfl

/-- Delivery agrees with the selection on a delegated source the emulator serves. -/
theorem delegates_reportedInS (hserved : j ∈ servedInS) (hj : s.delegated j = true) :
    s.delegates (.interrupt j.reportedInS) = true := by
  simp only [servedInS, List.mem_cons, List.not_mem_nil, or_false] at hserved
  rcases hserved with rfl | rfl | rfl | rfl <;>
    simp_all [delegates, delegated, reportedInS, code]

/-- On an undelegated source only the fold of the machine timer can disagree. -/
theorem delegates_undelegated (hi : s.delegated i = false) :
    s.delegates (.interrupt i) = true ↔
      i = .supervisorTimer ∧ s.delegated .machineTimer = true := by
  cases i <;> simp_all [delegates, delegated, code]

theorem sEnabled_iff (s : Supervisor) :
    s.sEnabled = true ↔ s.privLevel = .user ∨ s.privLevel = .supervisor ∧ s.mstatus.sie = true := by
  simp [sEnabled]

theorem mEnabled_iff (s : Supervisor) :
    s.mEnabled = true ↔ s.privLevel ≠ .machine ∨ s.mstatus.mie = true := by
  simp [mEnabled]

/-- A trap taken for a delegated source lands in supervisor mode, and rightly. -/
theorem landsRight_of_served (hj : servedInS.find? s.deliverableInS = some j) : s.LandsRight := by
  have hdeliver : s.deliverableInS j = true := List.find?_some hj
  simp only [deliverableInS, Bool.and_eq_true] at hdeliver
  obtain ⟨henabled, hraised, hdelegated⟩ := hdeliver
  intro trap htrap
  have htaken : trap = .interrupt j.reportedInS := by
    simpa [checkInterrupts_eq, hj, eq_comm] using htrap
  subst htaken
  have hlands : (s.takeTrap (.interrupt j.reportedInS)).2.privLevel = .supervisor := by
    rw [takeTrap_privLevel, if_pos]
    exact ⟨delegates_reportedInS (List.mem_of_find?_eq_some hj) hdelegated,
      sEnabled_below_machine henabled⟩
  refine ⟨j.reportedInS, rfl, ?_, ?_⟩
  · intro _
    refine ⟨⟨j, ?_, hraised, hdelegated⟩, (sEnabled_iff s).mp henabled⟩
    cases j <;> simp [Interrupt.MapsTo, reportedInS]
  · intro hmachine
    rw [hlands] at hmachine
    cases hmachine

theorem not_timerMisdelivered_of_served (hj : servedInS.find? s.deliverableInS = some j) :
    ¬ s.TimerMisdelivered := by
  intro hmis
  have hdeliver : s.deliverableInS j = true := List.find?_some hj
  have hreported : j.reportedInS = .supervisorTimer := by
    simpa [checkInterrupts_eq, hj] using hmis.taken
  have hcases : j = .machineTimer ∨ j = .supervisorTimer := by
    cases j <;> simp_all [reportedInS]
  rcases hcases with rfl | rfl
  · rw [hmis.unjustified] at hdeliver
    cases hdeliver
  · simp [deliverableInS, hmis.undelegated] at hdeliver

/-- A taken interrupt lands in a mode it may land in, except in the states of
`TimerMisdelivered`. -/
theorem landsRight_iff (s : Supervisor) : s.LandsRight ↔ ¬ s.TimerMisdelivered := by
  cases hS : servedInS.find? s.deliverableInS with
  | some j =>
    exact ⟨fun _ => not_timerMisdelivered_of_served hS, fun _ => landsRight_of_served hS⟩
  | none =>
    have hmti : s.deliverableInS .machineTimer = false := by
      simpa using List.find?_eq_none.mp hS .machineTimer (by simp [servedInS])
    have htaken : s.checkInterrupts =
        (byPriority.find? s.deliverableInM).map Trap.interrupt := by
      simp [checkInterrupts_eq, hS]
    constructor
    · intro hright hmis
      obtain ⟨cause, hcause, hin, -⟩ := hright _ hmis.taken
      cases hcause
      have hlands : (s.takeTrap (.interrupt .supervisorTimer)).2.privLevel = .supervisor := by
        rw [takeTrap_privLevel, if_pos]
        exact ⟨(delegates_undelegated hmis.undelegated).mpr ⟨rfl, hmis.machineTimer⟩, hmis.below⟩
      obtain ⟨⟨source, hmaps, hraised, hdelegated⟩, henabled⟩ := hin hlands
      rcases hmaps with rfl | ⟨rfl, -⟩
      · rw [hmis.undelegated] at hdelegated
        cases hdelegated
      · simp [deliverableInS, (sEnabled_iff s).mpr henabled, hraised, hdelegated] at hmti
    · intro hmis trap htrap
      rw [htaken, Option.map_eq_some_iff] at htrap
      obtain ⟨i, hi, rfl⟩ := htrap
      have hdeliver : s.deliverableInM i = true := List.find?_some hi
      simp only [deliverableInM, Bool.and_eq_true, Bool.not_eq_true'] at hdeliver
      obtain ⟨henabled, hraised, hundelegated⟩ := hdeliver
      refine ⟨i, rfl, ?_, fun _ => ⟨hraised, hundelegated, (mEnabled_iff s).mp henabled⟩⟩
      -- landing in supervisor mode here would be the misdelivery
      intro hlands
      rw [takeTrap_privLevel] at hlands
      split at hlands
      · rename_i h
        obtain ⟨rfl, hfold⟩ := (delegates_undelegated hundelegated).mp h.1
        refine absurd ⟨?_, h.2, hundelegated, hfold, hmti⟩ hmis
        rw [htaken, hi]
        rfl
      · cases hlands

/-- The supervisor timer is left to machine mode, the machine timer is delegated, and
supervisor mode has its interrupts disabled. -/
def foldedTimer : Supervisor :=
  { new 0 0 with
    privLevel := .supervisor, mip := 0x20, mie := 0x20, mideleg := 0x80 }

/-- The interrupt is selected for machine mode and delivered to supervisor mode,
with SIE clear. -/
theorem masked_timer_lands_in_supervisor :
    foldedTimer.checkInterrupts = some (.interrupt .supervisorTimer) ∧
      (foldedTimer.takeTrap (.interrupt .supervisorTimer)).2.privLevel = .supervisor ∧
      ¬ foldedTimer.LandsRight := by
  refine ⟨by decide, by decide, ?_⟩
  intro hright
  obtain ⟨cause, hcause, hin, -⟩ := hright (.interrupt .supervisorTimer) (by decide)
  have henabled := (hin (by decide)).2
  revert henabled
  decide

end Supervisor

end TabLinux
