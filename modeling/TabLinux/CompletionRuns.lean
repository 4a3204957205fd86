/-
Runs of the virtio transport: every report goes to the ring from which its chain was
taken, unless a queue is reprogrammed or reset under an outstanding chain.
-/
import TabLinux.P9Requests
import TabLinux.Peripherals

namespace TabLinux

open HoldsChains Runs
open Results

/-- A device that completes every chain at once and asks the host for nothing. -/
@[reducible] def HoldsChains.atOnce {δ : Type} [VirtioDevice δ]
    (hdeferred : ∀ dev : δ, VirtioDevice.deferredThis dev = (false, dev))
    (hsupply : ∀ (dev : δ) id payload mem,
      VirtioDevice.supply dev id payload mem = .ok (none, dev, mem))
    (hqueues : ∀ dev dev' : δ, VirtioDevice.numQueues dev = VirtioDevice.numQueues dev') :
    HoldsChains δ where
  held _ := []
  Idle _ := True
  handle_held _ _ _ := by
    rw [hdeferred]
    exact ⟨trivial, 0, rfl⟩
  supply_held _ hcall := by
    rw [hsupply] at hcall
    cases hcall
    exact ⟨trivial, .unknown rfl⟩
  numQueues_handle _ := hqueues _ _
  configWrite_held _ _ _ := ⟨trivial, rfl⟩
  poll_held _ _ := ⟨trivial, rfl⟩
  hasRx_held _ := ⟨trivial, rfl⟩
  fillRx_held _ _ _ := ⟨trivial, rfl⟩

instance : HoldsChains VirtioNet :=
  .atOnce (fun _ => rfl) (fun _ _ _ _ => rfl) fun _ _ => rfl

instance {σ : Type} [BlockBackend σ] : HoldsChains (VirtioBlk σ) :=
  .atOnce (fun _ => rfl) (fun _ _ _ _ => rfl) fun _ _ => rfl

section

variable {δ : Type} [VirtioDevice δ] [HoldsChains δ]

/-- After a panic nothing happens any more. -/
def RingLogged.next (s : Except Panic (RingLogged δ)) (event : TransportEvent) :
    Except Panic (RingLogged δ) :=
  s >>= fun s => s.step event

/-- A condition on the events that a transport meets before it panics. -/
def Alive (cond : RingLogged δ → TransportEvent → Prop) (s : Except Panic (RingLogged δ))
    (event : TransportEvent) : Prop :=
  ∀ state, s = .ok state → cond state event

/-- A chain that the transport takes to receive into is completed on the ring it came
from: nothing changes the rings in between. -/
def VirtioMmio.SafeReceive (m : VirtioMmio δ) : Prop :=
  ∀ queue mem chain m', m.takeAvail queue mem = some (chain, m') →
    ∀ era, m'.ringAt era queue = m.ringAt era queue ∧ (m'.ringAt era queue).num ≠ 0

/-- In a run in which no queue is reprogrammed while it has unreported chains, every
report is safe. -/
theorem run_safeReports (dev : δ) (hidle : Idle dev) (hnone : held dev = [])
    (mem : GuestMem) (events : List TransportEvent)
    (hkeeps : Along RingLogged.next (Alive RingLogged.KeepsRings)
      (.ok (RingLogged.start dev mem)) events) :
    (∀ m : VirtioMmio δ, m.SafeReceive) ∧ Along RingLogged.next (Alive RingLogged.SafeReports)
        (.ok (RingLogged.start dev mem)) events := by
  have hstart : Yields Harmless RingsOk (.ok (RingLogged.start dev mem)) := by
    refine ⟨.nil, ?_, hidle⟩
    change List.Forall₂ _ (held dev) []
    rw [hnone]
    exact .nil
  refine ⟨fun m => ?_, Along.of_invariant ?_ ?_ hstart hkeeps⟩
  · intro queue mem chain m' htake era
    obtain ⟨⟨q, hq, hnum⟩, htaken⟩ := VirtioMmio.takeAvail_eq htake
    refine ⟨htaken ▸ m.ringAt_setQueue fun _ _ _ => ⟨rfl, rfl⟩, ?_⟩
    rw [VirtioMmio.ringAt, hq]
    exact hnum
  · intro s event hok hkeep
    cases s with
    | error panic => exact hok
    | ok s => exact RingsOk.step hok (hkeep s rfl)
  · rintro s event hok hkeep state rfl
    exact RingsOk.safeReports hok (hkeep state rfl)

/-- A check of one event that needs no search: a store to the registers of the rings
finds no outstanding chains. -/
def RingLogged.quiet (s : RingLogged δ) : TransportEvent → Bool
  | .write off val =>
      !(isReset off val || off = 0x038 || off = 0x0a0 || off = 0x0a4) ||
        (s.mmio.pending.isEmpty && (held s.mmio.dev).isEmpty)
  | _ => true

theorem RingLogged.keepsRings_of_quiet {s : RingLogged δ} {event : TransportEvent}
    (hquiet : s.quiet event = true) : s.KeepsRings event := by
  cases event with
  | write off val =>
    intro i hre
    rcases Bool.or_eq_true_iff.mp hquiet with hoff | hnone
    · -- the store is to none of the registers that reprogram a queue
      simp only [Bool.not_eq_true', Bool.or_eq_false_iff, decide_eq_false_iff_not] at hoff
      obtain ⟨⟨⟨hreset, hnum⟩, hlow⟩, hhigh⟩ := hoff
      rcases hre with hre | ⟨-, q, -, ⟨h, -⟩ | ⟨h, -⟩ | ⟨h, -⟩⟩
      · rw [hreset] at hre
        cases hre
      · exact absurd h hnum
      · exact absurd h hlow
      · exact absurd h hhigh
    · simp only [Bool.and_eq_true, List.isEmpty_iff] at hnone
      rintro (⟨c, hc, -⟩ | ⟨chain, hchain, -⟩)
      · rw [hnone.1] at hc
        cases hc
      · rw [hnone.2] at hchain
        cases hchain
  | tick | flushPending | supply | poll | memory => trivial

end

/-- A page of DRAM with one chain available: descriptors at offset 0, the available ring
at 0x100 with index 1, the used ring at 0x200. -/
def oneChainMem : GuestMem := ⟨0x80000000, 0x1000, fun i => if i = 0x102 then 1 else 0⟩

/-- Program queue 0 with one descriptor and notify it. -/
def kickOnce : List TransportEvent :=
  [.write 0x038 1, .write 0x080 0x80000000, .write 0x090 0x80000100,
    .write 0x0a0 0x80000200, .write 0x044 1, .write 0x050 0]

/-- The state before any event: a shared folder without a driver. -/
def idleFolder : RingLogged Virtio9p :=
  RingLogged.start (Virtio9p.newLazy []) oneChainMem

theorem run_safeReports_kickOnce :
    Along RingLogged.next (Alive RingLogged.KeepsRings) (.ok idleFolder)
        (kickOnce ++ [.tick 2000]) ∧
      Along RingLogged.next (Alive RingLogged.SafeReports) (.ok idleFolder)
        (kickOnce ++ [.tick 2000]) := by
  have hquiet : Along RingLogged.next
      (fun s event => (match s with | .ok s => s.quiet event | .error _ => true) = true)
      (.ok idleFolder) (kickOnce ++ [.tick 2000]) := by decide +kernel
  have hkeeps : Along RingLogged.next (Alive RingLogged.KeepsRings) (.ok idleFolder)
      (kickOnce ++ [.tick 2000]) := by
    refine hquiet.mono ?_
    rintro s event h state rfl
    exact RingLogged.keepsRings_of_quiet h
  exact ⟨hkeeps, (run_safeReports (Virtio9p.newLazy []) rfl rfl oneChainMem _ hkeeps).2⟩

/-- Did the transport compute a ring slot for a queue of size zero? -/
def dividedByZero {α : Type} : Except Panic α → Bool
  | .error .remainderByZero => true
  | _ => false

theorem dividedByZero_iff {α : Type} (x : Except Panic α) :
    dividedByZero x = true ↔ x = .error .remainderByZero := by
  cases x with
  | ok a => simp [dividedByZero]
  | error panic => cases panic <;> simp [dividedByZero]

/-- A driver reset keeps the pending completion of the chain taken before it; when it is
due, the queue it names has size zero. -/
theorem reset_under_completion_divides_by_zero :
    ∃ s, run RingLogged.next (.ok idleFolder) (kickOnce ++ [.write 0x070 0]) = .ok s ∧
      s.mmio.pending.length = 1 ∧ s.step (.tick 2000) = .error .remainderByZero ∧
      ¬ s.SafeReports (.tick 2000) := by
  have hrun : (match run RingLogged.next (.ok idleFolder)
        (kickOnce ++ [.write 0x070 0]) with
      | .ok s => decide (s.mmio.pending.length = 1) && dividedByZero (s.step (.tick 2000))
      | .error _ => false) = true := by decide +kernel
  cases hs : run RingLogged.next (.ok idleFolder) (kickOnce ++ [.write 0x070 0]) with
  | error panic =>
    rw [hs] at hrun
    cases hrun
  | ok s =>
    rw [hs] at hrun
    simp only [Bool.and_eq_true, decide_eq_true_eq, dividedByZero_iff] at hrun
    exact ⟨s, rfl, hrun.1, hrun.2, fun hsafe => hsafe.noPanic hrun.2⟩

end TabLinux
