/-
What the virtio transport preserves.  A poll and a notification are loops over a few
moves of the transport and its device: what every move preserves, they preserve, and
nothing but a panic of the device interrupts them.
-/
import TabLinux.Library.Results
import TabLinux.Virtio

namespace TabLinux

open Results

variable {q : QueueState}

section

variable {δ : Type} {m m' : VirtioMmio δ} {queue : Nat}

theorem QueueState.pushUsed_ok (hnum : q.num ≠ 0) (mem : GuestMem)
    (head : U16) (len : U32) : ∃ mem', q.pushUsed mem head len = .ok mem' := by
  unfold pushUsed
  rw [if_neg hnum]
  exact ⟨_, rfl⟩

theorem VirtioMmio.complete_ok (hq : m.queue? queue = some q)
    (hnum : q.num ≠ 0) (mem : GuestMem) (head : U16) (len : U32) :
    ∃ mem', m.complete queue mem head len = .ok (m.raise, mem') := by
  obtain ⟨mem', hpush⟩ := QueueState.pushUsed_ok hnum mem head len
  unfold complete
  rw [hq]
  dsimp only
  rw [hpush]
  exact ⟨mem', rfl⟩

/-- A chain is only taken from a queue of positive size, which has then consumed it. -/
theorem VirtioMmio.takeAvail_eq {mem : GuestMem} {chain : Chain}
    (htake : m.takeAvail queue mem = some (chain, m')) :
    (∃ q, m'.queue? queue = some q ∧ q.num ≠ 0) ∧
      m' = m.setQueue queue fun q => { q with lastAvail := q.lastAvail + 1 } := by
  unfold takeAvail at htake
  cases hq : m.queue? queue with
  | none =>
    rw [hq] at htake
    cases htake
  | some q =>
    rw [hq] at htake
    dsimp only at htake
    split at htake
    · cases htake
    rename_i hready
    split at htake
    · cases htake
    split at htake
    · cases htake
    cases htake
    refine ⟨⟨{ q with lastAvail := q.lastAvail + 1 }, ?_, fun hzero => hready ?_⟩, rfl⟩
    · rw [m.queue?_setQueue, if_pos rfl, hq, Option.map_some]
    · simp [show q.num = 0 from hzero]

variable [VirtioDevice δ] {Inv : VirtioMmio δ → Prop} {allowed : Panic → Prop}

/-- Every move of a poll preserves `Inv`. -/
structure PollInvariant (Inv : VirtioMmio δ → Prop) : Prop where
  poll {m : VirtioMmio δ} (mem : GuestMem) :
    Inv m → Inv { m with dev := (VirtioDevice.poll m.dev mem).2.1 }
  hasRx {m : VirtioMmio δ} : Inv m → Inv { m with dev := (VirtioDevice.hasRx m.dev).2 }
  fillRx {m : VirtioMmio δ} (chain : Chain) (mem : GuestMem) :
    Inv m → Inv { m with dev := (VirtioDevice.fillRx m.dev chain mem).2.1 }
  consume {m : VirtioMmio δ} (queue : Nat) (last : QueueState → U16) :
    Inv m → Inv (m.setQueue queue fun q => { q with lastAvail := last q })
  raise {m : VirtioMmio δ} : Inv m → Inv m.raise

namespace PollInvariant

theorem received (h : PollInvariant Inv) (budget : Nat) (delivered : Bool) (hm : Inv m)
    (mem : GuestMem) :
    Yields allowed (fun out => Inv out.2.1) (VirtioMmio.receive queue budget delivered m mem) := by
  induction budget generalizing delivered m mem with
  | zero => exact hm
  | succ budget ih =>
    unfold VirtioMmio.receive
    refine Yields.ite (fun _ => h.hasRx hm) fun _ => ?_
    split
    · exact h.hasRx hm
    rename_i chain m' htake
    obtain ⟨⟨q, hq, hnum⟩, htaken⟩ := VirtioMmio.takeAvail_eq htake
    have hfilled := h.fillRx chain mem (htaken ▸ h.consume queue _ (h.hasRx hm))
    obtain ⟨mem', hcomplete⟩ := VirtioMmio.complete_ok
      (m := { m' with dev := (VirtioDevice.fillRx m'.dev chain mem).2.1 }) hq hnum
      (VirtioDevice.fillRx m'.dev chain mem).2.2 chain.head
      (VirtioDevice.fillRx m'.dev chain mem).1
    dsimp only
    rw [hcomplete]
    exact ih true (h.raise hfilled) mem'

theorem polled (h : PollInvariant Inv) (hm : Inv m) (mem : GuestMem) :
    Yields allowed (fun out => Inv out.2.1) (m.poll mem) := by
  have hpolled := h.poll mem hm
  unfold VirtioMmio.poll
  refine Yields.ite (fun _ => hm) fun _ => Yields.ite (fun _ => h.raise hpolled) fun _ => ?_
  split
  · exact hpolled
  · exact h.received 32 false hpolled _

end PollInvariant

namespace VirtioMmio

/-- The transport when the device has taken a chain: a deferring device keeps it. -/
def served (m : VirtioMmio δ) (queue : Nat) (head : U16) (written : U32) (dev : δ) :
    VirtioMmio δ :=
  if (VirtioDevice.deferredThis dev).1 then { m with dev := (VirtioDevice.deferredThis dev).2 }
  else
    { m with
      dev := (VirtioDevice.deferredThis dev).2
      pending := m.pending ++ [⟨queue, head, written, m.now + completionLatency⟩] }

theorem served_dev (m : VirtioMmio δ) (queue : Nat) (head : U16) (written : U32)
    (dev : δ) : (m.served queue head written dev).dev = (VirtioDevice.deferredThis dev).2 := by
  unfold served
  split <;> rfl

theorem serviceFrom_yields (Inv : VirtioMmio δ → Prop)
    (hserve : ∀ {m : VirtioMmio δ} (chain : Chain) (mem : GuestMem), Inv m →
      Yields allowed (fun out => Inv (m.served queue chain.head out.1 out.2.1))
        ((VirtioDevice.handle m.dev queue chain mem).mapError .device))
    {availIdx : U16} (budget : Nat) (last : U16) (serviced : Bool)
    (hm : Inv m) (mem : GuestMem) :
    Yields allowed (fun out => Inv out.2.2.1)
      (serviceFrom queue q availIdx budget last serviced m mem) := by
  induction budget generalizing last serviced m mem with
  | zero => exact hm
  | succ budget ih =>
    unfold serviceFrom
    refine Yields.ite (fun _ => hm) fun _ => ?_
    dsimp only
    split
    · exact ih (last + 1) serviced hm mem
    · rename_i chain _
      exact (hserve chain mem hm).bind fun out hserved => ih (last + 1) true hserved out.2.2

end VirtioMmio

end

end TabLinux
