/-
The order of the pending completions.  A tick retires the due completions at the
front of the list and stops at the first that is not due, so it retires all of
them as long as the list is ordered by due time.  Notifications append in order;
a reply of the host is due at once and may come behind completions that wait.
-/
import TabLinux.CompletionRuns
import TabLinux.P9Flush
import Mathlib.Data.List.TakeWhile

namespace TabLinux

open Bytes Runs VirtioMmio
open Results

variable {amount : U64} {mem mem' : GuestMem} {fired : Bool}

section

variable {δ : Type} {m m' m'' : VirtioMmio δ}

/-- The clock stands, and what is new in the pending list waits out the latency. -/
def Appends (m m' : VirtioMmio δ) : Prop :=
  m'.now = m.now ∧ ∃ extra, m'.pending = m.pending ++ extra ∧
    ∀ c ∈ extra, c.due = m.now + completionLatency

theorem Appends.of_eq (hnow : m'.now = m.now) (hpending : m'.pending = m.pending) : Appends m m' :=
  ⟨hnow, [], by rw [hpending, List.append_nil], nofun⟩

theorem Appends.trans (h : Appends m m') (h' : Appends m' m'') : Appends m m'' := by
  obtain ⟨hnow, extra, hpending, hdue⟩ := h
  obtain ⟨hnow', extra', hpending', hdue'⟩ := h'
  refine ⟨hnow'.trans hnow, extra ++ extra', ?_, ?_⟩
  · rw [hpending', hpending, List.append_assoc]
  · rw [hnow] at hdue'
    exact fun c hc => (List.mem_append.mp hc).elim (hdue c) (hdue' c)

namespace VirtioMmio

theorem setQueue_appends (m : VirtioMmio δ) (i : Nat) (f : QueueState → QueueState) :
    Appends m (m.setQueue i f) := by
  refine .of_eq ?_ (m.setQueue_pending i f)
  unfold setQueue
  split <;> rfl

/-- The pending completions are in the order of their due times, none beyond the
latency. -/
structure Ordered (m : VirtioMmio δ) : Prop where
  sorted : m.pending.Pairwise fun c c' => c.due ≤ c'.due
  bounded : ∀ c ∈ m.pending, c.due ≤ m.now + completionLatency
  room : m.now.toNat + completionLatency.toNat < 2 ^ 64

end VirtioMmio

namespace VirtioMmio.Ordered

theorem append (h : m.Ordered) {extra : List Completion} {due : U64}
    (hnow : m'.now = m.now) (hpending : m'.pending = m.pending ++ extra)
    (hextra : ∀ c ∈ extra, c.due = due) (hlate : ∀ c ∈ m.pending, c.due ≤ due)
    (hdue : due ≤ m.now + completionLatency) : m'.Ordered := by
  refine ⟨?_, ?_, by rw [hnow]; exact h.room⟩
  · rw [hpending, List.pairwise_append]
    refine ⟨h.sorted, ?_, fun c hc c' hc' => by rw [hextra c' hc']; exact hlate c hc⟩
    refine List.Pairwise.imp_of_mem (fun hc hc' _ => ?_)
      (List.pairwise_of_forall (fun _ _ => trivial))
    rw [hextra _ hc, hextra _ hc']
    exact BitVec.le_refl due
  · intro c hc
    rw [hpending] at hc
    rw [hnow]
    rcases List.mem_append.mp hc with hold | hnew
    · exact h.bounded c hold
    · rw [hextra c hnew]
      exact hdue

theorem now_le (h : m.Ordered) : m.now ≤ m.now + completionLatency := by
  have := h.room
  bv_omega

end VirtioMmio.Ordered

/-- What a tick leaves of an ordered list is not due. -/
theorem not_due_of_mem_dropWhile {now : U64} {pending : List Completion}
    (hsorted : pending.Pairwise fun c c' => c.due ≤ c'.due) {c : Completion}
    (hc : c ∈ pending.dropWhile fun c => c.due ≤ now) : ¬ c.due ≤ now := by
  induction pending with
  | nil => cases hc
  | cons first rest ih =>
    obtain ⟨hfirst, hrest⟩ := List.pairwise_cons.mp hsorted
    by_cases hdue : first.due ≤ now
    · rw [List.dropWhile_cons_of_pos (by simpa using hdue)] at hc
      exact ih hrest hc
    rw [List.dropWhile_cons_of_neg (by simpa using hdue)] at hc
    rcases List.mem_cons.mp hc with rfl | hlater
    · exact hdue
    · exact fun hle => hdue (BitVec.le_trans (hfirst c hlater) hle)

/-- A tick advances the clock and drops what is due from the front. -/
theorem VirtioMmio.tick_state (hcall : m.tick amount mem = .ok (fired, m', mem')) :
    m'.now = m.now + amount ∧ m'.pending = m.pending.dropWhile fun c => c.due ≤ m.now + amount := by
  have hsplit : dueBy (m.now + amount) m.pending ++
      (m.pending.dropWhile fun c => c.due ≤ m.now + amount) = m.pending :=
    List.takeWhile_append_dropWhile
  unfold tick at hcall
  dsimp only at hcall
  split at hcall
  · rename_i hnone
    rw [List.isEmpty_iff.mp hnone] at hsplit
    cases hcall
    exact ⟨rfl, hsplit.symm⟩
  · obtain ⟨mem'', -, hcall⟩ := bind_eq_ok hcall
    cases hcall
    refine ⟨rfl, ?_⟩
    exact (congrArg (List.drop _) hsplit.symm).trans List.drop_left

variable [VirtioDevice δ]

namespace VirtioMmio

theorem appends_pollInvariant (m : VirtioMmio δ) : PollInvariant (Appends m) where
  poll _ h := h
  hasRx h := h
  fillRx _ _ h := h
  consume queue _ h := h.trans (setQueue_appends _ queue _)
  raise h := h

theorem served_appends (m : VirtioMmio δ) (queue : Nat) (head : U16) (written : U32)
    (dev : δ) : Appends m (m.served queue head written dev) := by
  unfold served
  split
  · exact .of_eq rfl rfl
  · exact ⟨rfl, _, rfl, fun c hc => by rw [List.mem_singleton.mp hc]⟩

theorem notify_appends (m : VirtioMmio δ) (queue : Nat) (mem : GuestMem) :
    Yields (fun _ => True) (fun out => Appends m out.2.1) (m.notify queue mem) := by
  have hm : Appends m m := .of_eq rfl rfl
  unfold notify
  refine Yields.ite (fun _ => .of_eq rfl rfl) fun _ => ?_
  split
  · exact .of_eq rfl rfl
  refine Yields.ite (fun _ => m.appends_pollInvariant.polled hm mem) fun _ =>
    Yields.ite (fun _ => .of_eq rfl rfl) fun _ => ?_
  refine (serviceFrom_yields (Appends m) (fun {m'} chain mem h => ?_) _ _ _ hm mem).bind
    fun out h => h.trans (out.2.2.1.setQueue_appends queue _)
  exact (Yields.any _).mono fun out _ => h.trans (m'.served_appends queue _ _ _)

end VirtioMmio

/-- A call of the transport, with the guest memory it finds. -/
inductive ClockEvent where
  | notify (queue : Nat) (mem : GuestMem)
  | supply (id : U32) (payload : Bytes) (mem : GuestMem)
  | tick (amount : U64) (mem : GuestMem)
  | flushPending (mem : GuestMem)

namespace VirtioMmio

variable (m : VirtioMmio δ)

def clockCall : ClockEvent →
    Except Panic (Bool × VirtioMmio δ × GuestMem)
  | .notify queue mem => m.notify queue mem
  | .supply id payload mem => m.supply id payload mem
  | .tick amount mem => m.tick amount mem
  | .flushPending mem => m.flushPending mem

def clockStep (event : ClockEvent) :
    Except Panic (VirtioMmio δ) := do
  let (_, m, _) ← m.clockCall event
  .ok m

/-- The clock and the due times computed from it do not wrap around. -/
def KeepsTime : ClockEvent → Prop
  | .tick amount _ => m.now.toNat + amount.toNat + completionLatency.toNat < 2 ^ 64
  | _ => True

/-- Does the reply of the host complete a chain? -/
def completes (id : U32) (payload : Bytes) (mem : GuestMem) : Bool :=
  match VirtioDevice.supply m.dev id payload mem with
  | .ok (done, _, _) => done.isSome
  | .error _ => false

/-- A reply of the host that completes a chain finds no completion that still waits. -/
def RepliesLast : ClockEvent → Prop
  | .supply id payload mem =>
      m.completes id payload mem = true → ∀ c ∈ m.pending, c.due ≤ m.now
  | _ => True

end VirtioMmio

instance (m : VirtioMmio δ) : (event : ClockEvent) →
    Decidable (m.KeepsTime event ∧ m.RepliesLast event)
  | .tick _ _ => inferInstanceAs (Decidable (_ < _ ∧ True))
  | .supply id payload mem => inferInstanceAs (Decidable
      (True ∧ (m.completes id payload mem = true → ∀ c ∈ m.pending, c.due ≤ m.now)))
  | .notify _ _ | .flushPending _ => inferInstanceAs (Decidable (True ∧ True))

/-- A tick retires exactly the completions that are due. -/
def VirtioMmio.RetiresDue (m : VirtioMmio δ) : ClockEvent → Prop
  | .tick amount mem => ∀ fired m' mem', m.tick amount mem = .ok (fired, m', mem') →
      m.pending = dueBy m'.now m.pending ++ m'.pending ∧
      (∀ c ∈ dueBy m'.now m.pending, c.due ≤ m'.now) ∧ ∀ c ∈ m'.pending, ¬ c.due ≤ m'.now
  | _ => True

namespace VirtioMmio.Ordered

omit [VirtioDevice δ] in
theorem tick (h : m.Ordered) (htime : m.KeepsTime (.tick amount mem))
    (hcall : m.tick amount mem = .ok (fired, m', mem')) :
    m'.Ordered ∧ m.pending = dueBy m'.now m.pending ++ m'.pending ∧
      ∀ c ∈ m'.pending, ¬ c.due ≤ m'.now := by
  obtain ⟨hnow, hpending⟩ := tick_state hcall
  have hkept : m'.pending.Sublist m.pending := by
    rw [hpending]
    exact List.dropWhile_sublist _
  have htotal : (m.now + amount).toNat = m.now.toNat + amount.toNat :=
    BitVec.toNat_add_of_lt (by unfold VirtioMmio.KeepsTime at htime; omega)
  refine ⟨⟨h.sorted.sublist hkept, fun c hc => ?_, ?_⟩, ?_, ?_⟩
  · have hbound := h.bounded c (hkept.subset hc)
    have hroom := h.room
    rw [hnow]
    unfold VirtioMmio.KeepsTime at htime
    bv_omega
  · rw [hnow, htotal]
    exact htime
  · rw [hnow, hpending]
    exact List.takeWhile_append_dropWhile.symm
  · rw [hnow, hpending]
    exact fun c => not_due_of_mem_dropWhile h.sorted

theorem step (h : m.Ordered) {event : ClockEvent} (htime : m.KeepsTime event)
    (hlast : m.RepliesLast event) :
    Yields (fun _ => True) (fun out => out.2.1.Ordered) (m.clockCall event) := by
  cases event with
  | notify queue mem =>
    refine (m.notify_appends queue mem).mono ?_
    rintro out ⟨hnow, extra, hpending, hdue⟩
    exact h.append hnow hpending hdue h.bounded (BitVec.le_refl _)
  | supply id payload mem =>
    change Yields _ _ (m.supply id payload mem)
    cases hsupply : VirtioDevice.supply m.dev id payload mem with
    | error panic =>
      rw [supply, hsupply]
      trivial
    | ok out =>
      obtain ⟨_ | ⟨queue, head, len⟩, dev, mem'⟩ := out
      · rw [supply, hsupply]
        exact ⟨h.sorted, h.bounded, h.room⟩
      · have hdone := hlast (by rw [completes, hsupply]; rfl)
        rw [supply, hsupply]
        refine h.append rfl rfl (fun c hc => ?_) hdone h.now_le
        rw [List.mem_singleton.mp hc]
  | tick amount mem =>
    change Yields _ _ (m.tick amount mem)
    cases hcall : m.tick amount mem with
    | error panic => trivial
    | ok out => exact (h.tick htime hcall).1
  | flushPending mem =>
    refine Yields.ite (fun _ => h) fun _ => (Yields.any _).bind fun _ _ => ?_
    exact ⟨.nil, nofun, h.room⟩

end VirtioMmio.Ordered

/-- A reply that completes a chain behind a completion that waits is not retired by a tick
that finds it due. -/
theorem VirtioMmio.late_not_retired {id : U32} {payload : Bytes}
    (hlate : ¬ m.RepliesLast (.supply id payload mem))
    (hsupply : m.supply id payload mem = .ok (fired, m', mem')) {tickMem tickMem' : GuestMem}
    {fired' : Bool} (htick : m'.tick 0 tickMem = .ok (fired', m'', tickMem')) :
    ¬ m'.RetiresDue (.tick 0 tickMem) := by
  intro hretires
  obtain ⟨hdone, c, hc, hwaits⟩ : m.completes id payload mem = true ∧
      ∃ c ∈ m.pending, ¬ c.due ≤ m.now := by
    simpa [RepliesLast] using hlate
  obtain ⟨hnow, reply, hpending, hdue⟩ : m'.now = m.now ∧ ∃ reply,
      m'.pending = m.pending ++ [reply] ∧ reply.due = m.now := by
    unfold completes at hdone
    unfold supply at hsupply
    obtain ⟨⟨_ | ⟨queue, head, len⟩, dev, mem''⟩, hout, hsupply⟩ := bind_eq_ok hsupply
    · cases hdev : VirtioDevice.supply m.dev id payload mem with
      | error panic => simp [hdev] at hdone
      | ok out =>
        rw [hdev] at hout hdone
        cases hout
        cases hdone
    · cases hsupply
      exact ⟨rfl, _, rfl, rfl⟩
  obtain ⟨hnow', hleft⟩ := tick_state htick
  rw [hnow, show m.now + 0 = m.now from BitVec.add_zero _] at hnow' hleft
  -- the completion that waits stops the tick before the reply
  have hstop : reply ∈ m''.pending := by
    have hkept : (m.pending.dropWhile fun c => c.due ≤ m.now) ≠ [] := by
      rw [ne_eq, List.dropWhile_eq_nil_iff]
      exact fun hall => hwaits (of_decide_eq_true (hall c hc))
    rw [hleft, hpending, List.dropWhile_append, if_neg (by simpa using hkept)]
    exact List.mem_append_right _ List.mem_cons_self
  refine (hretires _ _ _ htick).2.2 reply hstop ?_
  rw [hdue, hnow']
  exact BitVec.le_refl _

/-- In a run in which every reply that completes a chain finds no completion waiting, each
tick retires exactly the completions that are due.  Any other reply is left pending by a
tick of no time, though it is due. -/
theorem run_retiresDue (hnone : m.pending = [])
    (hroom : m.now.toNat + completionLatency.toNat < 2 ^ 64) (events : List ClockEvent)
    (hkeeps : Along (attempt clockStep)
      (Meets fun m event => m.KeepsTime event ∧ m.RepliesLast event) (.ok m) events) :
    Along (attempt clockStep) (Meets VirtioMmio.RetiresDue) (.ok m)
        events ∧
      ∀ (m m' : VirtioMmio δ) id payload mem fired mem',
        ¬ m.RepliesLast (.supply id payload mem) →
        m.supply id payload mem = .ok (fired, m', mem') →
        ∀ mem out, m'.tick 0 mem = .ok out → ¬ m'.RetiresDue (.tick 0 mem) := by
  refine ⟨?_, fun m m' id payload mem fired mem' hlate hsupply mem out htick =>
    late_not_retired hlate hsupply htick⟩
  have hstart : m.Ordered := ⟨by rw [hnone]; exact .nil, by rw [hnone]; exact nofun, hroom⟩
  refine hkeeps.attempt_of_invariant (fun m event m' h hcond hcall =>
    Yields.of_ok (Yields.bind (h.step hcond.1 hcond.2) fun _ h => h) hcall) ?_ hstart
  intro m event h hcond
  cases event with
  | tick amount mem =>
    intro fired m' mem' hcall
    obtain ⟨-, hsplit, hlate⟩ := h.tick hcond.1 hcall
    exact ⟨hsplit, fun c hc => by simpa using List.mem_takeWhile_imp hc, hlate⟩
  | notify | supply | flushPending => trivial

end

/-- A shared folder with queue 0 programmed for `oneChainMem`. -/
def folderOnQueue (dev : Virtio9p) : VirtioMmio Virtio9p :=
  { new dev with
    queues := fun _ => ⟨1, true, 0x80000000, 0x80000100, 0x80000200, 0⟩ }

/-- A walk waits for the listing of the root. -/
def waitingFolder : Except Panic (VirtioMmio Virtio9p) :=
  (fun s => folderOnQueue { s.dev with deferred := false }) <$>
    (run (attempt FlushLogged.step) (.ok (FlushLogged.start []))
      (readTagged.take 2)).mapError .device

/-- The listing arrives first, and an answer to no request while the completion of an empty
message waits. -/
theorem run_retiresDue_folder :
    ∃ m, waitingFolder = .ok m ∧
      Along (attempt clockStep) (Meets VirtioMmio.RetiresDue) (.ok m)
        [.supply 1 listingOfA oneChainMem, .notify 0 oneChainMem, .supply 9 [] oneChainMem,
          .tick 2000 oneChainMem] := by
  have hready : passes (fun m : VirtioMmio Virtio9p => decide (m.pending = [] ∧
      m.now.toNat + completionLatency.toNat < 2 ^ 64 ∧
      m.completes 1 listingOfA oneChainMem = true)) waitingFolder = true := by decide +kernel
  obtain ⟨m, hm, hcheck⟩ := exists_of_passes hready
  obtain ⟨hnone, hroom, -⟩ := of_decide_eq_true hcheck
  refine ⟨m, hm, (run_retiresDue hnone hroom _ ?_).1⟩
  rw [← hm]
  decide +kernel

/-- The listing of the root was due at time 0, and waits behind the answer to an empty
message, which is due at 2000. -/
theorem late_reply_stays_pending :
    ∃ m m' mem, run (attempt clockStep) waitingFolder
        [.notify 0 oneChainMem, .supply 1 listingOfA oneChainMem] = .ok m ∧
      m.tick 1 oneChainMem = .ok (false, m', mem) ∧ m'.now = 1 ∧
      m'.pending.map Completion.due = [2000, 0] ∧ ¬ m.RetiresDue (.tick 1 oneChainMem) := by
  have hpasses : passes (fun m : VirtioMmio Virtio9p =>
        passes (fun out : Bool × VirtioMmio Virtio9p × GuestMem => decide (out.1 = false ∧
          out.2.1.now = 1 ∧ out.2.1.pending.map Completion.due = [2000, 0]))
          (m.tick 1 oneChainMem))
      (run (attempt clockStep) waitingFolder
        [.notify 0 oneChainMem, .supply 1 listingOfA oneChainMem]) = true := by decide +kernel
  obtain ⟨m, hrun, hcheck⟩ := exists_of_passes hpasses
  obtain ⟨⟨fired, m', mem⟩, htick, hout⟩ := exists_of_passes hcheck
  obtain ⟨rfl, hnow, hdues⟩ := of_decide_eq_true hout
  refine ⟨m, m', mem, hrun, htick, hnow, hdues, fun hretires => ?_⟩
  obtain ⟨c, hc, hdue⟩ : ∃ c ∈ m'.pending, c.due = 0 := List.mem_map.mp (by rw [hdues]; decide)
  refine (hretires false m' mem htick).2.2 c hc ?_
  rw [hdue]
  exact BitVec.le_def.mpr (Nat.zero_le _)

end TabLinux
