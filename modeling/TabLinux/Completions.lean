/-
Completion safety of the virtio transport.  Completions outlast the operation that
created them: they wait in the pending list, or with a device that waits for the host.
A ghost record keeps, for each of them, the ring of its queue at the time its chain was
taken; reports are safe as long as no write reprograms a queue with such a chain.
-/
import TabLinux.VirtioMoves
import TabLinux.Library.Paired
import TabLinux.Library.Runs

namespace TabLinux

open Bytes Paired VirtioDevice
open Results

variable {era queue off : Nat} {f : QueueState → QueueState} {val : U32}
  {event : TransportEvent}

/-- A chain that a device holds back until the host answers a request. -/
structure HeldChain where
  id : U32
  queue : Nat
  head : U16
deriving DecidableEq, Repr

/-- What a call of `supply` does to the chains a device holds: nothing for an unknown
request, and otherwise it completes the chain that waits for it or makes it wait for
another one. -/
inductive Supplied (held : List HeldChain) (id : U32) :
    Option (Nat × U16 × U32) → List HeldChain → Prop
  | unknown (hnone : held.findIdx? (fun chain => chain.id = id) = none) : Supplied held id none held
  | finished {i : Nat} {chain : HeldChain} {len : U32}
      (hfound : held.findIdx? (fun chain => chain.id = id) = some i)
      (hchain : held[i]? = some chain) :
      Supplied held id (some (chain.queue, chain.head, len)) (held.eraseIdx i)
  | again {i : Nat} {chain : HeldChain} {next : U32}
      (hfound : held.findIdx? (fun chain => chain.id = id) = some i)
      (hchain : held[i]? = some chain) :
      Supplied held id none (held.eraseIdx i ++ [{ chain with id := next }])

/-- A device whose held chains can be told.  `Idle` is what holds of it between the
calls of the transport. -/
class HoldsChains (δ : Type) [VirtioDevice δ] where
  held : δ → List HeldChain
  Idle : δ → Prop
  handle_held {dev dev' : δ} {queue : Nat} {chain : Chain} {mem mem' : GuestMem}
    {written : U32} (hidle : Idle dev)
    (hqueue : queue < numQueues dev)
    (hcall : handle dev queue chain mem = .ok (written, dev', mem')) :
    Idle (deferredThis dev').2 ∧
      ∃ id, held (deferredThis dev').2 = held dev ++
        if (deferredThis dev').1 then [⟨id, queue, chain.head⟩] else []
  supply_held {dev dev' : δ} {id : U32} {payload : Bytes} {mem mem' : GuestMem}
    {done : Option (Nat × U16 × U32)} (hidle : Idle dev)
    (hcall : supply dev id payload mem = .ok (done, dev', mem')) :
    Idle dev' ∧ Supplied (held dev) id done (held dev')
  numQueues_handle {dev dev' : δ} {queue : Nat} {chain : Chain} {mem mem' : GuestMem}
    {written : U32}
    (hcall : handle dev queue chain mem = .ok (written, dev', mem')) :
    numQueues (deferredThis dev').2 = numQueues dev
  configWrite_held {dev : δ} (off : Nat) (val : Byte) (hidle : Idle dev) :
    Idle (configWrite dev off val) ∧
      held (configWrite dev off val) = held dev
  poll_held {dev : δ} (mem : GuestMem) (hidle : Idle dev) :
    Idle (poll dev mem).2.1 ∧ held (poll dev mem).2.1 = held dev
  hasRx_held {dev : δ} (hidle : Idle dev) :
    Idle (hasRx dev).2 ∧ held (hasRx dev).2 = held dev
  fillRx_held {dev : δ} (chain : Chain) (mem : GuestMem) (hidle : Idle dev) :
    Idle (fillRx dev chain mem).2.1 ∧
      held (fillRx dev chain mem).2.1 = held dev

open HoldsChains

/-- What a report needs to know of a queue, and the driver session it belongs to. -/
structure Ring where
  num : U16
  used : U64
  era : Nat
deriving DecidableEq, Repr

section

variable {δ : Type} {m : VirtioMmio δ}

/-- The ring of queue `i` now. -/
def VirtioMmio.ringAt (m : VirtioMmio δ) (era i : Nat) : Ring :=
  match m.queue? i with
  | some q => ⟨q.num, q.used, era⟩
  | none => ⟨0, 0, era⟩

theorem VirtioMmio.ringAt_setQueue (m : VirtioMmio δ) {i j : Nat}
    (hf : ∀ q, m.queue? i = some q → j = i → (f q).num = q.num ∧ (f q).used = q.used) :
    (m.setQueue i f).ringAt era j = m.ringAt era j := by
  unfold ringAt
  rw [m.queue?_setQueue]
  by_cases hji : j = i
  · rw [if_pos hji]
    subst hji
    cases hq : m.queue? j with
    | none => rfl
    | some q =>
      obtain ⟨hnum, hused⟩ := hf q hq rfl
      simp [hnum, hused]
  · rw [if_neg hji]

/-- Completions on queues of positive size are reported. -/
theorem VirtioMmio.retireAll_ok {cs : List Completion}
    (hnum : ∀ c ∈ cs, (m.ringAt era c.queue).num ≠ 0) (mem : GuestMem) :
    ∃ mem', m.retireAll mem cs = .ok mem' := by
  induction cs generalizing mem with
  | nil => exact ⟨mem, rfl⟩
  | cons c rest ih =>
    have hc := hnum c List.mem_cons_self
    unfold ringAt at hc
    unfold retireAll retire
    cases hq : m.queue? c.queue with
    | none =>
      rw [hq] at hc
      exact absurd rfl hc
    | some q =>
      rw [hq] at hc
      obtain ⟨mem', hpush⟩ := QueueState.pushUsed_ok hc mem c.head c.len
      dsimp only
      rw [hpush]
      exact ih (fun c hc => hnum c (List.mem_cons_of_mem _ hc)) mem'

end

/-- The calls of the transport, and changes of guest memory by others. -/
inductive TransportEvent where
  | write (off : Nat) (val : U32)
  | tick (amount : U64)
  | flushPending
  | supply (id : U32) (payload : Bytes)
  | poll
  | memory (mem : GuestMem)

section

variable {δ : Type} [VirtioDevice δ] [HoldsChains δ] {m m' : VirtioMmio δ}

/-- The transport with guest memory, the number of resets so far, and the rings at the
time of taking of the pending and of the held chains. -/
structure RingLogged (δ : Type) where
  mmio : VirtioMmio δ
  mem : GuestMem
  era : Nat
  pendingRings : List Ring
  heldRings : List Ring

def RingLogged.start (dev : δ) (mem : GuestMem) : RingLogged δ where
  mmio := VirtioMmio.new dev
  mem := mem
  era := 0
  pendingRings := []
  heldRings := []

/-- A store of zero to the status register. -/
def isReset (off : Nat) (val : U32) : Bool := off = 0x070 && val = 0

def RingLogged.step (s : RingLogged δ) : TransportEvent → Except Panic (RingLogged δ)
  | .write off val => do
      let (_, m, mem) ← s.mmio.write off val s.mem
      -- only a notification takes chains, all from the queue it names
      let ring := s.mmio.ringAt s.era val.toNat
      .ok { mmio := m
            mem := mem
            era := if isReset off val then s.era + 1 else s.era
            pendingRings := s.pendingRings ++
              List.replicate (m.pending.length - s.mmio.pending.length) ring
            heldRings := s.heldRings ++
              List.replicate ((held m.dev).length - (held s.mmio.dev).length) ring }
  | .tick amount => do
      let (_, m, mem) ← s.mmio.tick amount s.mem
      let due := dueBy (s.mmio.now + amount) s.mmio.pending
      .ok { s with mmio := m, mem := mem, pendingRings := s.pendingRings.drop due.length }
  | .flushPending => do
      let (_, m, mem) ← s.mmio.flushPending s.mem
      .ok { s with mmio := m, mem := mem, pendingRings := [] }
  | .supply id payload => do
      let (done, m, mem) ← s.mmio.supply id payload s.mem
      let s' := { s with mmio := m, mem := mem }
      match (held s.mmio.dev).findIdx? (fun chain => chain.id = id) with
      | none => .ok s'
      | some i =>
          let ring := s.heldRings.getD i ⟨0, 0, 0⟩
          if done then
            .ok { s' with
              pendingRings := s.pendingRings ++ [ring]
              heldRings := s.heldRings.eraseIdx i }
          else .ok { s' with heldRings := s.heldRings.eraseIdx i ++ [ring] }
  | .poll => do
      let (_, m, mem) ← s.mmio.poll s.mem
      .ok { s with mmio := m, mem := mem }
  | .memory mem => .ok { s with mem := mem }

/-- Does a store reprogram a queue: a reset, or another size or used ring? -/
def VirtioMmio.Reprograms (m : VirtioMmio δ) (off : Nat) (val : U32) (i : Nat) : Prop :=
  isReset off val = true ∨
    (i = m.queueSel ∧ ∃ q, m.queue? i = some q ∧
      (off = 0x038 ∧ val.setWidth 16 ≠ q.num ∨
        off = 0x0a0 ∧ setLow q.used val ≠ q.used ∨
        off = 0x0a4 ∧ setHigh q.used val ≠ q.used))

/-- Has the queue chains that are not reported yet? -/
def VirtioMmio.Outstanding (m : VirtioMmio δ) (i : Nat) : Prop :=
  (∃ c ∈ m.pending, c.queue = i) ∨ ∃ chain ∈ held m.dev, chain.queue = i

/-- No queue is reprogrammed while it has chains that are not reported yet. -/
def RingLogged.KeepsRings (s : RingLogged δ) : TransportEvent → Prop
  | .write off val => ∀ i, s.mmio.Reprograms off val i → ¬ s.mmio.Outstanding i
  | _ => True

/-- The pending completions that an event reports. -/
def RingLogged.reported (s : RingLogged δ) : TransportEvent → List Completion
  | .tick amount => dueBy (s.mmio.now + amount) s.mmio.pending
  | .flushPending => s.mmio.pending
  | _ => []

/-- Every completion that the event reports goes to the ring from which its chain was
taken, and no ring slot is computed for a queue of size zero. -/
structure RingLogged.SafeReports (s : RingLogged δ) (event : TransportEvent) : Prop where
  ring : ∀ c ring, (c, ring) ∈ (s.reported event).zip s.pendingRings →
    s.mmio.ringAt s.era c.queue = ring ∧ ring.num ≠ 0
  noPanic : s.step event ≠ .error .remainderByZero

/-- Nothing happens to the outstanding chains and to the rings. -/
structure Steady (m m' : VirtioMmio δ) : Prop where
  ring : ∀ era i, m'.ringAt era i = m.ringAt era i
  pending : m'.pending = m.pending
  chains : held m'.dev = held m.dev
  idle : Idle m'.dev

theorem Steady.refl (hidle : Idle m.dev) : Steady m m :=
  ⟨fun _ _ => rfl, rfl, rfl, hidle⟩

theorem Steady.trans {m'' : VirtioMmio δ} (h : Steady m m') (h' : Steady m' m'') :
    Steady m m'' where
  ring era i := (h'.ring era i).trans (h.ring era i)
  pending := h'.pending.trans h.pending
  chains := h'.chains.trans h.chains
  idle := h'.idle

/-- A change of the device alone. -/
theorem Steady.dev {dev : δ} (h : Idle dev ∧ held dev = held m.dev) :
    Steady m { m with dev := dev } :=
  ⟨fun _ _ => rfl, rfl, h.2, h.1⟩

theorem Steady.raise (h : Steady m m') : Steady m m'.raise :=
  ⟨h.ring, h.pending, h.chains, h.idle⟩

theorem Steady.consume (hidle : Idle m.dev) (queue : Nat) (last : QueueState → U16) :
    Steady m (m.setQueue queue fun q => { q with lastAvail := last q }) where
  ring _ _ := m.ringAt_setQueue fun _ _ _ => ⟨rfl, rfl⟩
  pending := m.setQueue_pending queue _
  chains := by rw [m.setQueue_dev]
  idle := by rwa [m.setQueue_dev]

/-- Chains are taken from a queue, all of them while it has a positive size; some are
pending now and the device holds the others. -/
structure Took (queue : Nat) (m m' : VirtioMmio δ) : Prop where
  ring : ∀ era i, m'.ringAt era i = m.ringAt era i
  pending : ∃ taken, m'.pending = m.pending ++ taken ∧ ∀ c ∈ taken, c.queue = queue
  chains : ∃ taken, held m'.dev = held m.dev ++ taken ∧ ∀ chain ∈ taken, chain.queue = queue
  idle : Idle m'.dev

theorem Steady.took (h : Steady m m') (queue : Nat) :
    Took queue m m' where
  ring := h.ring
  pending := ⟨[], by rw [h.pending, List.append_nil], fun _ hc => by cases hc⟩
  chains := ⟨[], by rw [h.chains, List.append_nil], fun _ hc => by cases hc⟩
  idle := h.idle

theorem Took.trans {m'' : VirtioMmio δ} (h : Took queue m m')
    (h' : Took queue m' m'') : Took queue m m'' := by
  obtain ⟨pending, hpending, hpq⟩ := h.pending
  obtain ⟨pending', hpending', hpq'⟩ := h'.pending
  obtain ⟨chains, hheld, hcq⟩ := h.chains
  obtain ⟨chains', hheld', hcq'⟩ := h'.chains
  refine ⟨fun era i => (h'.ring era i).trans (h.ring era i), ?_, ?_, h'.idle⟩
  · refine ⟨pending ++ pending', by rw [hpending', hpending, List.append_assoc], ?_⟩
    intro c hc
    exact (List.mem_append.mp hc).elim (hpq c) (hpq' c)
  · refine ⟨chains ++ chains', by rw [hheld', hheld, List.append_assoc], ?_⟩
    intro chain hchain
    exact (List.mem_append.mp hchain).elim (hcq chain) (hcq' chain)

/-- The errors that say nothing about ring slots. -/
def Harmless (panic : Panic) : Prop := panic ≠ .remainderByZero

theorem Steady.pollInvariant (m : VirtioMmio δ) : PollInvariant (Steady m) where
  poll mem h := h.trans (.dev (poll_held mem h.idle))
  hasRx h := h.trans (.dev (hasRx_held h.idle))
  fillRx chain mem h := h.trans (.dev (fillRx_held chain mem h.idle))
  consume queue last h := h.trans (.consume h.idle queue last)
  raise h := h.raise

theorem VirtioMmio.poll_yields (hidle : Idle m.dev) (mem : GuestMem) :
    Yields Harmless (fun out => Steady m out.2.1) (m.poll mem) :=
  (Steady.pollInvariant m).polled (.refl hidle) mem

/-- One chain handed to the device. -/
theorem Took.handle {chain : Chain} {mem mem' : GuestMem}
    {written : U32} {dev : δ} (hidle : Idle m.dev) (hqueue : queue < numQueues m.dev)
    (hcall : handle m.dev queue chain mem = .ok (written, dev, mem')) :
    Took queue m (m.served queue chain.head written dev) := by
  obtain ⟨hidle', id, hheld⟩ := handle_held hidle hqueue hcall
  unfold VirtioMmio.served
  cases hdeferred : (deferredThis dev).1 with
  | true =>
    rw [hdeferred, if_pos rfl] at hheld
    refine ⟨fun _ _ => rfl, ⟨[], (List.append_nil _).symm, fun _ hc => by cases hc⟩, ?_, hidle'⟩
    refine ⟨_, hheld, ?_⟩
    intro held hmem
    rw [List.mem_singleton.mp hmem]
  | false =>
    rw [hdeferred, if_neg Bool.false_ne_true] at hheld
    refine ⟨fun _ _ => rfl, ⟨_, rfl, ?_⟩, ⟨[], hheld, fun _ hc => by cases hc⟩, hidle'⟩
    intro c hmem
    rw [List.mem_singleton.mp hmem]

theorem VirtioMmio.serviceFrom_took {q : QueueState} {availIdx : U16}
    (budget : Nat) (last : U16) (serviced : Bool)
    (hidle : Idle m.dev) (hqueue : queue < numQueues m.dev) (mem : GuestMem) :
    Yields Harmless
      (fun out => Took queue m out.2.2.1 ∧ queue < numQueues out.2.2.1.dev)
      (serviceFrom queue q availIdx budget last serviced m mem) := by
  refine serviceFrom_yields
    (fun m' => Took queue m m' ∧ queue < numQueues m'.dev) ?_ budget last serviced
    ⟨(Steady.refl hidle).took queue, hqueue⟩ mem
  rintro m' chain mem ⟨htook, hqueue⟩
  refine Yields.mapError (fun _ h => by cases h) ?_
  rintro ⟨written, dev, mem'⟩ hcall
  refine ⟨htook.trans (Took.handle htook.idle hqueue hcall), ?_⟩
  rw [served_dev, numQueues_handle hcall]
  exact hqueue

/-- A notification takes chains from a programmed queue only. -/
theorem VirtioMmio.notify_yields (hidle : Idle m.dev) (queue : Nat) (mem : GuestMem) :
    Yields Harmless (fun out => Steady m out.2.1 ∨
      (Took queue m out.2.1 ∧ ∀ era, (m.ringAt era queue).num ≠ 0)) (m.notify queue mem) := by
  unfold notify
  split
  · exact Or.inl (Steady.refl hidle)
  split
  · exact Or.inl (Steady.refl hidle)
  rename_i hqueues _ q hq
  split
  · exact (poll_yields hidle mem).mono fun _ => Or.inl
  split
  · exact Or.inl (Steady.refl hidle)
  rename_i hready
  refine Yields.bind (serviceFrom_took _ _ _ hidle (Nat.lt_of_not_le hqueues) mem) ?_
  rintro ⟨last, serviced, m', mem'⟩ ⟨htook, -⟩
  refine Or.inr ⟨htook.trans ((Steady.consume htook.idle queue fun _ => last).took queue), ?_⟩
  intro era hzero
  rw [ringAt, hq] at hzero
  exact hready (by simp [show q.num = 0 from hzero])

/-- What a store does to the outstanding chains. -/
structure Stored (off : Nat) (val : U32) (m m' : VirtioMmio δ) : Prop where
  ring : ∀ era i, ¬ m.Reprograms off val i → m'.ringAt era i = m.ringAt era i
  chains : (m'.pending = m.pending ∧ held m'.dev = held m.dev ∧ Idle m'.dev) ∨
    (isReset off val = false ∧ Took val.toNat m m' ∧
      ∀ era, (m.ringAt era val.toNat).num ≠ 0)

theorem Steady.stored (h : Steady m m') (off : Nat)
    (val : U32) : Stored off val m m' :=
  ⟨fun era i _ => h.ring era i, Or.inl ⟨h.pending, h.chains, h.idle⟩⟩

/-- A change of the selected queue. -/
theorem Stored.withQueue (hidle : Idle m.dev)
    (hf : ∀ q, m.queue? m.queueSel = some q → ¬ m.Reprograms off val m.queueSel →
      (f q).num = q.num ∧ (f q).used = q.used) : Stored off val m (m.withQueue f) := by
  refine ⟨fun era i hkept => ?_, Or.inl ⟨m.setQueue_pending _ _, ?_, ?_⟩⟩
  · refine m.ringAt_setQueue fun q hq hi => hf q hq ?_
    rw [← hi]
    exact hkept
  · rw [VirtioMmio.withQueue, m.setQueue_dev]
  · rw [VirtioMmio.withQueue, m.setQueue_dev]
    exact hidle

theorem VirtioMmio.write_yields (hidle : Idle m.dev) (off : Nat) (val : U32) (mem : GuestMem) :
    Yields Harmless (fun out => Stored off val m out.2.1) (m.write off val mem) := by
  have hsame : ∀ q : QueueState, m.queue? m.queueSel = some q →
      ¬ m.Reprograms off val m.queueSel →
      (off = 0x038 → val.setWidth 16 = q.num) ∧ (off = 0x0a0 → setLow q.used val = q.used) ∧
        (off = 0x0a4 → setHigh q.used val = q.used) := by
    intro q hq hkept
    refine ⟨fun hoff => ?_, fun hoff => ?_, fun hoff => ?_⟩ <;> by_contra hne <;>
      refine hkept (Or.inr ⟨rfl, q, hq, ?_⟩)
    · exact Or.inl ⟨hoff, hne⟩
    · exact Or.inr (Or.inl ⟨hoff, hne⟩)
    · exact Or.inr (Or.inr ⟨hoff, hne⟩)
  have hregister : ∀ m' : VirtioMmio δ, m'.queues = m.queues → m'.pending = m.pending →
      m'.dev = m.dev → Stored off val m m' := by
    intro m' hqueues hpending hdev
    refine ⟨fun era i _ => ?_, Or.inl ⟨hpending, by rw [hdev], by rw [hdev]; exact hidle⟩⟩
    unfold ringAt queue?
    rw [hqueues]
  have hqueue : ∀ f : QueueState → QueueState, (∀ q, (f q).num = q.num ∧ (f q).used = q.used) →
      Yields Harmless (fun out => Stored off val m out.2.1) (.ok (false, m.withQueue f, mem)) :=
    fun f hf => Stored.withQueue hidle fun q _ _ => hf q
  unfold write
  refine Yields.ite (fun _ => (Steady.dev (configWrite_held _ _ hidle)).stored off val) fun _ => ?_
  refine Yields.ite (fun _ => hregister _ rfl rfl rfl) fun _ => ?_
  refine Yields.ite (fun _ => hregister _ rfl rfl rfl) fun _ => ?_
  refine Yields.ite (fun _ => hregister _ rfl rfl rfl) fun _ => ?_
  refine Yields.ite (fun _ => hregister _ rfl rfl rfl) fun _ => ?_
  refine Yields.ite (fun hoff => ?_) fun _ => ?_
  · dsimp only [Yields]
    exact Stored.withQueue hidle fun q hq hkept => ⟨(hsame q hq hkept).1 hoff, rfl⟩
  refine Yields.ite (fun _ => hqueue _ fun _ => ⟨rfl, rfl⟩) fun _ => ?_
  refine Yields.ite (fun hoff => ?_) fun _ => ?_
  · refine (notify_yields hidle val.toNat mem).mono ?_
    rintro out (hsteady | ⟨htook, hnum⟩)
    · exact hsteady.stored off val
    refine ⟨fun era i _ => htook.ring era i, Or.inr ⟨?_, htook, hnum⟩⟩
    rw [isReset, hoff]
    rfl
  refine Yields.ite (fun _ => hregister _ rfl rfl rfl) fun _ => ?_
  refine Yields.ite (fun hoff => ?_) fun _ => ?_
  · refine Yields.ite (fun hval => ?_) fun _ => hregister _ rfl rfl rfl
    refine ⟨fun era i hkept => absurd (Or.inl ?_) hkept, Or.inl ⟨rfl, rfl, hidle⟩⟩
    rw [isReset, hoff, hval]
    rfl
  refine Yields.ite (fun _ => hqueue _ fun _ => ⟨rfl, rfl⟩) fun _ => ?_
  refine Yields.ite (fun _ => hqueue _ fun _ => ⟨rfl, rfl⟩) fun _ => ?_
  refine Yields.ite (fun _ => hqueue _ fun _ => ⟨rfl, rfl⟩) fun _ => ?_
  refine Yields.ite (fun _ => hqueue _ fun _ => ⟨rfl, rfl⟩) fun _ => ?_
  refine Yields.ite (fun hoff => ?_) fun _ => ?_
  · dsimp only [Yields]
    exact Stored.withQueue hidle fun q hq hkept => ⟨rfl, (hsame q hq hkept).2.1 hoff⟩
  refine Yields.ite (fun hoff => ?_) fun _ => ?_
  · dsimp only [Yields]
    exact Stored.withQueue hidle fun q hq hkept => ⟨rfl, (hsame q hq hkept).2.2 hoff⟩
  · exact hregister _ rfl rfl rfl

/-- A chain taken from this ring can be reported now. -/
def VirtioMmio.OnRing (m : VirtioMmio δ) (era i : Nat) (ring : Ring) : Prop :=
  m.ringAt era i = ring ∧ ring.num ≠ 0

/-- Every outstanding chain can be reported to the ring it was taken from. -/
structure RingsOk (s : RingLogged δ) : Prop where
  pending : List.Forall₂ (fun c ring => s.mmio.OnRing s.era c.queue ring)
    s.mmio.pending s.pendingRings
  chains : List.Forall₂ (fun chain ring => s.mmio.OnRing s.era chain.queue ring)
    (held s.mmio.dev) s.heldRings
  idle : Idle s.mmio.dev

variable {s : RingLogged δ}

/-- Where the outstanding chains and their rings stay, so does the invariant. -/
theorem RingsOk.steady (h : RingsOk s)
    (hsteady : Steady s.mmio m) (mem : GuestMem) : RingsOk { s with mmio := m, mem := mem } := by
  refine ⟨?_, ?_, hsteady.idle⟩
  · rw [hsteady.pending]
    exact h.pending.imp fun c ring hc => ⟨(hsteady.ring s.era c.queue).trans hc.1, hc.2⟩
  · rw [hsteady.chains]
    exact h.chains.imp fun chain ring hc => ⟨(hsteady.ring s.era chain.queue).trans hc.1, hc.2⟩

theorem RingsOk.write (h : RingsOk s) (hkeeps : s.KeepsRings (.write off val)) :
    Yields Harmless RingsOk (s.step (.write off val)) := by
  refine (VirtioMmio.write_yields h.idle off val s.mem).bind ?_
  rintro ⟨_, m, mem⟩ (hstored : Stored off val s.mmio m)
  -- the rings of outstanding chains, and the session, are those from before
  have hold : ∀ i ring, s.mmio.Outstanding i → s.mmio.OnRing s.era i ring →
      m.OnRing (if isReset off val then s.era + 1 else s.era) i ring := by
    intro i ring hout hring
    have hkept : ¬ s.mmio.Reprograms off val i := fun hre => hkeeps i hre hout
    have hreset : ¬ isReset off val = true := fun hreset => hkept (Or.inl hreset)
    rw [if_neg hreset]
    exact ⟨(hstored.ring s.era i hkept).trans hring.1, hring.2⟩
  have hpending := forall₂_imp_mem h.pending fun c hc ring =>
    hold c.queue ring (Or.inl ⟨c, hc, rfl⟩)
  have hchains := forall₂_imp_mem h.chains fun chain hc ring =>
    hold chain.queue ring (Or.inr ⟨chain, hc, rfl⟩)
  rcases hstored.chains with ⟨hp, hh, hidle⟩ | ⟨hreset, htook, hnum⟩
  · refine ⟨?_, ?_, hidle⟩
    · simpa [hp] using hpending
    · simpa [hh] using hchains
  obtain ⟨taken, hp, hqueue⟩ := htook.pending
  obtain ⟨taken', hh, hqueue'⟩ := htook.chains
  have hnew : m.OnRing (if isReset off val then s.era + 1 else s.era) val.toNat
      (s.mmio.ringAt s.era val.toNat) := by
    rw [hreset]
    exact ⟨htook.ring s.era val.toNat, hnum s.era⟩
  refine ⟨?_, ?_, htook.idle⟩
  · rw [hp, List.length_append, Nat.add_sub_cancel_left]
    refine forall₂_append hpending (forall₂_replicate fun c hc => ?_)
    rw [hqueue c hc]
    exact hnew
  · rw [hh, List.length_append, Nat.add_sub_cancel_left]
    refine forall₂_append hchains (forall₂_replicate fun chain hc => ?_)
    rw [hqueue' chain hc]
    exact hnew

/-- What a host reply does to the outstanding chains. -/
structure Answered (id : U32) (m : VirtioMmio δ) (done : Bool) (m' : VirtioMmio δ) :
    Prop where
  queues : m'.queues = m.queues
  idle : Idle m'.dev
  chains : ∃ chain : Option (Nat × U16 × U32), done = chain.isSome ∧
    Supplied (held m.dev) id chain (held m'.dev) ∧
    m'.pending = m.pending ++ (chain.map fun c => ⟨c.1, c.2.1, c.2.2, m.now⟩).toList

theorem VirtioMmio.supply_yields (hidle : Idle m.dev) (id : U32)
    (payload : Bytes) (mem : GuestMem) :
    Yields Harmless (fun out => Answered id m out.1 out.2.1) (m.supply id payload mem) := by
  have hsupplied : Yields Harmless (fun out => VirtioDevice.supply m.dev id payload mem = .ok out)
      ((VirtioDevice.supply m.dev id payload mem).mapError .device) :=
    Yields.mapError (fun _ h => by cases h) fun _ h => h
  refine hsupplied.bind ?_
  rintro ⟨done, dev, mem'⟩ hcall
  obtain ⟨hidle', hheld⟩ := supply_held hidle hcall
  cases done with
  | none => exact ⟨rfl, hidle', none, rfl, hheld, (List.append_nil _).symm⟩
  | some c => exact ⟨rfl, hidle', some c, rfl, hheld, rfl⟩

namespace RingsOk

theorem supply (h : RingsOk s) (id : U32)
    (payload : Bytes) : Yields Harmless RingsOk (s.step (.supply id payload)) := by
  refine (VirtioMmio.supply_yields h.idle id payload s.mem).bind ?_
  rintro ⟨_, m, mem⟩ ⟨hqueues, hidle, chain, rfl, hheld, hpending⟩
  have hring : ∀ i ring, s.mmio.OnRing s.era i ring → m.OnRing s.era i ring := by
    intro i ring hon
    unfold VirtioMmio.OnRing VirtioMmio.ringAt VirtioMmio.queue? at hon ⊢
    rw [show m.queues = s.mmio.queues from hqueues]
    exact hon
  have hold := h.pending.imp fun (c : Completion) ring => hring c.queue ring
  have hchains := h.chains.imp fun (chain : HeldChain) ring => hring chain.queue ring
  dsimp only at hheld hpending hidle ⊢
  generalize hafter : held m.dev = after at hheld
  cases hheld with
  | unknown hnone =>
    rw [hnone]
    refine ⟨?_, ?_, hidle⟩
    · simpa only [hpending, Option.map_none, Option.toList_none, List.append_nil] using hold
    rw [hafter]
    exact hchains
  | finished hfound hchain =>
    rw [hfound]
    have hone := forall₂_getD hchains hchain ⟨0, 0, 0⟩
    refine ⟨?_, ?_, hidle⟩
    · rw [hpending]
      exact forall₂_append hold (.cons hone .nil)
    · rw [hafter]
      exact forall₂_eraseIdx hchains _
  | again hfound hchain =>
    rw [hfound]
    have hone := forall₂_getD hchains hchain ⟨0, 0, 0⟩
    refine ⟨?_, ?_, hidle⟩
    · simpa only [hpending, Option.map_none, Option.toList_none, List.append_nil] using hold
    rw [hafter]
    exact forall₂_append (forall₂_eraseIdx hchains _) (.cons hone .nil)

theorem num_ne_zero (h : RingsOk s) {c : Completion}
    (hc : c ∈ s.mmio.pending) : (s.mmio.ringAt s.era c.queue).num ≠ 0 := by
  obtain ⟨ring, hring, hnum⟩ := forall₂_exists_of_mem h.pending hc
  rw [hring]
  exact hnum

theorem tick (h : RingsOk s) (amount : U64) : Yields Harmless RingsOk (s.step (.tick amount)) := by
  have hdue : dueBy (s.mmio.now + amount) s.mmio.pending <+: s.mmio.pending :=
    List.takeWhile_prefix _
  obtain ⟨mem', hretire⟩ := VirtioMmio.retireAll_ok
    (m := { s.mmio with now := s.mmio.now + amount })
    (fun c hc => h.num_ne_zero (hdue.subset hc)) s.mem
  unfold RingLogged.step VirtioMmio.tick
  dsimp only
  split
  · rename_i hempty
    rw [List.isEmpty_iff.mp hempty]
    exact ⟨h.pending, h.chains, h.idle⟩
  · rw [hretire]
    exact ⟨List.forall₂_drop _ h.pending, h.chains, h.idle⟩

theorem flushPending (h : RingsOk s) : Yields Harmless RingsOk (s.step .flushPending) := by
  obtain ⟨mem', hretire⟩ := VirtioMmio.retireAll_ok (fun c hc => h.num_ne_zero hc) s.mem
  unfold RingLogged.step VirtioMmio.flushPending
  dsimp only
  split
  · rename_i hempty
    refine ⟨?_, h.chains, h.idle⟩
    rw [List.isEmpty_iff.mp hempty]
    exact .nil
  · rw [hretire]
    exact ⟨.nil, h.chains, h.idle⟩

theorem step (h : RingsOk s)
    (hkeeps : s.KeepsRings event) : Yields Harmless RingsOk (s.step event) := by
  cases event with
  | write off val => exact h.write hkeeps
  | tick amount => exact h.tick amount
  | flushPending => exact h.flushPending
  | supply id payload => exact h.supply id payload
  | poll =>
    refine (VirtioMmio.poll_yields h.idle s.mem).bind ?_
    rintro ⟨_, m, mem⟩ hsteady
    exact h.steady hsteady mem
  | memory mem => exact ⟨h.pending, h.chains, h.idle⟩

theorem safeReports (h : RingsOk s)
    (hkeeps : s.KeepsRings event) : s.SafeReports event := by
  have hreported : s.reported event <+: s.mmio.pending := by
    cases event with
    | tick amount => exact List.takeWhile_prefix _
    | flushPending => exact List.prefix_rfl
    | write | supply | poll | memory => exact List.nil_prefix
  refine ⟨?_, (h.step hkeeps).ne_error fun hallowed => hallowed rfl⟩
  intro c ring hmem
  exact forall₂_zip_prefix h.pending hreported hmem

end RingsOk

end

end TabLinux
