/-
Flushed requests.  The device answers a flush at once and looks for no parked request, so
a request that waits for the host when it is flushed is answered later, into buffers that
the guest may have given to something else by then.
-/
import TabLinux.Library.Paired
import TabLinux.P9Calls

namespace TabLinux

open Bytes Runs

variable {msg : Bytes}

variable {n chain : Nat} {held : List Held} {owners : List Nat} {mem : GuestMem} {dev : Virtio9p}

/-- The tag that a flush is about. -/
def flushes? (msg : Bytes) : Option U16 :=
  if msgType? msg = some .flush then (curU16 (msg.drop 7)).map (·.1) else none

/-- A shared folder with a log of the chains it was handed and of the flushes. -/
structure FlushLogged where
  dev : Virtio9p
  /-- The tags of the chains, in the order in which they were handed over. -/
  tags : List U16
  /-- For every parked request, in their order, the chain that carried it. -/
  owners : List Nat
  /-- The chains with the tag of a flush, at the time of its reply. -/
  flushed : List Nat

def FlushLogged.start (tag : Bytes) : FlushLogged := ⟨Virtio9p.newLazy tag, [], [], []⟩

/-- A request that was just parked belongs to the chain that was served. -/
def ownNew (owners : List Nat) (held : List Held) (chain : Nat) : List Nat :=
  owners ++ List.replicate (held.length - owners.length) chain

namespace FlushLogged

section

variable (s : FlushLogged)

/-- The earlier chains that a message flushes. -/
def flushedBy (msg : Bytes) : List Nat :=
  match flushes? msg with
  | none => []
  | some old => (List.range s.tags.length).filter fun n => s.tags[n]? = some old

/-- The log after a call. -/
def noted (dev : Virtio9p) : FileEvent → FlushLogged
  | .message chain mem =>
      let msg := gather mem chain.readable
      ⟨dev, s.tags ++ [msgTag msg], ownNew s.owners dev.held s.tags.length,
        s.flushed ++ s.flushedBy msg⟩
  | .supply id _ _ =>
      match s.dev.heldAt id with
      | some i =>
          { s with dev, owners := ownNew (s.owners.eraseIdx i) dev.held (s.owners.getD i 0) }
      | none => { s with dev }
  | .takeChanges => { s with dev }

def step (event : FileEvent) : Except DevicePanic FlushLogged :=
  (s.dev.call event).map fun dev => s.noted dev event

/-- A call for a flushed chain writes nothing to guest memory and reports no reply.  The
chain of a new message is not among them. -/
def Quiet : FileEvent → Prop
  | .message _ _ => s.tags.length ∉ s.flushed
  | .supply id payload mem => ∀ i n, s.dev.heldAt id = some i → s.owners[i]? = some n →
      n ∈ s.flushed → ∀ done dev mem', s.dev.supply id payload mem = .ok (done, dev, mem') →
        done = none ∧ mem' = mem
  | .takeChanges => True

/-- No parked request carries the tag of a flush. -/
def FlushesAnswered : FileEvent → Prop
  | .message chain mem => ∀ old, flushes? (gather mem chain.readable) = some old →
      ∀ h ∈ s.dev.held, msgTag h.msg ≠ old
  | _ => True

end

structure Ok (s : FlushLogged) : Prop where
  owned : List.Forall₂ (fun h n => s.tags[n]? = some (msgTag h.msg)) s.dev.held s.owners
  quiet : ∀ n ∈ s.owners, n ∉ s.flushed
  past : ∀ n ∈ s.flushed, n < s.tags.length

end FlushLogged

section

variable {s : FlushLogged}

theorem FlushLogged.mem_flushedBy (hmem : n ∈ s.flushedBy msg) :
    n < s.tags.length ∧ ∃ old, flushes? msg = some old ∧ s.tags[n]? = some old := by
  unfold flushedBy at hmem
  split at hmem
  · cases hmem
  rename_i old hflush
  obtain ⟨hrange, htag⟩ := List.mem_filter.mp hmem
  exact ⟨List.mem_range.mp hrange, old, hflush, of_decide_eq_true htag⟩

/-- The parked requests after a chain is served: as before, or one more. -/
theorem Served.held_msg {d d' : Virtio9p} {head : U16} {writable : List Buf}
    {reply : Option Bytes} (h : Served d head writable msg reply d') :
    d'.held = d.held ∨ ∃ held : Held, held.msg = msg ∧ d'.held = d.held ++ [held] := by
  obtain ⟨after, -, -, -, hrequested⟩ := h.edits
  generalize after.deferPending = defer? at hrequested
  cases hrequested with
  | none _ hheld => exact Or.inl hheld
  | some _ _ hheld => exact Or.inr ⟨_, rfl, hheld⟩

/-- The owners stay in step with the parked requests. -/
theorem forall₂_ownNew {R : Held → Nat → Prop} {held' : List Held}
    (hpaired : List.Forall₂ R held owners)
    (hheld : held' = held ∨ ∃ h : Held, h.msg = msg ∧ held' = held ++ [h])
    (hnew : ∀ h : Held, h.msg = msg → R h chain) :
    List.Forall₂ R held' (ownNew owners held' chain) := by
  have hlength := hpaired.length_eq
  rcases hheld with rfl | ⟨h, hmsg, rfl⟩
  · rw [ownNew, hlength, Nat.sub_self, List.replicate_zero, List.append_nil]
    exact hpaired
  · rw [ownNew, List.length_append, hlength, Nat.add_sub_cancel_left]
    exact Paired.forall₂_append hpaired (.cons (hnew h hmsg) .nil)

theorem mem_ownNew (hmem : n ∈ ownNew owners held chain) : n ∈ owners ∨ n = chain := by
  rcases List.mem_append.mp hmem with hold | hnew
  · exact Or.inl hold
  · exact Or.inr (List.eq_of_mem_replicate hnew)

namespace FlushLogged

theorem Ok.message (hok : s.Ok) {chain : Chain} (hcalled : Called s.dev (.message chain mem) dev)
    (hflush : s.FlushesAnswered (.message chain mem)) : (s.noted dev (.message chain mem)).Ok := by
  have hheld : dev.held = s.dev.held ∨ ∃ h : Held, h.msg = gather mem chain.readable ∧
      dev.held = s.dev.held ++ [h] := by
    cases hcalled with
    | short => exact Or.inl rfl
    | message _ hserved => exact hserved.held_msg
  have howned : List.Forall₂
      (fun h n => (s.tags ++ [msgTag (gather mem chain.readable)])[n]? = some (msgTag h.msg))
      s.dev.held s.owners := by
    refine hok.owned.imp fun h n htag => ?_
    rw [List.getElem?_append_left (List.getElem?_eq_some_iff.mp htag).1]
    exact htag
  refine ⟨forall₂_ownNew howned hheld fun h hmsg => ?_, fun n hmem hflushed => ?_, fun n hmem => ?_⟩
  · change (s.tags ++ [_])[s.tags.length]? = _
    rw [List.getElem?_concat_length, hmsg]
  · rcases mem_ownNew hmem with hold | rfl
    · rcases List.mem_append.mp hflushed with hbefore | hnow
      · exact hok.quiet n hold hbefore
      · obtain ⟨-, old, hold', htag⟩ := FlushLogged.mem_flushedBy hnow
        obtain ⟨h, hmem, htag'⟩ := Paired.forall₂_exists_left hok.owned hold
        rw [htag] at htag'
        exact hflush old hold' h hmem (Option.some.inj htag').symm
    · rcases List.mem_append.mp hflushed with hbefore | hnow
      · exact absurd (hok.past _ hbefore) (Nat.lt_irrefl _)
      · exact absurd (FlushLogged.mem_flushedBy hnow).1 (Nat.lt_irrefl _)
  · have hlt : n < s.tags.length := by
      rcases List.mem_append.mp hmem with hbefore | hnow
      · exact hok.past n hbefore
      · exact (FlushLogged.mem_flushedBy hnow).1
    change n < (s.tags ++ [_]).length
    rw [List.length_append]
    exact Nat.lt_succ_of_lt hlt

theorem Ok.supply (hok : s.Ok) {id : U32} {payload : Bytes}
    (hcalled : Called s.dev (.supply id payload mem) dev) :
    (s.noted dev (.supply id payload mem)).Ok := by
  cases hcalled with
  | unknown hnone =>
    rw [FlushLogged.noted, hnone]
    exact ⟨hok.owned, hok.quiet, hok.past⟩
  | @answer _ _ _ i h _ _ hfind hget hserved =>
    have howner : s.owners.getD i 0 ∈ s.owners ∧
        s.tags[s.owners.getD i 0]? = some (msgTag h.msg) := by
      have hlt : i < s.owners.length := hok.owned.length_eq ▸ (List.getElem?_eq_some_iff.mp hget).1
      refine ⟨?_, Paired.forall₂_getD hok.owned hget 0⟩
      rw [List.getD_eq_getElem?_getD, List.getElem?_eq_getElem hlt]
      exact List.getElem_mem hlt
    rw [FlushLogged.noted, hfind]
    refine ⟨?_, fun n hmem => ?_, hok.past⟩
    · refine forall₂_ownNew (Paired.forall₂_eraseIdx hok.owned i) hserved.held_msg ?_
      intro h' hmsg
      rw [hmsg]
      exact howner.2
    · rcases mem_ownNew hmem with hold | rfl
      · exact hok.quiet n (List.mem_of_mem_eraseIdx hold)
      · exact hok.quiet _ howner.1

theorem Ok.step (hok : s.Ok) {event : FileEvent} {s' : FlushLogged}
    (hflush : s.FlushesAnswered event) (hstep : s.step event = .ok s') : s'.Ok := by
  obtain ⟨dev, hcall, rfl⟩ := Results.map_eq_ok hstep
  have hcalled := Virtio9p.call_cases hcall
  cases event with
  | message chain mem => exact hok.message hcalled hflush
  | supply id payload mem => exact hok.supply hcalled
  | takeChanges =>
    cases hcalled
    exact ⟨hok.owned, hok.quiet, hok.past⟩

theorem Ok.quietAt (hok : s.Ok) (event : FileEvent) : s.Quiet event := by
  cases event with
  | message chain mem => exact fun hmem => Nat.lt_irrefl _ (hok.past _ hmem)
  | supply id payload mem =>
    intro i n _ howner hflushed
    exact absurd hflushed (hok.quiet n (List.mem_of_getElem? howner))
  | takeChanges => trivial

end FlushLogged

end

/-- As long as no flush is for a request that waits for the host, nothing is ever written
for a flushed chain. -/
theorem run_quiet (tag : Bytes) (events : List FileEvent)
    (hflush : Along (attempt FlushLogged.step)
      (Meets FlushLogged.FlushesAnswered) (.ok (FlushLogged.start tag)) events) :
    Along (attempt FlushLogged.step) (Meets FlushLogged.Quiet)
      (.ok (FlushLogged.start tag)) events := by
  have hstart : (FlushLogged.start tag).Ok := ⟨.nil, (fun _ h => nomatch h), fun _ h => nomatch h⟩
  refine hflush.attempt_of_invariant ?_ ?_ hstart
  · exact fun s event s' hok hmeets hstep => FlushLogged.Ok.step hok hmeets hstep
  · exact fun s event hok _ => FlushLogged.Ok.quietAt hok event

/-- A check of one call that needs no search. -/
def FlushLogged.isAnswered (s : FlushLogged) : FileEvent → Bool
  | .message chain mem => s.dev.held.all fun h =>
      flushes? (gather mem chain.readable) ≠ some (msgTag h.msg)
  | _ => true

theorem FlushLogged.flushesAnswered_of_isAnswered (s : FlushLogged) (event : FileEvent)
    (hcheck : s.isAnswered event = true) : s.FlushesAnswered event := by
  cases event with
  | message chain mem =>
    intro old hflush h hmem htag
    have hne := of_decide_eq_true (List.all_eq_true.mp hcheck h hmem)
    rw [hflush, htag] at hne
    exact hne rfl
  | supply | takeChanges => trivial

def askTagged (tag : U16) : TMsg → Bytes → FileEvent := posted .message tag replyRoom

/-- A read of `a` with tag 3 is parked as request 2. -/
def readTagged : List FileEvent :=
  [askTagged 1 .attach (putU32 0),
    askTagged 2 .walk (putU32 0 ++ putU32 1 ++ putU16 1 ++ putStr [0x61]),
    .supply 1 listingOfA ⟨0x80000000, 0x1000, fun _ => 0⟩,
    askTagged 3 .read (putU32 1 ++ putU64 0 ++ putU32 16)]

/-- The walk is flushed after its reply, the read is answered. -/
def flushWalk : List FileEvent := readTagged ++ [askTagged 4 .flush (putU16 2), supplyHi 2]

theorem run_quiet_flushWalk : passes (fun s => s.flushed = [1] ∧ s.owners = ([] : List Nat))
      (run (attempt FlushLogged.step) (.ok (FlushLogged.start [])) flushWalk) =
        true ∧
      Along (attempt FlushLogged.step) (Meets FlushLogged.Quiet)
        (.ok (FlushLogged.start [])) flushWalk := by
  refine ⟨by decide +kernel, run_quiet [] flushWalk ?_⟩
  refine Along.meets_of_checks FlushLogged.flushesAnswered_of_isAnswered ?_
  decide +kernel

/-- The parked read is flushed. -/
def flushRead : List FileEvent := readTagged ++ [askTagged 4 .flush (putU16 3)]

/-- The host's answer is written into the chain of a read that was flushed, under the tag
of the read. -/
theorem flushed_read_is_answered :
    ∃ s done dev mem, run (attempt FlushLogged.step) (.ok (FlushLogged.start []))
        flushRead = .ok s ∧ s.owners = [2] ∧ s.flushed = [2] ∧
      s.dev.supply 2 [0x68, 0x69] ⟨0x80000000, 0x1000, fun _ => 0⟩ =
        .ok (some done, dev, mem) ∧
      gather mem [⟨0x80000800, 13⟩] =
        frame (TMsg.read.code + 1) 3 (putU32 2 ++ [0x68, 0x69]) ∧
      ¬ s.Quiet (supplyHi 2) := by
  have hpasses : passes (fun s : FlushLogged => decide (s.owners = [2] ∧
        s.flushed = [2] ∧ s.dev.heldAt 2 = some 0) &&
        passes (fun out : Option (Nat × U16 × U32) × Virtio9p × GuestMem =>
          decide (out.1.isSome = true ∧ gather out.2.2 [⟨0x80000800, 13⟩] =
            frame (TMsg.read.code + 1) 3 (putU32 2 ++ [0x68, 0x69])))
          (s.dev.supply 2 [0x68, 0x69] ⟨0x80000000, 0x1000, fun _ => 0⟩))
      (run (attempt FlushLogged.step) (.ok (FlushLogged.start [])) flushRead) =
        true := by decide +kernel
  obtain ⟨s, hrun, hcheck⟩ := exists_of_passes hpasses
  obtain ⟨hlog, hsupply⟩ := Bool.and_eq_true_iff.mp hcheck
  obtain ⟨howners, hflushed, hfind⟩ := of_decide_eq_true hlog
  obtain ⟨⟨done?, dev, mem⟩, hsupply, hout⟩ := exists_of_passes hsupply
  obtain ⟨hdone, hreply⟩ := of_decide_eq_true hout
  obtain ⟨done, rfl⟩ := Option.isSome_iff_exists.mp hdone
  refine ⟨s, done, dev, mem, hrun, howners, hflushed, hsupply, hreply, fun hquiet => ?_⟩
  have howner : s.owners[0]? = some 2 := by rw [howners]; rfl
  have hmem : 2 ∈ s.flushed := by rw [hflushed]; exact List.mem_singleton_self _
  cases (hquiet 0 2 hfind howner hmem _ _ _ hsupply).1

end TabLinux
