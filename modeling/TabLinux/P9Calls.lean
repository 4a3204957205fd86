/-
The calls of the transport and of the host on a shared folder: what each of them does to
the tree, the log and the requests, in terms of the edits of its message.
-/
import TabLinux.LazyFile
import TabLinux.P9Tree

namespace TabLinux

open Bytes

variable {d d' : Virtio9p}

/-- The device after a call, unless it panics. -/
def Virtio9p.call (d : Virtio9p) : FileEvent → Except DevicePanic Virtio9p
  | .message chain mem => (d.handle chain mem).map fun out => out.2.1
  | .supply id payload mem => (d.supply id payload mem).map fun out => out.2.1
  | .takeChanges => .ok d.takeChanges.2

/-- What a call does. -/
inductive Called (d : Virtio9p) : FileEvent → Virtio9p → Prop
  /-- A message that is too short. -/
  | short {chain : Chain} {mem : GuestMem} (hshort : sgLen chain.readable < 7) :
      Called d (.message chain mem) d
  /-- An answer that nobody waits for. -/
  | unknown {id : U32} {payload : Bytes} {mem : GuestMem}
      (hnone : d.heldAt id = none) : Called d (.supply id payload mem) d
  | message {chain : Chain} {mem : GuestMem} {reply : Option Bytes} {after : Virtio9p}
      (deferred : Bool)
      (hserved : Served d chain.head chain.writable (gather mem chain.readable) reply after) :
      Called d (.message chain mem) { after with deferred := deferred }
  | answer {id : U32} {payload : Bytes} {mem : GuestMem} {i : Nat} {h : Held}
      {reply : Option Bytes} {d' : Virtio9p} (hfind : d.heldAt id = some i)
      (hget : d.held[i]? = some h)
      (hserved : Served (d.filledFor i h payload) h.head h.writable h.msg reply d') :
      Called d (.supply id payload mem) d'
  | takeChanges : Called d .takeChanges d.takeChanges.2

theorem Virtio9p.call_cases {event : FileEvent}
    (hcall : d.call event = .ok d') : Called d event d' := by
  cases event with
  | message chain mem =>
    obtain ⟨⟨n, after, mem'⟩, hhandle, hcall⟩ := Results.bind_eq_ok hcall
    cases hcall
    rcases handle_cases hhandle with ⟨hshort, rfl⟩ | ⟨parked, hserved, rfl⟩ | ⟨reply, hserved, -⟩
    · exact .short hshort
    · exact .message true hserved
    · exact .message after.deferred hserved
  | supply id payload mem =>
    obtain ⟨⟨_, after, _⟩, hsupply, hafter⟩ := Results.bind_eq_ok hcall
    obtain ⟨⟨answered, after⟩, hanswer, hsupply⟩ := Results.bind_eq_ok hsupply
    have hafter : after = d' := by
      cases answered <;> cases hsupply <;> exact Except.ok.inj hafter
    subst hafter
    rcases answer_cases hanswer with
      ⟨hnone, -, rfl⟩ | ⟨i, h, reply, hfind, hget, -, hserved⟩
    · exact .unknown hnone
    · exact .answer hfind hget hserved
  | takeChanges =>
    cases hcall
    exact .takeChanges

/-- The device with no request left behind by an earlier handler. -/
def Virtio9p.cleared (d : Virtio9p) : Virtio9p := { d with deferPending := none }

/-- What a message leaves for the host: nothing, or one request with its chain parked. -/
inductive Requested (d : Virtio9p) (head : U16) (writable : List Buf) (msg : Bytes)
    (d' : Virtio9p) : Option Defer → Prop
  | none (hreqs : d'.hostReqs = d.hostReqs) (hheld : d'.held = d.held) :
      Requested d head writable msg d' none
  | some (defer : Defer)
      (hreqs : d'.hostReqs =
        d.hostReqs ++ [⟨d.nextId, defer.kind, defer.path, defer.off, defer.len⟩])
      (hheld : d'.held = d.held ++ [⟨d.nextId, head, writable, msg, defer.kind, defer.target⟩]) :
      Requested d head writable msg d' (some defer)

/-- A chain that is served: the edit of its message, and what is left for the host. -/
theorem Served.edits {head : U16} {writable : List Buf}
    {msg : Bytes} {reply : Option Bytes} (h : Served d head writable msg reply d') :
    ∃ after, (after = d.cleared ∨
        ∃ ty, msgType? msg = some ty ∧ TreeEdit d.cleared ty (msg.drop 7) after) ∧
      d'.fs = after.fs ∧ d'.dirtyChanges = after.dirtyChanges ∧
      Requested d head writable msg d' after.deferPending := by
  have hedit : ∀ {after answer}, d.cleared.dispatch msg = .ok (answer, after) →
      (after = d.cleared ∨
        ∃ ty, msgType? msg = some ty ∧ TreeEdit d.cleared ty (msg.drop 7) after) := by
    intro after answer hdispatch
    rcases Virtio9p.dispatch_cases hdispatch with ⟨-, rfl⟩ | ⟨ty, out, hty, hout, hframe⟩
    · exact Or.inl rfl
    have hsnd := congrArg Prod.snd hframe
    rw [frameOutcome_snd] at hsnd
    rw [show after = out.2 from hsnd]
    exact Or.inr ⟨ty, hty, Virtio9p.handleMsg_edit hout⟩
  cases h with
  | replied hdispatch hnone =>
    have hrest := (Virtio9p.dispatch_step hdispatch).rest
    refine ⟨d', hedit hdispatch, rfl, rfl, ?_⟩
    rw [hnone]
    refine .none ?_ ?_
    · rw [hrest]
    · rw [hrest]
  | @parked answer after defer hdispatch hdefer =>
    have hrest := (Virtio9p.dispatch_step hdispatch).rest
    refine ⟨after, hedit hdispatch, rfl, rfl, ?_⟩
    rw [hdefer]
    refine .some defer ?_ ?_
    · rw [hrest]
      rfl
    · rw [hrest]
      rfl

end TabLinux
