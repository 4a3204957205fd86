/-
Messages and requests parked on the host.  A parked message is run again when the host's
answer is there; the device holds its chain until then.
-/
import Mathlib.Data.List.InsertIdx
import TabLinux.Completions
import TabLinux.P9Steps

namespace TabLinux

open Bytes

variable {d d' : Virtio9p} {msg : Bytes} {head : U16} {writable : List Buf}
  {reply : Option Bytes}

variable {mem mem' : GuestMem} {id : U32} {payload : Bytes}

/-- The type of a message that reaches a handler. -/
def msgType? (msg : Bytes) : Option TMsg :=
  if msg.length < 7 then none else TMsg.ofCode? (msg.getD 4 0)

/-- A message is dropped, not implemented, or handled. -/
theorem Virtio9p.dispatch_cases {reply : Bytes} (hdispatch : d.dispatch msg = .ok (reply, d')) :
    (msgType? msg = none ∧ d' = d) ∨
      ∃ ty out, msgType? msg = some ty ∧ d.handleMsg ty (msg.drop 7) = .ok out ∧
        (reply, d') = frameOutcome (msg.getD 4 0) (msgTag msg) out := by
  unfold dispatch at hdispatch
  unfold msgType?
  split at hdispatch
  · rename_i hlen
    cases hdispatch
    exact Or.inl ⟨if_pos hlen, rfl⟩
  rename_i hlen
  rw [if_neg hlen]
  dsimp only at hdispatch
  cases hty : TMsg.ofCode? (msg.getD 4 0) with
  | none =>
    rw [hty] at hdispatch
    refine Or.inl ⟨rfl, ?_⟩
    have hsnd := congrArg Prod.snd (Except.ok.inj hdispatch)
    rw [frameOutcome_snd] at hsnd
    exact hsnd.symm
  | some ty =>
    rw [hty] at hdispatch
    obtain ⟨out, hout, hdispatch⟩ := Results.bind_eq_ok hdispatch
    exact Or.inr ⟨ty, out, rfl, hout, (Except.ok.inj hdispatch).symm⟩

/-- The reply to a message is the framed outcome of its handler. -/
theorem Virtio9p.dispatch_of_handleMsg {ty : TMsg} {out : Outcome}
    (hty : msgType? msg = some ty) (hout : d.handleMsg ty (msg.drop 7) = .ok out) :
    d.dispatch msg = .ok (frameOutcome (msg.getD 4 0) (msgTag msg) out) := by
  unfold msgType? at hty
  split at hty
  · cases hty
  rename_i hlen
  unfold dispatch
  rw [if_neg hlen]
  dsimp only
  rw [hty]
  dsimp only
  rw [hout]
  rfl

/-- The device after a message. -/
inductive MsgStep (d : Virtio9p) (msg : Bytes) : Virtio9p → Prop
  | ignored : MsgStep d msg d
  | handled {ty : TMsg} {d' : Virtio9p} (hty : msgType? msg = some ty)
      (hstep : TreeStep d ty (msg.drop 7) d') : MsgStep d msg d'

theorem Virtio9p.dispatch_step {reply : Bytes}
    (hdispatch : d.dispatch msg = .ok (reply, d')) : MsgStep d msg d' := by
  rcases dispatch_cases hdispatch with ⟨-, rfl⟩ | ⟨ty, out, hty, hout, hframe⟩
  · exact .ignored
  have hsnd := congrArg Prod.snd hframe
  rw [frameOutcome_snd] at hsnd
  rw [show d' = out.2 from hsnd]
  exact .handled hty (handleMsg_step hout)

theorem MsgStep.rest (h : MsgStep d msg d') :
    d' = { d with
      fs := d'.fs
      dirtyChanges := d'.dirtyChanges
      deferPending := d'.deferPending } := by
  cases h with
  | ignored => rfl
  | handled _ hstep => exact hstep.rest

/-- The device after a chain was served: it replied, or it parked the chain. -/
inductive Served (d : Virtio9p) (head : U16) (writable : List Buf) (msg : Bytes) :
    Option Bytes → Virtio9p → Prop
  | replied {reply : Bytes} {d' : Virtio9p}
      (hdispatch : { d with deferPending := none }.dispatch msg = .ok (reply, d'))
      (hnone : d'.deferPending = none) : Served d head writable msg (some reply) d'
  | parked {reply : Bytes} {d' : Virtio9p} {defer : Defer}
      (hdispatch : { d with deferPending := none }.dispatch msg = .ok (reply, d'))
      (hdefer : d'.deferPending = some defer) :
      Served d head writable msg none (d'.park defer head writable msg)

theorem Virtio9p.serve_cases (hserve : d.serve head writable msg = .ok (reply, d')) :
    Served d head writable msg reply d' := by
  unfold serve at hserve
  obtain ⟨⟨answer, after⟩, hdispatch, hserve⟩ := Results.bind_eq_ok hserve
  dsimp only at hserve
  cases hdefer : after.deferPending with
  | some defer =>
    rw [hdefer] at hserve
    cases hserve
    exact .parked hdispatch hdefer
  | none =>
    rw [hdefer] at hserve
    cases hserve
    exact .replied hdispatch hdefer

/-- A chain that is served is answered, or held at the end of the list. -/
theorem Served.held (h : Served d head writable msg reply d') :
    d'.deferred = d.deferred ∧
      ((reply.isSome = true ∧ d'.held = d.held) ∨
        (reply = none ∧ ∃ held : Held, held.head = head ∧ d'.held = d.held ++ [held])) := by
  cases h with
  | replied hdispatch =>
    rw [(Virtio9p.dispatch_step hdispatch).rest]
    exact ⟨rfl, Or.inl ⟨rfl, rfl⟩⟩
  | parked hdispatch =>
    rw [(Virtio9p.dispatch_step hdispatch).rest]
    exact ⟨rfl, Or.inr ⟨rfl, _, rfl, rfl⟩⟩

theorem Served.length_le (h : Served d head writable msg reply d') :
    d.held.length ≤ d'.held.length := by
  obtain ⟨-, ⟨-, hheld⟩ | ⟨-, held, -, hheld⟩⟩ := h.held
  · exact Nat.le_of_eq (congrArg List.length hheld.symm)
  · rw [hheld, List.length_append]
    exact Nat.le_add_right _ _

def Held.chain (h : Held) : HeldChain := ⟨h.id, 0, h.head⟩

namespace Virtio9p

theorem handle_held {chain : Chain} {written : U32}
    (hidle : d.deferred = false) (hcall : d.handle chain mem = .ok (written, d', mem')) :
    ∃ id, d'.held.map Held.chain = d.held.map Held.chain ++
      if d'.deferred then [⟨id, 0, chain.head⟩] else [] := by
  unfold handle at hcall
  split at hcall
  · cases hcall
    refine ⟨0, ?_⟩
    rw [hidle, if_neg Bool.false_ne_true, List.append_nil]
  obtain ⟨⟨reply, after⟩, hserve, hcall⟩ := Results.bind_eq_ok hcall
  obtain ⟨hdeferred, hheld⟩ := (serve_cases hserve).held
  cases reply with
  | none =>
    cases hcall
    obtain ⟨hsome, -⟩ | ⟨-, held, hhead, hheld⟩ := hheld
    · cases hsome
    refine ⟨held.id, ?_⟩
    rw [hheld, List.map_append, ← hhead]
    rfl
  | some reply =>
    cases hcall
    obtain ⟨-, hheld⟩ | ⟨hnone, -⟩ := hheld
    · refine ⟨0, ?_⟩
      rw [hdeferred, hidle, hheld, if_neg Bool.false_ne_true, List.append_nil]
    · cases hnone

/-- The device between an answer of the host and the second run of the message. -/
def filledFor (d : Virtio9p) (i : Nat) (h : Held) (payload : Bytes) : Virtio9p :=
  { d with held := d.held.eraseIdx i, fs := d.fs.fill h.kind h.target payload }

/-- What an answer of the host does: nothing for an unknown request, and otherwise the
tree is filled in and the chain of the request served again. -/
theorem answer_cases
    {answered : Option (Held × Bytes)} (hanswer : d.answer id payload = .ok (answered, d')) :
    (d.held.findIdx? (fun h => h.id = id) = none ∧ answered = none ∧ d' = d) ∨
      ∃ i h reply, d.held.findIdx? (fun h => h.id = id) = some i ∧ d.held[i]? = some h ∧
        answered = reply.map (fun reply => (h, reply)) ∧
        Served (d.filledFor i h payload) h.head h.writable h.msg reply d' := by
  unfold answer at hanswer
  cases hfind : d.held.findIdx? (fun h => h.id = id) with
  | none =>
    rw [hfind] at hanswer
    cases hanswer
    exact Or.inl ⟨rfl, rfl, rfl⟩
  | some i =>
    have hlt : i < d.held.length := (List.findIdx?_eq_some_iff_getElem.mp hfind).1
    have hget : d.held[i]? = some d.held[i] := List.getElem?_eq_getElem hlt
    rw [hfind] at hanswer
    dsimp only at hanswer
    rw [hget] at hanswer
    obtain ⟨out, hserve, hanswer⟩ := Results.bind_eq_ok hanswer
    cases hanswer
    exact Or.inr ⟨i, d.held[i], out.1, rfl, hget, rfl, serve_cases hserve⟩

theorem supply_held {done : Option (Nat × U16 × U32)} (hidle : d.deferred = false)
    (hcall : d.supply id payload mem = .ok (done, d', mem')) :
    d'.deferred = false ∧ Supplied (d.held.map Held.chain) id done (d'.held.map Held.chain) := by
  unfold supply at hcall
  obtain ⟨⟨answered, after⟩, hanswer, hdone⟩ := Results.bind_eq_ok hcall
  have hmap : (d.held.map Held.chain).findIdx? (fun chain => chain.id = id) =
      d.held.findIdx? (fun h => h.id = id) := List.findIdx?_map
  rcases answer_cases hanswer with
    ⟨hnone, rfl, rfl⟩ | ⟨i, h, reply, hfind, hget, rfl, hserved⟩
  · cases hdone
    exact ⟨hidle, .unknown (hmap.trans hnone)⟩
  obtain ⟨hdeferred, hheld⟩ := hserved.held
  have hchain : (d.held.map Held.chain)[i]? = some h.chain := by
    rw [List.getElem?_map, hget, Option.map_some]
  cases reply with
  | none =>
    cases hdone
    obtain ⟨hsome, -⟩ | ⟨-, held, hhead, hheld⟩ := hheld
    · cases hsome
    refine ⟨hdeferred.trans hidle, ?_⟩
    rw [hheld, List.map_append, filledFor, ← List.eraseIdx_map]
    have hagain : held.chain = { h.chain with id := held.id } := by
      rw [Held.chain, hhead]
      rfl
    rw [List.map_singleton, hagain]
    exact .again (hmap.trans hfind) hchain
  | some reply =>
    cases hdone
    obtain ⟨-, hheld⟩ | ⟨hnone, -⟩ := hheld
    · refine ⟨hdeferred.trans hidle, ?_⟩
      rw [hheld, filledFor, ← List.eraseIdx_map]
      exact .finished (hmap.trans hfind) hchain
    · cases hnone

end Virtio9p

instance : HoldsChains Virtio9p where
  held d := d.held.map Held.chain
  Idle d := d.deferred = false
  handle_held {dev dev' queue chain mem mem' written} hidle hqueue hdone := by
    refine ⟨rfl, ?_⟩
    have hzero : queue = 0 := Nat.lt_one_iff.mp hqueue
    rw [hzero]
    exact Virtio9p.handle_held hidle hdone
  supply_held hidle hdone := Virtio9p.supply_held hidle hdone
  numQueues_handle _ := rfl
  configWrite_held _ _ hidle := ⟨hidle, rfl⟩
  poll_held _ hidle := ⟨hidle, rfl⟩
  hasRx_held hidle := ⟨hidle, rfl⟩
  fillRx_held _ _ hidle := ⟨hidle, rfl⟩

end TabLinux
