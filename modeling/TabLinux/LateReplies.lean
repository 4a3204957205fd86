/-
Answers of the host that arrive late.  While a request waits, the guest goes on: it
writes to the file the request is for, or takes entries off a directory that was listed
already.  Which answers undo that is settled exactly.
-/
import TabLinux.FileEdits
import TabLinux.Library.Runs

namespace TabLinux

open Bytes Runs

variable {s : GuestLogged} {mem : GuestMem} {id : U32} {payload : Bytes}

variable {s' : GuestLogged} {fs : P9Fs} {target : Nat}

/-- A shared folder with a log of what the guest did to it. -/
structure GuestLogged where
  dev : Virtio9p
  /-- For every parked request, in their order, the bytes that the guest wrote since it
  was issued: by file and position. -/
  written : List (Nat → Nat → Bool)
  /-- The entries that the guest took off a listed directory, unless they are back. -/
  removed : Nat → Bytes → Bool

/-- A shared folder that nobody has used yet. -/
def GuestLogged.start (tag : Bytes) : GuestLogged :=
  ⟨Virtio9p.newLazy tag, [], fun _ _ => false⟩

/-- The bytes of one file that an edit leaves written by the guest. -/
def FileEdit.note (edit : FileEdit) (written : Nat → Bool) (k : Nat) : Bool :=
  match edit with
  | .write offset data => written k || (offset ≤ k && k < offset + data.length)
  | .truncate size => written k && k < size

/-- The written bytes after a message. -/
def GuestLogged.noted (s : GuestLogged) (msg : Bytes) : List (Nat → Nat → Bool) :=
  match s.dev.edit? msg with
  | none => s.written
  | some (ino, edit) =>
      s.written.map fun written => Function.update written ino (edit.note (written ino))

/-- A request that was just parked starts with no written bytes. -/
def logNew (written : List (Nat → Nat → Bool)) (held : List Held) :
    List (Nat → Nat → Bool) :=
  written ++ List.replicate (held.length - written.length) fun _ _ => false

/-- The guest hands over a chain, or the host answers a request. -/
inductive GuestEvent where
  | message (chain : Chain) (mem : GuestMem)
  | supply (id : U32) (payload : Bytes) (mem : GuestMem)

/-- The position of a parked request. -/
def Virtio9p.heldAt (d : Virtio9p) (id : U32) : Option Nat :=
  d.held.findIdx? fun h => h.id = id

namespace GuestLogged

/-- An entry is removed by a message after which it is no longer there. -/
def removedBy (s : GuestLogged) (dev : Virtio9p) (dir : Nat) (name : Bytes) :
    Bool :=
  (dev.fs.child dir name).isNone && (s.removed dir name ||
    ((s.dev.fs.node dir).loaded && (s.dev.fs.child dir name).isSome))

def step (s : GuestLogged) : GuestEvent → Except DevicePanic GuestLogged
  | .message chain mem => do
      let (_, dev, _) ← s.dev.handle chain mem
      .ok ⟨dev, logNew (s.noted (gather mem chain.readable)) dev.held, s.removedBy dev⟩
  | .supply id payload mem => do
      let (_, dev, _) ← s.dev.supply id payload mem
      let kept :=
        match s.dev.heldAt id with
        | some i => s.written.eraseIdx i
        | none => s.written
      .ok ⟨dev, logNew kept dev.held,
        fun dir name => (dev.fs.child dir name).isNone && s.removed dir name⟩

/-- After a panic nothing happens any more. -/
def next (s : Except DevicePanic GuestLogged) (event : GuestEvent) :
    Except DevicePanic GuestLogged :=
  s >>= fun s => s.step event

/-- A condition on the events that the device meets before it panics. -/
def Meets (cond : GuestLogged → GuestEvent → Prop)
    (s : Except DevicePanic GuestLogged) (event : GuestEvent) : Prop :=
  ∀ state, s = .ok state → cond state event

/-- Did the guest write this byte after the request at a position was issued? -/
def writtenSince (s : GuestLogged) (i ino k : Nat) : Bool :=
  (s.written.getD i fun _ _ => false) ino k

/-- An answer changes no byte that the guest wrote after the request was issued, and
brings back no entry that the guest removed from a listed directory. -/
def NoLostUpdate (s : GuestLogged) : GuestEvent → Prop
  | .message _ _ => True
  | .supply id payload mem =>
      ∃ done dev mem', s.dev.supply id payload mem = .ok (done, dev, mem') ∧
        (∀ i, s.dev.heldAt id = some i → ∀ ino k, s.writtenSince i ino k = true →
          (dev.fs.node ino).data[k]? = (s.dev.fs.node ino).data[k]?) ∧
        ∀ dir name, s.removed dir name = true → dev.fs.child dir name = none

/-- The answer agrees with what the guest did meanwhile: the contents of a file with the
bytes the guest wrote, a listing with the entries it removed. -/
def AnswerAgrees (s : GuestLogged) : GuestEvent → Prop
  | .message _ _ => True
  | .supply id payload _ =>
      ∀ i h, s.dev.heldAt id = some i → s.dev.held[i]? = some h →
        (h.kind = .readFile → ∀ k, s.writtenSince i h.target k = true →
          payload[k]? = (s.dev.fs.node h.target).data[k]?) ∧
        (h.kind = .listDir → ∀ entry ∈ listingEntries payload,
          s.removed h.target entry.name = true → Reserved entry.name)

/-- The device is well formed, there is one list of written bytes for every parked
request, and what was removed is not there. -/
structure Ok (s : GuestLogged) : Prop where
  wf : s.dev.Wf
  aligned : s.written.length = s.dev.held.length
  gone : ∀ dir name, s.removed dir name = true → s.dev.fs.child dir name = none

end GuestLogged

theorem length_logNew {written : List (Nat → Nat → Bool)} {held : List Held}
    (hle : written.length ≤ held.length) : (logNew written held).length = held.length := by
  rw [logNew, List.length_append, List.length_replicate]
  omega

namespace GuestLogged

theorem length_noted (s : GuestLogged) (msg : Bytes) :
    (s.noted msg).length = s.written.length := by
  unfold noted
  split
  · rfl
  · rw [List.length_map]

theorem Ok.message (hok : s.Ok) {chain : Chain}
    (hstep : s.step (.message chain mem) = .ok s') : s'.Ok := by
  obtain ⟨⟨written, dev, mem'⟩, hhandle, hstep⟩ := Results.bind_eq_ok hstep
  cases hstep
  have hgone : ∀ dir name, s.removedBy dev dir name = true → dev.fs.child dir name = none := by
    intro dir name hremoved
    exact Option.isNone_iff_eq_none.mp (Bool.and_eq_true_iff.mp hremoved).1
  have hlen : (s.noted (gather mem chain.readable)).length = s.dev.held.length :=
    (s.length_noted _).trans hok.aligned
  rcases Virtio9p.handle_cases hhandle with ⟨-, rfl⟩ | ⟨after, hserved, rfl⟩ | ⟨_, hserved, -⟩
  · exact ⟨hok.wf, length_logNew (Nat.le_of_eq hlen), hgone⟩
  · have hwf := hserved.wf hok.wf
    exact ⟨⟨hwf.tree, hwf.held⟩, length_logNew (hlen ▸ hserved.length_le), hgone⟩
  · exact ⟨hserved.wf hok.wf, length_logNew (hlen ▸ hserved.length_le), hgone⟩

theorem Ok.supply (hok : s.Ok) (hstep : s.step (.supply id payload mem) = .ok s') : s'.Ok := by
  obtain ⟨answered, dev, done, mem', hanswer, hsupply, -⟩ := hok.wf.supply_cases id payload mem
  dsimp only [step] at hstep
  rw [hsupply] at hstep
  cases hstep
  refine ⟨hok.wf.answer hanswer, length_logNew ?_, ?_⟩
  · rcases Virtio9p.answer_cases hanswer with
      ⟨hnone, -, rfl⟩ | ⟨i, h, reply, hfind, hget, -, hserved⟩
    · rw [Virtio9p.heldAt, hnone]
      exact Nat.le_of_eq hok.aligned
    rw [Virtio9p.heldAt, hfind]
    refine Nat.le_trans (Nat.le_of_eq ?_) hserved.length_le
    rw [Virtio9p.filledFor, List.length_eraseIdx, List.length_eraseIdx, hok.aligned]
  · intro dir name hremoved
    exact Option.isNone_iff_eq_none.mp (Bool.and_eq_true_iff.mp hremoved).1

/-- The log of a device that did not panic. -/
def Sound (s : Except DevicePanic GuestLogged) : Prop :=
  ∀ state, s = .ok state → state.Ok

theorem sound_next (s : Except DevicePanic GuestLogged) (event : GuestEvent)
    (hs : GuestLogged.Sound s) : GuestLogged.Sound (next s event) := by
  intro state hnext
  cases s with
  | error panic => cases hnext
  | ok s =>
    cases event with
    | message chain mem => exact (hs s rfl).message hnext
    | supply id payload mem => exact (hs s rfl).supply hnext

theorem sound_start (tag : Bytes) : GuestLogged.Sound (.ok (start tag)) := by
  rintro state ⟨⟩
  exact ⟨Virtio9p.newLazy_wf tag, rfl, fun _ _ h => by cases h⟩

end GuestLogged

/-- An answer keeps a set of bytes if it is for another file or has the same bytes. -/
theorem P9Fs.fill_keeps_bytes (htarget : target < fs.inodes.length)
    (kind : ReqKind) (payload : Bytes) (bytes : Nat → Nat → Prop) :
    (∀ ino k, bytes ino k →
        ((fs.fill kind target payload).node ino).data[k]? = (fs.node ino).data[k]?) ↔
      (kind = .readFile → ∀ k, bytes target k → payload[k]? = (fs.node target).data[k]?) := by
  simp only [fs.fill_data htarget]
  constructor
  · intro hkept hkind k hbyte
    have hself := hkept target k hbyte
    rw [if_pos ⟨hkind, rfl⟩] at hself
    exact hself
  · intro hagrees ino k hbyte
    split
    · rename_i hself
      obtain ⟨hkind, rfl⟩ := hself
      exact hagrees hkind k hbyte
    · rfl

/-- An answer keeps a set of names missing if it does not list them. -/
theorem P9Fs.fill_keeps_missing
    (htarget : target < fs.inodes.length) (kind : ReqKind) (payload : Bytes)
    {names : Nat → Bytes → Prop}
    (hmissing : ∀ dir name, names dir name → fs.child dir name = none) :
    (∀ dir name, names dir name → (fs.fill kind target payload).child dir name = none) ↔
      (kind = .listDir → ∀ entry ∈ listingEntries payload,
        names target entry.name → Reserved entry.name) := by
  simp only [fs.fill_child htarget]
  constructor
  · intro hkept hkind entry hentry hname
    exact (hkept target entry.name hname).2 hkind rfl entry hentry rfl
  intro hagrees dir name hname
  refine ⟨hmissing dir name hname, ?_⟩
  rintro hkind rfl entry hentry rfl
  exact hagrees hkind entry hentry hname

theorem GuestLogged.Ok.noLostUpdate_iff (hok : s.Ok) (event : GuestEvent) :
    s.NoLostUpdate event ↔ s.AnswerAgrees event := by
  cases event with
  | message chain mem => exact Iff.rfl
  | supply id payload mem =>
    obtain ⟨answered, dev, done, mem', hanswer, hsupply, -⟩ := hok.wf.supply_cases id payload mem
    have hresult : s.NoLostUpdate (.supply id payload mem) ↔
        (∀ i, s.dev.heldAt id = some i → ∀ ino k, s.writtenSince i ino k = true →
          (dev.fs.node ino).data[k]? = (s.dev.fs.node ino).data[k]?) ∧
        ∀ dir name, s.removed dir name = true → dev.fs.child dir name = none := by
      constructor
      · rintro ⟨done', dev', mem'', hsupply', hsafe⟩
        rw [hsupply] at hsupply'
        cases hsupply'
        exact hsafe
      · intro hsafe
        exact ⟨done, dev, mem', hsupply, hsafe⟩
    rw [hresult]
    dsimp only [GuestLogged.AnswerAgrees]
    rcases Virtio9p.answer_cases hanswer with
      ⟨hnone, -, rfl⟩ | ⟨i, h, reply, hfind, hget, -, hserved⟩
    · rw [Virtio9p.heldAt, hnone]
      exact ⟨fun _ _ _ hi => (by cases hi), fun _ => ⟨fun _ hi => (by cases hi), hok.gone⟩⟩
    have hinodes := hok.wf.answer_inodes hget hserved
    have htarget := (hok.wf.held h (List.mem_of_getElem? hget)).target
    have hbytes := P9Fs.fill_keeps_bytes htarget h.kind payload
      fun ino k => s.writtenSince i ino k = true
    have hnames := P9Fs.fill_keeps_missing htarget h.kind payload hok.gone
    rw [Virtio9p.heldAt, hfind]
    simp only [P9Fs.node_congr hinodes, P9Fs.child_congr hinodes, Option.some.injEq,
      forall_eq', hbytes, hnames]
    constructor
    · rintro hboth _ _ rfl hget'
      rw [hget] at hget'
      cases hget'
      exact hboth
    · intro hall
      exact hall i h rfl hget

/-- In every run, the answers of the host lose no update of the guest exactly if they
agree with what the guest did since. -/
theorem run_noLostUpdate_iff (tag : Bytes) (events : List GuestEvent) :
    Along GuestLogged.next (GuestLogged.Meets GuestLogged.NoLostUpdate)
        (.ok (GuestLogged.start tag)) events ↔
      Along GuestLogged.next (GuestLogged.Meets GuestLogged.AnswerAgrees)
        (.ok (GuestLogged.start tag)) events := by
  refine along_iff_of_invariant GuestLogged.sound_next ?_ (GuestLogged.sound_start tag)
  intro s event hs
  exact forall_congr' fun state => forall_congr' fun hstate =>
    (hs state hstate).noLostUpdate_iff event

/-- A message in a page of guest memory, in a chain with the given room for the reply. -/
def posted {α : Type} (event : Chain → GuestMem → α) (tag : U16) (room : List Buf) (ty : TMsg)
    (body : Bytes) : α :=
  let msg := frame ty.code tag body
  event ⟨0, [⟨0x80000000, BitVec.ofNat 32 msg.length⟩], room⟩
    ⟨0x80000000, 0x1000, fun i => msg.getD i 0⟩

def replyRoom : List Buf := [⟨0x80000800, 64⟩]

def ask : TMsg → Bytes → GuestEvent := posted .message 0 []

/-- An answer of the host, with no guest memory to reply into. -/
def reply (id : U32) (payload : Bytes) : GuestEvent :=
  .supply id payload ⟨0x80000000, 0, fun _ => 0⟩

/-- The listing of a directory with one file `a` of two bytes. -/
def listingOfA : Bytes := putStr [0x61] ++ [0] ++ putU64 2

/-- Attach fid 0 to the root and walk from it to `a` as fid 1: request 1 lists the root. -/
def walkToA : List GuestEvent :=
  [ask .attach (putU32 0), ask .walk (putU32 0 ++ putU32 1 ++ putU16 1 ++ putStr [0x61])]

/-- Two reads of `a` are parked; after the first is answered with `hi`, the guest writes
`X` at the front. -/
def writeBetweenAnswers : List GuestEvent :=
  walkToA ++ [reply 1 listingOfA,
    ask .read (putU32 1 ++ putU64 0 ++ putU32 16), ask .read (putU32 1 ++ putU64 0 ++ putU32 16),
    reply 2 [0x68, 0x69], ask .write (putU32 1 ++ putU64 0 ++ putU32 1 ++ [0x58])]

/-- A second request lists the root; after the first is answered, the guest removes
`a`. -/
def unlinkBetweenAnswers : List GuestEvent :=
  walkToA ++ [ask .readdir (putU32 0 ++ putU64 0 ++ putU32 64), reply 1 listingOfA,
    ask .unlinkat (putU32 0 ++ putStr [0x61])]

namespace GuestLogged

/-- Does the answer replace this byte, which the guest wrote since? -/
def losesByte (s : GuestLogged) (id : U32) (payload : Bytes)
    (mem : GuestMem) (ino k : Nat) : Bool :=
  match s.dev.supply id payload mem, s.dev.heldAt id with
  | .ok (_, dev, _), some i => s.writtenSince i ino k &&
      (dev.fs.node ino).data[k]? != (s.dev.fs.node ino).data[k]?
  | _, _ => false

/-- Does the answer bring back this entry, which the guest removed? -/
def restores (s : GuestLogged) (id : U32) (payload : Bytes)
    (mem : GuestMem) (dir : Nat) (name : Bytes) : Bool :=
  match s.dev.supply id payload mem with
  | .ok (_, dev, _) => s.removed dir name && (dev.fs.child dir name).isSome
  | .error _ => false

theorem not_noLostUpdate_of_losesByte {ino k : Nat}
    (hloses : s.losesByte id payload mem ino k = true) :
    ¬ s.NoLostUpdate (.supply id payload mem) := by
  rintro ⟨done, dev, mem', hsupply, hbytes, -⟩
  unfold losesByte at hloses
  rw [hsupply] at hloses
  cases hheld : s.dev.heldAt id with
  | none =>
    rw [hheld] at hloses
    cases hloses
  | some i =>
    rw [hheld] at hloses
    obtain ⟨hwritten, hchanged⟩ := Bool.and_eq_true_iff.mp hloses
    exact bne_iff_ne.mp hchanged (hbytes i hheld ino k hwritten)

theorem not_noLostUpdate_of_restores {dir : Nat} {name : Bytes}
    (hrestores : s.restores id payload mem dir name = true) :
    ¬ s.NoLostUpdate (.supply id payload mem) := by
  rintro ⟨done, dev, mem', hsupply, -, hentries⟩
  unfold restores at hrestores
  rw [hsupply] at hrestores
  obtain ⟨hremoved, hback⟩ := Bool.and_eq_true_iff.mp hrestores
  rw [hentries dir name hremoved] at hback
  cases hback

end GuestLogged

/-- The second answer for a file overwrites what the guest wrote after the first, and the
second listing of a directory brings back the file that the guest removed after the
first. -/
theorem late_answer_undoes_guest :
    (∃ s, run GuestLogged.next (.ok (GuestLogged.start [])) writeBetweenAnswers = .ok s ∧
      (s.dev.fs.node 1).data = [0x58, 0x69] ∧ ¬ s.NoLostUpdate (reply 3 [0x68, 0x69])) ∧
    ∃ s, run GuestLogged.next (.ok (GuestLogged.start [])) unlinkBetweenAnswers = .ok s ∧
      s.dev.fs.child 0 [0x61] = none ∧ ¬ s.NoLostUpdate (reply 2 listingOfA) := by
  have hwrite : (match run GuestLogged.next (.ok (GuestLogged.start []))
        writeBetweenAnswers with
      | .ok s => decide ((s.dev.fs.node 1).data = [0x58, 0x69]) &&
          s.losesByte 3 [0x68, 0x69] ⟨0x80000000, 0, fun _ => 0⟩ 1 0
      | .error _ => false) = true := by decide +kernel
  have hunlink : (match run GuestLogged.next (.ok (GuestLogged.start []))
        unlinkBetweenAnswers with
      | .ok s => decide (s.dev.fs.child 0 [0x61] = none) &&
          s.restores 2 listingOfA ⟨0x80000000, 0, fun _ => 0⟩ 0 [0x61]
      | .error _ => false) = true := by decide +kernel
  constructor
  · split at hwrite
    · rename_i s hs
      obtain ⟨hdata, hloses⟩ := Bool.and_eq_true_iff.mp hwrite
      exact ⟨s, hs, of_decide_eq_true hdata, GuestLogged.not_noLostUpdate_of_losesByte hloses⟩
    · cases hwrite
  · split at hunlink
    · rename_i s hs
      obtain ⟨hgone, hrestores⟩ := Bool.and_eq_true_iff.mp hunlink
      exact ⟨s, hs, of_decide_eq_true hgone, GuestLogged.not_noLostUpdate_of_restores hrestores⟩
    · cases hunlink

end TabLinux
