/-
One file of a lazy shared folder that stands for contents on the host.  Beside the device
runs the contents the file should have: those of the host with the guest's edits applied
in order.  Reads and the write-back show them as long as no edit meets a stub whose bytes
are not there and no answer of the host overtakes an edit.
-/
import TabLinux.LateReplies

namespace TabLinux

open Bytes Runs Virtio9p

variable {dev : Virtio9p} {mem : GuestMem} {id : U32} {payload : Bytes}
  {event : FileEvent}

variable {chain : Chain}

/-- A shared folder with the contents that one of its files should have. -/
structure FileLogged where
  dev : Virtio9p
  contents : Bytes

/-- The guest hands over a chain, the host answers a request, or the host drains the
changes. -/
inductive FileEvent where
  | message (chain : Chain) (mem : GuestMem)
  | supply (id : U32) (payload : Bytes) (mem : GuestMem)
  | takeChanges

namespace FileLogged

/-- The contents of file `ino` after a message. -/
def edited (ino : Nat) (s : FileLogged) (msg : Bytes) : Bytes :=
  match s.dev.edit? msg with
  | some (j, edit) => if j = ino then edit.apply s.contents else s.contents
  | none => s.contents

def step (ino : Nat) (s : FileLogged) : FileEvent → Except DevicePanic FileLogged
  | .message chain mem => do
      let (_, dev, _) ← s.dev.handle chain mem
      .ok ⟨dev, s.edited ino (gather mem chain.readable)⟩
  | .supply id payload mem => do
      let (_, dev, _) ← s.dev.supply id payload mem
      .ok ⟨dev, s.contents⟩
  | .takeChanges => .ok ⟨s.dev.takeChanges.2, s.contents⟩

/-- After a panic nothing happens any more. -/
def next (ino : Nat) (s : Except DevicePanic FileLogged) (event : FileEvent) :
    Except DevicePanic FileLogged :=
  s >>= fun s => s.step ino event

/-- A condition on the events that the device meets before it panics. -/
def Meets (cond : FileLogged → FileEvent → Prop)
    (s : Except DevicePanic FileLogged) (event : FileEvent) : Prop :=
  ∀ state, s = .ok state → cond state event

end FileLogged

/-- File `ino` of a lazy folder is a stub that no write-back record names. -/
structure Virtio9p.Stub (d : Virtio9p) (ino : Nat) : Prop where
  wf : d.Wf
  isLazy : d.isLazy = true
  lt : ino < d.fs.inodes.length
  file : (d.fs.node ino).isDir = false
  unloaded : (d.fs.node ino).loaded = false
  unmarked : ∀ path, (path, ChangeOp.write) ∈ d.dirtyChanges → d.fs.resolve path ≠ some ino

namespace FileLogged

/-- The messages are reads, writes and changes of the size of the file; the host answers
a read of the file with its contents. -/
def OnFile (host : Bytes) (ino : Nat) (s : FileLogged) : FileEvent → Prop
  | .message chain mem =>
      (∃ offset count, s.dev.reads? (gather mem chain.readable) = some (ino, offset, count)) ∨
        ∃ edit, s.dev.edit? (gather mem chain.readable) = some (ino, edit)
  | .supply id payload _ => ∀ i h, s.dev.heldAt id = some i → s.dev.held[i]? = some h →
      h.kind = .readFile → h.target = ino → payload = host
  | .takeChanges => True

/-- Every reply to a read of the file, at once or when the host has answered, and every
write-back of the file show the contents it should have. -/
def ShowsContents (ino : Nat) (s : FileLogged) : FileEvent → Prop
  | .message chain mem => ∀ offset count,
      s.dev.reads? (gather mem chain.readable) = some (ino, offset, count) →
      ∃ n dev mem', s.dev.handle chain mem = .ok (n, dev, mem') ∧
        (dev.held.length = s.dev.held.length + 1 ∨ (n, mem') = putReply mem chain.writable
          (readReply (gather mem chain.readable) s.contents offset count))
  | .supply id payload mem => ∃ done dev mem',
      s.dev.supply id payload mem = .ok (done, dev, mem') ∧
        ∀ i h offset count, s.dev.heldAt id = some i → s.dev.held[i]? = some h →
          s.dev.reads? h.msg = some (ino, offset, count) →
          done = none ∨ ∃ n, done = some (0, h.head, n) ∧ (n, mem') = putReply mem h.writable
            (readReply h.msg s.contents offset count)
  | .takeChanges => ∀ change ∈ s.dev.takeChanges.1, change.op = .write →
      s.dev.fs.resolve change.path = some ino → change.data = s.contents

/-- An edit finds all bytes of the file there, or comes out the same on the stub and
leaves nothing to be fetched; an answer for a file whose bytes are there already has the
contents the file should have. -/
def KeepsContents (ino : Nat) (s : FileLogged) : FileEvent → Prop
  | .message chain mem => ∀ edit, s.dev.edit? (gather mem chain.readable) = some (ino, edit) →
      (s.dev.fs.node ino).loaded = true ∨
        (edit.apply (s.dev.fs.node ino).data = edit.apply s.contents ∧
          (edit.loads = true ∨ edit.apply s.contents = s.contents))
  | .supply id payload _ => ∀ i h, s.dev.heldAt id = some i → s.dev.held[i]? = some h →
      h.kind = .readFile → h.target = ino → (s.dev.fs.node ino).loaded = true → payload = s.contents
  | .takeChanges => True

/-- The file shows the contents it should have: its bytes if they are all there or are to
be written back, and otherwise those of the host. -/
structure Ok (host : Bytes) (ino : Nat) (s : FileLogged) : Prop where
  wf : s.dev.Wf
  isLazy : s.dev.isLazy = true
  lt : ino < s.dev.fs.inodes.length
  file : (s.dev.fs.node ino).isDir = false
  loaded : (s.dev.fs.node ino).loaded = true → (s.dev.fs.node ino).data = s.contents
  stub : (s.dev.fs.node ino).loaded = false → s.contents = host
  marked : ∀ path, (path, ChangeOp.write) ∈ s.dev.dirtyChanges →
    s.dev.fs.resolve path = some ino → (s.dev.fs.node ino).data = s.contents

end FileLogged

variable {ino : Nat}

theorem Virtio9p.Stub.ok {d : Virtio9p} (h : d.Stub ino) (host : Bytes) :
    FileLogged.Ok host ino ⟨d, host⟩ := by
  refine ⟨h.wf, h.isLazy, h.lt, h.file, ?_, fun _ => rfl, ?_⟩
  · intro hloaded
    rw [show _ = false from h.unloaded] at hloaded
    cases hloaded
  · intro path hmark hpath
    exact absurd hpath (h.unmarked path hmark)

section

variable {host : Bytes} {ino : Nat} {s : FileLogged}

namespace FileLogged

/-- A change that leaves the file and the write-back log alone. -/
theorem Ok.of_same (hok : s.Ok host ino) (hwf : dev.Wf)
    (hlazy : dev.isLazy = s.dev.isLazy) (hdirty : dev.dirtyChanges = s.dev.dirtyChanges)
    (hextends : s.dev.fs.Extends dev.fs)
    (hdir : (dev.fs.node ino).isDir = (s.dev.fs.node ino).isDir)
    (hloaded : (dev.fs.node ino).loaded = (s.dev.fs.node ino).loaded)
    (hdata : (dev.fs.node ino).data = (s.dev.fs.node ino).data) :
    FileLogged.Ok host ino ⟨dev, s.contents⟩ := by
  refine ⟨hwf, hlazy.trans hok.isLazy, Nat.lt_of_lt_of_le hok.lt hextends.length_le,
    hdir.trans hok.file, ?_, ?_, ?_⟩
  · intro h
    exact hdata.trans (hok.loaded (hloaded ▸ h))
  · intro h
    exact hok.stub (hloaded ▸ h)
  intro path hmark hpath
  rw [show dev.dirtyChanges = _ from hdirty] at hmark
  exact hdata.trans (hok.marked path hmark (hextends.resolve hok.wf.tree hok.lt hpath))

/-- A change after which the file has the bytes it should have. -/
theorem Ok.of_data (hok : s.Ok host ino) (hwf : dev.Wf)
    (hlazy : dev.isLazy = s.dev.isLazy) (hle : s.dev.fs.inodes.length ≤ dev.fs.inodes.length)
    (hdir : (dev.fs.node ino).isDir = (s.dev.fs.node ino).isDir) {contents : Bytes}
    (hdata : (dev.fs.node ino).data = contents)
    (hstub : (dev.fs.node ino).loaded = false → contents = host) :
    FileLogged.Ok host ino ⟨dev, contents⟩ :=
  ⟨hwf, hlazy.trans hok.isLazy, Nat.lt_of_lt_of_le hok.lt hle, hdir.trans hok.file,
    fun _ => hdata, hstub, fun _ _ _ => hdata⟩

/-- The mark that a chain is held says nothing about the file. -/
theorem Ok.deferred (hok : s.Ok host ino) (deferred : Bool) :
    FileLogged.Ok host ino ⟨{ s.dev with deferred := deferred }, s.contents⟩ :=
  ⟨⟨hok.wf.tree, hok.wf.held⟩, hok.isLazy, hok.lt, hok.file, hok.loaded, hok.stub, hok.marked⟩

theorem Ok.served (hok : s.Ok host ino) {head : U16} {writable : List Buf}
    {msg : Bytes} {reply : Option Bytes}
    (hserved : Served s.dev head writable msg reply dev)
    (hon : (∃ offset count, s.dev.reads? msg = some (ino, offset, count)) ∨
      ∃ edit, s.dev.edit? msg = some (ino, edit))
    (hkeeps : ∀ edit, s.dev.edit? msg = some (ino, edit) →
      (s.dev.fs.node ino).loaded = true ∨
        (edit.apply (s.dev.fs.node ino).data = edit.apply s.contents ∧
          (edit.loads = true ∨ edit.apply s.contents = s.contents))) :
    FileLogged.Ok host ino ⟨dev, s.edited ino msg⟩ := by
  have hwf := hserved.wf hok.wf
  rcases hon with ⟨offset, count, hreads⟩ | ⟨edit, hedit⟩
  · obtain ⟨hty, -⟩ := reads?_eq_some hreads
    obtain ⟨hinodes, hdirty⟩ := hserved.of_parks hty rfl
    have hedited : s.edited ino msg = s.contents := by
      rw [edited, edit?, hty]
    have hnode := P9Fs.node_congr hinodes ino
    rw [hedited]
    exact hok.of_same hwf hserved.isLazy hdirty
      ((P9Fs.Extends.refl _).of_inodes hinodes) (congrArg _ hnode) (congrArg _ hnode)
      (congrArg _ hnode)
  · obtain ⟨hdata, hloaded⟩ := hserved.edit hedit hok.lt
    have hedited : s.edited ino msg = edit.apply s.contents := by
      rw [edited, hedit]
      exact if_pos rfl
    rw [hedited]
    refine hok.of_data hwf hserved.isLazy hserved.inodes_le (hserved.isDir hok.wf.tree hok.lt) ?_ ?_
    · rw [hdata]
      rcases hkeeps edit hedit with hall | ⟨hsame, -⟩
      · rw [hok.loaded hall]
      · exact hsame
    · intro hstub
      rw [hloaded, Bool.or_eq_false_iff] at hstub
      rcases hkeeps edit hedit with hall | ⟨-, hloads | hsame⟩
      · rw [hall] at hstub
        cases hstub.1
      · rw [hloads] at hstub
        cases hstub.2
      · exact hsame.trans (hok.stub hstub.1)

/-- A message that reads or edits a file is not too short for a handler. -/
theorem OnFile.not_short
    (hon : s.OnFile host ino (.message chain mem)) : ¬ sgLen chain.readable < 7 := by
  intro hshort
  have htype : msgType? (gather mem chain.readable) = none := by
    rw [msgType?, gather, length_resize, if_pos hshort]
  rcases hon with ⟨offset, count, hreads⟩ | ⟨edit, hedit⟩
  · rw [reads?, htype] at hreads
    cases hreads
  · rw [edit?, htype] at hedit
    cases hedit

variable (hok : s.Ok host ino)
include hok

theorem Ok.message {mem' : GuestMem} {n : U32} (hon : s.OnFile host ino (.message chain mem))
    (hkeeps : s.KeepsContents ino (.message chain mem))
    (hhandle : s.dev.handle chain mem = .ok (n, dev, mem')) :
    FileLogged.Ok host ino ⟨dev, s.edited ino (gather mem chain.readable)⟩ := by
  rcases handle_cases hhandle with
    ⟨hshort, -⟩ | ⟨after, hserved, rfl⟩ | ⟨reply, hserved, -⟩
  · exact absurd hshort hon.not_short
  · exact (hok.served hserved hon hkeeps).deferred true
  · exact hok.served hserved hon hkeeps

theorem Ok.answer {answered : Option (Held × Bytes)}
    (hon : s.OnFile host ino (.supply id payload mem))
    (hkeeps : s.KeepsContents ino (.supply id payload mem))
    (hanswer : s.dev.answer id payload = .ok (answered, dev)) :
    FileLogged.Ok host ino ⟨dev, s.contents⟩ := by
  have hwf := hok.wf.answer hanswer
  rcases answer_cases hanswer with
    ⟨-, -, rfl⟩ | ⟨i, h, reply, hfind, hget, -, hserved⟩
  · exact hok
  have hheld := hok.wf.held h (List.mem_of_getElem? hget)
  obtain ⟨ty, hty, hparks⟩ := hheld.msg
  obtain ⟨hinodes, hdirty⟩ := hserved.of_parks hty hparks
  have hextends := (P9Fs.fill_extends hheld.target h.kind payload).of_inodes hinodes
  have hdir : (dev.fs.node ino).isDir = (s.dev.fs.node ino).isDir := by
    rw [P9Fs.node_congr hinodes ino]
    exact P9Fs.fill_isDir hheld.target h.kind payload hok.lt
  by_cases hino : h.target = ino
  · have hkind : h.kind = .readFile := by
      have hwants := hheld.isDir
      rw [hino, hok.file] at hwants
      cases hkind : h.kind with
      | readFile => rfl
      | listDir =>
        rw [hkind] at hwants
        cases hwants
    have hnode : dev.fs.node ino = (s.dev.fs.node ino).filled payload := by
      rw [P9Fs.node_congr hinodes ino, filledFor, hkind, hino]
      exact P9Fs.node_setNode_self _ _ hok.lt
    have hpayload : payload = s.contents := by
      cases hloaded : (s.dev.fs.node ino).loaded with
      | true => exact hkeeps i h hfind hget hkind hino hloaded
      | false => exact (hon i h hfind hget hkind hino).trans (hok.stub hloaded).symm
    refine hok.of_data hwf hserved.isLazy hextends.length_le hdir ?_ ?_
    · rw [hnode]
      exact hpayload
    intro hstub
    rw [hnode] at hstub
    cases hstub
  · have hother : ∀ {α : Type} (g : Inode → α),
        (∀ node children, g { node with children := children } = g node) →
        g (dev.fs.node ino) = g (s.dev.fs.node ino) := by
      intro α g hg
      rw [P9Fs.node_congr hinodes ino]
      exact P9Fs.fill_other hheld.target h.kind payload hok.lt (Ne.symm hino) g hg
    exact hok.of_same hwf hserved.isLazy hdirty hextends hdir
      (hother Inode.loaded fun _ _ => rfl) (hother Inode.data fun _ _ => rfl)

theorem Ok.shows_message (chain : Chain) (mem : GuestMem) :
    s.ShowsContents ino (.message chain mem) := by
  intro offset count hreads
  obtain ⟨hty, -⟩ := reads?_eq_some hreads
  obtain ⟨⟨n, dev, mem'⟩, hhandle⟩ := s.dev.handle_ok_of_parks hty rfl
  refine ⟨n, dev, mem', hhandle, ?_⟩
  rcases handle_cases hhandle with
    ⟨hshort, -⟩ | ⟨after, hserved, rfl⟩ | ⟨reply, hserved, hput⟩
  · have hon : s.OnFile host ino (.message chain mem) := Or.inl ⟨offset, count, hreads⟩
    exact absurd hshort hon.not_short
  · obtain ⟨-, ⟨hsome, -⟩ | ⟨-, held, -, hheld⟩⟩ := hserved.held
    · cases hsome
    · refine Or.inl ?_
      rw [hheld, List.length_append, List.length_singleton]
  · obtain ⟨hloaded, rfl⟩ := hserved.read hreads hok.file
    rw [hok.loaded (hloaded hok.isLazy)] at hput
    exact Or.inr hput

theorem Ok.shows_supply (hon : s.OnFile host ino (.supply id payload mem))
    (hkeeps : s.KeepsContents ino (.supply id payload mem)) :
    s.ShowsContents ino (.supply id payload mem) := by
  obtain ⟨answered, dev, done, mem', hanswer, hsupply, hdone⟩ := hok.wf.supply_cases id payload mem
  refine ⟨done, dev, mem', hsupply, ?_⟩
  intro i h offset count hfind hget hreads
  have hafter := hok.answer hon hkeeps hanswer
  rcases answer_cases hanswer with
    ⟨hnone, -⟩ | ⟨j, h', reply, hfind', hget', rfl, hserved⟩
  · rw [heldAt, hnone] at hfind
    cases hfind
  rw [heldAt, hfind'] at hfind
  cases hfind
  rw [hget'] at hget
  cases hget
  cases reply with
  | none => exact Or.inl hdone
  | some reply =>
    obtain ⟨n, hdone, hput⟩ := hdone
    refine Or.inr ⟨n, hdone, ?_⟩
    have hheld := hok.wf.held h (List.mem_of_getElem? hget')
    obtain ⟨hty, -⟩ := reads?_eq_some hreads
    obtain ⟨hinodes, -⟩ := hserved.of_parks hty rfl
    have hnode := P9Fs.node_congr hinodes ino
    have hreads' : (s.dev.filledFor i h payload).reads? h.msg = some (ino, offset, count) := by
      have hfids := P9Fs.fill_fids hheld.target h.kind payload
      rw [← hreads, reads?, reads?, filledFor, hfids]
    obtain ⟨hloaded, rfl⟩ := hserved.read hreads' (hnode ▸ hafter.file)
    rw [← hnode] at hloaded hput
    have hlazy : (s.dev.filledFor i h payload).isLazy = true := hok.isLazy
    rw [hafter.loaded (hloaded hlazy)] at hput
    exact hput

end FileLogged

/-- The write-back of a file carries the bytes it has. -/
theorem P9Fs.fileChange?_write {fs : P9Fs} {path : Bytes} {op : ChangeOp}
    {change : FileChange} (hchange : fs.fileChange? path op = some change)
    (hop : change.op = .write) (hpath : fs.resolve change.path = some ino) :
    op = .write ∧ change.path = path ∧ change.data = (fs.node ino).data := by
  cases op with
  | write =>
    unfold fileChange? at hchange
    dsimp only at hchange
    split at hchange
    · rename_i j hj
      split at hchange
      · cases hchange
      cases hchange
      rw [hj] at hpath
      cases hpath
      exact ⟨rfl, rfl, rfl⟩
    · cases hchange
  | delete | mkdir =>
    cases hchange
    cases hop

theorem FileLogged.Ok.shows_takeChanges (hok : s.Ok host ino) :
    s.ShowsContents ino .takeChanges := by
  intro change hchange hop hpath
  obtain ⟨⟨path, op⟩, hmark, hrecord⟩ := List.mem_filterMap.mp hchange
  obtain ⟨rfl, rfl, hdata⟩ := P9Fs.fileChange?_write hrecord hop hpath
  exact hdata.trans (hok.marked _ hmark hpath)

theorem FileLogged.Ok.shows (hok : s.Ok host ino) (hon : s.OnFile host ino event)
    (hkeeps : s.KeepsContents ino event) : s.ShowsContents ino event := by
  cases event with
  | message chain mem => exact hok.shows_message chain mem
  | supply id payload mem => exact hok.shows_supply hon hkeeps
  | takeChanges => exact hok.shows_takeChanges

theorem FileLogged.Ok.step (hok : s.Ok host ino) {s' : FileLogged}
    (hon : s.OnFile host ino event) (hkeeps : s.KeepsContents ino event)
    (hstep : s.step ino event = .ok s') : s'.Ok host ino := by
  cases event with
  | message chain mem =>
    obtain ⟨out, hhandle, hstep⟩ := Results.bind_eq_ok hstep
    cases hstep
    exact hok.message hon hkeeps hhandle
  | supply id payload mem =>
    obtain ⟨answered, dev, done, mem', hanswer, hsupply, -⟩ := hok.wf.supply_cases id payload mem
    dsimp only [FileLogged.step] at hstep
    rw [hsupply] at hstep
    cases hstep
    exact hok.answer hon hkeeps hanswer
  | takeChanges =>
    cases hstep
    exact ⟨⟨hok.wf.tree, hok.wf.held⟩, hok.isLazy, hok.lt, hok.file, hok.loaded, hok.stub,
      fun _ h => by cases h⟩

end

/-- The file of a device that did not panic. -/
def FileLogged.Sound (host : Bytes) (ino : Nat) (s : Except DevicePanic FileLogged) :
    Prop :=
  ∀ state, s = .ok state → state.Ok host ino

/-- From a stub that stands for contents on the host, a run of reads, edits, answers and
write-backs shows these contents with the edits applied, if every edit finds the bytes
there and no answer overtakes one. -/
theorem run_showsContents {d : Virtio9p} {ino : Nat} (hstub : d.Stub ino) (host : Bytes)
    (events : List FileEvent)
    (hon : Along (FileLogged.next ino) (FileLogged.Meets (FileLogged.OnFile host ino))
      (.ok ⟨d, host⟩) events)
    (hkeeps : Along (FileLogged.next ino) (FileLogged.Meets (FileLogged.KeepsContents ino))
      (.ok ⟨d, host⟩) events) :
    Along (FileLogged.next ino) (FileLogged.Meets (FileLogged.ShowsContents ino))
      (.ok ⟨d, host⟩) events := by
  have hstart : FileLogged.Sound host ino (.ok ⟨d, host⟩) := by
    rintro s ⟨⟩
    exact hstub.ok host
  refine Along.of_invariant ?_ ?_ hstart (hon.and hkeeps)
  · intro s event hok hcond state hnext
    cases s with
    | error panic => cases hnext
    | ok s => exact (hok s rfl).step (hcond.1 s rfl) (hcond.2 s rfl) hnext
  · intro s event hok hcond state hstate
    exact (hok state hstate).shows (hcond.1 state hstate) (hcond.2 state hstate)

/-- The folder after the guest has walked to the stub of `a`, inode 1, as fid 1. -/
def folderWithA : Virtio9p :=
  match run GuestLogged.next (.ok (GuestLogged.start [])) (walkToA ++ [reply 1 listingOfA]) with
  | .ok s => s.dev
  | .error _ => newLazy []

theorem folderWithA_stub : folderWithA.Stub 1 := by
  have hsound := run_invariant GuestLogged.sound_next (GuestLogged.sound_start [])
    (walkToA ++ [reply 1 listingOfA])
  have hdirty : folderWithA.dirtyChanges = [] := by decide +kernel
  refine ⟨?_, by decide +kernel, by decide +kernel, by decide +kernel, by decide +kernel, ?_⟩
  · unfold folderWithA
    split
    · rename_i s hs
      exact (hsound s hs).wf
    · exact newLazy_wf []
  · intro path hmark
    rw [hdirty] at hmark
    cases hmark

def askFile : TMsg → Bytes → FileEvent := posted .message 0 replyRoom

/-- Read up to 16 bytes from the front of `a`. -/
def readA : FileEvent := askFile .read (putU32 1 ++ putU64 0 ++ putU32 16)

/-- Write `X` at the front of `a`. -/
def writeA : FileEvent := askFile .write (putU32 1 ++ putU64 0 ++ putU32 1 ++ [0x58])

/-- Cut `a` off after one byte. -/
def truncateA : FileEvent :=
  askFile .setattr (putU32 1 ++ putU32 8 ++ putU32 0 ++ putU32 0 ++ putU32 0 ++ putU64 1)

/-- The host answers with `hi`. -/
def supplyHi (id : U32) : FileEvent :=
  .supply id [0x68, 0x69] ⟨0x80000000, 0x1000, fun _ => 0⟩

variable {s : FileLogged}

namespace FileLogged

/-- A check of one event that needs no search. -/
def isOnFile (host : Bytes) (ino : Nat) (s : FileLogged) : FileEvent → Bool
  | .message chain mem =>
      (s.dev.reads? (gather mem chain.readable)).any (fun read => read.1 = ino) ||
        (s.dev.edit? (gather mem chain.readable)).any (fun edit => edit.1 = ino)
  | .supply _ payload _ => payload = host
  | .takeChanges => true

theorem onFile_of_isOnFile {host : Bytes}
    (hcheck : s.isOnFile host ino event = true) : s.OnFile host ino event := by
  cases event with
  | message chain mem =>
    simp only [isOnFile, Bool.or_eq_true, Option.any_eq_true, decide_eq_true_eq] at hcheck
    rcases hcheck with ⟨⟨j, offset, count⟩, hread, rfl⟩ | ⟨⟨j, edit⟩, hedit, rfl⟩
    · exact Or.inl ⟨offset, count, hread⟩
    · exact Or.inr ⟨edit, hedit⟩
  | supply id payload mem => exact fun _ _ _ _ _ _ => of_decide_eq_true hcheck
  | takeChanges => trivial

/-- An edit of the loaded file, a read, or the first answer of the host. -/
def isTame (ino : Nat) (s : FileLogged) : FileEvent → Bool
  | .message chain mem =>
      (s.dev.edit? (gather mem chain.readable)).isNone || (s.dev.fs.node ino).loaded
  | .supply _ _ _ => !(s.dev.fs.node ino).loaded
  | .takeChanges => true

theorem keepsContents_of_isTame
    (hcheck : s.isTame ino event = true) : s.KeepsContents ino event := by
  cases event with
  | message chain mem =>
    intro edit hedit
    rcases Bool.or_eq_true_iff.mp hcheck with hnone | hall
    · rw [hedit] at hnone
      cases hnone
    · exact Or.inl hall
  | supply id payload mem =>
    intro i h _ _ _ _ hall
    rw [isTame, hall] at hcheck
    cases hcheck
  | takeChanges => trivial

/-- A check of all events of a run. -/
def holdsAlong (ino : Nat) (check : FileLogged → FileEvent → Bool) (s : FileLogged)
    (events : List FileEvent) : Prop :=
  Along (next ino)
    (fun s event => (match s with | .ok s => check s event | .error _ => true) = true)
    (.ok s) events

end FileLogged

instance (ino : Nat) (check : FileLogged → FileEvent → Bool) (s : FileLogged)
    (events : List FileEvent) : Decidable (s.holdsAlong ino check events) :=
  inferInstanceAs (Decidable (Along _ _ _ _))

theorem FileLogged.meets_of_holdsAlong {check : FileLogged → FileEvent → Bool}
    {cond : FileLogged → FileEvent → Prop} {events : List FileEvent}
    (hcheck : ∀ s event, check s event = true → cond s event)
    (hruns : s.holdsAlong ino check events) :
    Along (next ino) (FileLogged.Meets cond) (.ok s) events := by
  refine Along.mono ?_ hruns
  rintro _ event h state rfl
  exact hcheck state event h

theorem run_showsContents_readFirst :
    Along (FileLogged.next 1) (FileLogged.Meets (FileLogged.ShowsContents 1))
      (.ok ⟨folderWithA, [0x68, 0x69]⟩) [readA, supplyHi 2, writeA, readA, .takeChanges] := by
  refine run_showsContents folderWithA_stub [0x68, 0x69] _ ?_ ?_
  · refine FileLogged.meets_of_holdsAlong (fun _ _ => FileLogged.onFile_of_isOnFile) ?_
    decide +kernel
  · refine FileLogged.meets_of_holdsAlong (fun _ _ => FileLogged.keepsContents_of_isTame) ?_
    decide +kernel

/-- Does the answer complete a read with a reply of another length? -/
def FileLogged.misreads (ino : Nat) (s : FileLogged) (id : U32) (payload : Bytes)
    (mem : GuestMem) : Bool :=
  match s.dev.heldAt id, s.dev.supply id payload mem with
  | some i, .ok (some (_, _, n), _, _) =>
      match s.dev.held[i]? with
      | some h =>
          match s.dev.reads? h.msg with
          | some (j, offset, count) => j = ino &&
              n != (putReply mem h.writable (readReply h.msg s.contents offset count)).1
          | none => false
      | none => false
  | _, _ => false

theorem FileLogged.not_shows_of_misreads (hmisreads : s.misreads ino id payload mem = true) :
    ¬ s.ShowsContents ino (.supply id payload mem) := by
  rintro ⟨done, dev, mem', hsupply, hall⟩
  unfold misreads at hmisreads
  rw [hsupply] at hmisreads
  split at hmisreads
  · rename_i i queue head n _ _ hheld hdone
    cases hdone
    split at hmisreads
    · rename_i h hget
      split at hmisreads
      · rename_i j offset count hreads
        obtain ⟨hino, hne⟩ := Bool.and_eq_true_iff.mp hmisreads
        rw [of_decide_eq_true hino] at hreads
        obtain hnone | ⟨n', hsome, hput⟩ := hall i h offset count hheld hget hreads
        · cases hnone
        · cases hsome
          exact bne_iff_ne.mp hne (congrArg Prod.fst hput)
      · cases hmisreads
    · cases hmisreads
  · cases hmisreads

/-- The stub of `a` stands for `hi`.  A write of `X` to it is written back as `X`, not as
`Xi`; after it is cut off to `h`, a read still fetches `hi`. -/
theorem edit_of_stub_forgets_host_contents :
    folderWithA.Stub 1 ∧
    (Along (FileLogged.next 1) (FileLogged.Meets (FileLogged.OnFile [0x68, 0x69] 1))
        (.ok ⟨folderWithA, [0x68, 0x69]⟩) [writeA, .takeChanges] ∧
      ∃ s, run (FileLogged.next 1) (.ok ⟨folderWithA, [0x68, 0x69]⟩) [writeA] = .ok s ∧
        s.contents = [0x58, 0x69] ∧ s.dev.takeChanges.1 = [⟨.write, [0x61], [0x58]⟩] ∧
        ¬ s.ShowsContents 1 .takeChanges) ∧
    Along (FileLogged.next 1) (FileLogged.Meets (FileLogged.OnFile [0x68, 0x69] 1))
        (.ok ⟨folderWithA, [0x68, 0x69]⟩) [truncateA, readA, supplyHi 2] ∧
      ∃ s, run (FileLogged.next 1) (.ok ⟨folderWithA, [0x68, 0x69]⟩) [truncateA, readA] =
          .ok s ∧
        s.contents = [0x68] ∧ ¬ s.ShowsContents 1 (supplyHi 2) := by
  have hwrite : (match run (FileLogged.next 1) (.ok ⟨folderWithA, [0x68, 0x69]⟩) [writeA] with
      | .ok s => decide (s.contents = [0x58, 0x69] ∧
          s.dev.takeChanges.1 = [⟨.write, [0x61], [0x58]⟩] ∧ s.dev.fs.resolve [0x61] = some 1)
      | .error _ => false) = true := by decide +kernel
  have htruncate : (match run (FileLogged.next 1) (.ok ⟨folderWithA, [0x68, 0x69]⟩)
        [truncateA, readA] with
      | .ok s => decide (s.contents = [0x68]) &&
          s.misreads 1 2 [0x68, 0x69] ⟨0x80000000, 0x1000, fun _ => 0⟩
      | .error _ => false) = true := by decide +kernel
  refine ⟨folderWithA_stub, ⟨?_, ?_⟩, ?_, ?_⟩
  · refine FileLogged.meets_of_holdsAlong (fun _ _ => FileLogged.onFile_of_isOnFile) ?_
    decide +kernel
  · split at hwrite
    · rename_i s hs
      obtain ⟨hcontents, hchanges, hpath⟩ := of_decide_eq_true hwrite
      refine ⟨s, hs, hcontents, hchanges, fun hshows => ?_⟩
      have hdata := hshows ⟨.write, [0x61], [0x58]⟩ (hchanges ▸ List.mem_singleton_self _) rfl hpath
      rw [hcontents] at hdata
      cases hdata
    · cases hwrite
  · refine FileLogged.meets_of_holdsAlong (fun _ _ => FileLogged.onFile_of_isOnFile) ?_
    decide +kernel
  split at htruncate
  · rename_i s hs
    obtain ⟨hcontents, hmisreads⟩ := Bool.and_eq_true_iff.mp htruncate
    exact ⟨s, hs, of_decide_eq_true hcontents, FileLogged.not_shows_of_misreads hmisreads⟩
  · cases htruncate

end TabLinux
