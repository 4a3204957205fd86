/-
Replies of the shared folder: what a handler can return, how long it is by the fields of the
message and the tree, and how it is framed and put into the buffers of its chain.
-/
import TabLinux.FileEdits
import TabLinux.ScatterLists

namespace TabLinux

open Bytes

variable {d d' : Virtio9p} {ty : TMsg} {c msg body reply : Bytes} {out : Outcome}

/-- A handler fails, parks the request, or has a body.  Nothing else changes before it
fails. -/
inductive Answers (d : Virtio9p) (ty : TMsg) (c : Bytes) : Outcome → Prop
  | fail (errno : Errno) : Answers d ty c (d.fail errno)
  | park (defer : Defer) : Answers d ty c (.error .defer, { d with deferPending := some defer })
  | reply {body : Bytes} {d' : Virtio9p} (hlen : ty.parks = false → body.length ≤ 153) :
      Answers d ty c (d'.reply body)

theorem Handled.answers (h : Handled d c ty out) : Answers d ty c out := by
  cases h with
  | fail errno => exact .fail errno
  | park => exact .park _
  | reply hlen | bind _ _ hlen => exact .reply hlen
  | session _ hlen => exact .reply fun _ => hlen
  | unbind | chmod | truncate | unlink => exact .reply fun _ => Nat.zero_le _
  | createFile | createDir | write => exact .reply fun _ => by simp

/-- The tables, the message size, the counter and the log are those before a request. -/
structure Virtio9p.Untouched (d d' : Virtio9p) : Prop where
  inodes : d'.fs.inodes = d.fs.inodes
  fids : d'.fs.fids = d.fs.fids
  msize : d'.fs.msize = d.fs.msize
  dirty : d'.fs.dirty = d.fs.dirty
  log : d'.dirtyChanges = d.dirtyChanges

/-- A handler that returns an error, or parks the request, has changed nothing.  Nor do the
types of message that have no handler. -/
theorem Virtio9p.untouched_of_error (d : Virtio9p) :
    (∀ ty c out errno, d.handleMsg ty c = .ok out → out.1 = .error errno → d.Untouched out.2) ∧
      ∀ msg reply d', msgType? msg = none → d.dispatch msg = .ok (reply, d') → d.Untouched d' := by
  constructor
  · intro ty c out errno hout herror
    cases (handleMsg_handled hout).answers with
    | fail | park => exact ⟨rfl, rfl, rfl, rfl, rfl⟩
    | reply => cases herror
  · intro msg reply d' hty hdispatch
    rcases dispatch_cases hdispatch with ⟨-, rfl⟩ | ⟨ty, -, hsome, -⟩
    · exact ⟨rfl, rfl, rfl, rfl, rfl⟩
    · cases hty.symm.trans hsome

/-- A message with its own length in front, the tag, and one of the two types of reply. -/
structure Framed (msg reply : Bytes) : Prop where
  size : ofLe (reply.take 4) = reply.length
  tag : msgTag reply = msgTag msg
  type : reply.getD 4 0 = msg.getD 4 0 + 1 ∨ reply.getD 4 0 = rlerror

section

variable (ty : Byte) (tag : U16)

theorem length_frame (body : Bytes) : (frame ty tag body).length = 7 + body.length := by
  simp [frame]
  omega

theorem frame_size (hlen : 7 + body.length < 2 ^ 32) :
    ofLe ((frame ty tag body).take 4) = (frame ty tag body).length := by
  have htake : (frame ty tag body).take 4 = putU32 (BitVec.ofNat 32 (7 + body.length)) :=
    List.take_left' (length_putU32 _)
  rw [htake, putU32, ofLe_toLe, BitVec.toNat_ofNat, length_frame]
  omega

theorem frame_tag (body : Bytes) : msgTag (frame ty tag body) = tag := by
  have hdrop : (frame ty tag body).drop 5 = putU16 tag ++ body := by
    rw [frame, ← List.singleton_append, ← List.append_assoc]
    exact List.drop_left' (by simp)
  rw [msgTag, hdrop, List.take_left' (length_putU16 tag), putU16, ofLe_toLe]
  apply BitVec.eq_of_toNat_eq
  rw [BitVec.toNat_ofNat]
  omega

theorem frame_type (body : Bytes) : (frame ty tag body).getD 4 0 = ty := by
  rw [frame, List.getD_eq_getElem?_getD, List.getElem?_append_right (by simp)]
  simp

end

/-- A framed outcome is the empty reply of a parked request, or a frame. -/
theorem Answers.framed (h : Answers d ty c out)
    (hframe : (reply, d') = frameOutcome (msg.getD 4 0) (msgTag msg) out) :
    reply = [] ∧ d'.deferPending.isSome = true ∨
      (reply.length < 2 ^ 32 → Framed msg reply) := by
  unfold frameOutcome at hframe
  split at hframe
  · rename_i hsome
    cases hframe
    exact Or.inl ⟨rfl, hsome⟩
  refine Or.inr fun hfits => ?_
  have herror : ∀ errno : Errno, Framed msg (frame rlerror (msgTag msg) (putU32 errno.code)) :=
    fun errno => ⟨frame_size _ _ (by simp), frame_tag _ _ _, Or.inr (frame_type _ _ _)⟩
  cases h with
  | fail errno =>
    cases hframe
    exact herror errno
  | park =>
    cases hframe
    exact herror .defer
  | reply =>
    cases hframe
    rw [length_frame] at hfits
    exact ⟨frame_size _ _ hfits, frame_tag _ _ _, Or.inl (frame_type _ _ _)⟩

/-- As many sizes as there is room for, one after the other. -/
def fitting (room : Nat) : List Nat → Nat
  | [] => 0
  | size :: sizes => if size ≤ room then size + fitting (room - size) sizes else 0

theorem P9Fs.length_direntsFrom (fs : P9Fs) (offset : U64) (count : Nat)
    (entries : List (Bytes × Nat × Bool)) (cookie : Nat) (data : Bytes) :
    (fs.direntsFrom offset count entries cookie data).length = data.length +
      fitting (count - data.length)
        ((entries.drop (offset.toNat + 1 - cookie)).map fun entry => 24 + entry.1.length) := by
  induction entries generalizing cookie data with
  | nil => simp [direntsFrom, fitting]
  | cons entry rest ih =>
    rw [direntsFrom]
    split
    · rw [ih, show offset.toNat + 1 - cookie = offset.toNat + 1 - (cookie + 1) + 1 by omega,
        List.drop_succ_cons]
    have hentry : ∀ qid cookie : Bytes, ∀ kind, qid.length = 13 → cookie.length = 8 →
        (data ++ qid ++ cookie ++ [kind] ++ putStr entry.1).length =
          data.length + (24 + entry.1.length) := by
      intro qid cookie kind hqid hcookie
      simp [hqid, hcookie]
      omega
    rw [show offset.toNat + 1 - cookie = 0 by omega, List.drop_zero, List.map_cons, fitting]
    split
    · rw [if_neg (by omega), Nat.add_zero]
    · rw [ih, hentry _ _ _ (length_putQid _ _) (length_putU64 _),
        if_pos (show 24 + entry.1.length ≤ count - data.length by omega), Nat.sub_add_eq,
        show offset.toNat + 1 - (cookie + 1) = 0 by omega, List.drop_zero, Nat.add_assoc]

/-- The names that a walk has found. -/
def Walk.found : Walk → Nat
  | .malformed | .unlisted _ => 0
  | .ended _ qids => qids.length

namespace Virtio9p

/-- What a read is for: an inode that is not of the wrong kind and need not be fetched first,
with the offset and the count. -/
def opened? (d : Virtio9p) (wrong : Inode → Bool) (c : Bytes) : Option (Nat × U64 × U32) :=
  (parseTread c).bind fun fields => (d.fs.fids fields.1).bind fun ino =>
    if wrong (d.fs.node ino) then none
    else if d.isLazy && !(d.fs.node ino).loaded then none
    else some (ino, fields.2)

/-- The length of a reply that reads the tree, by the fields of the message: the bytes of a
file behind the offset, the entries of a directory as they fit, or a qid for each name that is
found.  No other reply has more than 160 bytes. -/
def replyLength (d : Virtio9p) (c : Bytes) : TMsg → Nat
  | .read => (d.opened? Inode.isDir c).elim 0 fun (ino, offset, count) =>
      11 + min count.toNat ((d.fs.node ino).data.length - offset.toNat)
  | .readdir => (d.opened? (fun node => !node.isDir) c).elim 0 fun (ino, offset, count) =>
      11 + fitting count.toNat
        (((d.fs.dirEntries ino).drop offset.toNat).map fun entry => 24 + entry.1.length)
  | .walk =>
      match (do
        let (fid, c) ← curU32 c
        let (newfid, c) ← curU32 c
        let (nwname, c) ← curU16 c
        some (fid, newfid, nwname.toNat, c) : Option _) with
      | none => 0
      | some (fid, _, nwname, c) => (d.fs.fids fid).elim 0 fun start =>
          9 + 13 * (d.walkNames nwname c start []).found
  | _ => 0

def AsksAtMost (d : Virtio9p) (limit : Nat) (msg : Bytes) : Prop :=
  ∀ ty, msgType? msg = some ty → d.replyLength (msg.drop 7) ty ≤ limit

/-- A reply is as long as the message says, or short. -/
def Sized (d : Virtio9p) (ty : TMsg) (c reply : Bytes) : Prop :=
  ∀ limit, 160 ≤ limit →
    (reply.length ≤ limit ↔ (d.deferPending = none → d.replyLength c ty ≤ limit))

section

variable (b : Byte) (tag : U16)

theorem length_error {errno : Errno} (h : out.1 = .error errno) :
    (frameOutcome b tag out).1.length ≤ 160 := by
  unfold frameOutcome
  split
  · exact Nat.zero_le _
  · rw [h, length_frame, length_putU32]
    decide

theorem Sized.of_short (hreply : reply.length ≤ 160) (hlen : d.replyLength c ty ≤ 160) :
    d.Sized ty c reply :=
  fun _ hmin => iff_of_true (Nat.le_trans hreply hmin) fun _ => Nat.le_trans hlen hmin

theorem Sized.of_body (hkeeps : d'.deferPending = d.deferPending)
    (hlen : 7 + body.length = d.replyLength c ty) :
    d.Sized ty c (frameOutcome b tag (d'.reply body)).1 := by
  intro limit hmin
  unfold frameOutcome reply
  rw [hkeeps, ← hlen]
  cases d.deferPending with
  | none => simp [length_frame]
  | some => simp

variable (d c)

theorem tread_sized : d.Sized .read c (frameOutcome b tag (d.tread c)).1 := by
  unfold tread
  repeat' split
  all_goals first
    | refine .of_short (length_error b tag rfl) ?_
      simp only [replyLength, opened?, *, Option.bind_some, Option.bind_none, ↓reduceIte]
      exact Nat.zero_le _
    | refine .of_body b tag rfl ?_
      simp only [replyLength, opened?, *, Option.bind_some]
      simp [readSlice]
      omega

theorem treaddir_sized : d.Sized .readdir c (frameOutcome b tag (d.treaddir c)).1 := by
  unfold treaddir
  repeat' split
  all_goals first
    | refine .of_short (length_error b tag rfl) ?_
      simp only [replyLength, opened?, *, Option.bind_some, Option.bind_none, ↓reduceIte]
      exact Nat.zero_le _
    | refine .of_body b tag rfl ?_
      simp only [replyLength, opened?, *, Option.bind_some]
      simp [P9Fs.length_direntsFrom]
      omega

theorem twalk_sized : d.Sized .walk c (frameOutcome b tag (d.twalk c)).1 := by
  unfold twalk
  split
  · rename_i hparse
    refine .of_short (length_error b tag rfl) ?_
    rw [replyLength, hparse]
    exact Nat.zero_le _
  rename_i fid newfid nwname names hparse
  have hlen : d.replyLength c .walk = (d.fs.fids fid).elim 0 fun start =>
      9 + 13 * (d.walkNames nwname names start []).found := by
    rw [replyLength, hparse]
  split
  · rename_i hfid
    refine .of_short (length_error b tag rfl) ?_
    rw [hlen, hfid]
    exact Nat.zero_le _
  rename_i start hfid
  rw [hfid, Option.elim_some] at hlen
  split
  · rename_i hwalk
    exact .of_short (length_error b tag rfl) (by rw [hlen, hwalk, Walk.found]; decide)
  · rename_i hwalk
    exact .of_short (length_error b tag rfl) (by rw [hlen, hwalk, Walk.found]; decide)
  rename_i cur qids hwalk
  rw [hwalk, Walk.found] at hlen
  have hbody : 7 + (putU16 (BitVec.ofNat 16 qids.length) ++
      qids.flatMap fun qid => putQid qid.1 qid.2).length = d.replyLength c .walk := by
    simp [hlen, List.length_flatMap]
    omega
  split
  · exact .of_body b tag rfl hbody
  split
  · rename_i hnone
    exact .of_short (length_error b tag rfl) (by rw [hlen, hnone]; decide)
  · exact .of_body b tag rfl hbody

end

theorem handleMsg_sized (b : Byte) (tag : U16) (hout : d.handleMsg ty c = .ok out) :
    d.Sized ty c (frameOutcome b tag out).1 := by
  have hanswers := (handleMsg_handled hout).answers
  have hshort : ty.parks = false → (frameOutcome b tag out).1.length ≤ 160 := by
    intro hparks
    cases hanswers with
    | fail | park => exact length_error b tag rfl
    | reply hlen =>
      unfold frameOutcome
      split
      · exact Nat.zero_le _
      · rw [reply, length_frame]
        exact Nat.add_le_add_left (hlen hparks) 7
  cases ty
  case read => exact Except.ok.inj hout ▸ d.tread_sized c b tag
  case readdir => exact Except.ok.inj hout ▸ d.treaddir_sized c b tag
  case walk => exact Except.ok.inj hout ▸ d.twalk_sized c b tag
  all_goals exact .of_short (hshort rfl) (Nat.zero_le _)

/-- A reply is empty or a frame, and how long it is can be told from the message. -/
theorem dispatch_frames (hdispatch : d.dispatch msg = .ok (reply, d')) :
    (reply = [] ∧ (7 ≤ msg.length → d'.deferPending.isSome = true) ∨
        (reply.length < 2 ^ 32 → Framed msg reply)) ∧
      ∀ limit, 160 ≤ limit →
        (reply.length ≤ limit ↔ (d.deferPending = none → d.AsksAtMost limit msg)) := by
  by_cases hlen : msg.length < 7
  · rw [dispatch, if_pos hlen] at hdispatch
    cases hdispatch
    refine ⟨Or.inl ⟨rfl, fun hge => absurd hlen (Nat.not_lt.mpr hge)⟩, fun limit _ => ?_⟩
    refine iff_of_true (Nat.zero_le _) fun _ ty hty => ?_
    cases (if_pos hlen).symm.trans hty
  rw [dispatch, if_neg hlen] at hdispatch
  dsimp only at hdispatch
  have hcode : msgType? msg = TMsg.ofCode? (msg.getD 4 0) := if_neg hlen
  unfold AsksAtMost
  rw [hcode]
  cases hty : TMsg.ofCode? (msg.getD 4 0) with
  | none =>
    rw [hty] at hdispatch
    have hframe := (Except.ok.inj hdispatch).symm
    have hanswers : Answers d .clunk (msg.drop 7) (d.fail .enosys) := .fail .enosys
    have hshort : reply.length ≤ 160 := by
      rw [show reply = _ from congrArg Prod.fst hframe]
      exact length_error _ _ rfl
    refine ⟨(hanswers.framed hframe).imp_left fun h => ⟨h.1, fun _ => h.2⟩, fun limit hmin => ?_⟩
    exact iff_of_true (Nat.le_trans hshort hmin) fun _ ty h => by cases h
  | some ty =>
    rw [hty] at hdispatch
    obtain ⟨out, hout, hdispatch⟩ := Results.bind_eq_ok hdispatch
    have hframe := (Except.ok.inj hdispatch).symm
    have hanswers := (handleMsg_handled hout).answers
    refine ⟨(hanswers.framed hframe).imp_left fun h => ⟨h.1, fun _ => h.2⟩, fun limit hmin => ?_⟩
    rw [show reply = _ from congrArg Prod.fst hframe, handleMsg_sized _ _ hout limit hmin]
    refine imp_congr_right fun _ => ⟨fun h ty' hty' => ?_, fun h => h ty rfl⟩
    cases hty'
    exact h

end Virtio9p

/-- The length that an edit needs. -/
def FileEdit.stop : FileEdit → Nat
  | .write offset data => offset + data.length
  | .truncate size => size

namespace Virtio9p

/-- A handler returns unless it makes a file longer than any vector. -/
theorem handleMsg_returns_iff (hty : msgType? msg = some ty) :
    (∃ out, d.handleMsg ty (msg.drop 7) = .ok out) ↔
      ∀ ino edit, d.edit? msg = some (ino, edit) → edit.stop ≤ isizeMax := by
  have hmax : isizeMax < 0x10000000000000000 := by decide
  have hite : ∀ {c : Prop} [Decidable c] {panic : DevicePanic} {x : Outcome},
      (∃ out, (if c then .error panic else .ok x) = Except.ok out) ↔ ¬ c := by
    intro c _ panic x
    split <;> simp [*]
  have hone : ∀ (i : Nat) (e : FileEdit), (∀ ino edit, some (i, e) = some (ino, edit) →
      edit.stop ≤ isizeMax) ↔ ¬ e.stop > isizeMax := by simp
  unfold edit?
  rw [hty]
  cases ty
  case write =>
    dsimp only [handleMsg, twrite]
    cases parseTwrite (msg.drop 7) with
    | none => simp
    | some fields =>
      obtain ⟨fid, offset, data⟩ := fields
      dsimp only
      cases d.fs.fids fid with
      | none => simp
      | some ino =>
        dsimp only
        by_cases hdir : (d.fs.node ino).isDir = true
        · simp [hdir]
        rw [if_neg hdir, if_neg hdir, hone]
        by_cases hwrap : offset.toNat + data.length ≥ 0x10000000000000000
        · rw [if_pos hwrap]
          exact iff_of_false (by simp) fun hend => hend (Nat.lt_of_lt_of_le hmax hwrap)
        · rw [if_neg hwrap, hite]
          rfl
  case setattr =>
    dsimp only [handleMsg, tsetattr]
    cases parseTsetattr (msg.drop 7) with
    | none => simp
    | some fields =>
      obtain ⟨fid, valid, mode, size⟩ := fields
      dsimp only
      cases d.fs.fids fid with
      | none => simp
      | some ino =>
        dsimp only
        by_cases hsize : valid.getLsbD 3 = true
        · rw [if_pos hsize, if_neg (by rw [hsize]; decide), hite, hone]
          rfl
        · rw [if_neg hsize, if_pos (by simpa using hsize)]
          simp
  all_goals exact iff_of_true ⟨_, rfl⟩ fun _ _ h => by cases h

theorem dispatch_returns_iff (hlen : 7 ≤ msg.length) :
    (∃ out, d.dispatch msg = .ok out) ↔
      ∀ ino edit, d.edit? msg = some (ino, edit) → edit.stop ≤ isizeMax := by
  cases hty : msgType? msg with
  | none =>
    have hnone : d.edit? msg = none := by
      unfold edit?
      rw [hty]
    rw [msgType?, if_neg (Nat.not_lt.mpr hlen)] at hty
    rw [dispatch, if_neg (Nat.not_lt.mpr hlen)]
    dsimp only
    rw [hty, hnone]
    exact iff_of_true ⟨_, rfl⟩ fun _ _ h => by cases h
  | some ty =>
    rw [← handleMsg_returns_iff hty]
    constructor
    · rintro ⟨⟨reply, d'⟩, hdispatch⟩
      rcases dispatch_cases hdispatch with ⟨hnone, -⟩ | ⟨ty', out, hty', hout, -⟩
      · cases hnone.symm.trans hty
      · cases hty'.symm.trans hty
        exact ⟨out, hout⟩
    · rintro ⟨out, hout⟩
      exact ⟨_, dispatch_of_handleMsg hty hout⟩

/-- A message is answered by a frame, or parked, exactly if no file is made longer than any
vector and the message does not ask for more than the size field can say. -/
theorem dispatch_total (hwf : d.Wf) (hlen : 7 ≤ msg.length) :
    (∃ reply d', d.dispatch msg = .ok (reply, d') ∧ d'.Wf ∧
        (reply = [] ∧ d'.deferPending.isSome = true ∨ Framed msg reply)) ↔
      (∀ ino edit, d.edit? msg = some (ino, edit) → edit.stop ≤ isizeMax) ∧
        (d.deferPending = none → d.AsksAtMost (2 ^ 32 - 1) msg) := by
  rw [← dispatch_returns_iff hlen]
  constructor
  · rintro ⟨reply, d', hdispatch, -, hreply⟩
    refine ⟨⟨_, hdispatch⟩, ((dispatch_frames hdispatch).2 _ (by decide)).mp ?_⟩
    rcases hreply with ⟨rfl, -⟩ | hframed
    · exact Nat.zero_le _
    · have hfield := ofLe_lt (reply.take 4)
      have hpow : 256 ^ (reply.take 4).length ≤ 256 ^ 4 :=
        Nat.pow_le_pow_right (by decide) (List.length_take_le 4 reply)
      rw [hframed.size] at hfield
      exact Nat.le_sub_one_of_lt (Nat.lt_of_lt_of_le hfield hpow)
  · rintro ⟨⟨⟨reply, d'⟩, hdispatch⟩, hasks⟩
    obtain ⟨hframes, hsized⟩ := dispatch_frames hdispatch
    have hfits := (hsized _ (by decide)).mpr hasks
    refine ⟨reply, d', hdispatch, (dispatch_step hdispatch).wf hwf, ?_⟩
    exact hframes.imp (fun h => ⟨h.1, h.2 hlen⟩) fun h => h (Nat.lt_of_le_sub_one (by decide) hfits)

end Virtio9p

/-- The root has a file of 300 bytes, and messages may have 256. -/
def longFile : Virtio9p :=
  let d := Virtio9p.newLazy []
  let fs := d.fs.create 0 [0x61] { Inode.file 0 with data := List.replicate 300 0x41 }
  { d with fs := { fs.bind 1 1 with msize := 256 } }

theorem longFile_wf : longFile.Wf := by
  have hparent : ({ Inode.file 0 with data := List.replicate 300 0x41 } : Inode).parent = 0 := rfl
  have htree := ((Virtio9p.newLazy_wf []).tree.create (show 0 < 1 by decide) [0x61] hparent
    rfl).bind 1 (show 1 < 2 by decide)
  exact ⟨⟨htree.root, htree.parent, htree.rootParent, htree.children, htree.fids⟩,
    fun _ h => by cases h⟩

/-- The file is written as far as a vector goes. -/
def farWrite : Bytes :=
  frame TMsg.write.code 1 (putU32 1 ++ putU64 0x7FFFFFFFFFFFFFFC ++ putU32 3 ++ [1, 2, 3])

theorem dispatch_total_write :
    ∃ reply d', longFile.dispatch farWrite = .ok (reply, d') ∧ d'.Wf ∧
      (reply = [] ∧ d'.deferPending.isSome = true ∨ Framed farWrite reply) := by
  have hedit : longFile.edit? farWrite = some (1, .write 0x7FFFFFFFFFFFFFFC [1, 2, 3]) := by
    decide +kernel
  have hty : msgType? farWrite = some .write := by decide
  refine (@Virtio9p.dispatch_total longFile farWrite longFile_wf (by decide)).mpr
    ⟨fun ino edit h => ?_, fun _ ty h => ?_⟩
  · cases hedit.symm.trans h
    decide
  · cases hty.symm.trans h
    exact Nat.zero_le _

def attachMsg : Bytes := frame TMsg.attach.code 1 (putU32 1)

/-- A file is created, and a byte written to the last offset there is. -/
def lastByteRun : Except DevicePanic (Bytes × Virtio9p) := do
  let (_, d) ← (Virtio9p.new []).dispatch attachMsg
  let (_, d) ← d.dispatch
    (frame TMsg.lcreate.code 1 (putU32 1 ++ putStr [0x61] ++ putU32 0 ++ putU32 0))
  d.dispatch (frame TMsg.write.code 1
    (putU32 1 ++ putU64 (BitVec.allOnes 64) ++ putU32 1 ++ [0x41]))

theorem dispatch_panics : lastByteRun = .error .sliceIndex := by rfl

/-- A reply is within the message size, its chain is given back with the length that stands
in it, and its bytes are in the buffers. -/
structure Delivered (msize : U32) (writable : List Buf) (reply : Bytes)
    (n : U32) (mem : GuestMem) : Prop where
  bound : reply.length ≤ msize.toNat
  used : n.toNat = ofLe (reply.take 4)
  bytes : sgRead mem writable 0 reply.length = reply

/-- The buffers lie in DRAM, do not overlap and hold a message. -/
structure Virtio9p.Roomy (d : Virtio9p) (mem : GuestMem) (writable : List Buf) : Prop where
  placed : SgPlaced mem writable
  disjoint : (sgCells mem.base writable).Nodup
  msize : 256 ≤ d.fs.msize.toNat
  room : d.fs.msize.toNat ≤ sgLen writable

section

variable (held : List Held) (defer : Option Defer)

theorem Virtio9p.walkNames_update (n : Nat) (c : Bytes) (cur : Nat) (qids : List (Byte × Nat)) :
    { d with held := held, deferPending := defer }.walkNames n c cur qids =
      d.walkNames n c cur qids := by
  induction n generalizing c cur qids with
  | zero => rfl
  | succ n ih => simp only [walkNames, ih]

/-- What a message asks for does not depend on the requests in flight. -/
theorem Virtio9p.asksAtMost_update (d : Virtio9p) (limit : Nat) (msg : Bytes) :
    { d with held := held, deferPending := defer }.AsksAtMost limit msg ↔
      d.AsksAtMost limit msg := by
  unfold AsksAtMost replyLength
  simp only [walkNames_update]
  rfl

end

theorem Virtio9p.Roomy.delivered_iff {head : U16} {mem : GuestMem} {writable : List Buf}
    (h : d.Roomy mem writable) (hserved : Served d head writable msg (some reply) d') :
    Delivered d.fs.msize writable reply (putReply mem writable reply).1
      (putReply mem writable reply).2 ↔ d.AsksAtMost d.fs.msize.toNat msg := by
  obtain ⟨hdispatch⟩ := hserved
  have hlimit := d.fs.msize.isLt
  have hmin := h.msize
  have hroom := h.room
  obtain ⟨hframes, hsized⟩ := dispatch_frames hdispatch
  have hasks : reply.length ≤ d.fs.msize.toNat ↔ d.AsksAtMost d.fs.msize.toNat msg := by
    refine (hsized _ (by omega)).trans ⟨fun h => ?_, fun h _ => ?_⟩
    · exact (asksAtMost_update d.held none d _ _).mp (h rfl)
    · exact (asksAtMost_update d.held none d _ _).mpr h
  rw [← hasks]
  refine ⟨Delivered.bound, fun hbound => ?_⟩
  have hsize : ofLe (reply.take 4) = reply.length := by
    rcases hframes with ⟨rfl, -⟩ | hframed
    · rfl
    · exact (hframed (by omega)).size
  have hall : min reply.length (sgLen writable) = reply.length := by omega
  rw [putReply, hall, List.take_length]
  refine ⟨hbound, ?_, ?_⟩
  · rw [hsize, BitVec.toNat_ofNat]
    omega
  · rw [sgRead_sgWrite h.placed h.disjoint.drop]
    exact List.take_of_length_le (by omega)

theorem P9Fs.fill_msize (fs : P9Fs) (kind : ReqKind) (target : Nat) (payload : Bytes) :
    (fs.fill kind target payload).msize = fs.msize := by
  cases kind with
  | readFile => rfl
  | listDir =>
    change (fs.applyListing target payload).msize = _
    unfold applyListing
    induction listingEntries payload generalizing fs with
    | nil => rfl
    | cons entry entries ih =>
      rw [List.foldl_cons, ih, addListed]
      split <;> rfl

/-- A reply, given at once or after an answer of the host, is delivered exactly if the message
asks for no more than a message can have. -/
theorem Virtio9p.replies_delivered (d : Virtio9p) (mem : GuestMem) :
    (∀ chain reply d', d.Roomy mem chain.writable → 7 ≤ sgLen chain.readable →
        d.serve chain.head chain.writable (gather mem chain.readable) = .ok (some reply, d') →
        ∃ n mem', d.handle chain mem = .ok (n, d', mem') ∧
          (Delivered d.fs.msize chain.writable reply n mem' ↔
            d.AsksAtMost d.fs.msize.toNat (gather mem chain.readable))) ∧
      ∀ id payload h reply d', d.Roomy mem h.writable →
        d.answer id payload = .ok (some (h, reply), d') →
        ∃ n mem', d.supply id payload mem = .ok (some (0, h.head, n), d', mem') ∧
          (Delivered d.fs.msize h.writable reply n mem' ↔
            { d with fs := d.fs.fill h.kind h.target payload }.AsksAtMost d.fs.msize.toNat
              h.msg) := by
  constructor
  · intro chain reply d' hroomy hlen hserve
    refine ⟨_, _, ?_, hroomy.delivered_iff (serve_cases hserve)⟩
    rw [handle, if_neg (Nat.not_lt.mpr hlen), hserve]
    rfl
  · intro id payload h reply d' hroomy hanswer
    rcases answer_cases hanswer with ⟨-, hnone, -⟩ | ⟨i, h', reply', -, -, hsome, hserved⟩
    · cases hnone
    cases reply' with
    | none => cases hsome
    | some reply' =>
      cases hsome
      have hmsize : (d.filledFor i h payload).fs.msize = d.fs.msize := d.fs.fill_msize ..
      have hfilled : (d.filledFor i h payload).Roomy mem h.writable :=
        ⟨hroomy.placed, hroomy.disjoint, hmsize ▸ hroomy.msize, hmsize ▸ hroomy.room⟩
      have hdelivered := hfilled.delivered_iff hserved
      rw [hmsize] at hdelivered
      have hasks := asksAtMost_update (d.held.eraseIdx i) d.deferPending
        { d with fs := d.fs.fill h.kind h.target payload } d.fs.msize.toNat h.msg
      refine ⟨_, _, ?_, hdelivered.trans hasks⟩
      rw [supply, hanswer]
      rfl

/-- A read of the file: the message and, behind it, room for a reply. -/
def longRead : Chain := ⟨0, [⟨0x80000000, 23⟩], [⟨0x80000100, 256⟩]⟩

def readMem (count : U32) : GuestMem :=
  ⟨0x80000000, 0x200, fun i =>
    (frame TMsg.read.code 1 (putU32 1 ++ putU64 0 ++ putU32 count)).getD i 0⟩

theorem replies_delivered_read :
    ∃ reply n d' mem', longFile.handle longRead (readMem 200) = .ok (n, d', mem') ∧
      Delivered 256 longRead.writable reply n mem' := by
  have hroomy : longFile.Roomy (readMem 200) longRead.writable := by
    refine ⟨fun b hb => ?_, by decide +kernel, by decide, by decide⟩
    obtain rfl := List.mem_singleton.mp hb
    exact ⟨by decide, by decide, by decide⟩
  have hty : msgType? (gather (readMem 200) longRead.readable) = some .read := by decide +kernel
  have hasks : longFile.AsksAtMost 256 (gather (readMem 200) longRead.readable) := by
    intro ty h
    cases hty.symm.trans h
    decide +kernel
  have hserves : ((longFile.serve 0 longRead.writable
      (gather (readMem 200) longRead.readable)).toOption.bind Prod.fst).isSome = true := by
    decide +kernel
  cases hserve : longFile.serve 0 longRead.writable (gather (readMem 200) longRead.readable) with
  | error => rw [hserve] at hserves; cases hserves
  | ok out =>
    obtain ⟨_ | reply, d'⟩ := out
    · rw [hserve] at hserves
      cases hserves
    obtain ⟨n, mem', hhandle, hiff⟩ :=
      (longFile.replies_delivered (readMem 200)).1 longRead reply d' hroomy (by decide) hserve
    exact ⟨reply, n, d', mem', hhandle, hiff.mpr hasks⟩

/-- The reply of 311 bytes is cut, and its own length is not the one that is reported. -/
theorem reply_truncated :
    ((longFile.serve 0 longRead.writable (gather (readMem 300) longRead.readable)).map
        fun out => out.1.map fun reply => (reply.length, ofLe (reply.take 4))).toOption =
        some (some (311, 311)) ∧
      ((longFile.handle longRead (readMem 300)).map Prod.fst).toOption = some 256 := by
  decide +kernel

end TabLinux
