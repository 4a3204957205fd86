/-
The answers of the host: contents of a file or the listing of a directory are filled into
the tree, and the parked message runs again, which only reads the tree.
-/
import TabLinux.P9Requests

namespace TabLinux

open Bytes

variable {fs out fs' : P9Fs} {target ino : Nat} {d d' : Virtio9p} {msg : Bytes}
  {head : U16} {writable : List Buf} {reply : Option Bytes} {ty : TMsg}

variable {dir i : Nat} {children : List (Bytes × Nat)} {name other payload : Bytes}
  {f : Inode → Inode} {α : Type} {h : Held} {chain : Chain} {mem : GuestMem}

/-- Names that a listing never adds. -/
def Reserved (name : Bytes) : Prop := name = [] ∨ name = [0x2E] ∨ name = [0x2E, 0x2E]

/-- The stub that a listed entry becomes. -/
def ListingEntry.stub (entry : ListingEntry) (dir : Nat) : Inode :=
  if entry.isDir then Inode.stubDir dir else Inode.stubFile dir entry.size

theorem ListingEntry.stub_parent (entry : ListingEntry) (dir : Nat) :
    (entry.stub dir).parent = dir ∧ (entry.stub dir).children = [] := by
  unfold stub
  split <;> exact ⟨rfl, rfl⟩

/-- A listed entry changes nothing, or it is a new stub under a new name. -/
theorem P9Fs.addListed_cases (fs : P9Fs) (dir : Nat) (entry : ListingEntry) :
    ((Reserved entry.name ∨ (fs.child dir entry.name).isSome) ∧
        fs.addListed dir entry = fs) ∨
      (¬ Reserved entry.name ∧ fs.child dir entry.name = none ∧
        fs.addListed dir entry = fs.create dir entry.name (entry.stub dir)) := by
  unfold addListed
  split
  · rename_i hskip
    refine Or.inl ⟨?_, rfl⟩
    rcases hskip with h | h | h | h
    · exact Or.inl (Or.inl h)
    · exact Or.inl (Or.inr (Or.inl h))
    · exact Or.inl (Or.inr (Or.inr h))
    · exact Or.inr h
  · rename_i hnew
    refine Or.inr ⟨?_, ?_, rfl⟩
    · rintro (h | h | h)
      · exact hnew (Or.inl h)
      · exact hnew (Or.inr (Or.inl h))
      · exact hnew (Or.inr (Or.inr (Or.inl h)))
    · cases hchild : fs.child dir entry.name with
      | none => rfl
      | some ino =>
        exact absurd (Or.inr (Or.inr (Or.inr (by rw [hchild]; rfl)))) hnew

theorem P9Fs.Wf.addListed (h : fs.Wf) (hdir : dir < fs.inodes.length)
    (entry : ListingEntry) : (fs.addListed dir entry).Wf := by
  rcases fs.addListed_cases dir entry with ⟨-, heq⟩ | ⟨-, -, heq⟩
  · rw [heq]
    exact h
  obtain ⟨hparent, hchildren⟩ := entry.stub_parent dir
  rw [heq]
  exact h.create hdir entry.name hparent hchildren

theorem P9Fs.length_addListed (fs : P9Fs) (dir : Nat) (entry : ListingEntry) :
    fs.inodes.length ≤ (fs.addListed dir entry).inodes.length := by
  rcases fs.addListed_cases dir entry with ⟨-, heq⟩ | ⟨-, -, heq⟩
  · exact Nat.le_of_eq (by rw [heq])
  · rw [heq, length_create]
    exact Nat.le_succ _

/-- What every listed entry keeps, a listing keeps. -/
theorem P9Fs.applyListing_induction {motive : P9Fs → Prop} (hfs : motive fs)
    (hdir : dir < fs.inodes.length)
    (hstep : ∀ fs entry, dir < fs.inodes.length → motive fs → motive (fs.addListed dir entry))
    (payload : Bytes) : motive (fs.applyListing dir payload) := by
  unfold applyListing
  induction listingEntries payload generalizing fs with
  | nil => exact hfs
  | cons entry entries ih =>
    exact ih (hstep fs entry hdir hfs) (Nat.lt_of_lt_of_le hdir (fs.length_addListed dir entry))

theorem P9Fs.Wf.fill (h : fs.Wf) (htarget : target < fs.inodes.length) (kind : ReqKind)
    (payload : Bytes) :
    (fs.fill kind target payload).Wf ∧
      fs.inodes.length ≤ (fs.fill kind target payload).inodes.length := by
  cases kind with
  | readFile =>
    refine ⟨h.setNode target ?_ ?_, ?_⟩
    · exact fun _ => rfl
    · exact fun _ _ h => h
    · exact Nat.le_of_eq (P9Fs.length_setNode _ _ _).symm
  | listDir =>
    obtain ⟨hwf, hle⟩ : (fs.applyListing target payload).Wf ∧
        fs.inodes.length ≤ (fs.applyListing target payload).inodes.length := by
      refine P9Fs.applyListing_induction (motive := fun out =>
        out.Wf ∧ fs.inodes.length ≤ out.inodes.length) ⟨h, Nat.le_refl _⟩ htarget ?_ payload
      rintro out entry hlt ⟨hwf, hle⟩
      exact ⟨hwf.addListed hlt entry, Nat.le_trans hle (out.length_addListed target entry)⟩
    refine ⟨hwf.setNode target ?_ ?_, ?_⟩
    · exact fun _ => rfl
    · exact fun _ _ h => h
    · rw [P9Fs.fill, P9Fs.length_setNode]
      exact hle

theorem childOf_append_eq_none :
    childOf (children ++ [(other, ino)]) name = none ↔
      childOf children name = none ∧ other ≠ name := by
  unfold childOf
  simp only [Option.map_eq_none_iff, List.find?_append, Option.or_eq_none_iff]
  refine and_congr_right fun _ => ?_
  by_cases hname : other = name <;> simp [hname]

namespace P9Fs

/-- The entries that are missing after one more is listed. -/
theorem addListed_child (htarget : target < fs.inodes.length) (entry : ListingEntry)
    (dir : Nat) (name : Bytes) :
    (fs.addListed target entry).child dir name = none ↔
      fs.child dir name = none ∧ (dir = target → entry.name = name → Reserved name) := by
  rcases fs.addListed_cases target entry with ⟨hskip, heq⟩ | ⟨hreserved, hnone, heq⟩
  · rw [heq]
    refine ⟨fun hchild => ⟨hchild, ?_⟩, And.left⟩
    rintro rfl rfl
    rcases hskip with h | h
    · exact h
    · rw [hchild] at h
      cases h
  · rw [heq, child, fs.node_create htarget]
    have hnode : (fs.node fs.inodes.length).children = [] := by
      rw [fs.node_of_ge (Nat.le_refl _)]
      rfl
    split
    · rename_i hdir
      have hne : dir ≠ target := by omega
      rw [child, hdir, hnode, (entry.stub_parent target).2]
      exact ⟨fun _ => ⟨rfl, fun h => absurd h (hdir ▸ hne)⟩, fun _ => rfl⟩
    split
    · rename_i hdir
      subst hdir
      rw [childOf_append_eq_none]
      refine and_congr_right fun _ => ⟨fun hne _ h => absurd h hne, ?_⟩
      rintro himp rfl
      exact hreserved (himp rfl rfl)
    · rename_i hdir
      exact ⟨fun h => ⟨h, fun h' => absurd h' hdir⟩, And.left⟩

theorem applyListing_child (htarget : target < fs.inodes.length) (payload : Bytes)
    (dir : Nat) (name : Bytes) :
    (fs.applyListing target payload).child dir name = none ↔
      fs.child dir name = none ∧
        (dir = target → ∀ entry ∈ listingEntries payload, entry.name = name → Reserved name) := by
  unfold applyListing
  induction listingEntries payload generalizing fs with
  | nil => exact ⟨fun h => ⟨h, fun _ _ hmem => by cases hmem⟩, And.left⟩
  | cons entry entries ih =>
    have hlt := Nat.lt_of_lt_of_le htarget (fs.length_addListed target entry)
    rw [List.foldl_cons, ih hlt, fs.addListed_child htarget]
    constructor
    · rintro ⟨⟨hnone, hfirst⟩, hrest⟩
      refine ⟨hnone, fun hdir other hmem hname => ?_⟩
      rcases List.mem_cons.mp hmem with rfl | htail
      · exact hfirst hdir hname
      · exact hrest hdir other htail hname
    · rintro ⟨hnone, hall⟩
      exact ⟨⟨hnone, fun hdir => hall hdir entry List.mem_cons_self⟩,
        fun hdir other hmem => hall hdir other (List.mem_cons_of_mem _ hmem)⟩

theorem child_setNode (fs : P9Fs) (ino dir : Nat)
    (hf : ∀ node, (f node).children = node.children) (name : Bytes) :
    (fs.setNode ino f).child dir name = fs.child dir name := by
  unfold child
  rw [fs.node_setNode_of_keeps ino dir Inode.children hf]

/-- The entries that are missing after an answer of the host. -/
theorem fill_child (htarget : target < fs.inodes.length) (kind : ReqKind)
    (payload : Bytes) (dir : Nat) (name : Bytes) :
    (fs.fill kind target payload).child dir name = none ↔
      fs.child dir name = none ∧ (kind = .listDir → dir = target →
        ∀ entry ∈ listingEntries payload, entry.name = name → Reserved name) := by
  cases kind with
  | readFile =>
    have hkeep := fs.child_setNode target dir (f := fun node => node.filled payload)
      (fun _ => rfl) name
    rw [fill, hkeep]
    exact ⟨fun h => ⟨h, fun hkind => by cases hkind⟩, And.left⟩
  | listDir =>
    have hkeep := (fs.applyListing target payload).child_setNode target dir
      (f := fun node => { node with loaded := true }) (fun _ => rfl) name
    rw [fill, hkeep, fs.applyListing_child htarget]
    exact ⟨fun h => ⟨h.1, fun _ => h.2⟩, fun h => ⟨h.1, h.2 rfl⟩⟩

/-- A listing changes no contents: the new entries are stubs. -/
theorem applyListing_data (htarget : target < fs.inodes.length) (payload : Bytes)
    (ino : Nat) : ((fs.applyListing target payload).node ino).data = (fs.node ino).data := by
  refine applyListing_induction (motive := fun out =>
    (out.node ino).data = (fs.node ino).data) rfl htarget ?_ payload
  intro out entry hlt hout
  rcases out.addListed_cases target entry with ⟨-, heq⟩ | ⟨-, -, heq⟩
  · rw [heq]
    exact hout
  rw [heq, out.node_create hlt, ← hout]
  split
  · rename_i hnew
    rw [hnew, out.node_of_ge (Nat.le_refl _)]
    unfold ListingEntry.stub
    split <;> rfl
  split
  · rename_i hself
    rw [hself]
  · rfl

/-- A listing changes nothing of an inode but its entries. -/
theorem applyListing_keeps (htarget : target < fs.inodes.length)
    (payload : Bytes) (hino : ino < fs.inodes.length) (g : Inode → α)
    (hg : ∀ node children, g { node with children := children } = g node) :
    g ((fs.applyListing target payload).node ino) = g (fs.node ino) := by
  refine (applyListing_induction (motive := fun out =>
    fs.inodes.length ≤ out.inodes.length ∧ g (out.node ino) = g (fs.node ino))
    ⟨Nat.le_refl _, rfl⟩ htarget ?_ payload).2
  rintro out entry hlt ⟨hle, hout⟩
  refine ⟨Nat.le_trans hle (out.length_addListed target entry), ?_⟩
  rcases out.addListed_cases target entry with ⟨-, heq⟩ | ⟨-, -, heq⟩
  · rw [heq]
    exact hout
  rw [heq, out.node_create hlt, if_neg (Nat.ne_of_lt (Nat.lt_of_lt_of_le hino hle)), ← hout]
  split
  · rename_i hself
    rw [hg, hself]
  · rfl

section

variable (htarget : target < fs.inodes.length) (kind : ReqKind) (payload : Bytes)
include htarget

/-- An answer leaves every other inode alone. -/
theorem fill_other (hino : ino < fs.inodes.length) (hne : ino ≠ target) (g : Inode → α)
    (hg : ∀ node children, g { node with children := children } = g node) :
    g ((fs.fill kind target payload).node ino) = g (fs.node ino) := by
  cases kind with
  | readFile => rw [fill, node_setNode_of_ne _ _ hne]
  | listDir =>
    rw [fill, node_setNode_of_ne _ _ hne]
    exact applyListing_keeps htarget payload hino g hg

theorem fill_isDir (hino : ino < fs.inodes.length) :
    ((fs.fill kind target payload).node ino).isDir = (fs.node ino).isDir := by
  cases kind with
  | readFile =>
    refine fs.node_setNode_of_keeps target ino Inode.isDir ?_
    exact fun _ => rfl
  | listDir =>
    have hkeep := (fs.applyListing target payload).node_setNode_of_keeps target ino
      (f := fun node => { node with loaded := true }) Inode.isDir (fun _ => rfl)
    exact hkeep.trans (applyListing_keeps htarget payload hino _ fun _ _ => rfl)

/-- The contents of the files after an answer of the host. -/
theorem fill_data (ino : Nat) :
    ((fs.fill kind target payload).node ino).data =
      if kind = .readFile ∧ ino = target then payload else (fs.node ino).data := by
  cases kind with
  | readFile =>
    rw [fill, fs.node_setNode]
    by_cases hino : ino = target
    · rw [if_pos ⟨hino, htarget⟩, if_pos ⟨rfl, hino⟩]
      rfl
    · rw [if_neg fun h => hino h.1, if_neg fun h => hino h.2]
  | listDir =>
    have hkeep := (fs.applyListing target payload).node_setNode_of_keeps target ino
      (f := fun node => { node with loaded := true }) Inode.data (fun _ => rfl)
    rw [fill, hkeep, fs.applyListing_data htarget, if_neg (by rintro ⟨h, -⟩; cases h)]

theorem fill_fids : (fs.fill kind target payload).fids = fs.fids := by
  cases kind with
  | readFile => rfl
  | listDir =>
    refine applyListing_induction (motive := fun out => out.fids = fs.fids) rfl htarget ?_ payload
    intro out entry hlt hout
    rcases out.addListed_cases target entry with ⟨-, heq⟩ | ⟨-, -, heq⟩
    · rw [heq]
      exact hout
    · rw [heq]
      exact hout

end

/-- Every entry of a tree is an old one or leads to a new inode, which has no entries. -/
structure Extends (fs fs' : P9Fs) : Prop where
  length_le : fs.inodes.length ≤ fs'.inodes.length
  child : ∀ {dir name ino}, dir < fs.inodes.length → fs'.child dir name = some ino →
    fs.child dir name = some ino ∨ fs.inodes.length ≤ ino
  leaf : ∀ {ino}, fs.inodes.length ≤ ino → (fs'.node ino).children = []

theorem Extends.refl (fs : P9Fs) : fs.Extends fs := by
  refine ⟨Nat.le_refl _, fun _ h => Or.inl h, ?_⟩
  intro ino hge
  rw [fs.node_of_ge hge]
  rfl

theorem Extends.of_inodes {out' : P9Fs} (h : fs.Extends out)
    (hinodes : out'.inodes = out.inodes) : fs.Extends out' := by
  refine ⟨hinodes ▸ h.length_le, ?_, ?_⟩
  · intro dir name ino hdir hchild
    rw [P9Fs.child_congr hinodes] at hchild
    exact h.child hdir hchild
  · intro ino hge
    rw [P9Fs.node_congr hinodes]
    exact h.leaf hge

end P9Fs

theorem childOf_append_eq_some
    {new : Nat} (hchild : childOf (children ++ [(other, new)]) name = some ino) :
    childOf children name = some ino ∨ ino = new := by
  unfold childOf at hchild ⊢
  rw [List.find?_append] at hchild
  cases hfind : children.find? fun entry => entry.1 = name with
  | some entry =>
    rw [hfind] at hchild
    exact Or.inl hchild
  | none =>
    rw [hfind, Option.none_or] at hchild
    obtain ⟨entry, hentry, rfl⟩ := Option.map_eq_some_iff.mp hchild
    rw [List.mem_singleton.mp (List.mem_of_find?_eq_some hentry)]
    exact Or.inr rfl

theorem P9Fs.Extends.addListed (h : fs.Extends out) (htarget : target < fs.inodes.length)
    (entry : ListingEntry) : fs.Extends (out.addListed target entry) := by
  have hlt := Nat.lt_of_lt_of_le htarget h.length_le
  rcases out.addListed_cases target entry with ⟨-, heq⟩ | ⟨-, -, heq⟩
  · rw [heq]
    exact h
  rw [heq]
  refine ⟨?_, ?_, ?_⟩
  · rw [P9Fs.length_create]
    exact Nat.le_succ_of_le h.length_le
  · intro dir name ino hdir hchild
    rw [P9Fs.child, out.node_create hlt,
      if_neg (Nat.ne_of_lt (Nat.lt_of_lt_of_le hdir h.length_le))] at hchild
    split at hchild
    · rename_i hself
      subst hself
      rcases childOf_append_eq_some hchild with hold | hnew
      · exact h.child hdir hold
      · exact Or.inr (hnew ▸ h.length_le)
    · exact h.child hdir hchild
  · intro ino hge
    rw [out.node_create hlt]
    split
    · exact (entry.stub_parent target).2
    · rw [if_neg (by omega)]
      exact h.leaf hge

theorem P9Fs.Extends.setNode (h : fs.Extends out) (ino : Nat)
    (hf : ∀ node, (f node).children = node.children) : fs.Extends (out.setNode ino f) := by
  refine ⟨?_, ?_, ?_⟩
  · rw [P9Fs.length_setNode]
    exact h.length_le
  · intro dir name j hdir hchild
    rw [out.child_setNode ino dir hf] at hchild
    exact h.child hdir hchild
  · intro j hge
    rw [out.node_setNode_of_keeps ino j Inode.children hf]
    exact h.leaf hge

theorem P9Fs.fill_extends (htarget : target < fs.inodes.length) (kind : ReqKind)
    (payload : Bytes) : fs.Extends (fs.fill kind target payload) := by
  cases kind with
  | readFile =>
    refine (P9Fs.Extends.refl fs).setNode target ?_
    exact fun _ => rfl
  | listDir =>
    have hlisted : fs.Extends (fs.applyListing target payload) :=
      applyListing_induction (P9Fs.Extends.refl fs) htarget
        (fun out entry _ hout => hout.addListed htarget entry) payload
    refine hlisted.setNode target ?_
    exact fun _ => rfl

/-- A path that leads to an old inode after an answer led there before. -/
theorem P9Fs.Extends.resolveFrom (h : fs.Extends fs') (hwf : fs.Wf) {cur : Nat}
    (hcur : cur < fs.inodes.length) (hino : ino < fs.inodes.length) {path : List Bytes}
    (hpath : fs'.resolveFrom cur path = some ino) : fs.resolveFrom cur path = some ino := by
  induction path generalizing cur with
  | nil => exact hpath
  | cons seg rest ih =>
    unfold P9Fs.resolveFrom at hpath ⊢
    cases hchild : fs'.child cur seg with
    | none =>
      rw [hchild] at hpath
      cases hpath
    | some next =>
      rw [hchild] at hpath
      rcases h.child hcur hchild with hold | hnew
      · rw [hold]
        exact ih (hwf.child_lt hcur hold) hpath
      -- a new inode has no entries: the path ends there
      cases rest with
      | nil =>
        cases hpath
        omega
      | cons seg' rest =>
        dsimp only at hpath
        rw [P9Fs.resolveFrom, P9Fs.child, h.leaf hnew] at hpath
        cases hpath

theorem P9Fs.Extends.resolve (h : fs.Extends fs') (hwf : fs.Wf) (hino : ino < fs.inodes.length)
    {path : Bytes} (hpath : fs'.resolve path = some ino) : fs.resolve path = some ino :=
  h.resolveFrom hwf hwf.root hino hpath

/-- A parked request is for an inode of the kind it asks for, and its message is of a kind
that only reads the tree. -/
structure Held.Wf (fs : P9Fs) (h : Held) : Prop where
  target : h.target < fs.inodes.length
  isDir : (fs.node h.target).isDir = h.kind.wantsDir
  msg : ∃ ty, msgType? h.msg = some ty ∧ ty.parks = true

structure Virtio9p.Wf (d : Virtio9p) : Prop where
  tree : d.fs.Wf
  held : ∀ h ∈ d.held, h.Wf d.fs

/-- A parked request outlives a change that keeps every inode and what it is. -/
theorem Held.Wf.mono (hwf : h.Wf fs) (hle : fs.inodes.length ≤ fs'.inodes.length)
    (hdir : ∀ {ino}, ino < fs.inodes.length → (fs'.node ino).isDir = (fs.node ino).isDir) :
    h.Wf fs' :=
  ⟨Nat.lt_of_lt_of_le hwf.target hle, (hdir hwf.target).trans hwf.isDir, hwf.msg⟩

theorem Virtio9p.newLazy_wf (tag : Bytes) : (newLazy tag).Wf := by
  refine ⟨⟨Nat.zero_lt_one, ?_, rfl, ?_, fun _ _ h => by cases h⟩, fun _ h => by cases h⟩
  · intro ino hlt hzero
    change ino < 1 at hlt
    omega
  intro ino hlt entry hentry
  rw [Nat.lt_one_iff.mp hlt] at hentry
  cases hentry

theorem MsgStep.wf (h : MsgStep d msg d') (hwf : d.Wf) : d'.Wf := by
  cases h with
  | ignored => exact hwf
  | handled hty hstep =>
    refine ⟨hstep.wf hwf.tree, ?_⟩
    have hheld : d'.held = d.held := by rw [hstep.rest]
    rw [hheld]
    intro held hmem
    exact (hwf.held held hmem).mono hstep.length_le (hstep.isDir hwf.tree)

theorem Served.wf (h : Served d head writable msg reply d') (hwf : d.Wf) : d'.Wf := by
  have hclear : ({ d with deferPending := none } : Virtio9p).Wf := ⟨hwf.tree, hwf.held⟩
  cases h with
  | replied hdispatch => exact (Virtio9p.dispatch_step hdispatch).wf hclear
  | @parked reply d' defer hdispatch hdefer =>
    have hstep := Virtio9p.dispatch_step hdispatch
    have hafter := hstep.wf hclear
    refine ⟨hafter.tree, ?_⟩
    intro held hmem
    rcases List.mem_append.mp hmem with hold | hnew
    · exact hafter.held held hold
    rw [List.mem_singleton.mp hnew]
    cases hstep with
    | ignored => cases hdefer
    | @handled ty _ hty htree =>
      obtain ⟨hlt, hkind⟩ := htree.target hwf.tree rfl hdefer
      refine ⟨Nat.lt_of_lt_of_le hlt htree.length_le,
        (htree.isDir hwf.tree hlt).trans hkind, ty, hty, ?_⟩
      cases hparks : ty.parks with
      | true => rfl
      | false =>
        rw [htree.deferPending hparks] at hdefer
        cases hdefer

theorem Virtio9p.Wf.filledFor (hwf : d.Wf) (hget : d.held[i]? = some h)
    (payload : Bytes) : (d.filledFor i h payload).Wf := by
  have htarget := (hwf.held h (List.mem_of_getElem? hget)).target
  have hfill := hwf.tree.fill htarget h.kind payload
  refine ⟨hfill.1, ?_⟩
  intro held hmem
  exact (hwf.held held (List.mem_of_mem_eraseIdx hmem)).mono hfill.2
    (P9Fs.fill_isDir htarget h.kind payload)

theorem Virtio9p.Wf.answer (hwf : d.Wf) {id : U32}
    {answered : Option (Held × Bytes)} (hanswer : d.answer id payload = .ok (answered, d')) :
    d'.Wf := by
  rcases Virtio9p.answer_cases hanswer with
    ⟨-, -, rfl⟩ | ⟨i, h, reply, -, hget, -, hserved⟩
  · exact hwf
  · exact hserved.wf (hwf.filledFor hget payload)

namespace Served

/-- A chain is served by one message step. -/
theorem step (h : Served d head writable msg reply d') :
    ∃ after, MsgStep { d with deferPending := none } msg after ∧ d'.fs = after.fs ∧
      d'.dirtyChanges = after.dirtyChanges ∧ d'.isLazy = after.isLazy := by
  cases h with
  | replied hdispatch => exact ⟨_, Virtio9p.dispatch_step hdispatch, rfl, rfl, rfl⟩
  | parked hdispatch => exact ⟨_, Virtio9p.dispatch_step hdispatch, rfl, rfl, rfl⟩

theorem isLazy (h : Served d head writable msg reply d') : d'.isLazy = d.isLazy := by
  obtain ⟨after, hstep, -, -, hlazy⟩ := h.step
  rw [hlazy, hstep.rest]

theorem inodes_le (h : Served d head writable msg reply d') :
    d.fs.inodes.length ≤ d'.fs.inodes.length := by
  obtain ⟨after, hstep, hfs, -, -⟩ := h.step
  rw [hfs]
  cases hstep with
  | ignored => exact Nat.le_refl _
  | handled _ htree => exact htree.length_le

theorem isDir (h : Served d head writable msg reply d') (hwf : d.fs.Wf)
    (hlt : ino < d.fs.inodes.length) : (d'.fs.node ino).isDir = (d.fs.node ino).isDir := by
  obtain ⟨after, hstep, hfs, -, -⟩ := h.step
  rw [hfs]
  cases hstep with
  | ignored => rfl
  | handled _ htree => exact htree.isDir hwf hlt

/-- A message of a kind that can be parked leaves the files alone. -/
theorem of_parks (h : Served d head writable msg reply d')
    (hty : msgType? msg = some ty) (hparks : ty.parks = true) :
    d'.fs.inodes = d.fs.inodes ∧ d'.dirtyChanges = d.dirtyChanges := by
  obtain ⟨after, hstep, hfs, hdirty, -⟩ := h.step
  rw [hfs, hdirty]
  cases hstep with
  | ignored => exact ⟨rfl, rfl⟩
  | handled hty' htree =>
    rw [hty] at hty'
    cases hty'
    exact htree.of_parks hparks

end Served

namespace Virtio9p

/-- A message of a kind that can be parked is always served. -/
theorem serve_ok_of_parks (d : Virtio9p) (head : U16) (writable : List Buf)
    (hty : msgType? msg = some ty) (hparks : ty.parks = true) :
    ∃ out, d.serve head writable msg = .ok out := by
  have hhandle : ∃ out, { d with deferPending := none }.handleMsg ty (msg.drop 7) = .ok out := by
    cases ty with
    | walk | read | readdir => exact ⟨_, rfl⟩
    | statfs | lopen | lcreate | getattr | setattr | xattrwalk | fsync | mkdir | unlinkat
    | version | attach | flush | write | clunk | remove => cases hparks
  obtain ⟨out, hout⟩ := hhandle
  have hdispatch := dispatch_of_handleMsg hty hout
  generalize frameOutcome (msg.getD 4 0) (msgTag msg) out = answer at hdispatch
  obtain ⟨reply, after⟩ := answer
  unfold serve
  rw [hdispatch]
  dsimp only [bind, Except.bind]
  split
  · exact ⟨_, rfl⟩
  · exact ⟨_, rfl⟩

/-- The device after it took a chain: the message is too short, its chain is held, or its
reply goes into the writable buffers. -/
theorem handle_cases {mem' : GuestMem} {n : U32}
    (hhandle : d.handle chain mem = .ok (n, d', mem')) :
    (sgLen chain.readable < 7 ∧ d' = d) ∨
      (∃ after, Served d chain.head chain.writable (gather mem chain.readable) none after ∧
        d' = { after with deferred := true }) ∨
      ∃ reply, Served d chain.head chain.writable (gather mem chain.readable) (some reply) d' ∧
        (n, mem') = putReply mem chain.writable reply := by
  unfold handle at hhandle
  split at hhandle
  · rename_i hshort
    cases hhandle
    exact Or.inl ⟨hshort, rfl⟩
  obtain ⟨⟨reply, after⟩, hserve, hhandle⟩ := Results.bind_eq_ok hhandle
  have hserved := serve_cases hserve
  cases reply with
  | none =>
    cases hhandle
    exact Or.inr (Or.inl ⟨after, hserved, rfl⟩)
  | some reply =>
    cases hhandle
    exact Or.inr (Or.inr ⟨reply, hserved, rfl⟩)

theorem handle_ok_of_parks (d : Virtio9p)
    (hty : msgType? (gather mem chain.readable) = some ty) (hparks : ty.parks = true) :
    ∃ out, d.handle chain mem = .ok out := by
  obtain ⟨⟨reply, after⟩, hserve⟩ := d.serve_ok_of_parks chain.head chain.writable hty hparks
  unfold handle
  split
  · exact ⟨_, rfl⟩
  rw [hserve]
  cases reply with
  | none => exact ⟨_, rfl⟩
  | some reply => exact ⟨_, rfl⟩

/-- An answer of the host is always taken; a reply goes into the writable buffers of the
parked chain. -/
theorem Wf.supply_cases (hwf : d.Wf) (id : U32) (payload : Bytes) (mem : GuestMem) :
    ∃ answered d' done mem', d.answer id payload = .ok (answered, d') ∧
      d.supply id payload mem = .ok (done, d', mem') ∧
      match answered with
      | none => done = none
      | some (h, reply) => ∃ n, done = some (0, h.head, n) ∧
          (n, mem') = putReply mem h.writable reply := by
  have hanswer : ∃ out, d.answer id payload = .ok out := by
    unfold Virtio9p.answer
    split
    · exact ⟨_, rfl⟩
    split
    · exact ⟨_, rfl⟩
    rename_i i _ _ h hget
    obtain ⟨ty, hty, hparks⟩ := (hwf.held h (List.mem_of_getElem? hget)).msg
    obtain ⟨out, hout⟩ := (d.filledFor i h payload).serve_ok_of_parks h.head h.writable hty hparks
    unfold Virtio9p.filledFor at hout
    dsimp only
    rw [hout]
    exact ⟨_, rfl⟩
  obtain ⟨⟨answered, d'⟩, hanswer⟩ := hanswer
  unfold Virtio9p.supply
  rw [hanswer]
  cases answered with
  | none => exact ⟨none, d', _, _, rfl, rfl, rfl⟩
  | some answered => exact ⟨some answered, d', _, _, rfl, rfl, _, rfl, rfl⟩

/-- The files after an answer to a request are those filled in: the message that is run
again only reads them. -/
theorem Wf.answer_inodes (hwf : d.Wf) (hget : d.held[i]? = some h)
    (hserved : Served (d.filledFor i h payload) h.head h.writable h.msg reply d') :
    d'.fs.inodes = (d.fs.fill h.kind h.target payload).inodes := by
  obtain ⟨ty, hty, hparks⟩ := (hwf.held h (List.mem_of_getElem? hget)).msg
  exact (hserved.of_parks hty hparks).1

end Virtio9p

end TabLinux
