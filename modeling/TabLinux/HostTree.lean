/-
The folder of the host behind a shared folder: directories of named entries and files of
bytes, and the listings that the host gives of them.
-/
import TabLinux.P9Paths

namespace TabLinux

open Bytes

inductive HostTree where
  | file (data : Bytes)
  | dir (entries : List (Bytes × HostTree))

namespace HostTree

def isDir : HostTree → Bool
  | .file _ => false
  | .dir _ => true

/-- The entries of a directory; a file has none. -/
def entries : HostTree → List (Bytes × HostTree)
  | .file _ => []
  | .dir entries => entries

/-- The contents of a file; a directory has none. -/
def data : HostTree → Bytes
  | .file data => data
  | .dir _ => []

def child (t : HostTree) (name : Bytes) : Option HostTree :=
  (t.entries.find? fun entry => entry.1 = name).map (·.2)

/-- Follow names down. -/
def follow : HostTree → List Bytes → Option HostTree
  | t, [] => some t
  | t, name :: names => (t.child name).bind fun next => next.follow names

/-- Names are plain and no two entries of a directory share one. -/
inductive Plain : HostTree → Prop
  | file (data : Bytes) : HostTree.Plain (.file data)
  | dir {entries : List (Bytes × HostTree)}
      (hnames : ∀ entry ∈ entries, PlainName entry.1) (hdistinct : (entries.map (·.1)).Nodup)
      (hentries : ∀ entry ∈ entries, entry.2.Plain) : HostTree.Plain (.dir entries)

/-- The records of a listing. -/
def listing (t : HostTree) : List ListingEntry :=
  t.entries.map fun entry => ⟨entry.1, entry.2.isDir, BitVec.ofNat 64 entry.2.data.length⟩

/-- The answer of the host to a request for a listing: where there is no directory, it has
no records. -/
def listingAt (t : HostTree) (path : Bytes) : List ListingEntry :=
  ((t.follow (Paths.components slash path)).map listing).getD []

end HostTree

section

variable {t next : HostTree} {name : Bytes}

namespace HostTree

theorem mem_of_child (hchild : t.child name = some next) : (name, next) ∈ t.entries := by
  obtain ⟨entry, hfind, rfl⟩ := Option.map_eq_some_iff.mp hchild
  have hname := List.find?_some hfind
  rw [← of_decide_eq_true hname]
  exact List.mem_of_find?_eq_some hfind

theorem Plain.plainName (h : t.Plain) (hchild : t.child name = some next) : PlainName name := by
  have hmem := mem_of_child hchild
  cases h with
  | file => cases hmem
  | dir hnames => exact hnames _ hmem

theorem Plain.child (h : t.Plain) (hchild : t.child name = some next) : next.Plain := by
  have hmem := mem_of_child hchild
  cases h with
  | file => cases hmem
  | dir _ _ hentries => exact hentries _ hmem

theorem follow_concat (t : HostTree) (names : List Bytes) (name : Bytes) :
    t.follow (names ++ [name]) = (t.follow names).bind fun dir => dir.child name := by
  induction names generalizing t with
  | nil =>
    rw [List.nil_append, follow, follow]
    cases hchild : t.child name with
    | none => exact hchild.symm
    | some next => exact hchild.symm
  | cons first names ih =>
    rw [List.cons_append, follow, follow]
    cases t.child first with
    | none => rfl
    | some next => exact ih next

theorem Plain.follow (h : t.Plain) {names : List Bytes}
    (hfollow : t.follow names = some next) : next.Plain ∧ ∀ name ∈ names, PlainName name := by
  induction names generalizing t with
  | nil =>
    cases hfollow
    exact ⟨h, fun _ hmem => nomatch hmem⟩
  | cons first names ih =>
    obtain ⟨dir, hdir, hrest⟩ := Option.bind_eq_some_iff.mp hfollow
    obtain ⟨hplain, hnames⟩ := ih (h.child hdir) hrest
    refine ⟨hplain, fun name hmem => ?_⟩
    rcases List.mem_cons.mp hmem with rfl | htail
    · exact h.plainName hdir
    · exact hnames name htail

/-- The names of a directory are those of its listing. -/
theorem mem_listing (hchild : t.child name = some next) :
    ∃ entry ∈ t.listing, entry.name = name ∧ entry.isDir = next.isDir ∧
      entry.size = BitVec.ofNat 64 next.data.length :=
  ⟨_, List.mem_map_of_mem (mem_of_child hchild), rfl, rfl, rfl⟩

end HostTree

end

end TabLinux
