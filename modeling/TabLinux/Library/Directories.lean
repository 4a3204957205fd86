/-
Directory trees held in a table: every node knows its parent, every directory lists its
entries by name.  A path is followed down from the root and read back on the way up; the
two agree in a valid tree.
-/
import Mathlib.Data.List.Induction
import Mathlib.Data.List.Nodup
import Mathlib.Logic.Function.Basic

namespace Directories

universe u

variable {ν : Type u}

variable {i fuel dir cur d target : Nat}

/-- The nodes are the numbers below `size`; node 0 is the root. -/
structure Tree (ν : Type u) where
  size : Nat
  parent : Nat → Nat
  children : Nat → List (ν × Nat)

section

variable [DecidableEq ν]

/-- The first entry of a name. -/
def childOf (entries : List (ν × Nat)) (name : ν) : Option Nat :=
  (entries.find? fun entry => entry.1 = name).map (·.2)

/-- The name of the first entry for a node. -/
def nameOf (entries : List (ν × Nat)) (i : Nat) : Option ν :=
  (entries.find? fun entry => entry.2 = i).map (·.1)

/-- Follow names down from a node. -/
def Tree.follow (t : Tree ν) : Nat → List ν → Option Nat
  | cur, [] => some cur
  | cur, name :: rest =>
      match childOf (t.children cur) name with
      | some next => t.follow next rest
      | none => none

end

/-- The names read on the way up from a node. -/
def Tree.climb (t : Tree ν) : (fuel : Nat) → (i : Nat) → List ν
  | 0, _ => []
  | fuel + 1, i =>
      if i = 0 then []
      else t.climb fuel (t.parent i) ++ (nameOf (t.children (t.parent i)) i).toList

/-- The names from the root down to a node. -/
def Tree.path (t : Tree ν) (i : Nat) : List ν := t.climb t.size i

theorem Tree.follow_cons [DecidableEq ν] (t : Tree ν) (cur : Nat) (name : ν) (rest : List ν) :
    t.follow cur (name :: rest) =
      (childOf (t.children cur) name).bind fun next => t.follow next rest := by
  change (match childOf (t.children cur) name with | some next => _ | none => _) = _
  cases childOf (t.children cur) name with
  | none => rfl
  | some next => rfl

theorem Tree.climb_zero (t : Tree ν) (i : Nat) : t.climb 0 i = [] := rfl

theorem Tree.climb_succ (t : Tree ν) (fuel i : Nat) :
    t.climb (fuel + 1) i =
      if i = 0 then []
      else t.climb fuel (t.parent i) ++ (nameOf (t.children (t.parent i)) i).toList := rfl

structure Tree.Valid (t : Tree ν) : Prop where
  root : 0 < t.size
  rootParent : t.parent 0 = 0
  /-- Parents come before their children in the table. -/
  parent_lt : ∀ {i}, i < t.size → i ≠ 0 → t.parent i < i
  leaf : ∀ {i}, t.size ≤ i → t.children i = []
  inRange : ∀ {dir entry}, entry ∈ t.children dir → entry.2 < t.size
  owner : ∀ {dir entry}, entry ∈ t.children dir → t.parent entry.2 = dir
  notRoot : ∀ {dir entry}, entry ∈ t.children dir → entry.2 ≠ 0
  once : ∀ dir, ((t.children dir).map Prod.snd).Nodup
  distinct : ∀ dir, ((t.children dir).map Prod.fst).Nodup

variable {name : ν} {entries : List (ν × Nat)}

theorem mem_of_childOf [DecidableEq ν]
    (hchild : childOf entries name = some i) : (name, i) ∈ entries := by
  obtain ⟨entry, hfind, rfl⟩ := Option.map_eq_some_iff.mp hchild
  have hname : entry.1 = name := by simpa using List.find?_some hfind
  rw [← hname]
  exact List.mem_of_find?_eq_some hfind

theorem childOf_of_mem [DecidableEq ν] (hdistinct : (entries.map Prod.fst).Nodup)
    (hmem : (name, i) ∈ entries) : childOf entries name = some i := by
  cases hchild : childOf entries name with
  | none =>
    rw [childOf, Option.map_eq_none_iff, List.find?_eq_none] at hchild
    exact absurd (decide_eq_true rfl) (hchild (name, i) hmem)
  | some j =>
    have hsame := List.inj_on_of_nodup_map hdistinct (mem_of_childOf hchild) hmem rfl
    rw [(Prod.mk.inj hsame).2]

theorem childOf_eq_none [DecidableEq ν] :
    childOf entries name = none ↔ name ∉ entries.map Prod.fst := by
  rw [childOf, Option.map_eq_none_iff, List.find?_eq_none]
  simp only [decide_eq_true_eq, List.mem_map, not_exists, not_and]

theorem nameOf_of_mem (honce : (entries.map Prod.snd).Nodup)
    (hmem : (name, i) ∈ entries) : nameOf entries i = some name := by
  cases hfind : entries.find? fun entry => entry.2 = i with
  | none =>
    rw [List.find?_eq_none] at hfind
    exact absurd (decide_eq_true rfl) (hfind (name, i) hmem)
  | some entry =>
    have hnum : entry.2 = i := by simpa using List.find?_some hfind
    have hsame := List.inj_on_of_nodup_map honce (List.mem_of_find?_eq_some hfind) hmem hnum
    rw [nameOf, hfind, hsame]
    rfl

theorem mem_of_nameOf (hname : nameOf entries i = some name) : (name, i) ∈ entries := by
  obtain ⟨entry, hfind, rfl⟩ := Option.map_eq_some_iff.mp hname
  have hnum : entry.2 = i := by simpa using List.find?_some hfind
  rw [← hnum]
  exact List.mem_of_find?_eq_some hfind

section

variable {t : Tree ν}

/-- A node has at most its own number of nodes above it. -/
theorem Tree.Valid.climb_eq (h : t.Valid) {fuel' : Nat} (hi : i < t.size)
    (hfuel : i ≤ fuel) (hfuel' : i ≤ fuel') : t.climb fuel i = t.climb fuel' i := by
  induction fuel generalizing i fuel' with
  | zero =>
    have hzero : i = 0 := Nat.le_zero.mp hfuel
    cases fuel' with
    | zero => rfl
    | succ fuel' => rw [climb_zero, climb_succ, if_pos hzero]
  | succ fuel ih =>
    by_cases hzero : i = 0
    · cases fuel' with
      | zero => rw [climb_zero, climb_succ, if_pos hzero]
      | succ fuel' => rw [climb_succ, climb_succ, if_pos hzero, if_pos hzero]
    have hparent := h.parent_lt hi hzero
    cases fuel' with
    | zero => exact absurd (Nat.le_zero.mp hfuel') hzero
    | succ fuel' =>
      rw [climb_succ, climb_succ, if_neg hzero, if_neg hzero,
        ih (Nat.lt_trans hparent hi) (by omega) (by omega : t.parent i ≤ fuel')]

theorem Tree.Valid.path_root (h : t.Valid) : t.path 0 = [] := by
  obtain ⟨n, hn⟩ := Nat.exists_eq_succ_of_ne_zero (Nat.ne_of_gt h.root)
  rw [Tree.path, hn, climb_succ, if_pos rfl]

theorem Tree.Valid.path_eq (h : t.Valid) (hi : i < t.size) (hzero : i ≠ 0) :
    t.path i = t.path (t.parent i) ++ (nameOf (t.children (t.parent i)) i).toList := by
  have hparent := h.parent_lt hi hzero
  obtain ⟨n, hn⟩ := Nat.exists_eq_succ_of_ne_zero (Nat.ne_of_gt h.root)
  rw [Tree.path, Tree.path, hn, climb_succ, if_neg hzero,
    h.climb_eq (Nat.lt_trans hparent hi) (by omega : t.parent i ≤ n)
      (by omega : t.parent i ≤ n.succ)]

theorem Tree.Valid.path_of_mem (h : t.Valid)
    (hmem : (name, i) ∈ t.children dir) : t.path i = t.path dir ++ [name] := by
  have howner : t.parent i = dir := h.owner hmem
  rw [h.path_eq (h.inRange hmem) (h.notRoot hmem), howner, nameOf_of_mem (h.once dir) hmem]
  rfl

/-- Every name of a path is the name of an entry. -/
theorem Tree.mem_climb (hmem : name ∈ t.climb fuel i) : ∃ dir j, (name, j) ∈ t.children dir := by
  induction fuel generalizing i with
  | zero => cases hmem
  | succ fuel ih =>
    rw [climb_succ] at hmem
    split at hmem
    · cases hmem
    rcases List.mem_append.mp hmem with hup | hlast
    · exact ih hup
    · exact ⟨_, i, mem_of_nameOf (Option.mem_toList.mp hlast)⟩

end

variable {names : List ν}

section

variable [DecidableEq ν] {t : Tree ν}

theorem Tree.follow_append (t : Tree ν) (cur : Nat) (names more : List ν) :
    t.follow cur (names ++ more) = (t.follow cur names).bind fun i => t.follow i more := by
  induction names generalizing cur with
  | nil => rfl
  | cons name names ih =>
    rw [List.cons_append, follow_cons, follow_cons]
    cases childOf (t.children cur) name with
    | none => rfl
    | some next => exact ih next

/-- The last step of a way down. -/
theorem Tree.follow_concat :
    t.follow cur (names ++ [name]) = some i ↔
      ∃ dir, t.follow cur names = some dir ∧ childOf (t.children dir) name = some i := by
  rw [follow_append, Option.bind_eq_some_iff]
  refine exists_congr fun dir => and_congr_right fun _ => ?_
  rw [follow_cons]
  cases childOf (t.children dir) name with
  | none => exact Iff.rfl
  | some next => exact Iff.rfl

theorem Tree.Valid.follow_lt (h : t.Valid) (hcur : cur < t.size)
    (hfollow : t.follow cur names = some i) : i < t.size := by
  induction names generalizing cur with
  | nil =>
    cases hfollow
    exact hcur
  | cons name names ih =>
    rw [follow_cons] at hfollow
    cases hchild : childOf (t.children cur) name with
    | none =>
      rw [hchild] at hfollow
      cases hfollow
    | some next =>
      rw [hchild] at hfollow
      exact ih (h.inRange (mem_of_childOf hchild)) hfollow

/-- The names that lead to a node are those read on the way up. -/
theorem Tree.Valid.path_of_follow (h : t.Valid)
    (hfollow : t.follow 0 names = some i) : t.path i = names := by
  induction names using List.reverseRecOn generalizing i with
  | nil =>
    cases hfollow
    exact h.path_root
  | append_singleton names name ih =>
    obtain ⟨dir, hdir, hchild⟩ := Tree.follow_concat.mp hfollow
    rw [h.path_of_mem (mem_of_childOf hchild), ih hdir]

/-- Is there a way down to the node? -/
def Tree.Linked (t : Tree ν) (i : Nat) : Prop := ∃ names, t.follow 0 names = some i

theorem Tree.linked_root (t : Tree ν) : t.Linked 0 := ⟨[], rfl⟩

theorem Tree.Linked.child (h : t.Linked dir)
    (hchild : childOf (t.children dir) name = some i) : t.Linked i := by
  obtain ⟨names, hnames⟩ := h
  exact ⟨names ++ [name], Tree.follow_concat.mpr ⟨dir, hnames, hchild⟩⟩

theorem Tree.Valid.follow_path (h : t.Valid) (hlinked : t.Linked i) :
    t.follow 0 (t.path i) = some i := by
  obtain ⟨names, hnames⟩ := hlinked
  rw [h.path_of_follow hnames]
  exact hnames

/-- A node with a way down has one through its parent. -/
theorem Tree.Valid.linked_parent (h : t.Valid) (hlinked : t.Linked i) : t.Linked (t.parent i) := by
  obtain ⟨names, hnames⟩ := hlinked
  induction names using List.reverseRecOn with
  | nil =>
    cases hnames
    rw [h.rootParent]
    exact t.linked_root
  | append_singleton names name _ =>
    obtain ⟨dir, hdir, hchild⟩ := Tree.follow_concat.mp hnames
    have howner : t.parent i = dir := h.owner (mem_of_childOf hchild)
    rw [howner]
    exact ⟨names, hdir⟩

end

section

variable (t : Tree ν)

/-- A new node as the last entry of a directory. -/
def Tree.add (dir : Nat) (name : ν) : Tree ν where
  size := t.size + 1
  parent := Function.update t.parent t.size dir
  children := Function.update t.children dir (t.children dir ++ [(name, t.size)])

/-- A node taken off the entries of a directory. -/
def Tree.remove (dir target : Nat) : Tree ν :=
  { t with
    children := Function.update t.children dir
      ((t.children dir).filter fun entry => entry.2 ≠ target) }

theorem Tree.children_add_self (dir : Nat) (name : ν) :
    (t.add dir name).children dir = t.children dir ++ [(name, t.size)] :=
  Function.update_self _ _ _

theorem Tree.children_add_of_ne (hd : d ≠ dir) (name : ν) :
    (t.add dir name).children d = t.children d :=
  Function.update_of_ne hd _ _

theorem Tree.children_remove_self (dir target : Nat) :
    (t.remove dir target).children dir = (t.children dir).filter fun entry => entry.2 ≠ target :=
  Function.update_self _ _ _

theorem Tree.children_remove_of_ne (hd : d ≠ dir) (target : Nat) :
    (t.remove dir target).children d = t.children d :=
  Function.update_of_ne hd _ _

end

section

variable [DecidableEq ν] {t : Tree ν}

omit [DecidableEq ν] in
theorem Tree.mem_children_add {entry : ν × Nat} :
    entry ∈ (t.add dir name).children d ↔
      entry ∈ t.children d ∨ (d = dir ∧ entry = (name, t.size)) := by
  by_cases hd : d = dir
  · subst hd
    rw [children_add_self, List.mem_append, List.mem_singleton]
    simp
  · rw [t.children_add_of_ne hd]
    simp [hd]

theorem Tree.Valid.add (h : t.Valid) (hdir : dir < t.size)
    (hfresh : childOf (t.children dir) name = none) : (t.add dir name).Valid := by
  have hparent : ∀ {i}, i < t.size → (t.add dir name).parent i = t.parent i := fun hi =>
    Function.update_of_ne (Nat.ne_of_lt hi) _ _
  have hnew : (t.add dir name).parent t.size = dir := Function.update_self _ _ _
  refine ⟨Nat.succ_pos _, ?_, ?_, ?_, ?_, ?_, ?_, ?_, ?_⟩
  · rw [hparent h.root]
    exact h.rootParent
  · intro i hi hzero
    rcases Nat.lt_succ_iff_lt_or_eq.mp hi with hlt | rfl
    · rw [hparent hlt]
      exact h.parent_lt hlt hzero
    · rw [hnew]
      exact hdir
  · intro i hi
    have hne : i ≠ dir := by
      have : t.size + 1 ≤ i := hi
      omega
    rw [t.children_add_of_ne hne]
    exact h.leaf (Nat.le_of_succ_le hi)
  · intro d entry hmem
    rcases Tree.mem_children_add.mp hmem with hold | ⟨-, rfl⟩
    · exact Nat.lt_succ_of_lt (h.inRange hold)
    · exact Nat.lt_succ_self _
  · intro d entry hmem
    rcases Tree.mem_children_add.mp hmem with hold | ⟨rfl, rfl⟩
    · rw [hparent (h.inRange hold)]
      exact h.owner hold
    · exact hnew
  · intro d entry hmem
    rcases Tree.mem_children_add.mp hmem with hold | ⟨-, rfl⟩
    · exact h.notRoot hold
    · exact Nat.ne_of_gt h.root
  · intro d
    by_cases hd : d = dir
    · subst hd
      rw [Tree.children_add_self, List.map_append, List.nodup_append]
      refine ⟨h.once d, List.nodup_singleton _, ?_⟩
      intro i hi j hj
      obtain ⟨entry, hentry, rfl⟩ := List.mem_map.mp hi
      rw [List.mem_singleton.mp hj]
      exact Nat.ne_of_lt (h.inRange hentry)
    · rw [t.children_add_of_ne hd]
      exact h.once d
  · intro d
    by_cases hd : d = dir
    · subst hd
      rw [Tree.children_add_self, List.map_append, List.nodup_append]
      refine ⟨h.distinct d, List.nodup_singleton _, ?_⟩
      intro other hother last hlast
      rw [List.mem_singleton.mp hlast]
      rintro rfl
      exact childOf_eq_none.mp hfresh hother
    · rw [t.children_add_of_ne hd]
      exact h.distinct d

omit [DecidableEq ν] in
theorem Tree.mem_children_remove {entry : ν × Nat} :
    entry ∈ (t.remove dir target).children d ↔
      entry ∈ t.children d ∧ ¬ (d = dir ∧ entry.2 = target) := by
  by_cases hd : d = dir
  · subst hd
    rw [children_remove_self, List.mem_filter]
    simp
  · rw [t.children_remove_of_ne hd]
    simp [hd]

omit [DecidableEq ν] in
/-- The root is nobody's entry. -/
theorem Tree.Valid.remove_root (h : t.Valid) (dir : Nat) : t.remove dir 0 = t := by
  have hkept : (t.children dir).filter (fun entry => entry.2 ≠ 0) = t.children dir :=
    List.filter_eq_self.mpr fun entry hmem => decide_eq_true (h.notRoot hmem)
  rw [Tree.remove, hkept, Function.update_eq_self]

omit [DecidableEq ν] in
theorem Tree.children_remove_sublist (t : Tree ν) (dir target d : Nat) :
    ((t.remove dir target).children d).Sublist (t.children d) := by
  by_cases hd : d = dir
  · subst hd
    rw [children_remove_self]
    exact List.filter_sublist
  · rw [t.children_remove_of_ne hd]

variable (h : t.Valid)
include h

omit [DecidableEq ν] in
theorem Tree.Valid.remove (dir target : Nat) : (t.remove dir target).Valid where
  root := h.root
  rootParent := h.rootParent
  parent_lt := h.parent_lt
  leaf hi := List.sublist_nil.mp (h.leaf hi ▸ t.children_remove_sublist dir target _)
  inRange hmem := h.inRange (Tree.mem_children_remove.mp hmem).1
  owner hmem := h.owner (Tree.mem_children_remove.mp hmem).1
  notRoot hmem := h.notRoot (Tree.mem_children_remove.mp hmem).1
  once d := ((t.children_remove_sublist dir target d).map _).nodup (h.once d)
  distinct d := ((t.children_remove_sublist dir target d).map _).nodup (h.distinct d)

/-- In a valid tree the lookup of a name is membership. -/
theorem Tree.Valid.childOf_eq_some :
    childOf (t.children dir) name = some i ↔ (name, i) ∈ t.children dir :=
  ⟨mem_of_childOf, childOf_of_mem (h.distinct dir)⟩

/-- After a new entry, the only new way down is the one to it. -/
theorem Tree.Valid.follow_add (hdir : dir < t.size)
    (hfresh : childOf (t.children dir) name = none) :
    (t.add dir name).follow 0 names = some i ↔
      t.follow 0 names = some i ∨
        (i = t.size ∧ ∃ before, names = before ++ [name] ∧ t.follow 0 before = some dir) := by
  have hvalid := h.add hdir hfresh
  induction names using List.reverseRecOn generalizing i with
  | nil => simp [Tree.follow]
  | append_singleton names last ih =>
    rw [Tree.follow_concat, Tree.follow_concat]
    simp only [hvalid.childOf_eq_some, h.childOf_eq_some, Tree.mem_children_add, ih, Prod.mk.injEq]
    constructor
    · rintro ⟨d, hd | ⟨rfl, -⟩, hmem | ⟨rfl, rfl, rfl⟩⟩
      · exact Or.inl ⟨d, hd, hmem⟩
      · exact Or.inr ⟨rfl, names, rfl, hd⟩
      · rw [h.leaf (Nat.le_refl _)] at hmem
        cases hmem
      · exact absurd hdir (Nat.lt_irrefl _)
    · rintro (⟨d, hd, hmem⟩ | ⟨rfl, before, hnames, hbefore⟩)
      · exact ⟨d, Or.inl hd, Or.inl hmem⟩
      · obtain ⟨rfl, hlast⟩ := List.append_inj' hnames rfl
        obtain rfl : last = name := List.singleton_inj.mp hlast
        exact ⟨dir, Or.inl hbefore, Or.inr ⟨rfl, rfl, rfl⟩⟩

/-- Taking an entry off opens no new way. -/
theorem Tree.Valid.follow_of_remove
    (hfollow : (t.remove dir target).follow 0 names = some i) : t.follow 0 names = some i := by
  have hvalid := h.remove dir target
  induction names using List.reverseRecOn generalizing i with
  | nil => exact hfollow
  | append_singleton names last ih =>
    obtain ⟨d, hd, hchild⟩ := Tree.follow_concat.mp hfollow
    rw [hvalid.childOf_eq_some, Tree.mem_children_remove] at hchild
    exact Tree.follow_concat.mpr ⟨d, ih hd, h.childOf_eq_some.mpr hchild.1⟩

/-- Every way that leads elsewhere stays open. -/
theorem Tree.Valid.follow_remove_of_ne (hleaf : t.children target = [])
    (hfollow : t.follow 0 names = some i) (hne : i ≠ target) :
    (t.remove dir target).follow 0 names = some i := by
  have hvalid := h.remove dir target
  induction names using List.reverseRecOn generalizing i with
  | nil => exact hfollow
  | append_singleton names last ih =>
    obtain ⟨d, hd, hchild⟩ := Tree.follow_concat.mp hfollow
    have hmem := h.childOf_eq_some.mp hchild
    have hinner : d ≠ target := by
      rintro rfl
      rw [hleaf] at hmem
      cases hmem
    refine Tree.follow_concat.mpr ⟨d, ih hd hinner, ?_⟩
    rw [hvalid.childOf_eq_some, Tree.mem_children_remove]
    exact ⟨hmem, fun hself => hne hself.2⟩

/-- Without an entry that leads nowhere further, only the way to it is gone. -/
theorem Tree.Valid.follow_remove (hzero : target ≠ 0) (hleaf : t.children target = []) :
    (t.remove (t.parent target) target).follow 0 names = some i ↔
      t.follow 0 names = some i ∧ i ≠ target := by
  have hvalid := h.remove (t.parent target) target
  refine ⟨fun hfollow => ⟨h.follow_of_remove hfollow, ?_⟩,
    fun hkept => h.follow_remove_of_ne hleaf hkept.1 hkept.2⟩
  rintro rfl
  induction names using List.reverseRecOn with
  | nil => exact hzero (Option.some.inj hfollow).symm
  | append_singleton names last _ =>
    obtain ⟨d, -, hchild⟩ := Tree.follow_concat.mp hfollow
    rw [hvalid.childOf_eq_some, Tree.mem_children_remove] at hchild
    exact hchild.2 ⟨(h.owner hchild.1).symm, rfl⟩

end

end Directories
