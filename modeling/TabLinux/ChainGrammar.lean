/-
The grammar of descriptor chains: what the links of a queue and of its indirect tables
describe, and the memories on which the device reads them so.
-/
import TabLinux.Virtio

namespace TabLinux

open Bytes

abbrev Descriptor.Last (d : Descriptor) : Prop := d.flags &&& descFNext = 0

abbrev Descriptor.Writable (d : Descriptor) : Prop := d.flags &&& descFWrite ≠ 0

abbrev Descriptor.Indirect (d : Descriptor) : Prop := d.flags &&& descFIndirect ≠ 0

def buffers (ds : List Descriptor) : List Buf := ds.map fun d => ⟨d.addr, d.len⟩

def GuestMem.entry (mem : GuestMem) (table : U64) (idx : U16) : Descriptor :=
  mem.descriptor (table + idx.setWidth 64 * 16)

section

variable (entry : U16 → Descriptor) (size : Nat)

/-- The descriptors that the links from `idx` on reach, if the last of them comes within
`steps` and every index is inside the table. -/
def linked : (steps : Nat) → (idx : U16) → Option (List Descriptor)
  | 0, _ => none
  | steps + 1, idx =>
      if size ≤ idx.toNat then none
      else if (entry idx).Last then some [entry idx]
      else (linked steps (entry idx).next).map (entry idx :: ·)

/-- Within `steps` the links from `idx` on end, or leave the table. -/
def Stops : (steps : Nat) → (idx : U16) → Prop
  | 0, idx => size ≤ idx.toNat
  | steps + 1, idx => size ≤ idx.toNat ∨ (entry idx).Last ∨ Stops steps (entry idx).next

end

section

variable (q : QueueState) (mem : GuestMem)

/-- A descriptor for itself, or those of the table that it points at. -/
def GuestMem.expand (d : Descriptor) : Option (List Descriptor) :=
  if d.Indirect then linked (mem.entry d.addr) (d.len.toNat / 16) (d.len.toNat / 16) 0
  else some [d]

/-- The descriptors that a queue holds in link order from `head` on. -/
def QueueState.links (head : U16) : Option (List Descriptor) :=
  linked (mem.entry q.desc) q.num.toNat q.num.toNat head

/-- The chain that the links from `head` on describe. -/
def QueueState.described (head : U16) : Option Chain :=
  (q.links mem head).bind fun ds => (ds.mapM mem.expand).map fun parts =>
    ⟨head, buffers (parts.flatten.filter fun d => ¬d.Writable),
      buffers (parts.flatten.filter fun d => d.Writable)⟩

/-- The table that a descriptor points at ends within itself and within the entries that
the device follows. -/
def GuestMem.Tabled (d : Descriptor) : Prop :=
  d.Indirect → ∃ ds, linked (mem.entry d.addr) (d.len.toNat / 16)
    (min (d.len.toNat / 16) queueNumMax) 0 = some ds

end

variable {entry : U16 → Descriptor} {size steps : Nat} {idx : U16}
variable {ds : List Descriptor} {q : QueueState} {mem : GuestMem}

theorem linked_mono {steps' : Nat} (h : linked entry size steps idx = some ds)
    (hle : steps ≤ steps') : linked entry size steps' idx = some ds := by
  induction steps generalizing idx ds steps' with
  | zero => cases h
  | succ steps ih =>
    obtain ⟨steps', rfl⟩ := Nat.exists_eq_add_of_le' (Nat.zero_lt_of_lt hle)
    rw [linked] at h ⊢
    split_ifs at h ⊢ with hout hlast
    · exact h
    · obtain ⟨rest, hrest, rfl⟩ := Option.map_eq_some_iff.mp h
      rw [ih hrest (Nat.le_of_succ_le_succ hle), Option.map_some]

theorem walkIndirect_linked {table : U64}
    (h : linked (mem.entry table) size steps idx = some ds) (chain : Chain) :
    walkIndirect mem table steps (idx.setWidth 64) chain = ds.foldl Chain.push chain := by
  induction steps generalizing idx ds chain with
  | zero => cases h
  | succ steps ih =>
    rw [linked] at h
    split_ifs at h with hout hlast
    · cases h
      exact if_pos hlast
    · obtain ⟨rest, hrest, rfl⟩ := Option.map_eq_some_iff.mp h
      exact (if_neg hlast).trans (ih hrest _)

theorem foldl_push (chain : Chain) : ds.foldl Chain.push chain =
    ⟨chain.head, chain.readable ++ buffers (ds.filter fun d => ¬d.Writable),
      chain.writable ++ buffers (ds.filter fun d => d.Writable)⟩ := by
  induction ds generalizing chain with
  | nil => simp [buffers]
  | cons d ds ih =>
    rw [List.foldl_cons, ih, Chain.push]
    split <;> simp_all [buffers]

/-- The chain after what the device takes for one descriptor. -/
def GuestMem.taken (mem : GuestMem) (d : Descriptor) (chain : Chain) : Chain :=
  if d.Indirect then walkIndirect mem d.addr (min (d.len.toNat / 16) queueNumMax) 0 chain
  else chain.push d

theorem QueueState.walkFrom_inside (hin : ¬ q.num.toNat ≤ idx.toNat) (steps : Nat)
    (chain : Chain) :
    q.walkFrom mem (steps + 1) idx chain =
      if (mem.entry q.desc idx).Last then some (mem.taken (mem.entry q.desc idx) chain)
      else q.walkFrom mem steps (mem.entry q.desc idx).next
        (mem.taken (mem.entry q.desc idx) chain) :=
  if_neg hin

theorem GuestMem.Tabled.expand {d : Descriptor} (h : mem.Tabled d) (chain : Chain) :
    ∃ own, mem.expand d = some own ∧ mem.taken d chain = own.foldl Chain.push chain := by
  by_cases hind : d.Indirect
  · obtain ⟨own, hown⟩ := h hind
    refine ⟨own, ?_, ?_⟩
    · rw [GuestMem.expand, if_pos hind]
      exact linked_mono hown (Nat.min_le_left _ _)
    · rw [GuestMem.taken, if_pos hind]
      exact walkIndirect_linked hown chain
  · exact ⟨[d], if_neg hind, if_neg hind⟩

theorem QueueState.walkFrom_linked (hstops : Stops (mem.entry q.desc) q.num.toNat steps idx)
    (htables : ∀ ds, linked (mem.entry q.desc) q.num.toNat steps idx = some ds →
      ∀ d ∈ ds, mem.Tabled d) (chain : Chain) :
    q.walkFrom mem (steps + 1) idx chain =
      (linked (mem.entry q.desc) q.num.toNat steps idx).bind fun ds =>
        (ds.mapM mem.expand).map fun parts => parts.flatten.foldl Chain.push chain := by
  induction steps generalizing idx chain with
  | zero => exact if_pos hstops
  | succ steps ih =>
    by_cases hout : q.num.toNat ≤ idx.toNat
    · rw [linked, if_pos hout]
      exact if_pos hout
    rw [walkFrom_inside hout]
    rw [linked, if_neg hout] at htables ⊢
    by_cases hlast : (mem.entry q.desc idx).Last
    · rw [if_pos hlast] at htables ⊢
      obtain ⟨own, hown, htaken⟩ := (htables _ rfl _ List.mem_cons_self).expand chain
      rw [if_pos hlast, htaken]
      simp [hown]
    rw [if_neg hlast] at htables ⊢
    rw [if_neg hlast]
    have hrest := ih ((hstops.resolve_left hout).resolve_left hlast)
    cases hlinked : linked (mem.entry q.desc) q.num.toNat steps
        (mem.entry q.desc idx).next with
    | none =>
      rw [hlinked] at hrest
      exact hrest (fun _ h => by cases h) _
    | some ds =>
      rw [hlinked] at hrest htables
      obtain ⟨own, hown, htaken⟩ := (htables _ rfl _ List.mem_cons_self).expand chain
      rw [htaken]
      refine (hrest (fun _ h d hd => ?_) _).trans ?_
      · cases h
        exact htables _ rfl d (List.mem_cons_of_mem _ hd)
      · rw [Option.map_some, Option.bind_some, Option.bind_some, List.mapM_cons, hown]
        cases ds.mapM mem.expand <;> simp

theorem exists_of_mapM_cons {α β : Type} {f : α → Option β} {x : α} {xs : List α} {ys : List β}
    (h : (x :: xs).mapM f = some ys) :
    ∃ y rest, f x = some y ∧ xs.mapM f = some rest ∧ ys = y :: rest := by
  rw [List.mapM_cons] at h
  obtain ⟨y, hy, h⟩ := Option.bind_eq_some_iff.mp h
  obtain ⟨rest, hrest, h⟩ := Option.bind_eq_some_iff.mp h
  cases h
  exact ⟨y, rest, hy, hrest, rfl⟩

/-- Links that end within fewer steps are found by fewer. -/
theorem linked_of_length {steps' : Nat} (h : linked entry size steps' idx = some ds)
    (hle : ds.length ≤ steps) : linked entry size steps idx = some ds := by
  induction steps' generalizing idx ds steps with
  | zero => cases h
  | succ steps' ih =>
    rw [linked] at h
    split_ifs at h with hout hlast
    · cases h
      obtain ⟨steps, rfl⟩ := Nat.exists_eq_add_of_le' hle
      rw [List.length_singleton, linked, if_neg hout, if_pos hlast]
    · obtain ⟨rest, hrest, rfl⟩ := Option.map_eq_some_iff.mp h
      obtain ⟨steps, rfl⟩ := Nat.exists_eq_add_of_le' (Nat.zero_lt_of_lt hle)
      rw [linked, if_neg hout, if_neg hlast, ih hrest (Nat.le_of_succ_le_succ hle),
        Option.map_some]

theorem linked_stops (h : linked entry size steps idx = some ds) : Stops entry size steps idx := by
  induction steps generalizing idx ds with
  | zero => cases h
  | succ steps ih =>
    rw [linked] at h
    split_ifs at h with hout hlast
    · exact .inr (.inl hlast)
    · obtain ⟨rest, hrest, -⟩ := Option.map_eq_some_iff.mp h
      exact .inr (.inr (ih hrest))

/-- Unless the links leave the queue, the device takes what it has met. -/
theorem QueueState.walkFrom_isSome (h : Stops (mem.entry q.desc) q.num.toNat steps idx →
      (linked (mem.entry q.desc) q.num.toNat steps idx).isSome = true) (chain : Chain) :
    (q.walkFrom mem (steps + 1) idx chain).isSome = true := by
  induction steps generalizing idx chain with
  | zero =>
    have hin : ¬ q.num.toNat ≤ idx.toNat := fun hout => by cases h hout
    rw [walkFrom_inside hin]
    split <;> rfl
  | succ steps ih =>
    rw [Stops, linked] at h
    have hin : ¬ q.num.toNat ≤ idx.toNat := by
      intro hout
      rw [if_pos hout] at h
      cases h (.inl hout)
    rw [walkFrom_inside hin]
    split
    · rfl
    · rename_i hnext
      rw [if_neg hin, if_neg hnext, Option.isSome_map] at h
      exact ih (fun hstops => h (.inr (.inr hstops))) _

def Chain.count (chain : Chain) : Nat := chain.readable.length + chain.writable.length

theorem Chain.count_push (chain : Chain) (d : Descriptor) :
    (chain.push d).count = chain.count + 1 := by
  unfold push count
  split <;> simp <;> omega

theorem walkIndirect_count (table inner : U64) (chain : Chain) :
    (walkIndirect mem table steps inner chain).count ≤ chain.count + steps := by
  induction steps generalizing inner chain with
  | zero => exact Nat.le_refl _
  | succ steps ih =>
    have hpush := chain.count_push (mem.descriptor (table + inner * 16))
    rw [walkIndirect]
    split
    · omega
    · exact Nat.le_trans (ih _ _) (by omega)

theorem Chain.count_foldl_push (chain : Chain) :
    (ds.foldl Chain.push chain).count = chain.count + ds.length := by
  induction ds generalizing chain with
  | nil => rfl
  | cons d ds ih =>
    rw [List.foldl_cons, ih, count_push, List.length_cons]
    omega

/-- For one descriptor the device takes no more buffers than there are, and fewer if it does
not see the end of a table. -/
theorem GuestMem.taken_count {d : Descriptor} {own : List Descriptor}
    (h : mem.expand d = some own) (chain : Chain) :
    (mem.taken d chain).count ≤ chain.count + own.length ∧
      (¬ mem.Tabled d → (mem.taken d chain).count < chain.count + own.length) := by
  by_cases htabled : mem.Tabled d
  · obtain ⟨own', hown, htaken⟩ := htabled.expand chain
    cases hown.symm.trans h
    rw [htaken, Chain.count_foldl_push]
    exact ⟨Nat.le_refl _, fun hopen => absurd htabled hopen⟩
  · obtain ⟨hind, hnone⟩ : d.Indirect ∧ ∀ ds, linked (mem.entry d.addr) (d.len.toNat / 16)
        (min (d.len.toNat / 16) queueNumMax) 0 ≠ some ds := by
      simpa only [Tabled, Classical.not_imp, not_exists] using htabled
    rw [GuestMem.expand, if_pos hind] at h
    have hlong : min (d.len.toNat / 16) queueNumMax < own.length :=
      Nat.lt_of_not_le fun hle => hnone own (linked_of_length h hle)
    have hcount : (mem.taken d chain).count ≤
        chain.count + min (d.len.toNat / 16) queueNumMax := by
      rw [taken, if_pos hind]
      exact walkIndirect_count d.addr 0 chain
    exact ⟨by omega, fun _ => by omega⟩

/-- A table whose end the device does not see makes the chain too short.  The bound is on
what was taken before, and the chain may be below it already. -/
theorem QueueState.walkFrom_short {parts : List (List Descriptor)} {bound : Nat}
    (hlinked : linked (mem.entry q.desc) q.num.toNat steps idx = some ds)
    (hparts : ds.mapM mem.expand = some parts) (chain : Chain) (hchain : chain.count ≤ bound)
    (hshort : chain.count < bound ∨ ∃ d ∈ ds, ¬ mem.Tabled d) :
    (q.walkFrom mem (steps + 1) idx chain).elim 0 Chain.count < bound + parts.flatten.length := by
  induction steps generalizing idx ds parts chain bound with
  | zero => cases hlinked
  | succ steps ih =>
    rw [linked] at hlinked
    split_ifs at hlinked with hout hlast
    · cases hlinked
      obtain ⟨own, rest, hown, -, rfl⟩ := exists_of_mapM_cons hparts
      obtain ⟨hle, hlt⟩ := GuestMem.taken_count hown chain
      rw [walkFrom_inside hout, if_pos hlast, List.flatten_cons, List.length_append]
      rcases hshort with hlow | ⟨d, hd, hopen⟩
      · exact Nat.lt_of_le_of_lt hle (by omega)
      · cases List.mem_singleton.mp hd
        exact Nat.lt_of_lt_of_le (hlt hopen) (by omega)
    · obtain ⟨rest, hrest, rfl⟩ := Option.map_eq_some_iff.mp hlinked
      obtain ⟨own, restParts, hown, hrestParts, rfl⟩ := exists_of_mapM_cons hparts
      obtain ⟨hle, hlt⟩ := GuestMem.taken_count hown chain
      rw [walkFrom_inside hout, if_neg hlast, List.flatten_cons, List.length_append,
        ← Nat.add_assoc]
      refine ih hrest hrestParts _ (by omega) ?_
      rcases hshort with hlow | ⟨d, hd, hopen⟩
      · exact .inl (by omega)
      rcases List.mem_cons.mp hd with rfl | hd
      · exact .inl (Nat.lt_of_lt_of_le (hlt hopen) (by omega))
      · exact .inr ⟨d, hd, hopen⟩

/-- The device reads a chain as it is described exactly if the links stop within the queue's
size and the tables of a complete chain end within the entries that the device follows. -/
theorem QueueState.walk_described (q : QueueState) (mem : GuestMem) (head : U16) :
    q.walk mem head = q.described mem head ↔
      Stops (mem.entry q.desc) q.num.toNat q.num.toNat head ∧
        ∀ ds, q.links mem head = some ds → ∀ d ∈ ds, mem.Tabled d := by
  have hdescribed : q.described mem head = (q.links mem head).bind fun ds =>
      (ds.mapM mem.expand).map fun parts => parts.flatten.foldl Chain.push ⟨head, [], []⟩ := by
    simp only [foldl_push, List.nil_append]
    rfl
  rw [hdescribed]
  refine ⟨fun h => ?_, fun h => QueueState.walkFrom_linked h.1 h.2 _⟩
  have hstops : Stops (mem.entry q.desc) q.num.toNat q.num.toNat head := by
    by_contra hruns
    have hnone : q.links mem head = none :=
      Option.eq_none_iff_forall_ne_some.mpr fun ds hds => hruns (linked_stops hds)
    have hsome : (q.walk mem head).isSome = true :=
      QueueState.walkFrom_isSome (fun hstops => absurd hstops hruns) _
    rw [h, hnone] at hsome
    cases hsome
  refine ⟨hstops, fun ds hds d hd => ?_⟩
  by_contra hopen
  rw [hds, Option.bind_some] at h
  have hsome : (q.walk mem head).isSome = true :=
    QueueState.walkFrom_isSome (fun _ => by rw [← QueueState.links, hds]; rfl) _
  cases hparts : ds.mapM mem.expand with
  | none =>
    rw [h, hparts] at hsome
    cases hsome
  | some parts =>
    have hshort : (q.walk mem head).elim 0 Chain.count < 0 + parts.flatten.length :=
      QueueState.walkFrom_short hds hparts _ (Nat.le_refl 0) (.inr ⟨d, hd, hopen⟩)
    rw [h, hparts, Option.map_some, Option.elim_some, Chain.count_foldl_push] at hshort
    exact absurd hshort (Nat.lt_irrefl _)

/-- A page with one descriptor at its start. -/
def oneDescriptor (flags : Byte) : GuestMem :=
  ⟨0, 4096, fun i => if i = 12 then flags else 0⟩

def oneQueue : QueueState := { QueueState.default with num := 1 }

/-- A descriptor that links to one with a table of two. -/
def linkedMem : GuestMem :=
  ⟨0, 4096, fun i => ([(0, 0x80), (8, 4), (12, 1), (14, 1), (16, 0x20), (24, 32), (28, 4),
    (32, 0x90), (40, 2), (44, 1), (46, 1), (48, 0xA0), (56, 3), (60, 2)].lookup i).getD 0⟩

example : { QueueState.default with num := 2 }.walk linkedMem 0 =
    some ⟨0, [⟨0x80, 4⟩, ⟨0x90, 2⟩], [⟨0xA0, 3⟩]⟩ := by decide +kernel

/-- A descriptor that links to itself is taken for a chain of two buffers. -/
theorem cyclic_chain_accepted :
    oneQueue.described (oneDescriptor 1) 0 = none ∧
      oneQueue.walk (oneDescriptor 1) 0 = some ⟨0, [⟨0, 0⟩, ⟨0, 0⟩], []⟩ :=
  ⟨rfl, rfl⟩

theorem QueueState.walkFrom_count (chain : Chain) :
    (q.walkFrom mem steps idx chain).elim 0 Chain.count ≤ chain.count + steps * queueNumMax := by
  induction steps generalizing idx chain with
  | zero => exact Nat.le_add_right _ _
  | succ steps ih =>
    rw [walkFrom, Nat.succ_mul]
    split
    · exact Nat.zero_le _
    extract_lets d next
    have hnext : next.count ≤ chain.count + queueNumMax := by
      unfold next
      split
      · exact Nat.le_trans (walkIndirect_count _ _ chain) (by omega)
      · rw [Chain.count_push]
        exact Nat.add_le_add_left (by decide) _
    split
    · exact Nat.le_trans hnext (by omega)
    · exact Nat.le_trans (ih _) (by omega)

/-- However the guest links its descriptors, a walk collects a bounded number of buffers. -/
theorem walk_count (q : QueueState) (mem : GuestMem) (head : U16) :
    (q.walk mem head).elim 0 Chain.count ≤ (q.num.toNat + 1) * queueNumMax :=
  Nat.le_trans (QueueState.walkFrom_count _) (by simp [Chain.count])

end TabLinux
