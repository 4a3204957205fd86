/-
The timer and the external line of the device bus.  Only a store to the comparator moves
the timer's, only an access outside guest memory and the CLINT the external one, and what
happens between two steps of the hart (the clock, completions, input, data from the host)
can only raise them.
-/
import TabLinux.DeviceBus
import TabLinux.VirtioMoves

namespace TabLinux

open Bytes Results DeviceBus

variable {addr : U64} {width : Width}

variable {irq : Fin plicNsrc} {best : Fin plicNsrc × U32} {slots : List (Fin virtioMmioSlots)}

namespace Plic

theorem level_setLevel_self (p : Plic) (irq : Fin plicNsrc) (level : Bool) :
    (p.setLevel irq level).level irq = level :=
  Function.update_self _ _ _

theorem level_setLevel_of_ne (p : Plic) {other : Fin plicNsrc} (hne : other ≠ irq)
    (level : Bool) : (p.setLevel irq level).level other = p.level other :=
  Function.update_of_ne hne _ _

/-- The search for the best source has found one as soon as one is offered. -/
theorem consider_found (p : Plic) (ctx : Fin plicNctx)
    (irq : Fin plicNsrc) (hbest : best.1 ≠ 0 ↔ best.2 ≠ 0) :
    ((p.consider ctx best irq).1 ≠ 0 ↔ (p.consider ctx best irq).2 ≠ 0) ∧
      ((p.consider ctx best irq).2 ≠ 0 ↔ best.2 ≠ 0 ∨ p.offers ctx irq = true) := by
  have hoffered : p.offers ctx irq = true → irq ≠ 0 ∧ p.threshold ctx < p.priority irq := by
    intro hoffers
    simp only [offers, Bool.and_eq_true, decide_eq_true_eq] at hoffers
    exact ⟨hoffers.1.1.2, hoffers.2⟩
  have hpositive : p.offers ctx irq = true → p.priority irq ≠ 0 := by
    intro hoffers hzero
    have hlt := (hoffered hoffers).2
    bv_omega
  unfold consider
  split
  · rename_i hbetter
    obtain ⟨hoffers, -⟩ := Bool.and_eq_true_iff.mp hbetter
    exact ⟨iff_of_true (hoffered hoffers).1 (hpositive hoffers),
      iff_of_true (hpositive hoffers) (Or.inr hoffers)⟩
  · rename_i hworse
    refine ⟨hbest, Or.inl, ?_⟩
    rintro (hold | hoffers) hzero
    · exact hold hzero
    have hnonzero := hpositive hoffers
    refine hworse (Bool.and_eq_true_iff.mpr ⟨hoffers, decide_eq_true ?_⟩)
    bv_omega

theorem foldl_consider (p : Plic) (ctx : Fin plicNctx) (irqs : List (Fin plicNsrc))
    (hbest : best.1 ≠ 0 ↔ best.2 ≠ 0) :
    (irqs.foldl (p.consider ctx) best).1 ≠ 0 ↔
      best.2 ≠ 0 ∨ ∃ irq ∈ irqs, p.offers ctx irq = true := by
  induction irqs generalizing best with
  | nil => simpa using hbest
  | cons irq irqs ih =>
    obtain ⟨hnext, hfound⟩ := p.consider_found ctx irq hbest
    rw [List.foldl_cons, ih hnext, hfound]
    simp only [List.mem_cons, exists_eq_or_imp, or_assoc]

/-- The PLIC has something to claim where a context is offered a source. -/
theorem anyPending_iff (p : Plic) : p.anyPending = true ↔ ∃ ctx irq, p.offers ctx irq = true := by
  have hbest : ∀ ctx, p.best ctx ≠ 0 ↔ ∃ irq, p.offers ctx irq = true := by
    intro ctx
    rw [best, p.foldl_consider ctx _ (by simp)]
    simp [List.mem_finRange]
  simp [anyPending, List.any_eq_true, List.mem_finRange, hbest]

/-- More asserted sources, and nothing else, leave something to claim. -/
theorem anyPending_mono {p p' : Plic} (hlevel : ∀ irq, p.level irq = true → p'.level irq = true)
    (hsame : p' = { p with level := p'.level }) (hpending : p.anyPending = true) :
    p'.anyPending = true := by
  obtain ⟨ctx, irq, hoffers⟩ := p.anyPending_iff.mp hpending
  refine p'.anyPending_iff.mpr ⟨ctx, irq, ?_⟩
  rw [hsame]
  simp only [offers, claimable, enabled, Bool.and_eq_true] at hoffers ⊢
  exact ⟨⟨⟨⟨hlevel irq hoffers.1.1.1.1, hoffers.1.1.1.2⟩, hoffers.1.1.2⟩, hoffers.1.2⟩, hoffers.2⟩

end Plic

section

variable {δ : Type}
variable {m : VirtioMmio δ}

theorem slotIrq_injective : Function.Injective slotIrq := by
  intro slot slot' h
  exact Fin.ext (Nat.succ.inj (congrArg Fin.val h))

variable {bus : DeviceBus δ}

namespace DeviceBus

theorem foldl_refreshSlot (bus : DeviceBus δ) (slots : List (Fin virtioMmioSlots)) (plic : Plic) :
    slots.foldl bus.refreshSlot plic =
      { plic with level := (slots.foldl bus.refreshSlot plic).level } := by
  induction slots generalizing plic with
  | nil => rfl
  | cons slot slots ih =>
    rw [List.foldl_cons, ih, refreshSlot]
    split <;> rfl

theorem foldl_refreshSlot_other
    (hother : ∀ slot ∈ slots, slotIrq slot = irq → bus.virtio slot = none)
    (plic : Plic) : (slots.foldl bus.refreshSlot plic).level irq = plic.level irq := by
  induction slots generalizing plic with
  | nil => rfl
  | cons slot slots ih =>
    obtain ⟨hself, hrest⟩ := List.forall_mem_cons.mp hother
    rw [List.foldl_cons, ih hrest, refreshSlot]
    split
    · rename_i dev hdev
      have hne : irq ≠ slotIrq slot := by
        rintro rfl
        cases (hself rfl).symm.trans hdev
      exact plic.level_setLevel_of_ne hne _
    · rfl

theorem foldl_refreshSlot_self
    {slot : Fin virtioMmioSlots} (hmem : slot ∈ slots) {dev : VirtioMmio δ}
    (hdev : bus.virtio slot = some dev) (plic : Plic) :
    (slots.foldl bus.refreshSlot plic).level (slotIrq slot) = dev.irqLevel := by
  induction slots generalizing plic with
  | nil => cases hmem
  | cons first slots ih =>
    rw [List.foldl_cons]
    by_cases hlater : slot ∈ slots
    · exact ih hlater _
    obtain rfl : slot = first := (List.mem_cons.mp hmem).resolve_right hlater
    have hothers : ∀ other ∈ slots, slotIrq other = slotIrq slot → bus.virtio other = none :=
      fun other hother hirq => absurd (slotIrq_injective hirq ▸ hother) hlater
    rw [foldl_refreshSlot_other hothers, refreshSlot, hdev]
    exact plic.level_setLevel_self _ _

/-- No line falls: the clock does not go back, the comparator and the PLIC's settings stay,
and the sources that were asserted still are. -/
structure Rises (bus bus' : DeviceBus δ) : Prop where
  mtimecmp : bus'.mtimecmp = bus.mtimecmp
  mtime : bus.mtime ≤ bus'.mtime
  uart : bus.uartIrqLevel = true → bus'.uartIrqLevel = true
  plic : bus'.plic = { bus.plic with level := bus'.plic.level }
  empty : ∀ slot, bus.virtio slot = none → bus'.virtio slot = none
  slots : ∀ slot dev, bus.virtio slot = some dev →
    ∃ dev', bus'.virtio slot = some dev' ∧ (dev.irqLevel = true → dev'.irqLevel = true)
  others : ∀ irq, irq ≠ uartIrq → (∀ slot, slotIrq slot = irq → bus.virtio slot = none) →
    bus'.plic.level irq = bus.plic.level irq

end DeviceBus

variable {bus bus' bus'' : DeviceBus δ}

namespace DeviceBus

theorem Rises.refl (bus : DeviceBus δ) : bus.Rises bus :=
  ⟨rfl, BitVec.le_refl _, id, rfl, fun _ h => h, fun _ dev hdev => ⟨dev, hdev, id⟩,
    fun _ _ _ => rfl⟩

theorem Rises.trans (h : bus.Rises bus') (h' : bus'.Rises bus'') : bus.Rises bus'' := by
  refine ⟨h'.mtimecmp.trans h.mtimecmp, BitVec.le_trans h.mtime h'.mtime,
    fun hup => h'.uart (h.uart hup), ?_, fun slot hnone => h'.empty slot (h.empty slot hnone),
    ?_, ?_⟩
  · rw [h'.plic, h.plic]
  · intro slot dev hdev
    obtain ⟨dev', hdev', hup⟩ := h.slots slot dev hdev
    obtain ⟨dev'', hdev'', hup'⟩ := h'.slots slot dev' hdev'
    exact ⟨dev'', hdev'', fun hlevel => hup' (hup hlevel)⟩
  · intro irq huart hfree
    rw [h'.others irq huart fun slot hslot => h.empty slot (hfree slot hslot),
      h.others irq huart hfree]

theorem Rises.external (h : bus.Rises bus')
    (hup : bus.externalInterruptPending = true) : bus'.externalInterruptPending = true := by
  refine Plic.anyPending_mono ?_ ?_ hup
  · intro irq hlevel
    by_cases huart : irq = uartIrq
    · subst huart
      exact h.uart hlevel
    rw [Plic.level_setLevel_of_ne _ huart] at hlevel ⊢
    by_cases hslot : ∃ slot dev, slotIrq slot = irq ∧ bus.virtio slot = some dev
    · obtain ⟨slot, dev, rfl, hdev⟩ := hslot
      obtain ⟨dev', hdev', hrises⟩ := h.slots slot dev hdev
      rw [refreshVirtioIrqs,
        foldl_refreshSlot_self (List.mem_finRange slot) hdev] at hlevel
      rw [refreshVirtioIrqs,
        foldl_refreshSlot_self (List.mem_finRange slot) hdev']
      exact hrises hlevel
    · have hfree : ∀ slot, slotIrq slot = irq → bus.virtio slot = none := by
        intro slot hirq
        cases hdev : bus.virtio slot with
        | none => rfl
        | some dev => exact absurd ⟨slot, dev, hirq, hdev⟩ hslot
      rw [refreshVirtioIrqs,
        foldl_refreshSlot_other fun slot _ => hfree slot] at hlevel
      rw [refreshVirtioIrqs,
        foldl_refreshSlot_other fun slot _ hirq => h.empty slot (hfree slot hirq),
        h.others irq huart hfree]
      exact hlevel
  · rw [Plic.setLevel, Plic.setLevel, refreshVirtioIrqs, refreshVirtioIrqs,
      bus'.foldl_refreshSlot, bus.foldl_refreshSlot, h.plic]

/-- The clock and its comparator are the same. -/
structure SameClock (bus bus' : DeviceBus δ) : Prop where
  mtimecmp : bus'.mtimecmp = bus.mtimecmp
  mtime : bus'.mtime = bus.mtime

theorem SameClock.refl (bus : DeviceBus δ) : bus.SameClock bus := ⟨rfl, rfl⟩

theorem SameClock.trans (h : bus.SameClock bus') (h' : bus'.SameClock bus'') :
    bus.SameClock bus'' :=
  ⟨h'.mtimecmp.trans h.mtimecmp, h'.mtime.trans h.mtime⟩

variable (bus : DeviceBus δ)

theorem dramRead_sameClock (off n : Nat) : bus.SameClock (bus.dramRead off n).2 := by
  unfold dramRead
  split <;> exact ⟨rfl, rfl⟩

theorem dramWrite_sameClock (off n : Nat) (val : BitVec (8 * n)) :
    bus.SameClock (bus.dramWrite off n val) := by
  unfold dramWrite
  split <;> exact ⟨rfl, rfl⟩

theorem uartRead_sameClock (off : Nat) : bus.SameClock (bus.uartRead off).2 := by
  unfold uartRead
  repeat' with_reducible
    refine iteInduction (motive := fun out : Byte × DeviceBus δ => bus.SameClock out.2)
      (fun _ => ?_) (fun _ => ?_)
  all_goals exact ⟨rfl, rfl⟩

theorem uartWrite_sameClock (off : Nat) (val : Byte) : bus.SameClock (bus.uartWrite off val) := by
  unfold uartWrite
  repeat' with_reducible
    refine iteInduction (motive := bus.SameClock) (fun _ => ?_) (fun _ => ?_)
  all_goals exact ⟨rfl, rfl⟩

theorem onSlot_sameClock (slot : Fin virtioMmioSlots) (always : Bool)
    (op : VirtioMmio δ → GuestMem → Except Panic (Bool × VirtioMmio δ × GuestMem)) :
    bus.SameClock (bus.onSlot slot always op) := by
  unfold onSlot
  split
  · exact .refl bus
  split
  · exact ⟨rfl, rfl⟩
  · split <;> exact ⟨rfl, rfl⟩

end DeviceBus

/-- The access is not one to the comparator of the timer. -/
def SparesTimer (access : U64 × Width) : Prop :=
  access.1 ≠ 0x02004000 ∧ access.1 ≠ 0x02004004

section

variable [VirtioDevice δ]

namespace DeviceBus

variable (bus : DeviceBus δ)

theorem readU8_sameClock (addr : U64) : bus.SameClock (bus.readU8 addr).2 := by
  unfold readU8
  split
  · exact bus.dramRead_sameClock _ 1
  split
  · exact .refl bus
  split
  · exact .refl bus
  split
  · exact bus.uartRead_sameClock _
  · exact .refl bus

theorem readU32_sameClock (addr : U64) : bus.SameClock (bus.readU32 addr).2 := by
  unfold readU32
  split
  · exact bus.dramRead_sameClock _ 4
  split
  · exact .refl bus
  split
  · exact .refl bus
  split
  · exact ⟨rfl, rfl⟩
  split
  · exact bus.readU8_sameClock addr
  · exact .refl bus

/-- No load moves the timer. -/
theorem read_sameClock (width : Width) (addr : U64) :
    bus.SameClock (Bus.read width bus addr).2 := by
  cases width with
  | u8 => exact bus.readU8_sameClock addr
  | u16 => exact (bus.readU8_sameClock addr).trans (readU8_sameClock _ _)
  | u32 => exact bus.readU32_sameClock addr
  | u64 =>
    change bus.SameClock (bus.readU64 addr).2
    unfold readU64
    split
    · exact bus.dramRead_sameClock _ 8
    split
    · exact .refl bus
    · exact (bus.readU32_sameClock addr).trans (readU32_sameClock _ _)

theorem writeU8_sameClock (addr : U64) (val : Byte) :
    bus.SameClock (bus.writeU8 addr val) := by
  unfold writeU8
  split
  · exact bus.dramWrite_sameClock _ 1 val
  split
  · split
    · exact bus.onSlot_sameClock _ _ _
    · exact .refl bus
  split
  · exact bus.uartWrite_sameClock _ val
  · exact .refl bus

theorem writeU32_sameClock (hspares : addr ≠ 0x02004000 ∧ addr ≠ 0x02004004) (val : U32) :
    bus.SameClock (bus.writeU32 addr val) := by
  unfold writeU32
  split
  · exact bus.dramWrite_sameClock _ 4 val
  split
  · exact bus.writeU8_sameClock addr _
  split
  · rw [clintWrite32, if_neg hspares.1, if_neg hspares.2]
    split <;> exact ⟨rfl, rfl⟩
  split
  · exact bus.onSlot_sameClock _ _ _
  split <;> exact ⟨rfl, rfl⟩

theorem write_sameClock (hspares : SparesTimer (addr, width))
    (val : width.Value) : bus.SameClock (Bus.write width bus addr val) := by
  cases width with
  | u8 => exact bus.writeU8_sameClock addr val
  | u16 =>
    change bus.SameClock (bus.writeU16 addr val)
    unfold writeU16
    split
    · exact bus.dramWrite_sameClock _ 2 val
    split
    · exact bus.writeU8_sameClock addr _
    · exact (bus.writeU8_sameClock addr _).trans (writeU8_sameClock _ _ _)
  | u32 => exact bus.writeU32_sameClock hspares val
  | u64 =>
    change bus.SameClock (bus.writeU64 addr val)
    unfold writeU64
    split
    · exact bus.dramWrite_sameClock _ 8 val
    split
    · exact bus.writeU8_sameClock addr _
    split
    · rw [clintWrite64, if_neg hspares.1]
      split <;> exact ⟨rfl, rfl⟩
    rename_i hclint
    -- the second word cannot reach the comparator from outside the CLINT
    have hnext : addr + 4 ≠ 0x02004000 ∧ addr + 4 ≠ 0x02004004 := by
      rw [inClint, Bool.and_eq_true, decide_eq_true_eq, decide_eq_true_eq] at hclint
      constructor <;> intro hcmp <;> exact hclint (by bv_omega)
    exact (bus.writeU32_sameClock hspares _).trans (writeU32_sameClock _ hnext _)

end DeviceBus

end

namespace DeviceBus

/-- The place of guest memory and all that the external line depends on are the same. -/
structure SameSources (bus bus' : DeviceBus δ) : Prop where
  base : bus'.dram.base = bus.dram.base
  len : bus'.dram.len = bus.dram.len
  uartIer : bus'.uartIer = bus.uartIer
  uartRx : bus'.uartRx = bus.uartRx
  plic : bus'.plic = bus.plic
  virtio : bus'.virtio = bus.virtio

theorem SameSources.refl (bus : DeviceBus δ) : bus.SameSources bus := ⟨rfl, rfl, rfl, rfl, rfl, rfl⟩

theorem SameSources.trans (h : bus.SameSources bus') (h' : bus'.SameSources bus'') :
    bus.SameSources bus'' :=
  ⟨h'.base.trans h.base, h'.len.trans h.len, h'.uartIer.trans h.uartIer,
    h'.uartRx.trans h.uartRx, h'.plic.trans h.plic, h'.virtio.trans h.virtio⟩

theorem SameSources.dramOffset (h : bus.SameSources bus') (addr : U64) :
    bus'.dramOffset addr = bus.dramOffset addr := by
  rw [DeviceBus.dramOffset, DeviceBus.dramOffset, h.base, h.len]

theorem SameSources.external (h : bus.SameSources bus') :
    bus'.externalInterruptPending = bus.externalInterruptPending := by
  have hslot : bus'.refreshSlot = bus.refreshSlot := by
    funext plic slot
    rw [refreshSlot, refreshSlot, h.virtio]
  rw [externalInterruptPending, externalInterruptPending,
    refreshVirtioIrqs, refreshVirtioIrqs, uartIrqLevel,
    uartIrqLevel, hslot, h.plic, h.uartIer, h.uartRx]

theorem dramRead_sameSources (bus : DeviceBus δ) (off n : Nat) :
    bus.SameSources (bus.dramRead off n).2 := by
  unfold dramRead
  split <;> exact ⟨rfl, rfl, rfl, rfl, rfl, rfl⟩

theorem dramWrite_sameSources (bus : DeviceBus δ) (off n : Nat)
    (val : BitVec (8 * n)) : bus.SameSources (bus.dramWrite off n val) := by
  unfold dramWrite
  split <;> exact ⟨rfl, rfl, rfl, rfl, rfl, rfl⟩

/-- The address is one of guest memory or of the CLINT. -/
def OffDevices (bus : DeviceBus δ) (addr : U64) : Prop :=
  (bus.dramOffset addr).isSome = true ∨ inClint addr = true

theorem OffDevices.clint (h : bus.OffDevices addr)
    (hdram : bus.dramOffset addr = none) : inClint addr = true := by
  simpa [DeviceBus.OffDevices, hdram] using h

/-- Every byte of the access lies in guest memory or the CLINT. -/
def SparesDevices (bus : DeviceBus δ) (access : U64 × Width) : Prop :=
  ∀ i < access.2.bytes, bus.OffDevices (access.1 + BitVec.ofNat 64 i)

theorem SameSources.offDevices (h : bus.SameSources bus')
    (hoff : bus.OffDevices addr) : bus'.OffDevices addr := by
  rw [DeviceBus.OffDevices, h.dramOffset]
  exact hoff

theorem SameSources.sparesDevices (h : bus.SameSources bus')
    {access : U64 × Width} (hspares : bus.SparesDevices access) : bus'.SparesDevices access :=
  fun i hi => h.offDevices (hspares i hi)

theorem SparesDevices.first (h : bus.SparesDevices (addr, width)) : bus.OffDevices addr := by
  have hpos : 0 < width.bytes := by cases width <;> decide
  have hfirst := h 0 hpos
  rwa [BitVec.add_zero] at hfirst

end DeviceBus

/-- The CLINT is below the UART and the virtio slots. -/
theorem not_inUart_of_inClint (h : inClint addr = true) : ¬ inUart addr = true := by
  rw [inClint, Bool.and_eq_true, decide_eq_true_eq, decide_eq_true_eq] at h
  rw [inUart, Bool.and_eq_true, decide_eq_true_eq, decide_eq_true_eq]
  bv_omega

theorem virtioSlot_of_inClint (h : inClint addr = true) : virtioSlot addr = none := by
  rw [inClint, Bool.and_eq_true, decide_eq_true_eq, decide_eq_true_eq] at h
  have hbelow : ¬ 0x10001000#64 ≤ addr := by bv_omega
  rw [virtioSlot, dif_neg fun hin => hbelow hin.1]

section

variable [VirtioDevice δ]

namespace DeviceBus

theorem readU8_sameSources (hoff : bus.OffDevices addr) : bus.SameSources (bus.readU8 addr).2 := by
  unfold readU8
  split
  · exact bus.dramRead_sameSources _ 1
  rename_i hdram
  rw [if_pos (hoff.clint hdram)]
  exact .refl bus

theorem read_sameSources (h : bus.SparesDevices (addr, width)) :
    bus.SameSources (Bus.read width bus addr).2 := by
  have hoff := h.first
  cases width with
  | u8 => exact readU8_sameSources hoff
  | u16 =>
    have hlow := readU8_sameSources hoff
    exact hlow.trans (readU8_sameSources (hlow.offDevices (h 1 Nat.one_lt_two)))
  | u32 =>
    change bus.SameSources (bus.readU32 addr).2
    unfold readU32
    split
    · exact bus.dramRead_sameSources _ 4
    rename_i hdram
    rw [if_pos (hoff.clint hdram)]
    exact .refl bus
  | u64 =>
    change bus.SameSources (bus.readU64 addr).2
    unfold readU64
    split
    · exact bus.dramRead_sameSources _ 8
    rename_i hdram
    rw [if_pos (hoff.clint hdram)]
    exact .refl bus

theorem writeU8_sameSources (hoff : bus.OffDevices addr) (val : Byte) :
    bus.SameSources (bus.writeU8 addr val) := by
  unfold writeU8
  split
  · exact bus.dramWrite_sameSources _ 1 val
  rename_i hdram
  have hclint := hoff.clint hdram
  rw [virtioSlot_of_inClint hclint]
  dsimp only
  rw [if_neg (not_inUart_of_inClint hclint)]
  exact .refl bus

theorem write_sameSources (h : bus.SparesDevices (addr, width)) (val : width.Value) :
    bus.SameSources (Bus.write width bus addr val) := by
  have hoff := h.first
  cases width with
  | u8 => exact writeU8_sameSources hoff val
  | u16 =>
    change bus.SameSources (bus.writeU16 addr val)
    unfold writeU16
    split
    · exact bus.dramWrite_sameSources _ 2 val
    rename_i hdram
    rw [if_neg (not_inUart_of_inClint (hoff.clint hdram))]
    have hlow := writeU8_sameSources hoff (val.setWidth 8)
    exact hlow.trans (writeU8_sameSources (hlow.offDevices (h 1 Nat.one_lt_two)) _)
  | u32 =>
    change bus.SameSources (bus.writeU32 addr val)
    unfold writeU32
    split
    · exact bus.dramWrite_sameSources _ 4 val
    rename_i hdram
    have hclint := hoff.clint hdram
    rw [if_neg (not_inUart_of_inClint hclint), if_pos hclint, clintWrite32]
    repeat' with_reducible
      refine iteInduction (motive := bus.SameSources) (fun _ => ?_) (fun _ => ?_)
    all_goals exact ⟨rfl, rfl, rfl, rfl, rfl, rfl⟩
  | u64 =>
    change bus.SameSources (bus.writeU64 addr val)
    unfold writeU64
    split
    · exact bus.dramWrite_sameSources _ 8 val
    rename_i hdram
    have hclint := hoff.clint hdram
    rw [if_neg (not_inUart_of_inClint hclint), if_pos hclint, clintWrite64]
    repeat' with_reducible
      refine iteInduction (motive := bus.SameSources) (fun _ => ?_) (fun _ => ?_)
    all_goals exact ⟨rfl, rfl, rfl, rfl, rfl, rfl⟩

end DeviceBus

end

theorem DeviceBus.foldl_rises {op : DeviceBus δ → Fin virtioMmioSlots → DeviceBus δ}
    (hop : ∀ (bus : DeviceBus δ) slot, bus.Rises (op bus slot)) (slots : List (Fin virtioMmioSlots))
    (bus : DeviceBus δ) : bus.Rises (slots.foldl op bus) := by
  induction slots generalizing bus with
  | nil => exact .refl bus
  | cons slot slots ih => exact (hop bus slot).trans (ih _)

section

variable (bus : DeviceBus δ)

/-- A bus that differs in its clock only, which has not gone back. -/
theorem DeviceBus.rises_of_clock {mtime : U64} (hle : bus.mtime ≤ mtime)
    (tickAccum netPollAccum : U64) :
    bus.Rises { bus with
      mtime := mtime, tickAccum := tickAccum, netPollAccum := netPollAccum } :=
  ⟨rfl, hle, id, rfl, fun _ h => h, fun _ dev hdev => ⟨dev, hdev, id⟩, fun _ _ _ => rfl⟩

theorem VirtioMmio.irqLevel_raise (m : VirtioMmio δ) : m.raise.irqLevel = true := by
  rw [irqLevel, decide_eq_true_eq]
  intro hzero
  have hbit := congrArg (fun status : U32 => status.getLsbD 0) hzero
  simp [raise] at hbit

/-- A device operation that leaves an asserted line asserted. -/
def RaisesLine (op : VirtioMmio δ → GuestMem → Except Panic (Bool × VirtioMmio δ × GuestMem)) :
    Prop :=
  ∀ dev mem, dev.irqLevel = true →
    Yields (fun _ => True) (fun out => out.2.1.irqLevel = true) (op dev mem)

theorem DeviceBus.onSlot_rises (slot : Fin virtioMmioSlots) (always : Bool)
    {op : VirtioMmio δ → GuestMem → Except Panic (Bool × VirtioMmio δ × GuestMem)}
    (hop : RaisesLine op) : bus.Rises (bus.onSlot slot always op) := by
  unfold onSlot
  split
  · exact .refl bus
  rename_i dev hdev
  split
  · exact ⟨rfl, BitVec.le_refl _, id, rfl, fun _ h => h, fun _ dev hdev => ⟨dev, hdev, id⟩,
      fun _ _ _ => rfl⟩
  rename_i changed dev' dram hrun
  have hempty : ∀ other, bus.virtio other = none →
      Function.update bus.virtio slot (some dev') other = none := by
    intro other hnone
    have hne : other ≠ slot := by
      rintro rfl
      cases hnone.symm.trans hdev
    rw [Function.update_of_ne hne, hnone]
  have hslots : ∀ other old, bus.virtio other = some old →
      ∃ new, Function.update bus.virtio slot (some dev') other = some new ∧
        (old.irqLevel = true → new.irqLevel = true) := by
    intro other old hold
    by_cases hself : other = slot
    · subst hself
      cases hdev.symm.trans hold
      exact ⟨dev', Function.update_self _ _ _, fun hup => (hop dev bus.dram hup).of_ok hrun⟩
    · exact ⟨old, (Function.update_of_ne hself _ _).trans hold, id⟩
  split
  · refine ⟨rfl, BitVec.le_refl _, id, rfl, hempty, hslots, fun irq _ hfree => ?_⟩
    refine Plic.level_setLevel_of_ne _ ?_ _
    rintro rfl
    cases (hfree slot rfl).symm.trans hdev
  · exact ⟨rfl, BitVec.le_refl _, id, rfl, hempty, hslots, fun _ _ _ => rfl⟩

theorem raisesLine_flushPending :
    RaisesLine fun (dev : VirtioMmio δ) mem => dev.flushPending mem := by
  intro dev mem hup
  refine Yields.ite (fun _ => hup) fun _ => ?_
  exact (Yields.any (dev.retireAll mem _)).bind fun _ _ => VirtioMmio.irqLevel_raise _

theorem raisesLine_tick (advance : U64) : RaisesLine fun (dev : VirtioMmio δ) mem =>
      if dev.hasPending then dev.tick advance mem else .ok (false, dev, mem) := by
  intro dev mem hup
  refine Yields.ite (fun _ => ?_) fun _ => hup
  refine Yields.ite (fun _ => hup) fun _ => ?_
  exact (Yields.any (VirtioMmio.retireAll _ mem _)).bind fun _ _ => VirtioMmio.irqLevel_raise _

theorem VirtioMmio.irqLevel_setQueue (m : VirtioMmio δ) (queue : Nat)
    (f : QueueState → QueueState) : (m.setQueue queue f).irqLevel = m.irqLevel := by
  unfold setQueue
  split <;> rfl

theorem DeviceBus.fastForwardMtime_rises (target : U64) :
    bus.Rises (bus.fastForwardMtime target) := by
  unfold fastForwardMtime
  split
  · rename_i hlt
    exact bus.rises_of_clock (BitVec.le_of_lt hlt) _ _
  · exact .refl bus

theorem DeviceBus.uartPushInput_rises (bytes : Bytes) :
    bus.Rises (bus.uartPushInput bytes) := by
  refine ⟨rfl, BitVec.le_refl _, ?_, rfl, fun _ h => h, fun _ dev hdev => ⟨dev, hdev, id⟩, ?_⟩
  · intro hup
    simp only [uartIrqLevel, uartPushInput, refreshUartIrq,
      setLevel, Bool.or_eq_true, Bool.and_eq_true] at hup ⊢
    refine hup.imp_right fun hrx => ⟨hrx.1, ?_⟩
    cases hqueue : bus.uartRx with
    | nil => simp [hqueue] at hrx
    | cons byte rest => rfl
  · intro irq huart _
    exact Plic.level_setLevel_of_ne _ huart _

theorem DeviceBus.flushVirtioCompletions_rises : bus.Rises bus.flushVirtioCompletions := by
  refine foldl_rises (fun bus slot => ?_) _ bus
  split
  · exact bus.onSlot_rises slot true raisesLine_flushPending
  · exact .refl bus

end

section

variable [VirtioDevice δ]

theorem raisesLine_poll : RaisesLine fun (dev : VirtioMmio δ) mem => dev.poll mem := by
  have hkept : PollInvariant fun m : VirtioMmio δ => m.irqLevel = true :=
    { poll := fun _ h => h, hasRx := id, fillRx := fun _ _ h => h
      consume := fun queue _ h => (VirtioMmio.irqLevel_setQueue _ queue _).trans h
      raise := fun _ => VirtioMmio.irqLevel_raise _ }
  exact fun dev mem hup => hkept.polled hup mem

theorem raisesLine_supply (id : U32) (payload : Bytes) :
    RaisesLine fun (dev : VirtioMmio δ) mem => dev.supply id payload mem := by
  intro dev mem hup
  refine (Yields.any ((VirtioDevice.supply dev.dev id payload mem).mapError Panic.device)).bind ?_
  rintro ⟨_ | ⟨queue, head, len⟩, out⟩ -
  · exact hup
  · exact hup

namespace DeviceBus

theorem tickSlot_rises (pollRx : Bool) (advance : U64) (bus : DeviceBus δ)
    (slot : Fin virtioMmioSlots) : bus.Rises (bus.tickSlot pollRx advance slot) := by
  refine DeviceBus.Rises.trans ?_ (onSlot_rises _ slot false (raisesLine_tick advance))
  cases pollRx with
  | false => exact .refl bus
  | true => exact bus.onSlot_rises slot false raisesLine_poll

theorem virtioTick_rises (bus : DeviceBus δ) (advance : U64) :
    bus.Rises (bus.virtioTick advance) :=
  (bus.rises_of_clock (BitVec.le_refl _) _ _).trans (foldl_rises (tickSlot_rises _ advance) _ _)

/-- The ticks of the clock that `n` more retired instructions make. -/
def clockTicks (bus : DeviceBus δ) (n : U64) : Nat :=
  (bus.tickAccum + n).toNat / mtimeStepsPerTick.toNat

theorem tick_rises (hclock : bus.mtime.toNat + bus.clockTicks 1 < 2 ^ 64) : bus.Rises bus.tick := by
  unfold tick
  refine DeviceBus.Rises.trans ?_ (virtioTick_rises _ 1)
  split
  · rename_i hticks
    have hone : 1 ≤ bus.clockTicks 1 := by
      rw [BitVec.le_def] at hticks
      exact (Nat.one_le_div_iff (by decide)).mpr hticks
    refine bus.rises_of_clock ?_ _ _
    rw [BitVec.le_def, BitVec.toNat_add, Nat.mod_eq_of_lt (by simp; omega)]
    exact Nat.le_add_right _ _
  · exact bus.rises_of_clock (BitVec.le_refl _) _ _

theorem tickN_rises {n : U64}
    (hclock : bus.mtime.toNat + bus.clockTicks n < 2 ^ 64) : bus.Rises (bus.tickN n) := by
  unfold tickN
  split
  · exact .refl bus
  split
  · rename_i hone
    subst hone
    exact tick_rises hclock
  refine DeviceBus.Rises.trans ?_ (virtioTick_rises _ n)
  refine bus.rises_of_clock ?_ _ _
  rw [BitVec.le_def, BitVec.toNat_add, BitVec.toNat_udiv]
  rw [clockTicks] at hclock
  rw [Nat.mod_eq_of_lt hclock]
  exact Nat.le_add_right _ _

/-- The external line does not fall, even where the clock wraps. -/
theorem tickN_external (n : U64) (hup : bus.externalInterruptPending = true) :
    (bus.tickN n).externalInterruptPending = true := by
  have hticked : ∀ {clocked : DeviceBus δ} (advance : U64), bus.SameSources clocked →
      (clocked.virtioTick advance).externalInterruptPending = true := by
    intro clocked advance hsame
    exact (clocked.virtioTick_rises advance).external (hsame.external.trans hup)
  unfold tickN
  split
  · exact hup
  split
  · unfold tick
    refine hticked 1 ?_
    split <;> exact ⟨rfl, rfl, rfl, rfl, rfl, rfl⟩
  · exact hticked n ⟨rfl, rfl, rfl, rfl, rfl, rfl⟩

theorem p9Supply_rises (bus : DeviceBus δ) (id : U32) (payload : Bytes) :
    bus.Rises (bus.p9Supply id payload) := by
  unfold p9Supply
  split
  · exact bus.onSlot_rises _ true (raisesLine_supply id payload)
  · exact .refl bus

end DeviceBus

end

end

end TabLinux
