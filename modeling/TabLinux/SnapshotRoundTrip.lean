/-
A snapshot is read back as it was written, to its last byte, and no initial segment of it
is accepted.
-/
import TabLinux.FpStatus
import TabLinux.Library.Runs
import TabLinux.RunLoop
import TabLinux.Snapshot

namespace TabLinux

open Bytes Readers Readers.Reads

variable {limit : Nat}

theorem Privilege.ofByte_byte (priv : Privilege) : ofByte priv.byte = priv := by
  cases priv <;> rfl

/-- The hart `s` in place of what was saved of it in `s0`, with empty caches. -/
def Supervisor.reloaded (s0 s : Supervisor) : Supervisor :=
  { s0 with
    cpu := { s0.cpu with
      x := s.cpu.x
      f := s.cpu.f
      pc := s.cpu.pc
      fcsr := s.cpu.fcsr
      fsDirty := s.cpu.fsDirty }
    mmu := s0.mmu.flushTlb
    privLevel := s.privLevel
    mstatus := s.mstatus
    mie := s.mie
    mip := s.mip
    mtvec := s.mtvec
    mepc := s.mepc
    mcause := s.mcause
    mtval := s.mtval
    mscratch := s.mscratch
    medeleg := s.medeleg
    mideleg := s.mideleg
    stvec := s.stvec
    sepc := s.sepc
    scause := s.scause
    stval := s.stval
    sscratch := s.sscratch
    satp := s.satp
    stimecmp := s.stimecmp
    mcycle := s.mcycle
    minstret := s.minstret
    pmpcfg := s.pmpcfg
    pmpaddr := s.pmpaddr
    mhartid := s.mhartid
    wfi := s.wfi
    sbiEnabled := s.sbiEnabled
    reservationAddr := s.reservationAddr }.dcacheFlush

theorem Supervisor.recovers (s0 : Supervisor) {s : Supervisor} (hlegal : s.satp.Legal) :
    Recovers limit s0.loadState s.saveState (s0.reloaded s) := by
  have hreserved : (if s.reservationAddr.isSome then
      some (s.reservationAddr.getD (BitVec.allOnes 64)) else none) = s.reservationAddr := by
    cases s.reservationAddr <;> rfl
  unfold loadState saveState
  refine (recovers_array recovers_u64 _).bind ?_
  refine (recovers_array recovers_u64 _).bind ?_
  refine (recovers_u64 _).bind ((recovers_u64 _).bind ((recovers_bool _).bind ?_))
  refine (recovers_u8 _).bind ?_
  iterate 19 refine (recovers_u64 _).bind ?_
  refine (recovers_array recovers_u64 _).bind ((recovers_array recovers_u64 _).bind ?_)
  refine (recovers_u64 _).bind ((recovers_bool _).bind ((recovers_bool _).bind ?_))
  refine (recovers_u64 _).bind ((recovers_bool _).bind ?_)
  rw [MStatus.fromBits_toBits, Satp.fromBits_toBits hlegal, Privilege.ofByte_byte, hreserved]
  exact Recovers.done (s0.reloaded s)

theorem recovers_usize {n : Nat} (hn : n < 2 ^ 64) :
    Recovers limit u64 (toLe 8 n) (BitVec.ofNat 64 n) := by
  have hvalue : (BitVec.ofNat 64 n).toNat = n := by
    rw [BitVec.toNat_ofNat]
    exact Nat.mod_eq_of_lt hn
  have h := @recovers_u64 limit (BitVec.ofNat 64 n)
  rwa [putBits, hvalue] at h

theorem QueueState.recovers (q : QueueState) : Recovers limit get q.put q := by
  unfold get put
  refine (recovers_u16 _).bind ((recovers_bool _).bind ?_)
  refine (recovers_u64 _).bind ((recovers_u64 _).bind ((recovers_u64 _).bind ?_))
  exact (recovers_u16 _).bind (Recovers.done q)

theorem Completion.recovers {c : Completion} (hqueue : c.queue < 2 ^ 64) :
    Recovers limit get c.put c := by
  have hvalue : (BitVec.ofNat 64 c.queue).toNat = c.queue := by
    rw [BitVec.toNat_ofNat]
    exact Nat.mod_eq_of_lt hqueue
  unfold get put
  refine (recovers_usize hqueue).bind ?_
  refine (recovers_u16 _).bind ((recovers_u32 _).bind ((recovers_u64 _).bind ?_))
  rw [hvalue]
  exact Recovers.done c

/-- What the source keeps in a word of the machine fits one. -/
structure VirtioMmio.Usize {δ : Type} (m : VirtioMmio δ) : Prop where
  queueSel : m.queueSel < 2 ^ 64
  pending : m.pending.length < 2 ^ 64
  queues : ∀ c ∈ m.pending, c.queue < 2 ^ 64

theorem VirtioMmio.recovers {δ : Type} (m0 : VirtioMmio δ) {m : VirtioMmio δ} (h : m.Usize) :
    Recovers limit m0.loadState m.saveState { m with dev := m0.dev } := by
  have hsel : (BitVec.ofNat 64 m.queueSel).toNat = m.queueSel := by
    rw [BitVec.toNat_ofNat]
    exact Nat.mod_eq_of_lt h.queueSel
  have hcount : (BitVec.ofNat 64 m.pending.length).toNat = m.pending.length := by
    rw [BitVec.toNat_ofNat]
    exact Nat.mod_eq_of_lt h.pending
  have hpending : Recovers limit
      (times (fun pending => do return pending ++ [← Completion.get]) m.pending.length [])
      (m.pending.flatMap Completion.put) m.pending := by
    have htimes := @recovers_times (List Completion) Completion limit
      (fun pending => do return pending ++ [← Completion.get]) Completion.put
      (fun pending c => pending ++ [c]) m.pending [] fun before c after heq =>
        (Completion.recovers (h.queues c (by rw [heq]; simp))).map
    have hfold : m.pending.foldl (fun pending c => pending ++ [c]) [] = m.pending := by
      simp [← List.flatMap_def]
    rwa [hfold] at htimes
  unfold loadState saveState
  refine (recovers_u32 _).bind ((recovers_u64 _).bind ((recovers_u32 _).bind ?_))
  refine (recovers_u32 _).bind ((recovers_usize h.queueSel).bind ?_)
  refine (recovers_array QueueState.recovers _).bind ?_
  refine (recovers_u32 _).bind ((recovers_u32 _).bind ((recovers_u64 _).bind ?_))
  refine (recovers_usize h.pending).bind ?_
  rw [hcount, hsel]
  exact hpending.bind (Recovers.done _)

theorem Plic.recovers (p : Plic) : Recovers limit loadState p.saveState p := by
  unfold loadState saveState
  refine (recovers_array recovers_u32 _).bind ?_
  refine (recovers_array recovers_bool _).bind ((recovers_array recovers_bool _).bind ?_)
  refine (recovers_array (fun words => recovers_array recovers_u32 words) _).bind ?_
  exact (recovers_array recovers_u32 _).bind (Recovers.done p)

namespace GuestMem

/-- Memory with nothing behind its end. -/
def trimmed (mem : GuestMem) : GuestMem :=
  { mem with dram := fun i => if i < mem.len then mem.dram i else 0 }

theorem getD_page (mem : GuestMem) (i j : Nat) (hj : j < pageSize) :
    (mem.page i).getD j 0 = mem.dram (i * pageSize + j) := by
  rw [page, List.getD_eq_getElem?_getD, List.getElem?_map, List.getElem?_range hj]
  rfl

theorem length_page (mem : GuestMem) (i : Nat) : (mem.page i).length = pageSize := by
  rw [page, List.length_map, List.length_range]

/-- Copying pages of `mem` brings over the bytes in them. -/
theorem copyPages (mem : GuestMem) (pages : List Nat) (zero : GuestMem) :
    pages.foldl (fun m i => m.setPage (i * pageSize) (mem.page i)) zero =
      { zero with dram := fun k =>
          if k / pageSize ∈ pages then mem.dram k else zero.dram k } := by
  induction pages generalizing zero with
  | nil => simp
  | cons i pages ih =>
    rw [List.foldl_cons, ih]
    simp only [setPage, mk.injEq, true_and]
    funext k
    have hpage : (i * pageSize ≤ k ∧ k < i * pageSize + pageSize) ↔ k / pageSize = i := by
      unfold pageSize
      omega
    by_cases hrest : k / pageSize ∈ pages
    · rw [if_pos hrest, if_pos (List.mem_cons_of_mem _ hrest)]
    by_cases hi : k / pageSize = i
    · have hin := hpage.mpr hi
      rw [if_neg hrest, if_pos hin, if_pos (hi ▸ List.mem_cons_self),
        mem.getD_page i _ (by omega), Nat.add_sub_cancel' hin.1]
    · rw [if_neg hrest, if_neg (fun h => hi (hpage.mp h)), if_neg (by rw [List.mem_cons]; tauto)]

theorem mem_usedPages {mem : GuestMem} {i : Nat} :
    i ∈ mem.usedPages ↔ i < mem.len / pageSize ∧ ∃ j < pageSize,
      mem.dram (i * pageSize + j) ≠ 0 := by
  unfold usedPages page
  simp

/-- One round of the loop over the pages. -/
theorem loadPage_recovers {mem m : GuestMem} (hlimit : 2 ^ 64 ≤ limit) {i : Nat}
    (hfits : i * pageSize + pageSize ≤ m.len) (hlen : m.len < 2 ^ 63) :
    Recovers limit m.loadPage (mem.putPage i) (m.setPage (i * pageSize) (mem.page i)) := by
  have hsize : pageSize = 4096 := rfl
  have hlt : i < 2 ^ 64 := by
    rw [hsize] at hfits
    omega
  have hi : (BitVec.ofNat 64 i).toNat = i := by
    rw [BitVec.toNat_ofNat]
    exact Nat.mod_eq_of_lt hlt
  have hdone : Recovers limit
      (.fits (i * pageSize + pageSize)
        (if i * pageSize + pageSize ≤ m.len then .done (m.setPage (i * pageSize) (mem.page i))
        else .reject)) [] (m.setPage (i * pageSize) (mem.page i)) := by
    rw [if_pos hfits]
    exact Recovers.fits (by omega) (Recovers.done _)
  have htake := @Recovers.take GuestMem limit _
    (fun page => .fits (i * pageSize + pageSize)
      (if i * pageSize + pageSize ≤ m.len then .done (m.setPage (i * pageSize) page)
      else .reject)) (mem.page i) pageSize [] (mem.length_page i) hdone
  rw [List.append_nil] at htake
  unfold loadPage putPage
  refine (recovers_usize hlt).bind ?_
  rw [hi, if_neg (by omega)]
  exact htake

theorem recovers {mem : GuestMem} (hlimit : 2 ^ 64 ≤ limit) (hbase : mem.base = dramBase)
    (hlen : mem.len < 2 ^ 63) (hpages : pageSize ∣ mem.len) :
    Recovers limit loadState mem.saveState mem.trimmed := by
  have hsize : pageSize = 4096 := rfl
  have hlen' : (BitVec.ofNat 64 mem.len).toNat = mem.len := by
    rw [BitVec.toNat_ofNat]
    omega
  have hcount : mem.usedPages.length < 2 ^ 64 := by
    have hle := List.length_filter_le (fun i => (mem.page i).any (· ≠ 0))
      (List.range (mem.len / pageSize))
    rw [List.length_range] at hle
    have hdiv := Nat.div_le_self mem.len pageSize
    unfold usedPages
    omega
  have hcount' : (BitVec.ofNat 64 mem.usedPages.length).toNat = mem.usedPages.length := by
    rw [BitVec.toNat_ofNat]
    exact Nat.mod_eq_of_lt hcount
  have hloop := @recovers_times GuestMem Nat limit loadPage mem.putPage
    (fun m i => m.setPage (i * pageSize) (mem.page i)) mem.usedPages
    ⟨dramBase, mem.len, fun _ => 0⟩ fun before i after heq => by
      have hused : i ∈ mem.usedPages := by
        rw [heq]
        exact List.mem_append_right _ List.mem_cons_self
      have hfits : i * pageSize + pageSize ≤ mem.len := by
        have hmul := Nat.mul_le_mul_right pageSize (mem_usedPages.mp hused).1
        rwa [Nat.div_mul_cancel hpages, Nat.succ_mul] at hmul
      rw [mem.copyPages]
      exact loadPage_recovers hlimit hfits hlen
  have htrimmed : mem.usedPages.foldl (fun m i => m.setPage (i * pageSize) (mem.page i))
      ⟨dramBase, mem.len, fun _ => 0⟩ = mem.trimmed := by
    rw [mem.copyPages, trimmed, ← hbase]
    congr 1
    funext k
    by_cases hused : k / pageSize ∈ mem.usedPages
    · have hin := Nat.mul_le_mul_right pageSize (mem_usedPages.mp hused).1
      rw [Nat.div_mul_cancel hpages] at hin
      have hk : k < mem.len := Nat.lt_of_lt_of_le (by rw [hsize]; omega) hin
      rw [if_pos hused, if_pos hk]
    · rw [if_neg hused]
      split
      · -- an unused page inside memory holds zeros
        rename_i hk
        by_contra hne
        refine hused (mem_usedPages.mpr ⟨Nat.div_lt_div_of_lt_of_dvd hpages hk,
          k % pageSize, Nat.mod_lt _ (by decide), ?_⟩)
        rw [Nat.mul_comm, Nat.div_add_mod]
        exact fun h => hne h.symm
      · rfl
  rw [htrimmed] at hloop
  unfold loadState saveState
  simp only [List.flatten_cons, List.flatten_nil, List.append_nil]
  refine (recovers_usize (by omega)).bind ?_
  rw [hlen']
  refine Recovers.fits (by omega) ((recovers_usize hcount).bind ?_)
  rw [hcount']
  exact hloop

end GuestMem

section

variable {σ : Type} [BlockBackend σ]

theorem macOf_ofFn (mac : Fin 6 → Byte) : macOf (List.ofFn mac) = .done mac := by
  have hget : (fun i : Fin 6 => (List.ofFn mac).getD i 0) = mac := by
    funext i
    rw [List.getD_eq_getElem?_getD, List.getElem?_ofFn]
    simp
  rw [macOf, if_pos (by rw [List.length_ofFn]), hget]
  rfl

variable {dev : VirtioNet}

theorem VirtioNet.recovers (dev0 : VirtioNet)
    (hframe : ∀ frame, dev.pendingRx = some frame → frame.length < 2 ^ 64) :
    Recovers limit dev0.loadDevState dev.devState
      { dev0 with mac := dev.mac, pendingRx := dev.pendingRx } := by
  unfold loadDevState devState
  refine (recovers_bytes (by rw [List.length_ofFn]; decide)).bind ?_
  rw [macOf_ofFn]
  cases hpending : dev.pendingRx with
  | none => exact (recovers_bool false).bind_last (Recovers.done _)
  | some frame => exact (recovers_bool true).bind (recovers_bytes (hframe frame hpending)).map

theorem VirtioNet.length_devState (dev : VirtioNet)
    (hframe : ∀ frame, dev.pendingRx = some frame → frame.length < 2 ^ 63) :
    dev.devState.length < 2 ^ 64 := by
  unfold devState putBytes
  rw [List.length_append, List.length_append, length_toLe, List.length_ofFn]
  cases hpending : dev.pendingRx with
  | none => decide
  | some frame =>
    have hlen := hframe frame hpending
    rw [List.length_append, List.length_append, length_toLe]
    change 8 + 6 + (1 + (8 + frame.length)) < 2 ^ 64
    omega

theorem VirtioNet.loadDevState_within
    (hdev : ∀ frame, dev.pendingRx = some frame → frame.length < 2 ^ 63) (hlimit : 2 ^ 64 ≤ limit) :
    Recovers limit ((new dev.mac).loadDevState.within dev.devState 0) []
      { new dev.mac with pendingRx := dev.pendingRx } := by
  have hframe : ∀ frame, dev.pendingRx = some frame → frame.length < 2 ^ 64 :=
    fun frame hsome => Nat.lt_trans (hdev frame hsome) (by decide)
  have hblob : (dev.devState ++ []).length < limit := by
    rw [List.append_nil]
    exact Nat.lt_of_lt_of_le (dev.length_devState hdev) hlimit
  have hwithin := (recovers (new dev.mac) hframe).within [] hblob
  rwa [List.append_nil] at hwithin

/-- What a device comes back as. -/
def Peripheral.revived : Peripheral σ → Peripheral σ
  | .net dev => .net { VirtioNet.new dev.mac with pendingRx := dev.pendingRx }
  | .blk dev => .blk (.new (.detached (BlockBackend.capacitySectors dev.backend)))
  | .p9 dev => .p9 (.new (utf8Lossy dev.tag))

/-- The held frame of a card is a vector. -/
def Peripheral.Usize : Peripheral σ → Prop
  | .net dev => ∀ frame, dev.pendingRx = some frame → frame.length < 2 ^ 63
  | .blk _ => True
  | .p9 dev => dev.tag.length < 2 ^ 63

def Peripheral.isP9 : Peripheral σ → Bool
  | .p9 _ => true
  | _ => false

/-- The slots below `n` as they come back, on a bus whose slots are empty. -/
def DeviceBus.refilled (bus0 bus : DeviceBus (Peripheral σ)) (n : Nat) :
    DeviceBus (Peripheral σ) :=
  { bus0 with
    virtio := fun i =>
      if i.val < n then (bus.virtio i).map fun m => { m with dev := m.dev.revived } else none }

/-- Devices are in the lowest slots, and what the source keeps in machine words and vectors
fits them. -/
structure DeviceBus.Assembled (bus : DeviceBus (Peripheral σ)) : Prop where
  base : bus.dram.base = dramBase
  size : bus.dram.len < 2 ^ 63
  rx : bus.uartRx.length < 2 ^ 63
  packed : ∀ {i j : Fin virtioMmioSlots}, i ≤ j → (bus.virtio j).isSome → (bus.virtio i).isSome
  transports : ∀ {i m}, bus.virtio i = some m → m.Usize ∧ m.dev.Usize

variable {bus0 bus : DeviceBus (Peripheral σ)}

theorem finRange_split {n : Nat} {before after : List (Fin n)} {slot : Fin n}
    (h : List.finRange n = before ++ slot :: after) :
    before.length = slot.val ∧ (∀ i ∈ before, i < slot) ∧ ∀ i ∈ after, slot < i := by
  have hsorted := List.pairwise_lt_finRange n
  rw [h] at hsorted
  obtain ⟨-, hafter, hcross⟩ := List.pairwise_append.mp hsorted
  refine ⟨?_, fun i hi => hcross i hi slot List.mem_cons_self, (List.pairwise_cons.mp hafter).1⟩
  have hget : (List.finRange n)[before.length]? = some slot := by
    rw [h, List.getElem?_append_right (Nat.le_refl _), Nat.sub_self, List.getElem?_cons_zero]
  obtain ⟨hlt, heq⟩ := List.getElem?_eq_some_iff.mp hget
  rw [List.getElem_finRange] at heq
  rw [← heq]
  rfl

variable {slot : Fin virtioMmioSlots}

namespace DeviceBus

theorem Assembled.freeSlot (h : bus.Assembled)
    (hslot : (bus.virtio slot).isSome) : (bus0.refilled bus slot.val).freeSlot = some slot := by
  obtain ⟨before, after, hsplit⟩ := List.append_of_mem (List.mem_finRange slot)
  refine List.find?_eq_some_iff_append.mpr ⟨?_, before, after, hsplit, fun i hi => ?_⟩
  · change (if slot.val < slot.val then _ else none : Option _).isNone = true
    rw [if_neg (Nat.lt_irrefl _)]
    rfl
  · have hlt := (finRange_split hsplit).2.1 i hi
    obtain ⟨m, hm⟩ := Option.isSome_iff_exists.mp (h.packed (Nat.le_of_lt hlt) hslot)
    simp [DeviceBus.refilled, hm, hlt]

omit [BlockBackend σ] in
theorem lastSlot_setSlot (bus : DeviceBus (Peripheral σ))
    (m : VirtioMmio (Peripheral σ)) (hempty : ∀ i, slot < i → bus.virtio i = none) :
    (bus.setSlot slot m).lastSlot = some slot := by
  obtain ⟨before, after, hsplit⟩ := List.append_of_mem (List.mem_finRange slot)
  refine List.find?_eq_some_iff_append.mpr ⟨?_, after.reverse, before.reverse, ?_, fun i hi => ?_⟩
  · simp [setSlot]
  · rw [hsplit]
    simp
  · have hlt := (finRange_split hsplit).2.2 i (List.mem_reverse.mp hi)
    simp [setSlot, hempty i hlt, Fin.ne_of_gt hlt]

omit [BlockBackend σ] in
theorem setSlot_setSlot (bus : DeviceBus (Peripheral σ)) (slot : Fin virtioMmioSlots)
    (m m' : VirtioMmio (Peripheral σ)) :
    (bus.setSlot slot m).setSlot slot m' = bus.setSlot slot m' := by
  unfold setSlot
  congr 1
  funext i
  by_cases hi : i = slot
  · simp only [hi, ↓reduceIte]
  · simp only [hi, ↓reduceIte]

variable {m : VirtioMmio (Peripheral σ)}

theorem refilled_setSlot (hm : bus.virtio slot = some m) :
    (bus0.refilled bus slot.val).setSlot slot { m with dev := m.dev.revived } =
      bus0.refilled bus (slot.val + 1) := by
  unfold setSlot refilled
  congr 1
  funext i
  by_cases hi : i = slot
  · rw [if_pos hi, hi, if_pos (Nat.lt_succ_self _), hm]
    rfl
  have hiff : i.val < slot.val + 1 ↔ i.val < slot.val := by
    omega
  rw [if_neg hi]
  simp only [hiff]

theorem refilled_skip (hm : bus.virtio slot = none) :
    bus0.refilled bus slot.val = bus0.refilled bus (slot.val + 1) := by
  unfold refilled
  congr 1
  funext i
  by_cases hi : i = slot
  · rw [hi, hm]
    simp
  have hiff : i.val < slot.val + 1 ↔ i.val < slot.val := by
    omega
  simp only [hiff]

/-- The transport of a device in its new slot. -/
theorem loadSlotState_recovers (hm : bus.virtio slot = some m) (husize : m.Usize)
    {dev : Peripheral σ} {loadDev : Peripheral σ → Reads (Peripheral σ)}
    (hdev : Recovers limit (loadDev dev) [] m.dev.revived) :
    Recovers limit
      (((bus0.refilled bus slot.val).setSlot slot (.new dev)).loadSlotState slot loadDev)
      m.saveState (bus0.refilled bus (slot.val + 1)) := by
  have hslot : ((bus0.refilled bus slot.val).setSlot slot (.new dev)).virtio slot =
      some (.new dev) := if_pos rfl
  unfold loadSlotState
  rw [hslot]
  refine Recovers.bind_free hdev ?_
  refine Recovers.bind_last (VirtioMmio.recovers _ husize) ?_
  rw [setSlot_setSlot, ← refilled_setSlot hm]
  exact Recovers.done _

section

variable (h : bus.Assembled)
include h

theorem Assembled.attachVirtio (hslot : (bus.virtio slot).isSome) (dev : Peripheral σ) :
    (bus0.refilled bus slot.val).attachVirtio dev =
      some (slot, (bus0.refilled bus slot.val).setSlot slot (.new dev)) := by
  rw [DeviceBus.attachVirtio, h.freeSlot hslot]
  rfl

theorem loadNet_recovers (hlimit : 2 ^ 64 ≤ limit) (hm : bus.virtio slot = some m)
    (hdev : m.dev = .net dev) :
    Recovers limit ((bus0.refilled bus slot.val).loadNet dev.devState) m.saveState
      (bus0.refilled bus (slot.val + 1)) := by
  obtain ⟨husize, hdevice⟩ := h.transports hm
  rw [hdev] at hdevice
  have hmac : Recovers limit (bytes.within dev.devState 0) [] (List.ofFn dev.mac) :=
    (recovers_bytes (by rw [List.length_ofFn]; decide)).within _
      (Nat.lt_of_lt_of_le (dev.length_devState hdevice) hlimit)
  have hempty : ∀ i, slot < i → (bus0.refilled bus slot.val).virtio i = none :=
    fun i hi => if_neg (Nat.not_lt.mpr (Nat.le_of_lt hi))
  have hload : Recovers limit
      (((bus0.refilled bus slot.val).setSlot slot (.new (.net (.new dev.mac)))).loadSlotState slot
        (Peripheral.loadDevState dev.devState)) m.saveState (bus0.refilled bus (slot.val + 1)) := by
    refine loadSlotState_recovers hm husize ?_
    rw [hdev]
    exact (VirtioNet.loadDevState_within hdevice hlimit).map
  unfold loadNet
  refine Recovers.bind_free hmac ?_
  rw [macOf_ofFn]
  refine Recovers.bind_free (Recovers.done dev.mac) ?_
  rw [h.attachVirtio (by rw [hm]; rfl)]
  dsimp only
  rw [lastSlot_setSlot _ _ hempty]
  exact hload

theorem loadBlk_recovers
    (hm : bus.virtio slot = some m) {dev : VirtioBlk (Disk σ)} (hdev : m.dev = .blk dev) :
    Recovers limit
      ((bus0.refilled bus slot.val).loadAttached
        (.blk (.new (.detached (BlockBackend.capacitySectors dev.backend))))) m.saveState
      (bus0.refilled bus (slot.val + 1)) := by
  unfold loadAttached
  rw [h.attachVirtio (by rw [hm]; rfl)]
  refine loadSlotState_recovers hm (h.transports hm).1 ?_
  rw [hdev]
  exact Recovers.done _

/-- One round of the loop over the slots. -/
theorem loadSlot_recovers (hlimit : 2 ^ 64 ≤ limit)
    (hkinds : ∀ {i m}, bus.virtio i = some m → m.dev.isP9 = false) (slot : Fin virtioMmioSlots) :
    Recovers limit (bus0.refilled bus slot.val).loadSlot (bus.putSlot slot)
      (bus0.refilled bus (slot.val + 1)) := by
  unfold loadSlot putSlot
  cases hm : bus.virtio slot with
  | none =>
    refine (recovers_bool false).bind_last ?_
    rw [refilled_skip hm]
    exact Recovers.done _
  | some m =>
    have hdevice := (h.transports hm).2
    simp only [List.flatten_cons, List.flatten_nil, List.append_nil]
    refine (recovers_bool true).bind ?_
    rw [if_pos rfl]
    refine (recovers_u32 _).bind ?_
    cases hdev : m.dev with
    | net dev =>
      rw [hdev] at hdevice
      refine (recovers_bytes (dev.length_devState hdevice)).bind ?_
      exact loadNet_recovers h hlimit hm hdev
    | blk dev =>
      have hcapacity : BitVec.ofNat 64 (ofLe ((putBits 8
          (BlockBackend.capacitySectors dev.backend)).take 8)) =
          BlockBackend.capacitySectors dev.backend := by
        rw [List.take_of_length_le (Nat.le_of_eq (length_putBits 8 _))]
        exact ofLe_putBits (n := 8) rfl _
      refine (recovers_bytes (by simp [Peripheral.devState])).bind ?_
      have hload := @loadBlk_recovers limit σ _ bus0 bus slot m h hm dev hdev
      rw [← hcapacity] at hload
      exact hload
    | p9 dev =>
      have hkind := hkinds hm
      rw [hdev] at hkind
      cases hkind

theorem loadSlots_recovers (hlimit : 2 ^ 64 ≤ limit)
    (hkinds : ∀ {i m}, bus.virtio i = some m → m.dev.isP9 = false)
    (hempty : ∀ i, bus0.virtio i = none) :
    Recovers limit (times loadSlot virtioMmioSlots bus0)
      ((List.finRange virtioMmioSlots).flatMap bus.putSlot)
      { bus0 with
        virtio := fun i => (bus.virtio i).map fun m => { m with dev := m.dev.revived } } := by
  have hnone : bus0.refilled bus 0 = bus0 := by
    unfold refilled
    congr 1
    funext i
    exact (if_neg (Nat.not_lt_zero _)).trans (hempty i).symm
  have hstep : ∀ i slot, (List.finRange virtioMmioSlots)[i]? = some slot →
      Recovers limit (bus0.refilled bus (0 + i)).loadSlot (bus.putSlot slot)
        (bus0.refilled bus (0 + i + 1)) := by
    intro i slot hslot
    obtain ⟨hlt, heq⟩ := List.getElem?_eq_some_iff.mp hslot
    have hval : 0 + i = slot.val := by
      rw [Nat.zero_add, ← heq, List.getElem_finRange, Fin.val_cast]
    rw [hval]
    exact loadSlot_recovers h hlimit hkinds slot
  have hloop := recovers_rounds (bus0.refilled bus) (List.finRange virtioMmioSlots) 0 hstep
  have hall : bus0.refilled bus virtioMmioSlots = { bus0 with
      virtio := fun i => (bus.virtio i).map fun m => { m with dev := m.dev.revived } } := by
    unfold refilled
    congr 1
    funext i
    exact if_pos i.isLt
  rwa [List.length_finRange, Nat.zero_add, hnone, hall] at hloop

end

/-- What the bus comes back as: the console's output and the count of idle parks are dropped,
and so is what a device leaves to the host. -/
def restored (bus : DeviceBus (Peripheral σ)) : DeviceBus (Peripheral σ) :=
  { bus with
    dram := bus.dram.trimmed
    uartConsole := []
    idleStall := 0
    panicked := none
    virtio := fun i => (bus.virtio i).map fun m => { m with dev := m.dev.revived } }

theorem recovers (h : bus.Assembled) (hlimit : 2 ^ 64 ≤ limit) (hpages : pageSize ∣ bus.dram.len)
    (hkinds : ∀ {i m}, bus.virtio i = some m → m.dev.isP9 = false) :
    Recovers limit loadState bus.saveState bus.restored := by
  have hdram := GuestMem.recovers hlimit h.base h.size hpages
  have hrx : bus.uartRx.length < 2 ^ 64 := Nat.lt_trans h.rx (by decide)
  unfold loadState saveState
  refine hdram.bind ?_
  refine (recovers_u64 _).bind ((recovers_u64 _).bind ((recovers_u32 _).bind ?_))
  refine (recovers_u64 _).bind ?_
  iterate 7 refine (recovers_u8 _).bind ?_
  refine (recovers_bytes hrx).bind ((Plic.recovers _).bind ?_)
  refine (loadSlots_recovers h hlimit hkinds fun _ => rfl).bind ?_
  refine (recovers_u64 _).bind ?_
  exact Recovers.done bus.restored

end DeviceBus

/-- What a machine comes back as. -/
def Saved.restored (m : Saved σ) : Saved σ :=
  ⟨m.steps, (Supervisor.new dramBase 0).reloaded m.cpu, m.bus.restored⟩

theorem Saved.recovers {m : Saved σ} (hlegal : m.cpu.satp.Legal) (hbus : m.bus.Assembled)
    (hlimit : 2 ^ 64 ≤ limit) (hpages : pageSize ∣ m.bus.dram.len)
    (hkinds : ∀ {i dev}, m.bus.virtio i = some dev → dev.dev.isP9 = false) :
    Recovers limit restore m.save m.restored := by
  have hbody : Recovers limit (do
      let steps ← u64
      let cpu ← (Supervisor.new dramBase 0).loadState
      let bus ← DeviceBus.loadState
      pure (⟨steps, cpu, bus⟩ : Saved σ))
      (putBits 8 m.steps ++ (m.cpu.saveState ++ (m.bus.saveState ++ []))) m.restored :=
    (recovers_u64 _).bind ((Supervisor.recovers _ hlegal).bind
      ((DeviceBus.recovers hbus hlimit hpages hkinds).bind (Recovers.done m.restored)))
  exact Recovers.take rfl (by rwa [if_neg (not_not.mpr rfl)])

omit [BlockBackend σ] in
/-- Attaching fills the first free slot. -/
theorem DeviceBus.Assembled.attach (h : bus.Assembled) {dev : Peripheral σ} (hdev : dev.Usize)
    {bus' : DeviceBus (Peripheral σ)}
    (hattach : bus.attachVirtio dev = some (slot, bus')) : bus'.Assembled := by
  obtain ⟨_, hfree, heq⟩ := Option.map_eq_some_iff.mp hattach
  cases heq
  obtain ⟨hslot, before, after, hsplit, hbefore⟩ := List.find?_eq_some_iff_append.mp hfree
  have hlower : ∀ i < slot, (bus.virtio i).isSome := by
    intro i hi
    have hmem := List.mem_finRange i
    rw [hsplit, List.mem_append, List.mem_cons] at hmem
    rcases hmem with hin | rfl | hin
    · simpa using hbefore i hin
    · exact absurd hi (Fin.lt_irrefl _)
    · exact absurd ((finRange_split hsplit).2.2 i hin) (Fin.lt_asymm hi)
  have hother : ∀ {i}, i ≠ slot → (bus.setSlot slot (.new dev)).virtio i = bus.virtio i :=
    fun hne => if_neg hne
  have hself : (bus.setSlot slot (.new dev)).virtio slot = some (.new dev) := if_pos rfl
  refine ⟨h.base, h.size, h.rx, ?_, ?_⟩
  · intro i j hij hj
    by_cases hi : i = slot
    · rw [hi, hself]
      rfl
    rw [hother hi]
    by_cases hjs : j = slot
    · exact hlower i (lt_of_le_of_ne (hjs ▸ hij) hi)
    · rw [hother hjs] at hj
      exact h.packed hij hj
  · intro i m hm
    by_cases hi : i = slot
    · rw [hi, hself] at hm
      cases hm
      exact ⟨⟨Nat.two_pow_pos 64, Nat.two_pow_pos 64, fun c hc => by cases hc⟩, hdev⟩
    · rw [hother hi] at hm
      exact h.transports hm

end

theorem Supervisor.length_saveState (s : Supervisor) : s.saveState.length = 1341 := by
  have hwords : ∀ {n : Nat} (f : Fin n → U64),
      ((List.ofFn f).flatMap (putBits 8)).length = n * 8 := by
    intro n f
    simp [List.length_flatMap, Function.comp_def]
  unfold saveState
  simp only [List.flatten_cons, List.flatten_nil, List.length_append, hwords, length_putBits,
    length_putBool, List.length_nil]

theorem Spaces.apply_legal {sp : Spaces} (h : sp.satp.Legal) (op : SpaceOp) :
    (sp.apply op).satp.Legal := by
  cases op with
  | keep | all | code => exact h
  | satp val =>
    unfold apply writeSatp
    dsimp only
    split
    · split <;> exact Satp.fromBits_legal val
    · exact Satp.fromBits_legal val
  | page va =>
    exact ite_holds (fun sp' : Spaces => sp'.satp.Legal) h h

section

variable {β : Type} [Bus β] [FloatOps]

/-- Translation is off or by the one scheme there is, whatever a machine does. -/
theorem Machine.run_legal {m : Machine β} (h : m.cpu.satp.Legal) (events : List (Event β)) :
    (Runs.run exec m events).cpu.satp.Legal := by
  have hstep : ∀ (m : Machine β) (event : Event β), m.cpu.satp.Legal →
      (m.exec event).cpu.satp.Legal := by
    intro m event hlegal
    unfold exec
    split
    · change (m.perform event).cpu.spaces.satp.Legal
      rw [m.perform_spaces event]
      unfold spacesAfter
      split
      · unfold Spaces.drained
        split <;> exact hlegal
      · exact Spaces.apply_legal hlegal _
      · split
        · exact hlegal
        · exact Spaces.apply_legal hlegal _
      · exact hlegal
    · exact hlegal
  exact Runs.run_invariant hstep h events

/-- The hart that a machine has at any time and every bus with a network card and a disk are
read back from what they wrote of themselves, to the last byte, and from nothing less. -/
theorem snapshot_codec {σ : Type} [BlockBackend σ] (m : Machine β) (hm : m.cpu.satp.Legal)
    (events : List (Event β)) (s0 : Supervisor) (bus : DeviceBus (Peripheral σ))
    (hbus : bus.Assembled) (hpages : pageSize ∣ bus.dram.len)
    (hkinds : ∀ {i m}, bus.virtio i = some m → m.dev.isP9 = false)
    (hsaved : bus.saveState.length < 2 ^ 63) :
    Codes (2 ^ 64) s0.loadState (Runs.run Machine.exec m events).cpu.saveState
        (s0.reloaded (Runs.run Machine.exec m events).cpu) ∧
      Codes (2 ^ 64) DeviceBus.loadState bus.saveState bus.restored := by
  refine ⟨(s0.recovers (Machine.run_legal hm events)).codes ?_,
    (DeviceBus.recovers hbus (Nat.le_refl _) hpages hkinds).codes ?_⟩
  · rw [Supervisor.length_saveState]
    decide
  · exact Nat.lt_trans hsaved (by decide)

end

/-- A card that holds a frame back. -/
def holdingNet : VirtioNet :=
  { VirtioNet.new fun i => BitVec.ofNat 8 i with pendingRx := some [0xAA, 0xBB, 0xCC] }

def emptyDisk : VirtioBlk (Disk MemBackend) := .new (.attached ⟨[], by decide⟩)

/-- A page of memory that is in use, then a network card, then a disk. -/
def bareBus : DeviceBus (Peripheral MemBackend) :=
  { DeviceBus.new pageSize with dram := ⟨dramBase, pageSize, fun i => if i = 7 then 1 else 0⟩ }

def cardBus : DeviceBus (Peripheral MemBackend) := bareBus.setSlot 0 (.new (.net holdingNet))

def diskBus : DeviceBus (Peripheral MemBackend) := cardBus.setSlot 1 (.new (.blk emptyDisk))

theorem diskBus_assembled : diskBus.Assembled := by
  have hbare : bareBus.Assembled :=
    ⟨rfl, by decide, by decide, fun _ h => (by cases h), fun h => (by cases h)⟩
  have hframe : (Peripheral.net holdingNet : Peripheral MemBackend).Usize := by
    intro frame hsome
    cases hsome
    decide
  have hempty : (Peripheral.blk emptyDisk).Usize := trivial
  have hcard : bareBus.attachVirtio (.net holdingNet) = some (0, cardBus) := rfl
  have hdisk : cardBus.attachVirtio (.blk emptyDisk) = some (1, diskBus) := rfl
  exact (hbare.attach hframe hcard).attach hempty hdisk

theorem snapshot_codec_devices :
    letI := FloatOps.zero
    let m := Machine.new (Supervisor.new 0x100 0) (loopRam []) loopWindow
    let s := (Runs.run Machine.exec m interpRound).cpu
    Codes (2 ^ 64) (Supervisor.new 0 0).loadState s.saveState ((Supervisor.new 0 0).reloaded s) ∧
      Codes (2 ^ 64) DeviceBus.loadState diskBus.saveState diskBus.restored :=
  @snapshot_codec Ram _ FloatOps.zero MemBackend _ _ (Or.inl rfl) interpRound (Supervisor.new 0 0)
    diskBus diskBus_assembled (by decide)
    (fun {i m} h => by
      have hkinds : ∀ i, (diskBus.virtio i).all fun m => !m.dev.isP9 := by decide
      have hkind := hkinds i
      rw [h] at hkind
      simpa using hkind)
    (by decide +kernel)

end TabLinux
