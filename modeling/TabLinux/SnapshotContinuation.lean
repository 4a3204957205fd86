/-
Going on from a snapshot.  A machine and what its snapshot restores run alike, instruction for
instruction, if the interrupt poll is due when the snapshot is taken, no device leaves
anything to the host, and the caches of both answer as empty ones do.  The countdown to the
next poll is not saved: without it the two take an interrupt at different instructions.
-/
import TabLinux.BusMap
import TabLinux.RunAccounting
import TabLinux.SnapshotRoundTrip
import TabLinux.UnsavedState
import TabLinux.WarlFields

namespace TabLinux

open Bytes Readers MachineBus Runner

variable {s : Supervisor} {β : Type} {bytes : Bytes}

variable {s' : Supervisor}

section

variable {δ : Type}
variable {m : Machine (DeviceBus δ)} {r r' : Runner (DeviceBus δ)}

section

variable (bytes : Bytes) (bus : DeviceBus δ)

/-- The bus with output before its own. -/
def DeviceBus.printedBefore : DeviceBus δ :=
  { bus with uartConsole := bytes ++ bus.uartConsole }

theorem DeviceBus.dramOffset_printed (addr : U64) :
    (bus.printedBefore bytes).dramOffset addr = bus.dramOffset addr := rfl

theorem DeviceBus.dramRead_printed (off n : Nat) :
    (bus.printedBefore bytes).dramRead off n =
      withBus (printedBefore bytes) (bus.dramRead off n) :=
  ite_map (withBus (printedBefore bytes)) rfl rfl

theorem DeviceBus.dramWrite_printed (off n : Nat) (val : BitVec (8 * n)) :
    (bus.printedBefore bytes).dramWrite off n val = (bus.dramWrite off n val).printedBefore bytes :=
  ite_map (printedBefore bytes) rfl rfl

end

variable [VirtioDevice δ]

namespace DeviceBus

variable (bytes : Bytes)

theorem readU8_printed (bus : DeviceBus δ) (addr : U64) :
    (bus.printedBefore bytes).readU8 addr = withBus (printedBefore bytes) (bus.readU8 addr) := by
  have huart : ∀ off, (bus.printedBefore bytes).uartRead off =
      withBus (printedBefore bytes) (bus.uartRead off) := by
    intro off
    unfold uartRead
    repeat' refine ite_map (withBus (printedBefore bytes)) ?_ ?_
    all_goals rfl
  have hdram := fun off => bus.dramRead_printed bytes off 1
  unfold readU8
  rw [dramOffset_printed]
  cases bus.dramOffset addr with
  | some off => exact hdram off
  | none =>
    refine ite_map (withBus (printedBefore bytes)) rfl ?_
    cases virtioSlot addr with
    | some slot => rfl
    | none => exact ite_map (withBus (printedBefore bytes)) (huart _) rfl

theorem readU32_printed (bus : DeviceBus δ) (addr : U64) :
    (bus.printedBefore bytes).readU32 addr =
      withBus (printedBefore bytes) (bus.readU32 addr) := by
  have hbyte := bus.readU8_printed bytes addr
  have hdram := fun off => bus.dramRead_printed bytes off 4
  unfold readU32
  rw [dramOffset_printed]
  cases bus.dramOffset addr with
  | some off => exact hdram off
  | none =>
    refine ite_map (withBus (printedBefore bytes)) rfl ?_
    cases virtioSlot addr with
    | some slot => rfl
    | none =>
      refine ite_map (withBus (printedBefore bytes)) rfl ?_
      refine ite_map (withBus (printedBefore bytes)) ?_ rfl
      rw [hbyte]
      rfl

theorem read_printed (width : Width) (bus : DeviceBus δ) (addr : U64) :
    Bus.read width (bus.printedBefore bytes) addr =
      withBus (printedBefore bytes) (Bus.read width bus addr) := by
  cases width with
  | u8 => exact bus.readU8_printed bytes addr
  | u16 =>
    change readU16 _ _ = withBus _ (bus.readU16 addr)
    unfold readU16
    rw [bus.readU8_printed]
    dsimp only [withBus]
    rw [readU8_printed]
    rfl
  | u32 => exact bus.readU32_printed bytes addr
  | u64 =>
    have hdram := fun off => bus.dramRead_printed bytes off 8
    change readU64 _ _ = withBus _ (bus.readU64 addr)
    unfold readU64
    rw [dramOffset_printed]
    cases bus.dramOffset addr with
    | some off => exact hdram off
    | none =>
      refine ite_map (withBus (printedBefore bytes)) rfl ?_
      rw [bus.readU32_printed]
      dsimp only [withBus]
      rw [readU32_printed]
      rfl

omit [VirtioDevice δ] in
theorem onSlot_printed (bus : DeviceBus δ) (slot : Fin virtioMmioSlots) (always : Bool)
    (op : VirtioMmio δ → GuestMem → Except Panic (Bool × VirtioMmio δ × GuestMem)) :
    (bus.printedBefore bytes).onSlot slot always op =
      (bus.onSlot slot always op).printedBefore bytes := by
  unfold onSlot
  have hvirtio : (bus.printedBefore bytes).virtio slot = bus.virtio slot := rfl
  rw [hvirtio]
  cases bus.virtio slot with
  | none => rfl
  | some dev =>
    have hmem : (bus.printedBefore bytes).dram = bus.dram := rfl
    dsimp only
    rw [hmem]
    rcases op dev bus.dram with panic | ⟨changed, dev', dram⟩
    · rfl
    · exact ite_map (printedBefore bytes) rfl rfl

theorem writeU8_printed (bus : DeviceBus δ) (addr : U64) (val : Byte) :
    (bus.printedBefore bytes).writeU8 addr val = (bus.writeU8 addr val).printedBefore bytes := by
  have hdram := fun off => bus.dramWrite_printed bytes off 1 val
  have hslot := fun slot off val => bus.onSlot_printed bytes slot false
    fun dev mem => dev.write off val mem
  have huart : ∀ off, (bus.printedBefore bytes).uartWrite off val =
      (bus.uartWrite off val).printedBefore bytes := by
    intro off
    unfold uartWrite
    refine ite_map (printedBefore bytes) (ite_map (printedBefore bytes) rfl ?_) ?_
    · change { bus with uartConsole := (bytes ++ bus.uartConsole) ++ [val] } = _
      rw [List.append_assoc]
      rfl
    · repeat' refine ite_map (printedBefore bytes) ?_ ?_
      all_goals rfl
  unfold writeU8
  rw [dramOffset_printed]
  cases bus.dramOffset addr with
  | some off => exact hdram off
  | none =>
    rcases virtioSlot addr with _ | ⟨slot, off⟩
    · exact ite_map (printedBefore bytes) (huart _) rfl
    · exact ite_map (printedBefore bytes) (hslot slot off _) rfl

theorem writeU32_printed (bus : DeviceBus δ) (addr : U64) (val : U32) :
    (bus.printedBefore bytes).writeU32 addr val = (bus.writeU32 addr val).printedBefore bytes := by
  have hdram := fun off => bus.dramWrite_printed bytes off 4 val
  have hslot := fun slot off val => bus.onSlot_printed bytes slot false
    fun dev mem => dev.write off val mem
  unfold writeU32
  rw [dramOffset_printed]
  cases bus.dramOffset addr with
  | some off => exact hdram off
  | none =>
    refine ite_map (printedBefore bytes) (bus.writeU8_printed bytes addr _) ?_
    refine ite_map (printedBefore bytes) ?_ ?_
    · unfold clintWrite32
      repeat' refine ite_map (printedBefore bytes) ?_ ?_
      all_goals rfl
    · rcases virtioSlot addr with _ | ⟨slot, off⟩
      · exact ite_map (printedBefore bytes) rfl rfl
      · exact hslot slot off val

theorem write_printed (width : Width) (bus : DeviceBus δ) (addr : U64) (val : width.Value) :
    Bus.write width (bus.printedBefore bytes) addr val =
      (Bus.write width bus addr val).printedBefore bytes := by
  cases width with
  | u8 => exact bus.writeU8_printed bytes addr val
  | u16 =>
    have hdram := fun off => bus.dramWrite_printed bytes off 2 val
    change writeU16 _ _ _ = (bus.writeU16 addr val).printedBefore bytes
    unfold writeU16
    rw [dramOffset_printed]
    cases bus.dramOffset addr with
    | some off => exact hdram off
    | none =>
      refine ite_map (printedBefore bytes) (bus.writeU8_printed bytes addr _) ?_
      rw [bus.writeU8_printed, writeU8_printed]
  | u32 => exact bus.writeU32_printed bytes addr val
  | u64 =>
    have hdram := fun off => bus.dramWrite_printed bytes off 8 val
    change writeU64 _ _ _ = (bus.writeU64 addr val).printedBefore bytes
    unfold writeU64
    rw [dramOffset_printed]
    cases bus.dramOffset addr with
    | some off => exact hdram off
    | none =>
      refine ite_map (printedBefore bytes) (bus.writeU8_printed bytes addr _) ?_
      refine ite_map (printedBefore bytes) (ite_map _ rfl (ite_map _ rfl rfl)) ?_
      rw [bus.writeU32_printed, writeU32_printed]

theorem busMap_printed :
    BusMap (printedBefore bytes : DeviceBus δ → DeviceBus δ) where
  read width bus addr := bus.read_printed bytes width addr
  write width bus addr val := bus.write_printed bytes width addr val
  timer _ := rfl
  mtime _ := rfl
  external _ := rfl

variable (bus : DeviceBus δ)

theorem virtioTick_printed (advance : U64) :
    (bus.printedBefore bytes).virtioTick advance =
      (bus.virtioTick advance).printedBefore bytes := by
  have htick : ∀ pollRx (bus : DeviceBus δ) slot,
      tickSlot pollRx advance (bus.printedBefore bytes) slot =
        (tickSlot pollRx advance bus slot).printedBefore bytes := by
    intro pollRx bus slot
    have hpoll : (if pollRx then (bus.printedBefore bytes).onSlot slot false
          fun dev mem => dev.poll mem else bus.printedBefore bytes) =
        (if pollRx then bus.onSlot slot false fun dev mem => dev.poll mem
          else bus).printedBefore bytes :=
      ite_map (printedBefore bytes) (bus.onSlot_printed bytes slot false _) rfl
    unfold tickSlot
    rw [hpoll, onSlot_printed]
  have hfold : ∀ pollRx (slots : List (Fin virtioMmioSlots)) (bus : DeviceBus δ),
      slots.foldl (tickSlot pollRx advance) (bus.printedBefore bytes) =
        (slots.foldl (tickSlot pollRx advance) bus).printedBefore bytes := by
    intro pollRx slots
    induction slots with
    | nil => exact fun _ => rfl
    | cons slot slots ih =>
      intro bus
      rw [List.foldl_cons, List.foldl_cons, htick, ih]
  exact hfold _ _ { bus with netPollAccum := bus.netPollAccum + 1 }

theorem tick_printed : (bus.printedBefore bytes).tick = bus.tick.printedBefore bytes := by
  have haccum : ∀ c : Prop, [Decidable c] → ∀ yes no : DeviceBus δ,
      (if c then yes.printedBefore bytes else no.printedBefore bytes).virtioTick 1 =
        ((if c then yes else no).virtioTick 1).printedBefore bytes := by
    intro c _ yes no
    rw [← virtioTick_printed, apply_ite (printedBefore bytes)]
  exact haccum (mtimeStepsPerTick ≤ bus.tickAccum + 1)
    { bus with tickAccum := 0, mtime := bus.mtime + 1 }
    { bus with tickAccum := bus.tickAccum + 1 }

omit [VirtioDevice δ] in
theorem flush_printed :
    (bus.printedBefore bytes).flushVirtioCompletions =
      bus.flushVirtioCompletions.printedBefore bytes := by
  unfold flushVirtioCompletions
  generalize List.finRange virtioMmioSlots = slots
  induction slots generalizing bus with
  | nil => rfl
  | cons slot slots ih =>
    rw [List.foldl_cons, List.foldl_cons, ← ih]
    congr 1
    exact ite_map (printedBefore bytes) (bus.onSlot_printed bytes slot true _) rfl

theorem idleSkip_printed (target : U64) :
    (bus.printedBefore bytes).idleSkip target = (bus.idleSkip target).printedBefore bytes :=
  ite_map (printedBefore bytes) rfl (ite_map (printedBefore bytes) rfl rfl)

end DeviceBus

/-- Settled caches are settled whatever was printed. -/
theorem Supervisor.Settled.printed {bus : DeviceBus δ} (h : s.Settled bus) (bytes : Bytes) :
    s.Settled (bus.printedBefore bytes) := by
  have hmap := DeviceBus.busMap_printed (δ := δ) bytes
  have htransparent : ∀ {t : Supervisor} {bus : DeviceBus δ}, t.Transparent bus →
      t.Transparent (bus.printedBefore bytes) := by
    intro t bus ht access vaddr
    obtain ⟨hres, hbus⟩ := ht access vaddr
    rw [Supervisor.translate_map hmap, Supervisor.translate_map hmap]
    exact ⟨hres, congrArg (DeviceBus.printedBefore bytes) hbus⟩
  refine ⟨?_, ?_, ?_⟩
  · rw [Supervisor.fetch_map hmap, Supervisor.fetch_map hmap]
    exact h.fetched
  · rw [Supervisor.fetch_map hmap, Supervisor.fetch_map hmap]
    exact congrArg (DeviceBus.printedBefore bytes) h.leaves
  · intro instr width hok
    rw [Supervisor.fetch_map hmap] at hok ⊢
    exact htransparent (h.executes hok)

/-- Alike between two instructions, where it no longer matters whether the last one trapped. -/
def Resembles (printed : Bytes) (s s' : Supervisor) : Prop :=
  Alike printed { s with trapDelivered := false } { s' with trapDelivered := false }

variable {printed : Bytes}

omit [VirtioDevice δ] in
theorem Alike.resembles (h : Alike printed s s') : Resembles printed s s' := by
  obtain ⟨other, rfl⟩ := h.exists_recast
  rfl

theorem Resembles.step [FloatOps] {bus : DeviceBus δ}
    (h : Resembles printed s s') (hs : (s.pollDevices bus).Settled bus)
    (hs' : (s'.pollDevices bus).Settled bus) : AlikeOut printed (s.step bus) (s'.step bus) := by
  have hstep : AlikeOut printed (({ s with trapDelivered := false } : Supervisor).step bus)
      (({ s' with trapDelivered := false } : Supervisor).step bus) := Alike.step h hs hs'
  exact hstep

omit [VirtioDevice δ] in
/-- The bookkeeping of a round changes nothing of the hart that counts. -/
theorem Machine.service_hart [Bus β] (m : Machine β) (tick : β → β) :
    (m.service tick).cpu = { m.cpu with
      pendingFlush := (m.service tick).cpu.pendingFlush
      asidGenNext := (m.service tick).cpu.asidGenNext
      transGen := (m.service tick).cpu.transGen } := by
  unfold service syncIcache drainFlush
  dsimp only
  split
  · split <;> rfl
  split
  · split <;> rfl
  · split <;> rfl

omit [VirtioDevice δ] in
theorem Machine.service_rest [Bus β] (m : Machine β) (tick : β → β) :
    (m.service tick).bus = tick m.bus ∧ (m.service tick).jitEnabled = m.jitEnabled := by
  unfold service syncIcache drainFlush
  repeat' split
  all_goals exact ⟨rfl, rfl⟩

omit [VirtioDevice δ] in
theorem Resembles.service {γ : Type} [Bus β] [Bus γ] {m : Machine β}
    {m' : Machine γ} (h : Resembles printed m.cpu m'.cpu) (tick : β → β) (tick' : γ → γ) :
    Resembles printed (m.service tick).cpu (m'.service tick').cpu := by
  rw [m.service_hart, m'.service_hart]
  generalize (m.service tick).cpu.pendingFlush = pending
  generalize (m.service tick).cpu.asidGenNext = next
  generalize (m.service tick).cpu.transGen = gen
  obtain ⟨other, hother⟩ := Alike.exists_recast h
  change Alike printed { ({ m.cpu with trapDelivered := false } : Supervisor) with
    pendingFlush := pending, asidGenNext := next, transGen := gen } _
  rw [hother]
  rfl

namespace Runner

/-- The same loop around machines that have printed `bytes` and `printed` more and are alike
otherwise, without compiled code. -/
structure Follows (bytes printed : Bytes) (r r' : Runner (DeviceBus δ)) : Prop where
  kept : r = { r' with machine := r.machine }
  off : r.machine.jitEnabled = false
  off' : r'.machine.jitEnabled = false
  hart : Resembles printed r.machine.cpu r'.machine.cpu
  bus : r.machine.bus = r'.machine.bus.printedBefore bytes

/-- The loop around another machine, whose bus has printed more. -/
def around (bytes : Bytes) (m : Machine (DeviceBus δ)) (r : Runner (DeviceBus δ)) :
    Runner (DeviceBus δ) :=
  { r with machine := { m with bus := r.machine.bus.printedBefore bytes } }

variable (htimer : m.cpu.stimecmp = r.machine.cpu.stimecmp)
include htimer

theorem around_deadline : (r.around bytes m).deadline = r.deadline := by
  unfold deadline
  change (if m.cpu.stimecmp ≤ _ then m.cpu.stimecmp else _) = _
  rw [htimer]
  rfl

theorem around_parkVirtual :
    (r.around bytes m).parkVirtual = (r.parkVirtual.1, r.parkVirtual.2.around bytes m) := by
  have hwait : (r.around bytes m).wait = r.wait := by
    unfold wait
    rw [around_deadline htimer]
    rfl
  have hskip : ∀ target, idleSkipMtime (r.machine.bus.printedBefore bytes) target =
      (idleSkipMtime r.machine.bus target).printedBefore bytes :=
    fun target => r.machine.bus.idleSkip_printed bytes _
  have hskipTo : ∀ target, idleSkipMtimeTo (r.machine.bus.printedBefore bytes) target =
      (idleSkipMtimeTo r.machine.bus target).printedBefore bytes :=
    fun target => r.machine.bus.idleSkip_printed bytes target
  unfold parkVirtual
  rw [hwait, around_deadline htimer]
  refine ite_map (fun out : Bool × Runner (DeviceBus δ) => (out.1, out.2.around bytes m)) rfl ?_
  refine ite_map (fun out : Bool × Runner (DeviceBus δ) => (out.1, out.2.around bytes m)) ?_ ?_
  · change (false, withBus _ (idleSkipMtimeTo (r.machine.bus.printedBefore bytes) _)) = _
    rw [hskipTo]
    rfl
  · change (false, withBus _ (idleSkipMtime (r.machine.bus.printedBefore bytes) _)) = _
    rw [hskip]
    rfl

theorem around_parkReal :
    (r.around bytes m).parkReal = (r.parkReal.1, r.parkReal.2.around bytes m) := by
  have hskip : ∀ target allowance,
      idleSkipMtimeRealtime (r.machine.bus.printedBefore bytes) target allowance =
        TabLinux.withBus (DeviceBus.printedBefore bytes)
          (idleSkipMtimeRealtime r.machine.bus target allowance) := by
    intro target allowance
    change (!r.machine.bus.stalls && decide (target ≤
      ((r.machine.bus.printedBefore bytes).idleSkip _).mtime), _) = _
    rw [r.machine.bus.idleSkip_printed]
    rfl
  have hbus : (r.around bytes m).machine.bus = r.machine.bus.printedBefore bytes := rfl
  have hallowance : (r.around bytes m).allowance = r.allowance := rfl
  unfold parkReal
  dsimp only
  rw [around_deadline htimer, hbus, hallowance, hskip]
  exact ite_map (fun out : Bool × Runner (DeviceBus δ) => (out.1, out.2.around bytes m)) rfl rfl

/-- Parking looks at the bus and at the timer of the hart. -/
theorem around_park : (r.around bytes m).park = (r.park.1, r.park.2.around bytes m) := by
  have hflush : (r.around bytes m).withBus
      (flushVirtioCompletions (r.around bytes m).machine.bus) =
        (r.withBus (flushVirtioCompletions r.machine.bus)).around bytes m := by
    change withBus _ (DeviceBus.flushVirtioCompletions (r.machine.bus.printedBefore bytes)) = _
    rw [r.machine.bus.flush_printed]
    rfl
  have htimer' : m.cpu.stimecmp = (r.withBus
      (flushVirtioCompletions r.machine.bus)).machine.cpu.stimecmp := htimer
  unfold park
  refine ite_map (fun out : Bool × Runner (DeviceBus δ) => (out.1, out.2.around bytes m)) rfl ?_
  dsimp only
  rw [hflush]
  generalize r.withBus (flushVirtioCompletions r.machine.bus) = r1 at htimer' ⊢
  have hwait : (r1.around bytes m).wait = r1.wait := by
    unfold wait
    rw [around_deadline htimer']
    rfl
  have hskip : ∀ target, idleSkipMtime (r1.machine.bus.printedBefore bytes) target =
      (idleSkipMtime r1.machine.bus target).printedBefore bytes :=
    fun target => r1.machine.bus.idleSkip_printed bytes _
  rw [around_deadline htimer', hwait, around_parkVirtual htimer', around_parkReal htimer']
  refine ite_map (fun out : Bool × Runner (DeviceBus δ) => (out.1, out.2.around bytes m)) rfl ?_
  refine ite_map (fun out : Bool × Runner (DeviceBus δ) => (out.1, out.2.around bytes m)) rfl ?_
  refine ite_map (fun out : Bool × Runner (DeviceBus δ) => (out.1, out.2.around bytes m)) ?_ rfl
  change (false, withBus _ (idleSkipMtime (r1.machine.bus.printedBefore bytes) _)) = _
  rw [hskip]
  rfl

end Runner

variable [FloatOps]

/-- A round without compiled code. -/
def Runner.turn (r : Runner (DeviceBus δ)) : Round (DeviceBus δ) :=
  r.interpRound { r.machine.service tick with phase := .interp }

theorem Runner.round_eq_turn (h : r.machine.jitEnabled = false) (code : Compiled (DeviceBus δ))
    (room : Nat) : r.round code room = r.turn := by
  have hoff : ¬ ((r.machine.service tick).jitEnabled &&
      (r.machine.service tick).cpu.blockStart) = true := by
    rw [(r.machine.service_rest tick).2, h, Bool.false_and]
    exact Bool.false_ne_true
  have hchoose : (r.machine.service tick).choose =
      { r.machine.service tick with phase := .interp } := if_neg hoff
  unfold round
  rw [hchoose]
  rfl

/-- The caches are settled when the next instruction is fetched. -/
def Runner.Ready (r : Runner (DeviceBus δ)) : Prop :=
  let m := r.machine.service tick
  (m.cpu.pollDevices m.bus).Settled m.bus

/-- The caches are settled for each of the next `k` instructions. -/
def Runner.SettledFor : Nat → Runner (DeviceBus δ) → Prop
  | 0, _ => True
  | k + 1, r =>
      r.Ready ∧
        match r.turn with
        | .next r' _ _ => Runner.SettledFor k r'
        | .handBack _ _ => True

/-- Rounds that end alike. -/
inductive Round.Follows (bytes printed : Bytes) :
    Round (DeviceBus δ) → Round (DeviceBus δ) → Prop
  | next {r r' : Runner (DeviceBus δ)} {tally tally' : Tally (DeviceBus δ)}
      (h : Runner.Follows bytes printed r r') :
      Round.Follows bytes printed (.next r 1 tally) (.next r' 1 tally')
  | handBack {r r' : Runner (DeviceBus δ)} {tally tally' : Tally (DeviceBus δ)}
      (h : Runner.Follows bytes printed r r') :
      Round.Follows bytes printed (.handBack r tally) (.handBack r' tally')

namespace Runner

omit [FloatOps] [VirtioDevice δ] in
/-- Marking a block start does not count. -/
theorem Follows.retry (h : Runner.Follows bytes printed r r') (b b' : Bool) :
    Runner.Follows bytes printed
      (if b then
        { r with machine := { r.machine with cpu := { r.machine.cpu with blockStart := true } } }
        else r)
      (if b' then
        { r' with
          machine := { r'.machine with cpu := { r'.machine.cpu with blockStart := true } } }
        else r') := by
  have hmark : ∀ {s s' : Supervisor} (c c' : Bool), Resembles printed s s' →
      Resembles printed (if c then { s with blockStart := true } else s)
        (if c' then { s' with blockStart := true } else s') := by
    intro s s' c c' hs
    obtain ⟨other, hother⟩ := Alike.exists_recast hs
    cases c with
    | false => cases c' with
      | false => exact hs
      | true =>
        change Alike printed ({ s with trapDelivered := false } : Supervisor) _
        rw [hother]
        rfl
    | true =>
      change Alike printed { ({ s with trapDelivered := false } : Supervisor) with
        blockStart := true } _
      rw [hother]
      cases c' <;> rfl
  have hhart := hmark b b' h.hart
  refine ⟨?_, ?_, ?_, ?_, ?_⟩
  · rw [h.kept]
    cases b <;> cases b' <;> rfl
  · cases b <;> exact h.off
  · cases b' <;> exact h.off'
  · cases b <;> cases b' <;> exact hhart
  · cases b <;> cases b' <;> exact h.bus

omit [FloatOps] in
/-- Parking changes nothing of the machine but the bus. -/
theorem park_machine (r : Runner (DeviceBus δ)) :
    r.park.2.machine = { r.machine with bus := r.park.2.machine.bus } := by
  unfold park parkVirtual parkReal
  dsimp only
  repeat' split
  all_goals rfl

omit [FloatOps] in
theorem Follows.park (h : Runner.Follows bytes printed r r') :
    r.park.1 = r'.park.1 ∧ Runner.Follows bytes printed r.park.2 r'.park.2 := by
  have htimer : r.machine.cpu.stimecmp = r'.machine.cpu.stimecmp := by
    have hfield := congrArg Supervisor.stimecmp (show _ = _ from h.hart)
    exact hfield
  have haround : r = r'.around bytes r.machine := by
    rw [h.kept]
    unfold around
    rw [← h.bus]
  have hpark : r.park = (r'.park.1, r'.park.2.around bytes r.machine) := by
    conv_lhs => rw [haround]
    exact around_park htimer
  have hmachine := r'.park_machine
  rw [hpark]
  refine ⟨rfl, rfl, h.off, ?_, ?_, rfl⟩
  · rw [hmachine]
    exact h.off'
  · rw [hmachine]
    exact h.hart

theorem Follows.turn (h : Runner.Follows bytes printed r r')
    (hr : r.Ready) (hr' : r'.Ready) : Round.Follows bytes printed r.turn r'.turn := by
  have hmap := DeviceBus.busMap_printed (δ := δ) bytes
  obtain ⟨hbus, hoff⟩ := r.machine.service_rest tick
  obtain ⟨hbus', hoff'⟩ := r'.machine.service_rest tick
  have hhart := Resembles.service h.hart tick tick
  have hticked : (r.machine.service tick).bus =
      (r'.machine.service tick).bus.printedBefore bytes := by
    rw [hbus, hbus', h.bus]
    exact r'.machine.bus.tick_printed bytes
  have hkept := h.kept
  have hoffs := hoff.trans h.off
  have hoffs' := hoff'.trans h.off'
  unfold Runner.Ready at hr hr'
  dsimp only at hr hr'
  unfold Runner.turn Runner.interpRound
  generalize r.machine.service tick = m at *
  generalize r'.machine.service tick = m' at *
  -- the step on the bus of the first, which has printed more
  rw [hticked] at hr
  have hsettled' : (m'.cpu.pollDevices (m'.bus.printedBefore bytes)).Settled
      (m'.bus.printedBefore bytes) := by
    rw [Supervisor.pollDevices_map hmap]
    exact hr'.printed bytes
  have hstep := hhart.step hr hsettled'
  rw [Supervisor.step_map hmap m'.cpu] at hstep
  rw [hticked]
  generalize m.cpu.step (m'.bus.printedBefore bytes) = out at hstep ⊢
  generalize m'.cpu.step m'.bus = out' at hstep ⊢
  obtain ⟨status, cpu, bus⟩ := out
  obtain ⟨status', cpu', bus'⟩ := out'
  obtain ⟨houtcome, halike, hmem⟩ := hstep
  dsimp only [onBus] at houtcome halike hmem ⊢
  subst houtcome hmem
  have hafter : Runner.Follows bytes printed
      { r with machine := { m with
        cpu := cpu, bus := bus'.printedBefore bytes, jitRetry := false, phase := .top } }
      { r' with machine := { m' with
        cpu := cpu', bus := bus', jitRetry := false, phase := .top } } := by
    refine ⟨?_, hoffs, hoffs', halike.resembles, rfl⟩
    rw [hkept]
  split
  · obtain ⟨hflag, hparked⟩ := hafter.park
    generalize Runner.park { r with machine := { m with
      cpu := cpu, bus := bus'.printedBefore bytes, jitRetry := false, phase := .top } } = out
      at hflag hparked ⊢
    generalize Runner.park { r' with machine := { m' with
      cpu := cpu', bus := bus', jitRetry := false, phase := .top } } = out' at hflag hparked ⊢
    obtain ⟨flag, r1⟩ := out
    obtain ⟨flag', r1'⟩ := out'
    subst hflag
    cases flag with
    | true => exact .handBack hparked
    | false => exact .next (hparked.retry _ _)
  · exact .next (hafter.retry _ _)

/-- Runs that start alike end alike, after the same number of instructions. -/
theorem Follows.runLoop {code code' : Compiled (DeviceBus δ)}
    {budget fuel : Nat} (h : Runner.Follows bytes printed r r') (hs : Runner.SettledFor fuel r)
    (hs' : Runner.SettledFor fuel r') (n : Nat) (tally tally' : Tally (DeviceBus δ)) :
    (runLoop code budget fuel r n tally).1 =
        (runLoop code' budget fuel r' n tally').1 ∧
      Runner.Follows bytes printed (runLoop code budget fuel r n tally).2.1
        (runLoop code' budget fuel r' n tally').2.1 := by
  have hfinish : ∀ {r r' : Runner (DeviceBus δ)} (n : Nat), Runner.Follows bytes printed r r' →
      Runner.Follows bytes printed { r with steps := r.steps + n }
        { r' with steps := r'.steps + n } := by
    intro r r' n hrr
    refine ⟨?_, hrr.off, hrr.off', hrr.hart, hrr.bus⟩
    rw [hrr.kept]
  induction fuel generalizing r r' n tally tally' with
  | zero => exact ⟨rfl, hfinish n h⟩
  | succ fuel ih =>
    rw [Runner.SettledFor] at hs hs'
    have hturn := h.turn hs.1 hs'.1
    have hrest := hs.2
    have hrest' := hs'.2
    rw [runLoop, runLoop, round_eq_turn h.off, round_eq_turn h.off']
    split
    · generalize r.turn = out at hturn hrest ⊢
      generalize r'.turn = out' at hturn hrest' ⊢
      cases hturn with
      | next hnext => exact ih hnext hrest hrest' _ _ _
      | handBack hback => exact ⟨rfl, hfinish n hback⟩
    · exact ⟨rfl, hfinish n h⟩

end Runner

end

/-- What holds of a hart between two instructions of the interpreter: the counters are not
held back, and compiled code has left nothing. -/
structure Supervisor.Resting (s : Supervisor) : Prop where
  mcycle : s.wroteMcycle = false
  minstret : s.wroteMinstret = false
  words : s.cpu.fixed.2 = (0, 0, 0, 0)

theorem Supervisor.Resting.step [Bus β] [FloatOps] (h : s.Resting) (bus : β) :
    (s.step bus).2.1.Resting := by
  have htrap : ∀ (t : Supervisor) trap vaddr,
      (t.takeTrapWithVaddr trap vaddr).2.wroteMcycle = t.wroteMcycle ∧
        (t.takeTrapWithVaddr trap vaddr).2.wroteMinstret = t.wroteMinstret := by
    intro t trap vaddr
    unfold takeTrapWithVaddr
    split <;> exact ⟨rfl, rfl⟩
  suffices hflags : (s.step bus).2.1.wroteMcycle = false ∧
      (s.step bus).2.1.wroteMinstret = false from
    ⟨hflags.1, hflags.2, (congrArg Prod.snd (s.step_fixed bus)).trans h.words⟩
  rcases s.step_cases bus with ⟨-, s', trap, vaddr, hfetch, hstep⟩ |
    ⟨instr, width, s', bus', -, -, hstep⟩
  · have hkept : s'.wroteMcycle = false ∧ s'.wroteMinstret = false := by
      rw [hfetch]
      exact ite_holds (fun t : Supervisor => t.wroteMcycle = false ∧ t.wroteMinstret = false)
        ⟨h.mcycle, h.minstret⟩ ⟨h.mcycle, h.minstret⟩
    rw [hstep, (htrap s' trap vaddr).1, (htrap s' trap vaddr).2]
    exact hkept
  · rw [hstep, finishStep]
    rcases deliver_cases _ _ _ with ⟨trap, hout⟩ | hout
    · rw [hout]
      exact htrap _ trap none
    · rw [hout]
      exact ⟨rfl, rfl⟩

section

variable {δ : Type} [VirtioDevice δ] [FloatOps] {r : Runner (DeviceBus δ)}

/-- The loop after a round. -/
def Runner.afterTurn (r : Runner (DeviceBus δ)) : Runner (DeviceBus δ) :=
  match r.turn with
  | .next r' _ _ => r'
  | .handBack r' _ => r'

/-- The loop without compiled code, around a hart between two instructions. -/
structure Runner.Interpreting (r : Runner (DeviceBus δ)) : Prop where
  off : r.machine.jitEnabled = false
  rest : r.machine.cpu.Resting

theorem Runner.Interpreting.afterTurn (h : r.Interpreting) : r.afterTurn.Interpreting := by
  have hoff := (r.machine.service_rest tick).2.trans h.off
  have hrest : (r.machine.service tick).cpu.Resting := by
    rw [r.machine.service_hart]
    exact ⟨h.rest.mcycle, h.rest.minstret, h.rest.words⟩
  unfold Runner.afterTurn Runner.turn Runner.interpRound
  generalize r.machine.service tick = m at hoff hrest ⊢
  have hstepped := hrest.step m.bus
  dsimp only
  generalize m.cpu.step m.bus = out at hstepped ⊢
  obtain ⟨status, cpu, bus⟩ := out
  have hretry : ∀ {r : Runner (DeviceBus δ)} (c : Bool), r.Interpreting → Runner.Interpreting
      (if c then
        { r with machine := { r.machine with cpu := { r.machine.cpu with blockStart := true } } }
        else r) := by
    rintro r c ⟨hoff, hrest⟩
    cases c with
    | false => exact ⟨hoff, hrest⟩
    | true => exact ⟨hoff, hrest.mcycle, hrest.minstret, hrest.words⟩
  have hafter : Runner.Interpreting { r with
      machine := { m with cpu := cpu, bus := bus, jitRetry := false, phase := .top } } :=
    ⟨hoff, hstepped⟩
  by_cases hwfi : status = .wfi
  · rw [if_pos hwfi]
    generalize { r with
      machine := { m with cpu := cpu, bus := bus, jitRetry := false, phase := .top } } = r1
      at hafter ⊢
    have hparked : r1.park.2.Interpreting := by
      have hmachine := r1.park_machine
      refine ⟨?_, ?_⟩
      · rw [hmachine]
        exact hafter.off
      · rw [hmachine]
        exact hafter.rest
    generalize r1.park = out at hparked ⊢
    obtain ⟨flag, r2⟩ := out
    cases flag with
    | true => exact hparked
    | false => exact hretry _ hparked
  · rw [if_neg hwfi]
    exact hretry m.jitRetry hafter

/-- So it stays over a run. -/
theorem Runner.Interpreting.run (h : r.Interpreting) (code : Compiled (DeviceBus δ))
    (budget : Nat) : (r.run code budget).2.1.Interpreting := by
  have hloop : ∀ (fuel n : Nat) (r : Runner (DeviceBus δ)) tally, r.Interpreting →
      (Runner.runLoop code budget fuel r n tally).2.1.Interpreting := by
    intro fuel
    induction fuel with
    | zero => exact fun n r tally h => ⟨h.off, h.rest⟩
    | succ fuel ih =>
      intro n r tally h
      have hnext := h.afterTurn
      unfold Runner.afterTurn at hnext
      rw [Runner.runLoop, Runner.round_eq_turn h.off]
      split
      · generalize r.turn = out at hnext ⊢
        cases out with
        | next r' ran tally' => exact ih _ r' _ hnext
        | handBack r' tally' => exact ⟨hnext.off, hnext.rest⟩
      · exact ⟨h.off, h.rest⟩
  exact hloop budget 0 _ .none ⟨h.off, h.rest⟩

end

/-- With the poll due, what comes back of a hart differs in its caches and its output only. -/
theorem Supervisor.Resting.resembles (h : s.Resting) (hdue : s.intSyncCountdown = 0)
    (pc hartid : U64) : Resembles s.consoleBuf s ((Supervisor.new pc hartid).reloaded s) := by
  obtain ⟨hmcycle, hminstret, hwords⟩ := h
  obtain ⟨⟨x, fault, next, insns, budget, f, pc', fcsr, dirty⟩⟩ := s
  simp only [Cpu.fixed, Prod.mk.injEq] at hwords
  obtain ⟨hfault, hnext, hinsns, hbudget⟩ := hwords
  subst hmcycle hminstret hfault hnext hinsns hbudget hdue
  unfold Resembles Alike Supervisor.recast
  simp [Supervisor.reloaded, Supervisor.new, Supervisor.dcacheFlush,
    Supervisor.invalidateAllSpaces, Cpu.new]

section

variable {σ : Type} [BlockBackend σ]

/-- A device that leaves nothing to the host: a disk without its backing store, or a network
card without frames in its queues. -/
def Peripheral.Detached : Peripheral σ → Prop
  | .blk dev => dev = .new (.detached (BlockBackend.capacitySectors dev.backend))
  | .net dev => dev.toHost = [] ∧ dev.toGuest = []
  | .p9 _ => False

theorem Peripheral.Detached.revived {dev : Peripheral σ} (h : dev.Detached) :
    dev.revived = dev := by
  cases dev with
  | blk dev => exact congrArg Peripheral.blk (Eq.symm h)
  | net dev =>
    obtain ⟨mac, pendingRx, toHost, toGuest⟩ := dev
    obtain ⟨rfl, rfl⟩ := h
    rfl
  | p9 dev => exact h.elim

variable [FloatOps]

end

section

variable [Bus β]

theorem Supervisor.translate_bare (hbare : s.satp.mode = 0) (bus : β) (access : AccessType)
    (vaddr : U64) : s.translate bus access vaddr = (.ok vaddr, s, bus) := by
  have hmmu : ∀ priv, s.mmuTranslate bus priv access vaddr = (.ok vaddr, s, bus) := by
    intro priv
    unfold mmuTranslate Mmu.translate
    rw [if_pos hbare]
  unfold translate
  simp only [hmmu, ite_self]

/-- With translation off, what is decoded at an address is the same for every hart. -/
theorem Supervisor.fetchDecode_bare (bus : β) (pc paddr : U64) :
    ∃ out bus', ∀ t : Supervisor, t.satp.mode = 0 → t.cpu.pc = pc →
      t.fetchDecode bus paddr = (out, t, bus') := by
  have hupper : ∀ bus : β, ∃ half bus', ∀ t : Supervisor, t.satp.mode = 0 → t.cpu.pc = pc →
      t.fetchUpperHalf bus paddr = (.ok half, t, bus') := by
    intro bus
    by_cases hcross : pc &&& 0xFFF ≠ 0xFFE
    · refine ⟨(readU16 bus (paddr + 2)).1, (readU16 bus (paddr + 2)).2, fun t _ hpc => ?_⟩
      rw [fetchUpperHalf, hpc, if_pos hcross]
    · refine ⟨(readU16 bus (pc + 2)).1, (readU16 bus (pc + 2)).2, fun t hbare hpc => ?_⟩
      rw [fetchUpperHalf, hpc, if_neg hcross, translate_bare hbare]
  rcases hread : readU16 bus paddr with ⟨half, bus1⟩
  obtain ⟨hi, bus2, hhi⟩ := hupper bus1
  by_cases hshort : half &&& 3 ≠ 3
  · cases hinstr : decompress half with
    | some instr =>
      refine ⟨.ok (instr, 2), bus1, fun t _ _ => ?_⟩
      simp only [fetchDecode, hread, if_pos hshort, hinstr]
    | none =>
      refine ⟨.error (.exception .illegalInstruction, none), bus2, fun t hbare hpc => ?_⟩
      simp only [fetchDecode, hread, if_pos hshort, hinstr, hhi t hbare hpc]
  · refine ⟨.ok (decode (hi ++ half), 4), bus2, fun t hbare hpc => ?_⟩
    simp only [fetchDecode, hread, if_neg hshort, hhi t hbare hpc]

/-- Translation is off, the cached page is the one of the PC, and its instruction is not
cached. -/
def Supervisor.Bare (s : Supervisor) : Prop :=
  s.satp.mode = 0 ∧
    (s.cpu.pc >>> 12 = s.fetchVpn → s.fetchPpn <<< 12 ||| (s.cpu.pc &&& 0xFFF) = s.cpu.pc) ∧
    s.dcacheHit s.cpu.pc = none

instance : DecidablePred Supervisor.Bare := fun s =>
  inferInstanceAs (Decidable (_ ∧ (_ → _) ∧ s.dcacheHit s.cpu.pc = none))

theorem Supervisor.Bare.settled {bus : β} (h : s.Bare) : s.Settled bus := by
  obtain ⟨out, bus', hdecode⟩ := fetchDecode_bare bus s.cpu.pc s.cpu.pc
  have hfetched : ∀ t : Supervisor, t.Bare → t.cpu.pc = s.cpu.pc →
      (t.fetch bus).1 = out ∧ (t.fetch bus).2.2 = bus' := by
    rintro t ⟨hbare, hpage, hmiss⟩ hpc
    have htranslated : ∃ t1 : Supervisor, t.fetchTranslate bus t.cpu.pc = (.ok s.cpu.pc, t1, bus) ∧
        t1.satp.mode = 0 ∧ t1.cpu.pc = s.cpu.pc ∧ t1.dcacheHit s.cpu.pc = none := by
      rw [hpc] at hpage hmiss ⊢
      unfold fetchTranslate
      split
      · rename_i hcached
        rw [hpage (of_decide_eq_true (Bool.and_eq_true_iff.mp hcached).1)]
        exact ⟨t, rfl, hbare, hpc, hmiss⟩
      · rw [translate_bare hbare]
        exact ⟨_, rfl, hbare, hpc, hmiss⟩
    obtain ⟨t1, heq, hbare', hpc', hmiss'⟩ := htranslated
    unfold fetch
    rw [heq]
    dsimp only
    rw [hmiss']
    dsimp only
    rw [hdecode t1 hbare' hpc']
    cases out with
    | ok fetched => exact ⟨rfl, rfl⟩
    | error fault => exact ⟨rfl, rfl⟩
  have hempty : s.uncached.Bare := by
    refine ⟨h.1, fun hvpn => ?_, rfl⟩
    have hnat := congrArg BitVec.toNat (show s.cpu.pc >>> 12 = BitVec.allOnes 64 from hvpn)
    rw [BitVec.toNat_ushiftRight, BitVec.toNat_allOnes, Nat.shiftRight_eq_div_pow] at hnat
    omega
  obtain ⟨hout, hbus⟩ := hfetched s h rfl
  obtain ⟨hout', hbus'⟩ := hfetched s.uncached hempty rfl
  refine ⟨hout.trans hout'.symm, hbus.trans hbus'.symm, ?_⟩
  intro instr width _ access vaddr
  have hcache := (s.fetch_effect bus).cacheEffect.trans (flushedFor_effect _ instr)
  have hbare : (((s.fetch bus).2.1.flushedFor instr)).satp.mode = 0 := by
    rw [hcache]
    exact h.1
  rw [translate_bare hbare, translate_bare (s := uncached _) hbare]
  exact ⟨rfl, rfl⟩

end

theorem Runner.SettledFor.succ {δ : Type} [VirtioDevice δ] [FloatOps] {r : Runner (DeviceBus δ)}
    {k : Nat} (hready : r.Ready) (hrest : Runner.SettledFor k r.afterTurn) :
    Runner.SettledFor (k + 1) r := by
  refine ⟨hready, ?_⟩
  unfold afterTurn at hrest
  split
  · rename_i heq
    rw [heq] at hrest
    exact hrest
  · trivial

end TabLinux
