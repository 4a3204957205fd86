/-
Time that is credited in batches.  A chain of compiled code credits all its instructions
at once.  The devices get a chance to receive when the count of instructions lands on a
multiple of 512, over which a batch can jump.
-/
import TabLinux.Library.Runs
import TabLinux.Peripherals
import TabLinux.RunAccounting

namespace TabLinux

open Bytes Runs

/-- A call that credits retired instructions. -/
inductive Credit where
  | tick
  | tickN (n : U64)

def Credit.count : Credit → U64
  | .tick => 1
  | .tickN n => n

section

variable {δ : Type} [VirtioDevice δ] {bus : DeviceBus δ} {call : Credit}

namespace DeviceBus

section

variable (bus : DeviceBus δ)

def credit : Credit → DeviceBus δ
  | .tick => bus.tick
  | .tickN n => bus.tickN n

/-- The count of instructions lands on a multiple of 512. -/
def polls (call : Credit) : Bool :=
  call.count ≠ 0 && (bus.netPollAccum + call.count) % 512 = 0

/-- A call serves every slot, and polls it where `polls` says so. -/
theorem credit_eq (hcount : call.count ≠ 0) :
    ∃ mtime tickAccum, bus.credit call =
      (List.finRange virtioMmioSlots).foldl (tickSlot (bus.polls call) call.count)
        { bus with
          mtime := mtime
          tickAccum := tickAccum
          netPollAccum := bus.netPollAccum + call.count } := by
  have hserved : ∀ (mtime tickAccum accum : U64) advance,
      virtioTick { bus with mtime := mtime, tickAccum := tickAccum, netPollAccum := accum }
          advance =
        (List.finRange virtioMmioSlots).foldl (tickSlot (decide ((accum + 1) % 512 = 0)) advance)
          { bus with mtime := mtime, tickAccum := tickAccum, netPollAccum := accum + 1 } :=
    fun _ _ _ _ => rfl
  have hpolls : bus.polls call = decide ((bus.netPollAccum + call.count) % 512 = 0) := by
    rw [polls, decide_eq_true hcount, Bool.true_and]
  have htick : ∃ mtime tickAccum, bus.tick =
      virtioTick { bus with mtime := mtime, tickAccum := tickAccum } 1 := by
    unfold tick
    dsimp only
    split
    · exact ⟨_, _, rfl⟩
    · exact ⟨bus.mtime, _, rfl⟩
  rw [hpolls]
  cases call with
  | tick =>
    obtain ⟨mtime, tickAccum, htick⟩ := htick
    exact ⟨mtime, tickAccum, htick.trans (hserved _ _ _ _)⟩
  | tickN n =>
    change ∃ mtime tickAccum, bus.tickN n = _
    unfold tickN
    rw [if_neg (show n ≠ 0 from hcount)]
    split
    · rename_i hone
      subst hone
      obtain ⟨mtime, tickAccum, htick⟩ := htick
      exact ⟨mtime, tickAccum, htick.trans (hserved _ _ _ _)⟩
    · have hsum : bus.netPollAccum + (n - 1) + 1 = bus.netPollAccum + n := by
        rw [BitVec.add_assoc, BitVec.sub_add_cancel]
      have hbatch := hserved (bus.mtime + (bus.tickAccum + n) / mtimeStepsPerTick)
        ((bus.tickAccum + n) % mtimeStepsPerTick) (bus.netPollAccum + (n - 1)) n
      rw [hsum] at hbatch
      exact ⟨_, _, hbatch⟩

theorem credit_netPollAccum (call : Credit) :
    (bus.credit call).netPollAccum = bus.netPollAccum + call.count := by
  by_cases hcount : call.count = 0
  · cases call with
    | tick => cases hcount
    | tickN n =>
      obtain rfl : n = 0 := hcount
      exact (BitVec.add_zero _).symm
  · obtain ⟨mtime, tickAccum, hcall⟩ := bus.credit_eq hcount
    rw [hcall, foldl_tickSlot_effect]

/-- The call does not jump over a multiple of 512, or lands on one. -/
def Lands (call : Credit) : Prop :=
  bus.netPollAccum.toNat % 512 + call.count.toNat ≤ 512 ∨
    (bus.netPollAccum.toNat + call.count.toNat) % 512 = 0

end

/-- A call that lands and does not poll only moves on towards the next multiple. -/
theorem Lands.residue (h : bus.Lands call) (hpolls : bus.polls call = false) :
    (bus.credit call).netPollAccum.toNat % 512 =
      bus.netPollAccum.toNat % 512 + call.count.toNat := by
  rw [credit_netPollAccum]
  have hmod : ((bus.netPollAccum + call.count) % 512).toNat =
      (bus.netPollAccum.toNat + call.count.toNat) % 512 := by
    rw [BitVec.toNat_umod, BitVec.toNat_add]
    exact Nat.mod_mod_of_dvd _ (by decide)
  rw [BitVec.toNat_add, Nat.mod_mod_of_dvd _ (by decide : 512 ∣ 2 ^ 64)]
  by_cases hcount : call.count = 0
  · rw [hcount]
    rfl
  have hmissed : (bus.netPollAccum.toNat + call.count.toNat) % 512 ≠ 0 := by
    intro hzero
    rw [← hmod] at hzero
    have hlanded : (bus.netPollAccum + call.count) % 512 = 0 := BitVec.eq_of_toNat_eq hzero
    rw [polls, hlanded, decide_eq_true hcount] at hpolls
    cases hpolls
  have hshort := h.resolve_right hmissed
  omega

/-- Without a poll, the calls stay short of the next multiple. -/
theorem exists_polls_or_short {calls : List Credit} (h : Along credit Lands bus calls) :
    (∃ first call rest, calls = first ++ call :: rest ∧
      (run credit bus first).polls call = true) ∨
    bus.netPollAccum.toNat % 512 + (calls.map fun call => call.count.toNat).sum < 512 := by
  induction calls generalizing bus with
  | nil =>
    refine Or.inr ?_
    rw [List.map_nil, List.sum_nil]
    omega
  | cons call calls ih =>
    cases hpolls : bus.polls call with
    | true => exact Or.inl ⟨[], call, calls, rfl, hpolls⟩
    | false =>
      rcases ih h.2 with ⟨first, later, rest, hsplit, hlater⟩ | hshort
      · exact Or.inl ⟨call :: first, later, rest, congrArg (call :: ·) hsplit, hlater⟩
      rw [h.1.residue hpolls] at hshort
      refine Or.inr ?_
      rw [List.map_cons, List.sum_cons]
      omega

end DeviceBus

/-- In a run in which no call jumps over a multiple of 512, every stretch of 512
instructions has a call that polls each slot. -/
theorem run_polls (bus : DeviceBus δ) {calls : List Credit}
    (hlands : Along DeviceBus.credit DeviceBus.Lands bus calls)
    {before stretch after : List Credit} (hcalls : calls = before ++ stretch ++ after)
    (hlong : 512 ≤ (stretch.map fun call => call.count.toNat).sum) :
    ∃ first call rest mtime tickAccum, stretch = first ++ call :: rest ∧
      (run DeviceBus.credit bus (before ++ first)).credit call =
        (List.finRange virtioMmioSlots).foldl (DeviceBus.tickSlot true call.count)
          { run DeviceBus.credit bus (before ++ first) with
            mtime := mtime
            tickAccum := tickAccum
            netPollAccum := (run DeviceBus.credit bus (before ++ first)).netPollAccum +
              call.count } ∧
      (run DeviceBus.credit bus (before ++ first)).polls call = true := by
  subst hcalls
  have halong := (along_append.mp (along_append.mp hlands).1).2
  rcases DeviceBus.exists_polls_or_short halong with ⟨first, call, rest, hsplit, hpolls⟩ | hshort
  · rw [← run_append] at hpolls
    have hcount : call.count ≠ 0 := by
      intro hzero
      simp [DeviceBus.polls, hzero] at hpolls
    obtain ⟨mtime, tickAccum, hcall⟩ :=
      (run DeviceBus.credit bus (before ++ first)).credit_eq hcount
    rw [hpolls] at hcall
    exact ⟨first, call, rest, mtime, tickAccum, hsplit, hcall, hpolls⟩
  · omega

end

/-- A card with one frame that the host has queued. -/
def queuedBus : DeviceBus VirtioNet :=
  let card := VirtioMmio.new ⟨fun _ => 0, none, [], [[1]]⟩
  { (DeviceBus.new 0 : DeviceBus VirtioNet) with
    virtio := fun slot => if slot.val = 0 then some { card with status := 1 } else none }

/-- The frames that the first card has not asked for. -/
def DeviceBus.queuedFrames (bus : DeviceBus VirtioNet) : Option (List Bytes) :=
  (List.finRange virtioMmioSlots).findSome? fun slot =>
    (bus.virtio slot).map fun m => m.dev.toGuest

theorem run_polls_card :
    ∃ call ∈ [Credit.tickN 511, .tick],
      (queuedBus.credit (.tickN 511)).polls call = true ∨ queuedBus.polls call = true := by
  have hlands : Along DeviceBus.credit DeviceBus.Lands queuedBus [.tickN 511, .tick] :=
    ⟨Or.inl (by decide +kernel), Or.inl (by decide +kernel), trivial⟩
  have hcalls : [Credit.tickN 511, .tick] = [] ++ [.tickN 511, .tick] ++ [] := rfl
  obtain ⟨first, call, rest, -, -, hsplit, -, hpolls⟩ :=
    run_polls queuedBus hlands hcalls (by decide)
  refine ⟨call, hsplit ▸ List.mem_append_right _ List.mem_cons_self, ?_⟩
  rcases first with _ | ⟨other, _ | ⟨third, first⟩⟩
  · exact Or.inr hpolls
  · obtain ⟨rfl, -⟩ := List.cons.inj hsplit
    exact Or.inl hpolls
  · simp at hsplit

/-- After one instruction a batch of 512 jumps over the multiple: no poll comes, and the
frame stays with the host.  Without the first instruction it is taken. -/
theorem batch_jumps_over_poll :
    queuedBus.polls .tick = false ∧ (queuedBus.credit .tick).polls (.tickN 512) = false ∧
      ((queuedBus.credit .tick).credit (.tickN 512)).queuedFrames = some [[1]] ∧
      (queuedBus.credit (.tickN 512)).queuedFrames = some [] := by
  decide +kernel

end TabLinux
