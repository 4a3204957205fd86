/-
The relay connection of the web host: frames to the relay wait in a queue until it opens
the window with a CONTINUE on stream 0.
-/
import Mathlib.Data.List.Induction
import TabLinux.Library.Bytes
import TabLinux.Library.Runs

namespace TabLinux

open Bytes Runs

/-- The connection, with the frames passed to the websocket so far.  The tables of streams
and of pings have no part in what is sent. -/
structure WispEgress where
  isOpen : Bool
  credit : Nat
  queue : List Bytes
  ws : List Bytes
deriving DecidableEq, Repr

namespace WispEgress

/-- The connection just after it was opened. -/
def opened : WispEgress := ⟨true, 0, [], []⟩

/-- The stream and the credit of a CONTINUE frame.  The read of a credit that is not there
throws. -/
def continue? (f : Bytes) : Option (Nat × Nat) :=
  if f.length < 9 ∨ f.getD 0 0 ≠ 3 then none
  else some (ofLe ((f.drop 1).take 4), ofLe ((f.drop 5).take 4))

def onFrame (w : WispEgress) (f : Bytes) : WispEgress :=
  match continue? f with
  | none => w
  | some (0, credit) => { w with credit := credit, queue := [], ws := w.ws ++ w.queue }
  | some (_, credit) => { w with credit := max w.credit credit }

def send (w : WispEgress) (buf : Bytes) : WispEgress :=
  if !w.isOpen then w
  else if w.credit = 0 then { w with queue := w.queue ++ [buf] }
  else { w with ws := w.ws ++ [buf] }

/-- What happens on an open connection. -/
inductive Event where
  | send (buf : Bytes)
  | frame (f : Bytes)
deriving DecidableEq, Repr

def step (w : WispEgress) : Event → WispEgress
  | .send buf => w.send buf
  | .frame f => w.onFrame f

/-- The frames given to `send`. -/
def sends (events : List Event) : List Bytes :=
  events.filterMap fun | .send buf => some buf | .frame _ => none

/-- Has the relay opened the window? -/
def opens (events : List Event) : Bool :=
  events.any fun | .send _ => false | .frame f => (continue? f).any (·.1 = 0)

/-- The frames are passed on in order, and none before the window is open. -/
structure InOrder (events : List Event) (w : WispEgress) : Prop where
  sent : w.ws <+: sends events
  window : opens events = false → w.ws = []

/-- Credit on another stream does not open a window that is closed. -/
def KeepsShut (w : WispEgress) : Event → Prop
  | .send _ => True
  | .frame f => ∀ id credit, continue? f = some (id, credit) → id ≠ 0 → w.credit = 0 → credit = 0

/-- Sent and queued frames are all the frames given, and only a shut window has a queue. -/
structure Ok (events : List Event) (w : WispEgress) : Prop where
  isOpen : w.isOpen = true
  sent : w.ws ++ w.queue = sends events
  flushed : w.credit ≠ 0 → w.queue = []
  window : opens events = false → w.ws = [] ∧ w.credit = 0

variable {events : List Event} {w : WispEgress}

theorem Ok.send (h : Ok events w) (buf : Bytes) :
    Ok (events ++ [.send buf]) (w.step (.send buf)) := by
  have hsends : sends (events ++ [.send buf]) = sends events ++ [buf] := by simp [sends]
  have hopens : opens (events ++ [.send buf]) = opens events := by simp [opens]
  rw [step, WispEgress.send, h.isOpen, Bool.not_true, if_neg Bool.false_ne_true]
  split
  · rename_i hshut
    refine ⟨rfl, ?_, fun hne => absurd hshut hne, hopens ▸ h.window⟩
    rw [hsends, ← h.sent, List.append_assoc]
  · rename_i hcredit
    refine ⟨rfl, ?_, h.flushed, fun hnone => ?_⟩
    · rw [hsends, ← h.sent, h.flushed hcredit, List.append_nil, List.append_nil]
    · rw [hopens] at hnone
      exact absurd (h.window hnone).2 hcredit

theorem Ok.frame (h : Ok events w) {f : Bytes} (hshut : w.KeepsShut (.frame f)) :
    Ok (events ++ [.frame f]) (w.step (.frame f)) := by
  have hsends : sends (events ++ [.frame f]) = sends events := by simp [sends]
  have hopens : opens (events ++ [.frame f]) =
      (opens events || (continue? f).any (·.1 = 0)) := by simp [opens]
  have hkept : opens (events ++ [.frame f]) = false → w.ws = [] ∧ w.credit = 0 := fun hnone =>
    h.window (Bool.or_eq_false_iff.mp (hopens ▸ hnone)).1
  rw [step, onFrame]
  split
  · exact ⟨h.isOpen, hsends ▸ h.sent, h.flushed, hkept⟩
  · rename_i credit hframe
    refine ⟨h.isOpen, ?_, fun _ => rfl, fun hnone => ?_⟩
    · rw [hsends, ← h.sent, List.append_nil]
    · simp [hopens, hframe] at hnone
  · rename_i id credit hne hframe
    -- a window that is shut stays shut, one that is open has no queue
    have hmax : max w.credit credit = 0 ↔ w.credit = 0 := by
      have hzero := hshut id credit hframe hne
      omega
    refine ⟨h.isOpen, hsends ▸ h.sent, fun hopen => h.flushed fun hzero => ?_, fun hnone => ?_⟩
    · exact hopen (hmax.mpr hzero)
    · exact ⟨(hkept hnone).1, hmax.mpr (hkept hnone).2⟩

/-- Whatever credit comes in, a frame that was given is passed on once or waits. -/
theorem keepsFrames (events : List Event) :
    ((run step opened events).ws ++ (run step opened events).queue).Perm
      (sends events) := by
  suffices h : (run step opened events).isOpen = true ∧ _ from h.2
  induction events using List.reverseRecOn with
  | nil => exact ⟨rfl, .refl _⟩
  | append_singleton events event ih =>
    obtain ⟨hopen, hperm⟩ := ih
    rw [run_concat, sends, List.filterMap_append, ← sends]
    generalize run step opened events = w at hopen hperm
    cases event with
    | send buf =>
      have hsent := hperm.append_right [buf]
      rw [List.append_assoc] at hsent
      rw [step, WispEgress.send, hopen, Bool.not_true, if_neg Bool.false_ne_true]
      split
      · exact ⟨rfl, hsent⟩
      · -- the new frame overtakes those that wait
        refine ⟨rfl, ?_⟩
        rw [List.append_assoc]
        exact (List.perm_append_comm.append_left w.ws).trans hsent
    | frame f =>
      rw [step, onFrame]
      split <;> exact ⟨hopen, by simpa using hperm⟩

end WispEgress

/-- As long as the window is only opened on stream 0, the frames are passed on in the order
in which they were given, and none before that. -/
theorem wispEgress_inOrder (events : List WispEgress.Event)
    (hshut : Along WispEgress.step WispEgress.KeepsShut .opened events) :
    WispEgress.InOrder events (run WispEgress.step .opened events) := by
  have hok : WispEgress.Ok events (run WispEgress.step .opened events) := by
    induction events using List.reverseRecOn with
    | nil => exact ⟨rfl, rfl, fun _ => rfl, fun _ => ⟨rfl, rfl⟩⟩
    | append_singleton events event ih =>
      obtain ⟨hbefore, hlast, -⟩ := along_append.mp hshut
      rw [run_concat]
      cases event with
      | send buf => exact (ih hbefore).send buf
      | frame f => exact (ih hbefore).frame hlast
  exact ⟨⟨_, hok.sent⟩, fun hnone => (hok.window hnone).1⟩

/-- Two frames, with a credit of one on stream `id` in between. -/
def creditBetween (id : Byte) : List WispEgress.Event :=
  [.send [1], .frame [3, id, 0, 0, 0, 1, 0, 0, 0], .send [2]]

theorem wispEgress_inOrder_stream0 :
    WispEgress.InOrder (creditBetween 0) (run WispEgress.step .opened (creditBetween 0)) := by
  refine wispEgress_inOrder _ ⟨trivial, ?_, trivial, trivial⟩
  rintro id credit ⟨⟩ hne
  exact absurd rfl hne

/-- Credit on stream 1 lets the second frame overtake the first one. -/
theorem credit_lets_overtake :
    (run WispEgress.step .opened (creditBetween 1)).ws = [[2]] ∧
      WispEgress.sends (creditBetween 1) = [[1], [2]] ∧
      WispEgress.opens (creditBetween 1) = false := by
  decide

end TabLinux
