/-
Readers that keep a position in a byte string.  A reader is the tree of the reads it makes,
so that what holds of every reader is proved once: how it meets a longer string, how far it
gets, and when its sums stay in range.
-/
import Mathlib.Data.Fin.Tuple.Basic
import TabLinux.Library.Bytes

namespace Readers

open Bytes

/-- A reader ends with a value or rejects the string, takes the next `n` bytes, or forms a
number that has to fit the machine. -/
inductive Reads (α : Type) where
  | done (value : α)
  | reject
  | take (n : Nat) (next : Bytes → Reads α)
  | fits (n : Nat) (next : Reads α)

/-- How reading ends.  A value comes with the position behind it. -/
inductive Outcome (α : Type) where
  | value (a : α) (pos : Nat)
  | rejected
  | overflow

variable {α β : Type} {x : Reads α} {pos pos' : Nat}

namespace Reads

def bind : Reads α → (α → Reads β) → Reads β
  | .done a, f => f a
  | .reject, _ => .reject
  | .take n next, f => .take n fun bytes => (next bytes).bind f
  | .fits n next, f => .fits n (next.bind f)

instance : Monad Reads where
  pure := .done
  bind := bind

section

variable (limit : Nat) (buf : Bytes)

/-- Read from a position on.  Numbers have to stay below the limit. -/
def run : Reads α → (pos : Nat) → Outcome α
  | .done a, pos => .value a pos
  | .reject, _ => .rejected
  | .take n next, pos =>
      if pos + n < limit then
        if pos + n ≤ buf.length then run (next ((buf.drop pos).take n)) (pos + n)
        else .rejected
      else .overflow
  | .fits n next, pos => if n < limit then run next pos else .overflow

/-- Read a string that is not the one of the surrounding reader. -/
def within : Reads α → (pos : Nat) → Reads α
  | .done a, _ => .done a
  | .reject, _ => .reject
  | .take n next, pos =>
      .fits (pos + n)
        (if pos + n ≤ buf.length then within (next ((buf.drop pos).take n)) (pos + n)
        else .reject)
  | .fits n next, pos => .fits n (within next pos)

end

variable {limit : Nat} {buf : Bytes}

theorem run_bind (x : Reads α) (f : α → Reads β) (pos : Nat) :
    (x >>= f).run limit buf pos =
      match x.run limit buf pos with
      | .value a pos => (f a).run limit buf pos
      | .rejected => .rejected
      | .overflow => .overflow := by
  change (x.bind f).run limit buf pos = _
  induction x generalizing pos with
  | done a => rfl
  | reject => rfl
  | take n next ih =>
    simp only [bind, run]
    split
    · split
      · exact ih _ _
      · rfl
    · rfl
  | fits n next ih =>
    simp only [bind, run]
    split
    · exact ih pos
    · rfl

variable {f : α → Reads β}

variable {a : α} {next : Bytes → Reads α}

/-- A reader stays inside the string. -/
theorem run_pos_le (hpos : pos ≤ buf.length)
    (h : x.run limit buf pos = .value a pos') : pos' ≤ buf.length := by
  induction x generalizing pos with
  | done b =>
    cases h
    exact hpos
  | reject => cases h
  | take n next ih =>
    rw [run] at h
    split at h
    · split at h
      · rename_i hroom
        exact ih _ hroom h
      · cases h
    · cases h
  | fits n next ih =>
    rw [run] at h
    split at h
    · exact ih hpos h
    · cases h

/-- What a reader makes of a string it makes of every longer one, unless it ran short. -/
theorem run_append (post : Bytes) (h : x.run limit buf pos ≠ .rejected) :
    x.run limit (buf ++ post) pos = x.run limit buf pos := by
  induction x generalizing pos with
  | done a => rfl
  | reject => exact absurd rfl h
  | take n next ih =>
    rw [run] at h
    rw [run, run]
    split
    · rename_i hlimit
      rw [if_pos hlimit] at h
      by_cases hroom : pos + n ≤ buf.length
      · have hroom' : pos + n ≤ (buf ++ post).length := by
          rw [List.length_append]
          omega
        have hslice : ((buf ++ post).drop pos).take n = (buf.drop pos).take n := by
          rw [List.drop_append_of_le_length (by omega), List.take_append_of_le_length]
          rw [List.length_drop]
          omega
        rw [if_pos hroom] at h ⊢
        rw [if_pos hroom', hslice]
        exact ih _ h
      · rw [if_neg hroom] at h
        exact absurd rfl h
    · rfl
  | fits n next ih =>
    rw [run] at h
    rw [run, run]
    split
    · rename_i hlimit
      rw [if_pos hlimit] at h
      exact ih h
    · rfl

/-- A string that is read to its end has no initial segment that is read. -/
theorem run_initial {pre post : Bytes} (hpos : pos ≤ pre.length)
    (h : x.run limit (pre ++ post) pos = .value a (pre ++ post).length) (hpost : post ≠ []) :
    x.run limit pre pos = .rejected := by
  by_contra hne
  have hsame := run_append post hne
  rw [h] at hsame
  have hle := run_pos_le hpos hsame.symm
  rw [List.length_append] at hle
  have hlen := List.length_pos_of_ne_nil hpost
  omega

theorem run_within (x : Reads α) (blob : Bytes) (inner pos : Nat) :
    (x.within blob inner).run limit buf pos =
      match x.run limit blob inner with
      | .value a _ => .value a pos
      | .rejected => .rejected
      | .overflow => .overflow := by
  induction x generalizing inner with
  | done a => rfl
  | reject => rfl
  | take n next ih =>
    simp only [within, run]
    split
    · split
      · exact ih _ _
      · rfl
    · rfl
  | fits n next ih =>
    simp only [within, run]
    split
    · exact ih inner
    · rfl

/-- The reader takes exactly these bytes, wherever they stand, and makes `a` of them. -/
def Recovers (limit : Nat) (x : Reads α) (bytes : Bytes) (a : α) : Prop :=
  ∀ pre post, (pre ++ bytes ++ post).length < limit →
    x.run limit (pre ++ bytes ++ post) pre.length = .value a (pre.length + bytes.length)

theorem Recovers.done (a : α) : Recovers limit (.done a) [] a := fun _ _ _ => rfl

variable {bytes : Bytes}

theorem Recovers.bind {bytes' : Bytes} {b : β}
    (hx : Recovers limit x bytes a) (hf : Recovers limit (f a) bytes' b) :
    Recovers limit (x >>= f) (bytes ++ bytes') b := by
  intro pre post hlen
  have hleft : pre ++ (bytes ++ bytes') ++ post = pre ++ bytes ++ (bytes' ++ post) := by
    simp only [List.append_assoc]
  have hright : pre ++ (bytes ++ bytes') ++ post = (pre ++ bytes) ++ bytes' ++ post := by
    simp only [List.append_assoc]
  have hfirst := hx pre (bytes' ++ post) (hleft ▸ hlen)
  have hsecond := hf (pre ++ bytes) post (hright ▸ hlen)
  rw [← hleft] at hfirst
  rw [← hright, List.length_append] at hsecond
  rw [run_bind, hfirst]
  dsimp only
  rw [hsecond, List.length_append, Nat.add_assoc]

/-- A part that takes nothing. -/
theorem Recovers.bind_free {b : β}
    (hx : Recovers limit x [] a) (hf : Recovers limit (f a) bytes b) :
    Recovers limit (x >>= f) bytes b :=
  hx.bind hf

/-- The last read of a reader. -/
theorem Recovers.bind_last {b : β}
    (hx : Recovers limit x bytes a) (hf : Recovers limit (f a) [] b) :
    Recovers limit (x >>= f) bytes b := by
  have h := hx.bind hf
  rwa [List.append_nil] at h

theorem Recovers.map {f : α → β}
    (hx : Recovers limit x bytes a) : Recovers limit (x >>= fun a => pure (f a)) bytes (f a) :=
  hx.bind_last (done (f a))

theorem Recovers.take {n : Nat} {bytes' : Bytes}
    (hn : bytes.length = n) (hnext : Recovers limit (next bytes) bytes' a) :
    Recovers limit (.take n next) (bytes ++ bytes') a := by
  have htake : Recovers limit (.take n fun bytes => .done bytes) bytes bytes := by
    intro pre post hlen
    have hroom : pre.length + n ≤ (pre ++ bytes ++ post).length := by
      simp only [List.length_append]
      omega
    have hslice : ((pre ++ bytes ++ post).drop pre.length).take n = bytes := by
      rw [List.append_assoc, List.drop_left, ← hn, List.take_left]
    rw [run, if_pos (by omega), if_pos hroom, hslice, hn]
    rfl
  exact htake.bind hnext

theorem Recovers.take_done {n : Nat} (hn : bytes.length = n) (hnext : next bytes = .done a) :
    Recovers limit (.take n next) bytes a := by
  have hdone : Recovers limit (next bytes) [] a := by
    rw [hnext]
    exact done a
  have h := take hn hdone
  rwa [List.append_nil] at h

theorem Recovers.fits {n : Nat} (hn : n < limit)
    (hx : Recovers limit x bytes a) : Recovers limit (.fits n x) bytes a := by
  intro pre post hlen
  rw [run, if_pos hn]
  exact hx pre post hlen

/-- A string of its own is read to its end. -/
theorem Recovers.run_eq (h : Recovers limit x bytes a)
    (hlen : bytes.length < limit) : x.run limit bytes 0 = .value a bytes.length := by
  have hrun := h [] [] (by rwa [List.nil_append, List.append_nil])
  rwa [List.nil_append, List.append_nil, List.length_nil, Nat.zero_add] at hrun

/-- The reader takes the whole string and makes `a` of it, and accepts no initial segment. -/
structure Codes (limit : Nat) (x : Reads α) (bytes : Bytes) (a : α) : Prop where
  whole : x.run limit bytes 0 = .value a bytes.length
  initial : ∀ pre post, bytes = pre ++ post → post ≠ [] → x.run limit pre 0 = .rejected

theorem Recovers.codes (h : Recovers limit x bytes a)
    (hlen : bytes.length < limit) : Codes limit x bytes a := by
  refine ⟨h.run_eq hlen, fun pre post heq hpost => ?_⟩
  have hwhole := h.run_eq hlen
  rw [heq] at hwhole
  exact run_initial (Nat.zero_le _) hwhole hpost

/-- The reader meets the bytes at the start of another string. -/
theorem Recovers.within (h : Recovers limit x bytes a)
    (post : Bytes) (hlen : (bytes ++ post).length < limit) :
    Recovers limit (x.within (bytes ++ post) 0) [] a := by
  intro pre post' _
  have hrun := h [] post hlen
  rw [List.nil_append, List.length_nil] at hrun
  rw [run_within, hrun]
  rfl

end Reads

section

open Reads

def u8 : Reads (BitVec 8) := .take 1 fun bytes => .done (BitVec.ofNat 8 (ofLe bytes))

def u16 : Reads (BitVec 16) := .take 2 fun bytes => .done (BitVec.ofNat 16 (ofLe bytes))

def u32 : Reads (BitVec 32) := .take 4 fun bytes => .done (BitVec.ofNat 32 (ofLe bytes))

def u64 : Reads (BitVec 64) := .take 8 fun bytes => .done (BitVec.ofNat 64 (ofLe bytes))

/-- Any byte but zero is true. -/
def bool : Reads Bool := .take 1 fun bytes => .done (ofLe bytes ≠ 0)

/-- A string behind its length. -/
def bytes : Reads Bytes := u64 >>= fun n => .take n.toNat .done

/-- The bytes of a number, of a flag and of a string behind its length. -/
def putBits {w : Nat} (n : Nat) (value : BitVec w) : Bytes := toLe n value.toNat

def putBool (flag : Bool) : Bytes := [if flag then 1 else 0]

def putBytes (string : Bytes) : Bytes := toLe 8 string.length ++ string

variable {limit : Nat}

@[simp] theorem length_putBits {w : Nat} (n : Nat) (value : BitVec w) :
    (putBits n value).length = n :=
  length_toLe n value.toNat

@[simp] theorem length_putBool (flag : Bool) : (putBool flag).length = 1 := rfl

theorem ofLe_putBits {w n : Nat} (hw : w = 8 * n) (value : BitVec w) :
    BitVec.ofNat w (ofLe (putBits n value)) = value := by
  have hlt : value.toNat < 256 ^ n := by
    have hpow : 256 ^ n = 2 ^ w := by
      rw [hw, Nat.pow_mul]
    rw [hpow]
    exact value.isLt
  rw [putBits, ofLe_toLe, Nat.mod_eq_of_lt hlt, BitVec.ofNat_toNat, BitVec.setWidth_eq]

theorem recovers_bits {w n : Nat} (hw : w = 8 * n) (value : BitVec w) :
    Recovers limit (.take n fun bytes => .done (BitVec.ofNat w (ofLe bytes))) (putBits n value)
      value :=
  Recovers.take_done (length_putBits n value) (congrArg Reads.done (ofLe_putBits hw value))

theorem recovers_u8 (value : BitVec 8) : Recovers limit u8 (putBits 1 value) value :=
  recovers_bits (n := 1) rfl value

theorem recovers_u16 (value : BitVec 16) : Recovers limit u16 (putBits 2 value) value :=
  recovers_bits (n := 2) rfl value

theorem recovers_u32 (value : BitVec 32) : Recovers limit u32 (putBits 4 value) value :=
  recovers_bits (n := 4) rfl value

theorem recovers_u64 (value : BitVec 64) : Recovers limit u64 (putBits 8 value) value :=
  recovers_bits (n := 8) rfl value

theorem recovers_bool (flag : Bool) : Recovers limit bool (putBool flag) flag := by
  have hflag : decide (ofLe (putBool flag) ≠ 0) = flag := by cases flag <;> decide
  exact Recovers.take_done rfl (congrArg Reads.done hflag)

theorem recovers_bytes {string : Bytes} (hlen : string.length < 2 ^ 64) :
    Recovers limit bytes (putBytes string) string := by
  have hn : (BitVec.ofNat 64 string.length).toNat = string.length := by
    rw [BitVec.toNat_ofNat]
    exact Nat.mod_eq_of_lt hlen
  have hlength : Recovers limit u64 (toLe 8 string.length) (BitVec.ofNat 64 string.length) := by
    have h := @recovers_u64 limit (BitVec.ofNat 64 string.length)
    rwa [putBits, hn] at h
  exact hlength.bind (Recovers.take_done hn.symm rfl)

end

section

open Reads

variable {σ : Type} {ι : Type*} {limit : Nat}

/-- Fill an array, from its first entry on. -/
def array (x : Reads α) : (n : Nat) → Reads (Fin n → α)
  | 0 => .done nofun
  | n + 1 => do
      let first ← x
      let rest ← array x n
      pure (Fin.cons first rest)

/-- A loop that reads once a round. -/
def times (step : σ → Reads σ) : (n : Nat) → σ → Reads σ
  | 0, s => .done s
  | n + 1, s => step s >>= times step n

theorem recovers_array {put : α → Bytes} (hx : ∀ a, Recovers limit x (put a) a)
    {n : Nat} (f : Fin n → α) : Recovers limit (array x n) ((List.ofFn f).flatMap put) f := by
  induction n with
  | zero =>
    have hempty : f = nofun := funext fun i => i.elim0
    rw [hempty]
    exact Recovers.done _
  | succ n ih =>
    have hrest : Recovers limit (array x n >>= fun rest => pure (Fin.cons (f 0) rest))
        ((List.ofFn fun i : Fin n => f i.succ).flatMap put) f := by
      have h := (ih fun i => f i.succ).map (f := Fin.cons (α := fun _ => α) (f 0))
      rwa [show Fin.cons (α := fun _ => α) (f 0) (fun i => f i.succ) = f from
        Fin.cons_self_tail f] at h
    rw [List.ofFn_succ, List.flatMap_cons]
    exact (hx (f 0)).bind hrest

/-- A loop reads a list of items back, if each round reads the next one. -/
theorem recovers_times {step : σ → Reads σ} {put : ι → Bytes} {next : σ → ι → σ}
    (items : List ι) (s : σ)
    (hstep : ∀ before item after, items = before ++ item :: after →
      Recovers limit (step (before.foldl next s)) (put item) (next (before.foldl next s) item)) :
    Recovers limit (times step items.length s) (items.flatMap put) (items.foldl next s) := by
  induction items generalizing s with
  | nil => exact Recovers.done s
  | cons item items ih =>
    refine (hstep [] item items rfl).bind (ih (next s item) fun before item' after heq => ?_)
    exact hstep (item :: before) item' after (congrArg (item :: ·) heq)

/-- A loop whose state after so many rounds is known. -/
theorem recovers_rounds {step : σ → Reads σ} {put : ι → Bytes} (state : Nat → σ)
    (items : List ι) (k : Nat)
    (hstep : ∀ i item, items[i]? = some item →
      Recovers limit (step (state (k + i))) (put item) (state (k + i + 1))) :
    Recovers limit (times step items.length (state k)) (items.flatMap put)
      (state (k + items.length)) := by
  induction items generalizing k with
  | nil => exact Recovers.done (state k)
  | cons item items ih =>
    have hrest := ih (k + 1) fun i item' hitem => by
      have h := hstep (i + 1) item' hitem
      rwa [← Nat.add_assoc, Nat.add_right_comm] at h
    rw [List.length_cons, ← Nat.add_assoc, Nat.add_right_comm]
    exact (hstep 0 item rfl).bind hrest

end

end Readers
