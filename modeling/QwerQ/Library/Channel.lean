import Mathlib.Logic.Function.Basic

/-! Channels with a buffer. A send can proceed if there is room or if the channel is closed,
and on a closed channel it fails; so does a second close. A receive takes what is in the
buffer first, and can always proceed once the channel is closed. -/

structure Channel (α : Type u) where
  capacity : Nat
  buffer : List α
  closed : Bool
  deriving DecidableEq, Repr

namespace Channel
variable {α : Type u} {ι : Type v}

inductive Fault where
  | sendOnClosed
  | closeOfClosed
  deriving DecidableEq, Repr

def new (capacity : Nat) : Channel α := ⟨capacity, [], false⟩

def ready (ch : Channel α) : Bool := ch.closed || decide (ch.buffer.length < ch.capacity)

def send (ch : Channel α) (value : α) : Except Fault (Channel α) :=
  if ch.closed then .error .sendOnClosed else .ok { ch with buffer := ch.buffer ++ [value] }

def close (ch : Channel α) : Except Fault (Channel α) :=
  if ch.closed then .error .closeOfClosed else .ok { ch with closed := true }

/-- Nothing if the receive has to wait; the value is missing if the channel is closed. -/
def receive (ch : Channel α) : Option (Option α × Channel α) :=
  match ch.buffer with
  | value :: rest => some (some value, { ch with buffer := rest })
  | [] => if ch.closed then some (none, ch) else none

section Open
variable {ch : Channel α} (h : ch.closed = false)
include h

theorem ready_of_open : ch.ready = decide (ch.buffer.length < ch.capacity) := by
  rw [ready, h, Bool.false_or]

theorem send_of_open (value : α) : ch.send value = .ok { ch with buffer := ch.buffer ++ [value] } := by
  rw [send, h]
  rfl

theorem close_of_open : ch.close = .ok { ch with closed := true } := by
  rw [close, h]
  rfl

end Open

section Done
variable {ch ch' : Channel α} {value : α}

theorem send_eq_ok (h : ch.send value = .ok ch') :
    ch.closed = false ∧ ch' = { ch with buffer := ch.buffer ++ [value] } := by
  cases hclosed : ch.closed with
  | true =>
    rw [send, hclosed] at h
    cases h
  | false =>
    rw [send_of_open hclosed] at h
    cases h
    exact ⟨rfl, by rw [hclosed]⟩

theorem close_eq_ok (h : ch.close = .ok ch') :
    ch.closed = false ∧ ch' = { ch with closed := true } := by
  cases hclosed : ch.closed with
  | true =>
    rw [close, hclosed] at h
    cases h
  | false =>
    rw [close_of_open hclosed] at h
    cases h
    exact ⟨rfl, rfl⟩

theorem closed_of_send_error {fault : Fault} (h : ch.send value = .error fault) : ch.closed = true := by
  cases hclosed : ch.closed with
  | true => rfl
  | false =>
    rw [send_of_open hclosed] at h
    cases h

theorem close_eq_error {fault : Fault} (h : ch.close = .error fault) : fault = .closeOfClosed := by
  cases hclosed : ch.closed with
  | true =>
    rw [close, hclosed] at h
    cases h
    rfl
  | false =>
    rw [close_of_open hclosed] at h
    cases h

theorem receive_eq_value (h : ch.receive = some (some value, ch')) :
    ch.buffer = value :: ch'.buffer ∧ ch'.closed = ch.closed := by
  unfold receive at h
  split at h
  · rename_i hbuffer
    cases h
    exact ⟨hbuffer, rfl⟩
  · cases hclosed : ch.closed <;> rw [hclosed] at h <;> cases h

end Done

section CloseAll
variable [DecidableEq ι]

def closeAll (channels : ι → Channel α) : List ι → Except Fault (ι → Channel α)
  | [] => .ok channels
  | i :: rest =>
      match (channels i).close with
      | .error fault => .error fault
      | .ok ch => closeAll (Function.update channels i ch) rest

theorem closeAll_of_open {channels : ι → Channel α} {names : List ι} (hnodup : names.Nodup)
    (hopen : ∀ i ∈ names, (channels i).closed = false) :
    closeAll channels names = .ok fun i =>
      if i ∈ names then { channels i with closed := true } else channels i := by
  induction names generalizing channels with
  | nil => simp [closeAll]
  | cons i rest ih =>
    have ⟨hi, hrest⟩ := List.nodup_cons.mp hnodup
    have hother (j : ι) (hj : j ∈ rest) : j ≠ i := fun heq => hi (heq ▸ hj)
    have hlater (j : ι) (hj : j ∈ rest) :
        (Function.update channels i { channels i with closed := true } j).closed = false := by
      rw [Function.update_of_ne (hother j hj)]
      exact hopen j (List.mem_cons_of_mem _ hj)
    rw [closeAll, close_of_open (hopen i List.mem_cons_self)]
    refine Eq.trans (ih hrest hlater) (congrArg Except.ok ?_)
    funext j
    by_cases hj : j = i
    · subst hj
      simp [hi]
    · simp [hj]

end CloseAll

end Channel
