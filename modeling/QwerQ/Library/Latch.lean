import QwerQ.Library.Process

/-! A bit of the shared state that can be read off the trace: each label sets it,
clears it or keeps it, so the last one that does not keep it decides. -/
inductive Latch where
  | set
  | clear
  | keep
  deriving DecidableEq, Repr

namespace Latch
open List
variable {L : Type u} {effect : L → Latch} {bit : Bool} {label : L} {before after labels : List L}

def apply : Latch → Bool → Bool
  | .set, _ => true
  | .clear, _ => false
  | .keep, bit => bit

def afterAll (effect : L → Latch) (bit : Bool) (labels : List L) : Bool :=
  labels.foldl (fun bit label => (effect label).apply bit) bit

variable {trace : List (Nat × L)}

@[simp] theorem afterAll_nil (effect : L → Latch) (bit : Bool) : afterAll effect bit [] = bit := rfl

@[simp] theorem afterAll_cons (effect : L → Latch) (bit : Bool) (label : L) (labels : List L) :
    afterAll effect bit (label :: labels) =
      afterAll effect ((effect label).apply bit) labels := rfl

theorem afterAll_append (effect : L → Latch) (bit : Bool) (before after : List L) :
    afterAll effect bit (before ++ after) = afterAll effect (afterAll effect bit before) after :=
  foldl_append

/-- What nothing sets is set in the end if it was and nothing cleared it. -/
theorem afterAll_iff_of_no_set (h : ∀ label ∈ labels, effect label ≠ .set) :
    afterAll effect bit labels = true ↔ bit = true ∧ ∀ label ∈ labels, effect label ≠ .clear := by
  induction labels generalizing bit with
  | nil => simp
  | cons label labels ih =>
    have ⟨hlabel, hlabels⟩ := forall_mem_cons.mp h
    rw [afterAll_cons, ih hlabels, forall_mem_cons]
    cases heffect : effect label with
    | set => exact absurd heffect hlabel
    | clear | keep => simp [apply]

theorem afterAll_iff_of_set (hset : effect label = .set)
    (hlast : ∀ label ∈ after, effect label ≠ .set) :
    afterAll effect bit (before ++ label :: after) = true ↔
      ∀ label ∈ after, effect label ≠ .clear := by
  rw [afterAll_append, afterAll_cons, hset, afterAll_iff_of_no_set hlast]
  exact and_iff_right rfl

theorem afterAll_of_clear (hclear : effect label = .clear)
    (hlast : ∀ label ∈ after, effect label ≠ .set) :
    afterAll effect bit (before ++ label :: after) = false := by
  rw [afterAll_append, afterAll_cons, hclear, ← Bool.not_eq_true, afterAll_iff_of_no_set hlast]
  exact fun h => Bool.false_ne_true h.1

end Latch

namespace Process
open List
variable {L : Type u} {σ : Type v} {ε : Type w} {α : Type x}

/-- The step keeps the invariant, and its label says what becomes of the bit. -/
def Tracks (inv : σ → Prop) (effect : L → Latch) (bit : σ → Bool) (s : σ) (label : L) (s' : σ) :
    Prop :=
  inv s → inv s' ∧ bit s' = (effect label).apply (bit s)

variable {trace : List (Nat × L)}

theorem Interleaves.tracked {inv : σ → Prop} {effect : L → Latch} {bit : σ → Bool}
    {pool rest : List (Process L σ ε α)} {s s' : σ}
    (run : Interleaves pool s trace rest s')
    (hevery : ∀ program ∈ pool, program.Every (Tracks inv effect bit)) (hstart : inv s) :
    bit s' = Latch.afterAll effect (bit s) (trace.map Prod.snd) := by
  refine (run.invariant hevery (fun labels s' =>
    inv s' ∧ bit s' = Latch.afterAll effect (bit s) labels) ⟨hstart, rfl⟩ ?_).2
  intro labels middle label next hstep h
  have ⟨hinv, hbit⟩ := hstep h.1
  rw [Latch.afterAll_append, ← h.2, hbit]
  exact ⟨hinv, rfl⟩

def Follows (later earlier : L) (labels : List L) : Prop :=
  ∃ before after, labels = before ++ earlier :: after ∧ later ∈ after

theorem follows_iff {later earlier : L} {before after : List L} (hbefore : earlier ∉ before)
    (hafter : earlier ∉ after) :
    Follows later earlier (before ++ earlier :: after) ↔ later ∈ after := by
  constructor
  · rintro ⟨before', after', heq, hlater⟩
    have ⟨_, _, hsame⟩ := (append_cons_inj_of_notMem hbefore hafter).mp heq
    rwa [hsame]
  · exact fun hlater => ⟨before, after, rfl, hlater⟩

theorem mem_own {i : Nat} {label : L} :
    label ∈ own i trace ↔ (i, label) ∈ trace := by
  simp [own, mem_filterMap]

/-- What only one program writes can be read off its part of the trace. -/
theorem filter_own {i : Nat} {p : L → Bool}
    (h : ∀ entry ∈ trace, p entry.2 → entry.1 = i) :
    (trace.map Prod.snd).filter p = (own i trace).filter p := by
  induction trace with
  | nil => rfl
  | cons entry trace ih =>
    have ⟨hentry, htrace⟩ := forall_mem_cons.mp h
    rw [map_cons, filter_cons, own_cons, ih htrace]
    by_cases hi : entry.1 = i
    · rw [if_pos hi, filter_cons]
    · rw [if_neg hi, if_neg fun hp => hi (hentry hp)]

/-- The shuffle in which the programs take their steps in the given order; the turn
of a program that has ended is skipped. -/
def scheduled : List Nat → List (Process L σ ε α) → σ →
    List (Nat × L) × List (Process L σ ε α) × σ
  | [], pool, s => ([], pool, s)
  | i :: turns, pool, s =>
      match pool[i]? with
      | some (.step label act next) =>
          let (trace, rest, s') := scheduled turns (pool.set i (next s)) (act s)
          ((i, label s) :: trace, rest, s')
      | _ => scheduled turns pool s

theorem Interleaves.then_scheduled {pool rest : List (Process L σ ε α)} {s s' : σ}
    (run : Interleaves pool s trace rest s') (turns : List Nat) :
    Interleaves pool s (trace ++ (scheduled turns rest s').1) (scheduled turns rest s').2.1
      (scheduled turns rest s').2.2 := by
  induction turns generalizing trace rest s' with
  | nil => simpa [scheduled] using run
  | cons i turns ih =>
    unfold scheduled
    split
    · rename_i label act next hget
      simpa using ih (run.next hget)
    · exact ih run

theorem interleaves_scheduled (turns : List Nat) (pool : List (Process L σ ε α)) (s : σ) :
    Interleaves pool s (scheduled turns pool s).1 (scheduled turns pool s).2.1
      (scheduled turns pool s).2.2 :=
  Interleaves.start.then_scheduled turns

end Process
