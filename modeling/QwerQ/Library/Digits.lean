import Mathlib.Algebra.Ring.Nat
import Mathlib.Data.List.Lex
import Mathlib.Order.Fin.Basic

/-! Numbers written with a fixed count of digits, the highest first, in an alphabet that
keeps the order of the digits. The order of such texts is the order of the numbers. -/

namespace Digits
open List

/-- The lowest `count` digits of a number, in the letters of the alphabet. -/
def text {base : Nat} [NeZero base] (alphabet : Fin base → α) : Nat → Nat → List α
  | 0, _ => []
  | count + 1, n => alphabet (Fin.ofNat base (n / base ^ count)) :: text alphabet count n

def digits (base : Nat) [NeZero base] (count n : Nat) : List (Fin base) := text id count n

section Value
variable {base : Nat} [NeZero base] {alphabet : Fin base → α} {n : Nat}

theorem text_eq_map (count n : Nat) : text alphabet count n =
    (List.range count).reverse.map fun i => alphabet (Fin.ofNat base (n / base ^ i)) := by
  induction count with
  | zero => rfl
  | succ count ih =>
    rw [text, ih, range_succ, reverse_append, reverse_singleton,
      singleton_append, map_cons]

theorem text_eq_digits (count n : Nat) :
    text alphabet count n = (digits base count n).map alphabet := by
  rw [digits, text_eq_map, text_eq_map, map_map]
  rfl

/-- What has been read so far moves up by one place. -/
def push (n : Nat) (digit : Fin base) : Nat := n * base + digit

def value (digits : List (Fin base)) : Nat := digits.foldl push 0

theorem foldl_push_digits (start count n : Nat) :
    (digits base count n).foldl push start = start * base ^ count + n % base ^ count := by
  induction count generalizing start with
  | zero =>
    rw [Nat.pow_zero, Nat.mod_one, Nat.mul_one, Nat.add_zero]
    rfl
  | succ count ih =>
    change (digits base count n).foldl push (push start (Fin.ofNat base (n / base ^ count))) = _
    rw [ih, push, Fin.val_ofNat, Nat.pow_succ, Nat.mod_mul, Nat.add_mul, Nat.mul_assoc,
      Nat.mul_comm base, Nat.add_assoc, Nat.mul_comm (base ^ count) (_ % base), Nat.add_comm (n % _)]

theorem value_digits {count : Nat} (h : n < base ^ count) : value (digits base count n) = n := by
  rw [value, foldl_push_digits, Nat.zero_mul, Nat.zero_add, Nat.mod_eq_of_lt h]

theorem value_dropWhile_zero (digits : List (Fin base)) :
    value (digits.dropWhile (· = 0)) = value digits := by
  induction digits with
  | nil => rfl
  | cons d rest ih =>
    rw [dropWhile_cons]
    split
    · rename_i hzero
      rw [ih, of_decide_eq_true hzero, value, value, foldl_cons, push, Nat.zero_mul]
      rfl
    · rfl

end Value

section Order
variable {base : Nat} [NeZero base] {alphabet : Fin base → α} {count n m : Nat}

theorem text_mod (count n : Nat) :
    text alphabet count (n % base ^ count) = text alphabet count n := by
  induction count generalizing n with
  | zero => rfl
  | succ count ih =>
    have hdigit : n % base ^ (count + 1) / base ^ count = n / base ^ count % base := by
      rw [Nat.pow_succ, Nat.mod_mul_right_div_self]
    have hrest : n % base ^ (count + 1) % base ^ count = n % base ^ count := by
      rw [Nat.pow_succ, Nat.mod_mul_right_mod]
    rw [text, text, ← ih (n % base ^ (count + 1)), hrest, ih, hdigit]
    congr 2
    exact Fin.ext (Nat.mod_mod _ _)

theorem lt_iff_div_mod {unit : Nat} :
    n < m ↔ n / unit < m / unit ∨ n / unit = m / unit ∧ n % unit < m % unit := by
  have hn := Nat.div_add_mod n unit
  have hm := Nat.div_add_mod m unit
  constructor
  · intro hlt
    have hle : n / unit ≤ m / unit := Nat.div_le_div_right (Nat.le_of_lt hlt)
    rcases Nat.lt_or_eq_of_le hle with hless | heq
    · exact .inl hless
    · rw [heq] at hn
      exact .inr ⟨heq, by omega⟩
  · rintro (hless | ⟨heq, hrest⟩)
    · exact Nat.lt_of_div_lt_div hless
    · rw [heq] at hn
      omega

variable [LinearOrder α] (hmono : StrictMono alphabet)
include hmono

theorem text_lt_iff (hn : n < base ^ count) (hm : m < base ^ count) :
    text alphabet count n < text alphabet count m ↔ n < m := by
  induction count generalizing n m with
  | zero =>
    rw [Nat.pow_zero, Nat.lt_one_iff] at hn hm
    rw [hn, hm, text]
    exact iff_of_false (not_lt_nil _) (Nat.lt_irrefl _)
  | succ count ih =>
    have hlow (k : Nat) : k % base ^ count < base ^ count :=
      Nat.mod_lt _ (Nat.pow_pos (Nat.pos_of_neZero base))
    have hhigh {k : Nat} (hk : k < base ^ (count + 1)) : k / base ^ count % base = k / base ^ count :=
      Nat.mod_eq_of_lt (Nat.div_lt_of_lt_mul (by rwa [← Nat.pow_succ]))
    rw [text, text, cons_lt_cons_iff, hmono.lt_iff_lt, hmono.injective.eq_iff,
      ← text_mod count n, ← text_mod count m, ih (hlow n) (hlow m), Fin.lt_def,
      Fin.ext_iff, Fin.val_ofNat, Fin.val_ofNat, hhigh hn, hhigh hm]
    exact lt_iff_div_mod.symm

end Order

end Digits
