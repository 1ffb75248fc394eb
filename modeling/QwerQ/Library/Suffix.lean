import Mathlib.Algebra.BigOperators.Group.List.Basic
import Mathlib.Algebra.Order.Ring.Int
import Mathlib.Data.List.Infix

/-! The longest suffix of a list whose weight is within a limit. -/
namespace Weighed
open List
variable {α : Type u} {weight : α → Int} {limit : Int} {l front back other : List α} {a : α}

def total (weight : α → Int) (l : List α) : Int := (l.map weight).sum

@[simp] theorem total_nil : total weight [] = 0 := rfl

@[simp] theorem total_cons : total weight (a :: l) = weight a + total weight l := by
  simp [total]

@[simp] theorem total_append : total weight (front ++ back) = total weight front + total weight back := by
  simp [total]

@[simp] theorem total_reverse : total weight l.reverse = total weight l := by
  simp [total, sum_reverse]

def longestSuffix (weight : α → Int) (limit : Int) : List α → List α
  | [] => []
  | a :: rest =>
      if total weight (a :: rest) ≤ limit then a :: rest else longestSuffix weight limit rest

theorem longestSuffix_suffix (weight : α → Int) (limit : Int) (l : List α) :
    longestSuffix weight limit l <:+ l := by
  induction l with
  | nil => exact suffix_rfl
  | cons a rest ih =>
    rw [longestSuffix]
    split
    · exact suffix_rfl
    · exact ih.trans (suffix_cons a rest)

theorem longestSuffix_of_le (h : total weight l ≤ limit) : longestSuffix weight limit l = l := by
  cases l with
  | nil => rfl
  | cons a rest => rw [longestSuffix, if_pos h]

theorem total_longestSuffix_le (hlimit : 0 ≤ limit) :
    total weight (longestSuffix weight limit l) ≤ limit := by
  induction l with
  | nil => exact hlimit
  | cons a rest ih =>
    rw [longestSuffix]
    split
    · assumption
    · exact ih

/-- A list that is over the limit is cut after the element that takes it there. -/
theorem longestSuffix_cut (h : limit < total weight l) (hlimit : 0 ≤ limit) :
    ∃ front a, l = front ++ a :: longestSuffix weight limit l ∧
      limit < total weight (a :: longestSuffix weight limit l) := by
  induction l with
  | nil => exact absurd hlimit (Int.not_le.mpr h)
  | cons a rest ih =>
    rw [longestSuffix, if_neg (Int.not_le.mpr h)]
    by_cases hrest : total weight rest ≤ limit
    · rw [longestSuffix_of_le hrest]
      exact ⟨[], a, rfl, h⟩
    · have ⟨front, cut, hsplit, hover⟩ := ih (Int.not_le.mp hrest)
      exact ⟨a :: front, cut, congrArg (a :: ·) hsplit, hover⟩

theorem suffix_longestSuffix (h : other <:+ l) (hfits : total weight other ≤ limit) :
    other <:+ longestSuffix weight limit l := by
  induction l with
  | nil => exact h
  | cons a rest ih =>
    rw [longestSuffix]
    split
    · exact h
    · rename_i hover
      rcases suffix_cons_iff.mp h with rfl | hrest
      · exact absurd hfits hover
      · exact ih hrest

theorem longestSuffix_append_of_le (h : total weight back ≤ limit) :
    longestSuffix weight limit (front ++ back) =
      longestSuffix weight (limit - total weight back) front ++ back := by
  induction front with
  | nil => exact longestSuffix_of_le h
  | cons a rest ih =>
    have hsame : total weight (a :: (rest ++ back)) ≤ limit ↔
        total weight (a :: rest) ≤ limit - total weight back := by
      simp only [total_cons, total_append]
      omega
    rw [cons_append, longestSuffix, longestSuffix]
    simp only [hsame]
    split
    · rfl
    · exact ih

/-- A lower limit keeps as much exactly if that much is within it. -/
theorem longestSuffix_eq_iff {lower : Int} (hle : lower ≤ limit) (hlower : 0 ≤ lower) :
    longestSuffix weight lower l = longestSuffix weight limit l ↔
      total weight (longestSuffix weight limit l) ≤ lower := by
  constructor
  · intro h
    rw [← h]
    exact total_longestSuffix_le hlower
  · intro hfits
    have hlonger := suffix_longestSuffix (longestSuffix_suffix weight limit l) hfits
    have hshorter := suffix_longestSuffix (longestSuffix_suffix weight lower l)
      (Int.le_trans (total_longestSuffix_le hlower) hle)
    exact hshorter.eq_of_length_le hlonger.length_le

section Nonneg
variable (hweight : ∀ a, 0 ≤ weight a)
include hweight

theorem total_nonneg (l : List α) : 0 ≤ total weight l := by
  induction l with
  | nil => exact Int.le_refl 0
  | cons a rest ih =>
    rw [total_cons]
    exact Int.add_nonneg (hweight a) ih

theorem total_le_of_suffix (h : other <:+ l) : total weight other ≤ total weight l := by
  have ⟨front, hsplit⟩ := h
  have hfront := total_nonneg hweight front
  rw [← hsplit, total_append]
  omega

theorem longestSuffix_append_of_lt (h : limit < total weight back) :
    longestSuffix weight limit (front ++ back) = longestSuffix weight limit back := by
  induction front with
  | nil => rfl
  | cons a rest ih =>
    have hover : ¬total weight (a :: (rest ++ back)) ≤ limit := by
      have hle := total_le_of_suffix hweight (suffix_append (a :: rest) back)
      exact fun hfits => absurd (Int.lt_of_lt_of_le h hle) (Int.not_lt.mpr hfits)
    rw [cons_append, longestSuffix, if_neg hover, ih]

end Nonneg

end Weighed
