import Mathlib.Data.List.Nodup
import Mathlib.Data.List.Dedup
import Mathlib.Data.List.Perm.Basic

/-! Finite maps whose values carry their own key. The distinctness of the keys
is proof data, so a value can only be filed under the key it names. The order of
the entries has no meaning; `inOrder` lists them in any order a caller picks. -/
structure KeyedMap {α : Type u} {κ : Type v} (key : α → κ) where
  entries : List α
  nodup : (entries.map key).Nodup

namespace KeyedMap
open List Option
variable {α : Type u} {κ : Type v} {key : α → κ}

@[ext] theorem ext {left right : KeyedMap key} (h : left.entries = right.entries) :
    left = right := by
  cases left
  cases right
  cases h
  rfl

instance [DecidableEq α] : DecidableEq (KeyedMap key) := fun left right =>
  decidable_of_iff (left.entries = right.entries) ⟨ext, congrArg entries⟩

def empty : KeyedMap key := ⟨[], List.nodup_nil⟩

instance : EmptyCollection (KeyedMap key) := ⟨empty⟩
instance : Inhabited (KeyedMap key) := ⟨empty⟩

@[simp] theorem entries_empty : (∅ : KeyedMap key).entries = [] := rfl

def keys (map : KeyedMap key) : List κ := map.entries.map key

def filter (map : KeyedMap key) (keep : α → Bool) : KeyedMap key :=
  ⟨map.entries.filter keep, map.nodup.sublist ((List.filter_sublist).map key)⟩

@[simp] theorem entries_filter (map : KeyedMap key) (keep : α → Bool) :
    (map.filter keep).entries = map.entries.filter keep := rfl

theorem eq_of_key_eq (map : KeyedMap key) {left right : α} (hl : left ∈ map.entries)
    (hr : right ∈ map.entries) (h : key left = key right) : left = right :=
  inj_on_of_nodup_map map.nodup hl hr h

variable [DecidableEq κ] {map : KeyedMap key} {values : List α}

theorem find?_eq_some_iff_of_nodup (hnodup : (values.map key).Nodup) {k : κ} {value : α} :
    (values.find? fun value => key value = k) = some value ↔ value ∈ values ∧ key value = k := by
  constructor
  · intro h
    exact ⟨mem_of_find?_eq_some h, by simpa using find?_some h⟩
  · rintro ⟨hmem, rfl⟩
    cases hfound : values.find? fun other => key other = key value with
    | none =>
      have hnone := find?_eq_none.mp hfound value hmem
      simp at hnone
    | some other =>
      have hkey : key other = key value := by simpa using find?_some hfound
      rw [inj_on_of_nodup_map hnodup (mem_of_find?_eq_some hfound) hmem hkey]

def find? (map : KeyedMap key) (k : κ) : Option α := map.entries.find? fun value => key value = k

def contains (map : KeyedMap key) (k : κ) : Bool := (map.find? k).isSome

def erase (map : KeyedMap key) (k : κ) : KeyedMap key := map.filter fun value => key value ≠ k

/-- File a value under its own key, displacing what was filed there. -/
def insert (map : KeyedMap key) (value : α) : KeyedMap key :=
  ⟨(map.erase (key value)).entries ++ [value], by
    simp only [List.map_append, List.map_cons, List.map_nil]
    refine List.Nodup.append (map.erase (key value)).nodup (List.nodup_singleton _) ?_
    intro k hk hs
    rw [List.mem_singleton] at hs
    subst hs
    obtain ⟨other, hother, he⟩ := List.mem_map.mp hk
    simp only [erase, entries_filter, List.mem_filter, decide_eq_true_eq] at hother
    exact hother.2 he⟩

@[simp] theorem entries_erase (map : KeyedMap key) (k : κ) :
    (map.erase k).entries = map.entries.filter fun value => key value ≠ k := rfl

@[simp] theorem entries_insert (map : KeyedMap key) (value : α) :
    (map.insert value).entries =
      (map.entries.filter fun other => key other ≠ key value) ++ [value] := rfl

@[simp] theorem find?_empty (k : κ) : (∅ : KeyedMap key).find? k = none := rfl

theorem find?_eq_some_iff {k : κ} {value : α} :
    map.find? k = some value ↔ value ∈ map.entries ∧ key value = k :=
  find?_eq_some_iff_of_nodup map.nodup

theorem find?_eq_none_iff {k : κ} :
    map.find? k = none ↔ ∀ value ∈ map.entries, key value ≠ k := by
  simp [find?, find?_eq_none]

theorem isSome_find?_iff {k : κ} : (map.find? k).isSome ↔ k ∈ map.entries.map key := by
  rw [isSome_iff_exists, List.mem_map]
  simp only [find?_eq_some_iff]

theorem find?_eq_none_iff_notMem {k : κ} :
    map.find? k = none ↔ k ∉ map.entries.map key := by
  rw [← isSome_find?_iff, not_isSome_iff_eq_none]

theorem find?_filter (map : KeyedMap key) (keep : α → Bool) (k : κ) :
    (map.filter keep).find? k = (map.find? k).filter keep := by
  cases hfound : map.find? k with
  | none =>
    rw [find?_eq_none_iff] at hfound
    rw [filter_none, find?_eq_none_iff]
    intro value hvalue
    exact hfound value (mem_of_mem_filter hvalue)
  | some value =>
    obtain ⟨hmem, rfl⟩ := find?_eq_some_iff.mp hfound
    by_cases hkeep : keep value
    · rw [filter_some_pos hkeep, find?_eq_some_iff]
      exact ⟨mem_filter.mpr ⟨hmem, hkeep⟩, rfl⟩
    · rw [filter_some_neg (by simpa using hkeep), find?_eq_none_iff]
      intro other hother hkey
      obtain ⟨hin, hk⟩ := mem_filter.mp hother
      rw [map.eq_of_key_eq hin hmem hkey] at hk
      exact hkeep hk

@[simp] theorem find?_erase_self (map : KeyedMap key) (k : κ) : (map.erase k).find? k = none := by
  rw [find?_eq_none_iff]
  intro value hvalue
  simpa using (mem_filter.mp hvalue).2

theorem find?_erase_of_ne (map : KeyedMap key) {k other : κ} (h : other ≠ k) :
    (map.erase k).find? other = map.find? other := by
  rw [erase, find?_filter]
  cases hfound : map.find? other with
  | none => rfl
  | some value =>
    obtain ⟨-, rfl⟩ := find?_eq_some_iff.mp hfound
    exact filter_some_pos (by simpa using h)

theorem find?_erase (map : KeyedMap key) (k other : κ) :
    (map.erase k).find? other = if other = k then none else map.find? other := by
  split
  · rename_i h
    rw [h, find?_erase_self]
  · rename_i h
    exact find?_erase_of_ne map h

@[simp] theorem find?_insert_self (map : KeyedMap key) (value : α) :
    (map.insert value).find? (key value) = some value :=
  find?_eq_some_iff.mpr ⟨by simp, rfl⟩

theorem find?_insert_of_ne (map : KeyedMap key) {value : α} {k : κ} (h : k ≠ key value) :
    (map.insert value).find? k = map.find? k := by
  rw [← find?_erase_of_ne map h, find?, find?, entries_insert, entries_erase, find?_append]
  simp [h.symm]

theorem insert_insert {value value' : α} (map : KeyedMap key) (h : key value = key value') :
    (map.insert value).insert value' = map.insert value' := by
  refine ext ?_
  simp [entries_insert, h, List.filter_filter]

theorem find?_insert (map : KeyedMap key) (value : α) (k : κ) :
    (map.insert value).find? k = if k = key value then some value else map.find? k := by
  split
  · rename_i h
    rw [h, find?_insert_self]
  · rename_i h
    exact find?_insert_of_ne map h

theorem mem_entries_insert {value other : α} :
    other ∈ (map.insert value).entries ↔
      (other ∈ map.entries ∧ key other ≠ key value) ∨ other = value := by
  simp

theorem entries_insert_of_find?_none {value : α}
    (h : map.find? (key value) = none) : (map.insert value).entries = map.entries ++ [value] := by
  rw [find?_eq_none_iff] at h
  rw [entries_insert, filter_eq_self.mpr]
  intro other hother
  simpa using h other hother

theorem entries_perm_erase {k : κ} {value : α}
    (h : map.find? k = some value) : map.entries.Perm (value :: (map.erase k).entries) := by
  obtain ⟨hmem, rfl⟩ := find?_eq_some_iff.mp h
  rw [perm_ext_iff_of_nodup map.nodup.of_map]
  · intro other
    simp only [entries_erase, mem_cons, mem_filter, decide_eq_true_eq]
    constructor
    · intro hother
      by_cases hkey : key other = key value
      · exact .inl (map.eq_of_key_eq hother hmem hkey)
      · exact .inr ⟨hother, hkey⟩
    · rintro (rfl | hother)
      · exact hmem
      · exact hother.1
  · refine nodup_cons.mpr ⟨?_, (map.erase (key value)).nodup.of_map⟩
    simp

theorem entries_perm_insert (map : KeyedMap key) (value : α) :
    (map.insert value).entries.Perm (value :: (map.erase (key value)).entries) := by
  rw [entries_insert, entries_erase]
  exact perm_append_comm

/-- The entries in the order `order` asks for: first those it names, then the rest.
Every permutation of the entries arises from some `order`. -/
def inOrder (map : KeyedMap key) (order : List κ) : List α :=
  order.dedup.filterMap map.find? ++ map.entries.filter fun value => key value ∉ order

theorem mem_inOrder {order : List κ} {value : α} :
    value ∈ map.inOrder order ↔ value ∈ map.entries := by
  simp only [inOrder, mem_append, mem_filterMap, mem_dedup, mem_filter,
    find?_eq_some_iff, decide_eq_true_eq]
  constructor
  · rintro (⟨_, _, hmem, _⟩ | ⟨hmem, _⟩) <;> exact hmem
  · intro hmem
    by_cases horder : key value ∈ order
    · exact .inl ⟨key value, horder, hmem, rfl⟩
    · exact .inr ⟨hmem, horder⟩

private theorem filterMap_find?_nodup (map : KeyedMap key) {order : List κ}
    (h : order.Nodup) : (order.filterMap map.find?).Nodup := by
  refine h.filterMap ?_
  intro k k' value hk hk'
  exact (find?_eq_some_iff.mp hk).2.symm.trans (find?_eq_some_iff.mp hk').2

theorem inOrder_perm (map : KeyedMap key) (order : List κ) :
    (map.inOrder order).Perm map.entries := by
  rw [perm_ext_iff_of_nodup _ map.nodup.of_map]
  · intro value
    exact mem_inOrder
  · refine List.Nodup.append (filterMap_find?_nodup map order.nodup_dedup)
      (map.nodup.of_map.filter _) ?_
    intro value hl hr
    obtain ⟨k, hk, hfound⟩ := mem_filterMap.mp hl
    have hkey := (find?_eq_some_iff.mp hfound).2
    have hout : key value ∉ order := by simpa using (mem_filter.mp hr).2
    exact hout (hkey ▸ mem_dedup.mp hk)

theorem inOrder_nodup (map : KeyedMap key) (order : List κ) : ((map.inOrder order).map key).Nodup :=
  ((map.inOrder_perm order).map key).nodup_iff.mpr map.nodup

theorem find?_inOrder (map : KeyedMap key) (order : List κ) (k : κ) :
    ((map.inOrder order).find? fun value => key value = k) = map.find? k := by
  ext value
  rw [find?_eq_some_iff_of_nodup (map.inOrder_nodup order), mem_inOrder, find?_eq_some_iff]

theorem foldl_lookup (step : σ → α → σ) (look : σ → Option β) (value : α → Option β)
    (inv : σ → Prop) {k : κ} (hinv : ∀ s a, inv s → inv (step s a))
    (hstep : ∀ s a, inv s →
      look (step s a) = if key a = k then (value a).or (look s) else look s)
    (hnodup : (values.map key).Nodup) {s : σ} (hs : inv s) :
    look (values.foldl step s) = ((values.find? fun a => key a = k).bind value).or (look s) := by
  induction values generalizing s with
  | nil => rfl
  | cons a rest ih =>
    rw [map_cons, nodup_cons] at hnodup
    rw [foldl_cons, ih hnodup.2 (hinv s a hs), hstep s a hs, find?_cons]
    by_cases hk : key a = k
    · have hrest : rest.find? (fun other => key other = k) = none := by
        rw [find?_eq_none]
        intro other hmem hother
        exact hnodup.1 (mem_map.mpr ⟨other, hmem, by simpa [hk] using hother⟩)
      rw [hrest, bind_none, none_or, if_pos hk, decide_eq_true hk, bind_some]
    · simp [hk]

theorem find?_foldl_insert_inOrder (map : KeyedMap key) (order : List κ) (k : κ) :
    ((map.inOrder order).foldl insert (∅ : KeyedMap key)).find? k = map.find? k := by
  have hstep (other : KeyedMap key) (value : α) (_ : True) :
      (other.insert value).find? k =
        if key value = k then (some value).or (other.find? k) else other.find? k := by
    rw [find?_insert, some_or]
    exact if_congr eq_comm rfl rfl
  rw [foldl_lookup insert (fun other => other.find? k) some (fun _ => True) (fun _ _ h => h) hstep
    (map.inOrder_nodup order) trivial, find?_empty, or_none, bind_fun_some, find?_inOrder]

theorem entries_foldl_insert (map : KeyedMap key) (h : ((map.entries ++ values).map key).Nodup) :
    (values.foldl insert map).entries = map.entries ++ values := by
  induction values generalizing map with
  | nil => simp
  | cons value rest ih =>
    have hunused : map.find? (key value) = none := by
      rw [find?_eq_none_iff_notMem]
      intro hmem
      rw [map_append, nodup_append] at h
      exact h.2.2 _ hmem _ (mem_map_of_mem mem_cons_self) rfl
    have hinsert := entries_insert_of_find?_none hunused
    have hassoc : (map.insert value).entries ++ rest = map.entries ++ value :: rest := by
      rw [hinsert, append_assoc, singleton_append]
    rw [foldl_cons, ih _ (hassoc ▸ h), hassoc]

theorem foldl_insert_entries (map : KeyedMap key) : map.entries.foldl insert ∅ = map :=
  ext (entries_foldl_insert ∅ map.nodup)

end KeyedMap
