import Mathlib.Data.List.Lex
import Mathlib.Order.MinMax

/-! A store whose keys are ordered, read by iterators that are placed at a key and
moved one entry at a time. Where keys are lists, the keys with a given first part
are an interval of the order, so that an iterator bounded by a first part sees
exactly them. -/

structure OrderedStore (κ : Type u) [LinearOrder κ] (ν : Type v) where
  entries : List (κ × ν)
  sorted : entries.Pairwise fun left right => left.1 < right.1

namespace OrderedStore
open List

section Keys
variable {κ : Type u} [LinearOrder κ] {ν : Type v}

def empty : OrderedStore κ ν := ⟨[], .nil⟩

def get (k : κ) (s : OrderedStore κ ν) : Option ν :=
  (s.entries.find? fun entry => entry.1 = k).map Prod.snd

def set (k : κ) (value : ν) (s : OrderedStore κ ν) : OrderedStore κ ν where
  entries := (s.entries.filter fun entry => entry.1 < k) ++
    (k, value) :: s.entries.filter fun entry => k < entry.1
  sorted := by
    rw [List.pairwise_append, List.pairwise_cons]
    refine ⟨s.sorted.filter _, ⟨?_, s.sorted.filter _⟩, ?_⟩
    · intro entry hmem
      simpa using (List.mem_filter.mp hmem).2
    · intro left hleft right hright
      have hlow : left.1 < k := by simpa using (List.mem_filter.mp hleft).2
      rcases List.mem_cons.mp hright with rfl | hhigh
      · exact hlow
      · exact hlow.trans (by simpa using (List.mem_filter.mp hhigh).2)

def delete (k : κ) (s : OrderedStore κ ν) : OrderedStore κ ν where
  entries := s.entries.filter fun entry => entry.1 ≠ k
  sorted := s.sorted.filter _

def keep (kept : κ → Bool) (s : OrderedStore κ ν) : OrderedStore κ ν where
  entries := s.entries.filter fun entry => kept entry.1
  sorted := s.sorted.filter _

def deleteAll (keys : List κ) (s : OrderedStore κ ν) : OrderedStore κ ν :=
  keys.foldl (fun s k => s.delete k) s

/-- An iterator placed at the first key not below `k`: the entries it will visit. -/
def seek (k : κ) (s : OrderedStore κ ν) : List (κ × ν) :=
  s.entries.dropWhile fun entry => entry.1 < k

/-- A reverse iterator placed at the last key not above `k`. -/
def seekBack (k : κ) (s : OrderedStore κ ν) : Option (κ × ν) :=
  (s.entries.takeWhile fun entry => entry.1 ≤ k).getLast?

theorem takeWhile_eq_filter {α : Type u} {rel : α → α → Prop} {values : List α} {keep : α → Bool}
    (hvalues : values.Pairwise rel)
    (hkeep : ∀ left ∈ values, ∀ right ∈ values, rel left right → keep right → keep left) :
    values.takeWhile keep = values.filter keep := by
  induction values with
  | nil => rfl
  | cons first rest ih =>
    rw [pairwise_cons] at hvalues
    have hrest := ih hvalues.2 fun left hl right hr =>
      hkeep left (mem_cons_of_mem _ hl) right (mem_cons_of_mem _ hr)
    by_cases hfirst : keep first
    · rw [takeWhile_cons_of_pos hfirst, filter_cons_of_pos hfirst, hrest]
    · have hnone : rest.filter keep = [] := by
        rw [filter_eq_nil_iff]
        intro later hlater hkept
        exact hfirst (hkeep first mem_cons_self later (mem_cons_of_mem _ hlater)
          (hvalues.1 later hlater) hkept)
      rw [takeWhile_cons_of_neg hfirst, filter_cons_of_neg hfirst, hnone]

theorem dropWhile_eq_filter {α : Type u} {rel : α → α → Prop} {values : List α} (skip : α → Bool)
    (hvalues : values.Pairwise rel) (hskip : ∀ left right, rel left right → skip right → skip left) :
    values.dropWhile skip = values.filter fun value => !skip value := by
  induction values with
  | nil => rfl
  | cons first rest ih =>
    rw [pairwise_cons] at hvalues
    by_cases hfirst : skip first
    · rw [dropWhile_cons_of_pos hfirst, filter_cons_of_neg (by simpa using hfirst),
        ih hvalues.2]
    · have hall : rest.filter (fun value => !skip value) = rest := by
        rw [filter_eq_self]
        intro later hlater
        have : ¬skip later := fun hskipped => hfirst (hskip first later (hvalues.1 later hlater) hskipped)
        simpa using this
      rw [dropWhile_cons_of_neg hfirst, filter_cons_of_pos (by simpa using hfirst), hall]

theorem getLast?_filter {α : Type u} {values : List α} {keep : α → Bool}
    (h : ∀ init last, values = init ++ [last] → ∀ value ∈ init, keep value → keep last) :
    values.getLast?.filter keep = (values.filter keep).getLast? := by
  rcases eq_nil_or_concat values with rfl | ⟨init, last, rfl⟩
  · rfl
  · rw [concat_eq_append] at h ⊢
    rw [getLast?_concat, filter_append]
    by_cases hlast : keep last
    · rw [filter_cons_of_pos hlast, filter_nil, getLast?_concat, Option.filter_some,
        if_pos hlast]
    · have hnone : init.filter keep = [] := by
        rw [filter_eq_nil_iff]
        exact fun value hvalue hkept => hlast (h init last rfl value hvalue hkept)
      rw [filter_cons_of_neg hlast, hnone, Option.filter_some, if_neg hlast]
      rfl

theorem seek_eq_filter (k : κ) (s : OrderedStore κ ν) :
    s.seek k = s.entries.filter fun entry => k ≤ entry.1 := by
  have hdrop := dropWhile_eq_filter (fun entry : κ × ν => decide (entry.1 < k)) s.sorted
    fun left right hlt hskip => by simpa using hlt.trans (by simpa using hskip)
  rw [seek, hdrop]
  apply filter_congr
  intro entry _
  rw [← decide_not, decide_eq_decide]
  exact not_lt

theorem seekBack_eq_filter (k : κ) (s : OrderedStore κ ν) :
    s.seekBack k = (s.entries.filter fun entry => entry.1 ≤ k).getLast? := by
  rw [seekBack, takeWhile_eq_filter s.sorted]
  intro left _ right _ hlt hkeep
  simpa using (le_of_lt hlt).trans (by simpa using hkeep)

theorem filter_set (keep : κ → Bool) {k : κ} (value : ν) (s : OrderedStore κ ν)
    (h : keep k = false) :
    (s.set k value).entries.filter (fun entry => keep entry.1) =
      s.entries.filter fun entry => keep entry.1 := by
  have hcut : (s.entries.filter fun entry => entry.1 < k) ++
      (s.entries.filter fun entry => k ≤ entry.1) = s.entries := by
    rw [← seek_eq_filter, seek, ← takeWhile_eq_filter s.sorted]
    · exact takeWhile_append_dropWhile
    · intro left _ right _ hlt hkeep
      simpa using hlt.trans (by simpa using hkeep)
  have hhigh : (s.entries.filter fun entry => k < entry.1).filter (fun entry => keep entry.1) =
      (s.entries.filter fun entry => k ≤ entry.1).filter fun entry => keep entry.1 := by
    rw [filter_filter, filter_filter]
    apply filter_congr
    intro entry _
    by_cases hkept : keep entry.1
    · have hne : k ≠ entry.1 := fun heq => by simp [← heq, h] at hkept
      simp [hkept, lt_iff_le_and_ne, hne]
    · simp [hkept]
  have hwhole := congrArg (List.filter fun entry => keep entry.1) hcut
  rw [filter_append] at hwhole
  rw [set, filter_append, filter_cons_of_neg (by simp [h]), hhigh, hwhole]

theorem entries_deleteAll (keys : List κ) (s : OrderedStore κ ν) :
    (s.deleteAll keys).entries = s.entries.filter fun entry => entry.1 ∉ keys := by
  induction keys generalizing s with
  | nil => simp [deleteAll]
  | cons k keys ih =>
    change ((s.delete k).deleteAll keys).entries = _
    rw [ih, delete, filter_filter]
    apply filter_congr
    intro entry _
    by_cases heq : entry.1 = k
    · simp [heq]
    · simp [heq]

theorem mem_deleteAll {keys : List κ} {s : OrderedStore κ ν} {entry : κ × ν} :
    entry ∈ (s.deleteAll keys).entries ↔ entry ∈ s.entries ∧ entry.1 ∉ keys := by
  rw [entries_deleteAll, mem_filter, decide_eq_true_iff]

theorem filter_deleteAll (keep : κ → Bool) {keys : List κ} (s : OrderedStore κ ν)
    (h : ∀ k ∈ keys, keep k = false) :
    (s.deleteAll keys).entries.filter (fun entry => keep entry.1) =
      s.entries.filter fun entry => keep entry.1 := by
  rw [entries_deleteAll, filter_filter]
  apply filter_congr
  intro entry _
  by_cases hkey : entry.1 ∈ keys
  · simp [hkey, h entry.1 hkey]
  · simp [hkey]

theorem get_set (k other : κ) (value : ν) (s : OrderedStore κ ν) :
    (s.set k value).get other = if other = k then some value else s.get other := by
  split
  · subst other
    have hlow : (s.entries.filter fun entry => entry.1 < k).find? (fun entry => entry.1 = k) = none := by
      rw [find?_eq_none]
      intro entry hentry heq
      simp [of_decide_eq_true heq] at hentry
    rw [get, set, find?_append, hlow]
    simp
  · rename_i hne
    have hkept := filter_set (fun key => decide (key = other)) value s (decide_eq_false (Ne.symm hne))
    rw [get, get, ← head?_filter, ← head?_filter, hkept]

theorem ext {s t : OrderedStore κ ν} (h : s.entries = t.entries) : s = t := by
  cases s
  cases t
  congr

theorem keep_set {kept : κ → Bool} {k : κ} (value : ν) (s : OrderedStore κ ν) (h : kept k = true) :
    (s.set k value).keep kept = (s.keep kept).set k value := by
  refine ext ?_
  simp only [keep, set]
  rw [filter_append, filter_cons_of_pos (by simpa using h)]
  exact congrArg₂ (· ++ ·) (filter_comm ..) (congrArg (List.cons (k, value)) (filter_comm ..))

theorem max?_keys (s : OrderedStore κ ν) :
    (s.entries.map Prod.fst).max? = s.entries.getLast?.map Prod.fst := by
  have hsorted := s.sorted
  rcases eq_nil_or_concat s.entries with hnil | ⟨init, last, hconcat⟩
  · simp [hnil]
  · rw [hconcat, concat_eq_append] at hsorted ⊢
    rw [getLast?_concat, Option.map_some, max?_eq_some_iff, map_append]
    refine ⟨mem_append_right _ (mem_singleton_self _), fun key hkey => ?_⟩
    rcases mem_append.mp hkey with hinit | hlast
    · have ⟨entry, hentry, heq⟩ := mem_map.mp hinit
      have hlt := (pairwise_append.mp hsorted).2.2 entry hentry last (mem_singleton_self last)
      exact heq ▸ hlt.le
    · exact le_of_eq (mem_singleton.mp hlast)

theorem min?_keys (s : OrderedStore κ ν) :
    (s.entries.map Prod.fst).min? = s.entries.head?.map Prod.fst := by
  have hsorted := s.sorted
  cases hentries : s.entries with
  | nil => rfl
  | cons first rest =>
    rw [hentries, pairwise_cons] at hsorted
    rw [head?_cons, Option.map_some, min?_eq_some_iff, map_cons]
    refine ⟨mem_cons_self, fun key hkey => ?_⟩
    rcases mem_cons.mp hkey with rfl | hrest
    · exact le_rfl
    · have ⟨entry, hentry, heq⟩ := mem_map.mp hrest
      exact heq ▸ (hsorted.1 entry hentry).le

end Keys

section Shows
variable {κ : Type u} [LinearOrder κ] {κ' : Type u'} [LinearOrder κ'] {ν : Type v} {ν' : Type v'}
  {ω : Type w} {name : κ → κ'} {read : ν' → ω} {shown : ν → ω}
  {low : OrderedStore κ' ν'} {high : OrderedStore κ ν}

/-- The lower store has the entries of the upper one under other names, and its values read as
the values there. -/
def Shows (name : κ → κ') (read : ν' → ω) (shown : ν → ω) (low : OrderedStore κ' ν')
    (high : OrderedStore κ ν) : Prop :=
  low.entries.map (Prod.map id read) = high.entries.map (Prod.map name shown)

theorem Shows.filter (h : Shows name read shown low high) (kept : κ → Bool) (kept' : κ' → Bool)
    (hkept : ∀ entry ∈ high.entries, kept' (name entry.1) = kept entry.1) :
    (low.entries.filter fun entry => kept' entry.1).map (Prod.map id read) =
      (high.entries.filter fun entry => kept entry.1).map (Prod.map name shown) := by
  have hlow : (low.entries.filter fun entry => kept' entry.1).map (Prod.map id read) =
      (low.entries.map (Prod.map id read)).filter fun entry => kept' entry.1 := by
    rw [filter_map]
    rfl
  rw [hlow, h, filter_map]
  exact congrArg _ (filter_congr hkept)

theorem Shows.deleteAll (h : Shows name read shown low high) (keys : List κ') {kept : κ → Bool}
    (hkept : ∀ entry ∈ high.entries, kept entry.1 = true ↔ name entry.1 ∉ keys) :
    Shows name read shown (low.deleteAll keys) (high.keep kept) := by
  rw [Shows, entries_deleteAll]
  refine h.filter kept (fun k => decide (k ∉ keys)) fun entry hentry => ?_
  rw [Bool.eq_iff_iff, decide_eq_true_iff]
  exact (hkept entry hentry).symm

theorem Shows.set (h : Shows name read shown low high) (hname : StrictMono name) {k : κ} {value : ν}
    {value' : ν'} (hvalue : read value' = shown value) :
    Shows name read shown (low.set (name k) value') (high.set k value) := by
  have hbelow := h.filter (fun other => decide (other < k)) (fun other => decide (other < name k))
    fun entry _ => decide_eq_decide.mpr hname.lt_iff_lt
  have habove := h.filter (fun other => decide (k < other)) (fun other => decide (name k < other))
    fun entry _ => decide_eq_decide.mpr hname.lt_iff_lt
  rw [Shows, OrderedStore.set, OrderedStore.set, map_append, map_append, map_cons,
    map_cons, hbelow, habove, Prod.map_apply, Prod.map_apply, hvalue]
  rfl

end Shows

section Parts
variable {α : Type u} [LinearOrder α] {ν : Type v}

theorem le_of_isPrefix {part key : List α} (h : part <+: key) : part ≤ key := by
  rw [← not_lt]
  intro hlt
  induction part generalizing key with
  | nil => exact not_lt_nil key hlt
  | cons first rest ih =>
    obtain ⟨tail, rfl⟩ := h
    rw [cons_append, cons_lt_cons_iff] at hlt
    rcases hlt with hfirst | ⟨_, hrest⟩
    · exact lt_irrefl first hfirst
    · exact ih ⟨tail, rfl⟩ hrest

theorem append_lt_append_iff (part : List α) {left right : List α} :
    part ++ left < part ++ right ↔ left < right := by
  induction part with
  | nil => rfl
  | cons first rest ih =>
    rw [cons_append, cons_append, cons_lt_cons_iff, ih]
    simp

theorem isPrefix_of_between {part low high : List α} (hlow : part ≤ low) (hle : low ≤ high)
    (hhigh : part <+: high) : part <+: low := by
  rw [← not_lt] at hlow hle
  induction part generalizing low high with
  | nil => exact nil_prefix
  | cons first rest ih =>
    obtain ⟨tail, rfl⟩ := hhigh
    cases low with
    | nil => exact absurd (nil_lt_cons first rest) hlow
    | cons other later =>
      rw [cons_lt_cons_iff, not_or] at hlow
      rw [cons_append, cons_lt_cons_iff, not_or] at hle
      obtain rfl : first = other := le_antisymm (not_lt.mp hlow.1) (not_lt.mp hle.1)
      refine cons_prefix_cons.mpr ⟨rfl, ih ?_ ?_ ⟨tail, rfl⟩⟩
      · exact fun hlt => hlow.2 ⟨rfl, hlt⟩
      · exact fun hlt => hle.2 ⟨rfl, hlt⟩

def under (part : List α) (s : OrderedStore (List α) ν) : List (List α × ν) :=
  s.entries.filter fun entry => part <+: entry.1

theorem mem_under {part : List α} {s : OrderedStore (List α) ν} {entry : List α × ν} :
    entry ∈ s.under part ↔ entry ∈ s.entries ∧ part <+: entry.1 := by
  rw [under, mem_filter, decide_eq_true_iff]

/-- The entries a bounded iterator visits from a key on. -/
def scan (part start : List α) (s : OrderedStore (List α) ν) : List (List α × ν) :=
  (s.seek start).takeWhile fun entry => part <+: entry.1

/-- The entry a bounded reverse iterator is placed at. -/
def scanBack (part start : List α) (s : OrderedStore (List α) ν) : Option (List α × ν) :=
  (s.seekBack start).filter fun entry => part <+: entry.1

theorem scan_eq {part start : List α} (s : OrderedStore (List α) ν) (hstart : part ≤ start) :
    s.scan part start = (s.under part).filter fun entry => start ≤ entry.1 := by
  have hsorted : (s.entries.filter fun entry => start ≤ entry.1).Pairwise
      fun left right => left.1 < right.1 := s.sorted.filter _
  rw [scan, seek_eq_filter, takeWhile_eq_filter hsorted, under, filter_comm]
  intro left hleft right _ hlt hpart
  have hge : start ≤ left.1 := by simpa using (mem_filter.mp hleft).2
  simpa using isPrefix_of_between (hstart.trans hge) (le_of_lt hlt) (by simpa using hpart)

theorem scan_self (part : List α) (s : OrderedStore (List α) ν) :
    s.scan part part = s.under part := by
  rw [scan_eq s le_rfl, filter_eq_self]
  intro entry hentry
  exact decide_eq_true (le_of_isPrefix (mem_under.mp hentry).2)

theorem scanBack_eq {part start : List α} (s : OrderedStore (List α) ν) (hstart : part <+: start) :
    s.scanBack part start = ((s.under part).filter fun entry => entry.1 ≤ start).getLast? := by
  have hsorted : (s.entries.filter fun entry => entry.1 ≤ start).Pairwise
      fun left right => left.1 < right.1 := s.sorted.filter _
  rw [scanBack, seekBack_eq_filter, under, filter_comm]
  refine getLast?_filter fun init last hsplit entry hentry hpart => ?_
  have hlast : last.1 ≤ start := by
    have hmem : last ∈ s.entries.filter fun entry => entry.1 ≤ start := by simp [hsplit]
    simpa using (mem_filter.mp hmem).2
  rw [hsplit, pairwise_append] at hsorted
  have hlt : entry.1 < last.1 := hsorted.2.2 entry hentry last (mem_singleton_self last)
  have hentry : part <+: entry.1 := by simpa using hpart
  simpa using isPrefix_of_between ((le_of_isPrefix hentry).trans hlt.le) hlast hstart

theorem get_eq {part k : List α} (s : OrderedStore (List α) ν) (h : part <+: k) :
    s.get k = ((s.under part).find? fun entry => entry.1 = k).map Prod.snd := by
  rw [get, under, find?_filter]
  congr 2
  funext entry
  by_cases hk : entry.1 = k
  · simp [hk, h]
  · simp [hk]

theorem under_set {part k : List α} (value : ν) (s : OrderedStore (List α) ν) (h : ¬part <+: k) :
    (s.set k value).under part = s.under part :=
  filter_set (fun k => decide (part <+: k)) value s (decide_eq_false h)

theorem under_deleteAll {part : List α} {keys : List (List α)} (s : OrderedStore (List α) ν)
    (h : ∀ k ∈ keys, ¬part <+: k) : (s.deleteAll keys).under part = s.under part :=
  filter_deleteAll (fun k => decide (part <+: k)) s fun k hk => decide_eq_false (h k hk)

def inside (part : List α) (s : OrderedStore (List α) ν) : OrderedStore (List α) ν :=
  s.keep fun k => part <+: k

theorem inside_set {part k : List α} (value : ν) (s : OrderedStore (List α) ν) (h : part <+: k) :
    (s.set k value).inside part = (s.inside part).set k value :=
  keep_set value s (decide_eq_true h)

theorem inside_set_of_not {part k : List α} (value : ν) (s : OrderedStore (List α) ν)
    (h : ¬part <+: k) : (s.set k value).inside part = s.inside part :=
  ext (under_set value s h)

theorem inside_deleteAll (part : List α) (keys : List (List α)) (s : OrderedStore (List α) ν) :
    (s.deleteAll keys).inside part = (s.inside part).deleteAll keys := by
  refine ext ?_
  rw [entries_deleteAll]
  change (s.deleteAll keys).entries.filter _ = (s.entries.filter _).filter _
  rw [entries_deleteAll]
  exact filter_comm ..

section Shows
variable {κ : Type u'} [LinearOrder κ] {ν' : Type v'} {ω : Type w} {name : κ → List α}
  {read : ν → ω}
  {shown : ν' → ω} {part : List α} {s : OrderedStore (List α) ν} {high : OrderedStore κ ν'}
  (h : Shows name read shown (s.inside part) high)
include h

theorem Shows.name_of_mem {entry : List α × ν} (hentry : entry ∈ s.under part) :
    ∃ k, entry.1 = name k ∧ k ∈ high.entries.map Prod.fst := by
  have hmem : Prod.map id read entry ∈ (s.under part).map (Prod.map id read) := mem_map_of_mem hentry
  rw [show (s.under part).map (Prod.map id read) = _ from h] at hmem
  obtain ⟨other, hother, heq⟩ := mem_map.mp hmem
  exact ⟨other.1, (congrArg Prod.fst heq).symm, mem_map_of_mem hother⟩

theorem Shows.mem_of_name {entry : κ × ν'} (hentry : entry ∈ high.entries) :
    name entry.1 ∈ (s.under part).map Prod.fst := by
  have hkeys : (s.under part).map Prod.fst = high.entries.map fun entry => name entry.1 := by
    have hfirst := congrArg (List.map Prod.fst) h
    rw [map_map, map_map] at hfirst
    exact hfirst
  rw [hkeys]
  exact mem_map_of_mem hentry

theorem Shows.scan_self : (s.scan part part).map (Prod.map id read) =
    high.entries.map (Prod.map name shown) := by
  rw [OrderedStore.scan_self]
  exact h

theorem Shows.scan (hname : StrictMono name) {start : κ} (hpart : part ≤ name start) :
    (s.scan part (name start)).map (Prod.map id read) =
      (high.entries.filter fun entry => start ≤ entry.1).map (Prod.map name shown) := by
  rw [scan_eq s hpart]
  exact h.filter (fun k => decide (start ≤ k)) (fun k => decide (name start ≤ k))
    fun entry _ => decide_eq_decide.mpr hname.le_iff_le

theorem Shows.scanBack {start : List α} (hpart : part <+: start)
    (hstart : ∀ k ∈ high.entries.map Prod.fst, name k ≤ start) :
    (s.scanBack part start).map (Prod.map id read) =
      high.entries.getLast?.map (Prod.map name shown) := by
  have hall : (s.under part).filter (fun entry => entry.1 ≤ start) = s.under part := by
    rw [filter_eq_self]
    intro entry hentry
    obtain ⟨k, hk, hmem⟩ := h.name_of_mem hentry
    exact decide_eq_true (hk ▸ hstart k hmem)
  rw [scanBack_eq s hpart, hall, ← getLast?_map, ← getLast?_map]
  exact congrArg List.getLast? h

end Shows

end Parts

end OrderedStore
