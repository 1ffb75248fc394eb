/-! Parsers that take a value from the front of a list. A parser is steady if input that
comes later does not change what it has read. A steady parser that uses up a text reads no
proper first part of it. -/

abbrev Parser (τ : Type u) (ε : Type v) (α : Type w) := List τ → Except ε (α × List τ)

namespace Parser
variable {τ : Type u} {ε : Type v} {α β : Type w}

def Steady (read : Parser τ ε α) : Prop :=
  ∀ ⦃input value rest⦄ (more : List τ), read input = .ok (value, rest) →
    read (input ++ more) = .ok (value, rest ++ more)

def andThen (first : Parser τ ε α) (next : α → Parser τ ε β) : Parser τ ε β := fun input => do
  let (value, input) ← first input
  next value input

def give (value : α) : Parser τ ε α := fun input => .ok (value, input)

theorem andThen_ok {first : Parser τ ε α} {next : α → Parser τ ε β} {input rest : List τ} {value : α}
    (h : first input = .ok (value, rest)) : andThen first next input = next value rest := by
  rw [andThen, h]
  rfl

theorem andThen_eq_ok {first : Parser τ ε α} {next : α → Parser τ ε β} {input : List τ}
    {result : β × List τ} (h : andThen first next input = .ok result) :
    ∃ value rest, first input = .ok (value, rest) ∧ next value rest = .ok result := by
  unfold andThen at h
  cases hfirst : first input with
  | error err =>
    rw [hfirst] at h
    cases h
  | ok read =>
    rw [hfirst] at h
    exact ⟨read.1, read.2, rfl, h⟩

theorem steady_give (value : α) : Steady (give value : Parser τ ε α) := by
  intro input read rest more h
  cases h
  rfl

theorem Steady.andThen {first : Parser τ ε α} {next : α → Parser τ ε β} (hfirst : Steady first)
    (hnext : ∀ value, Steady (next value)) : Steady (andThen first next) := by
  intro input result rest more h
  have ⟨value, middle, hread, hrest⟩ := andThen_eq_ok h
  rw [andThen_ok (hfirst more hread)]
  exact hnext value more hrest

section Counted
variable {decode : List τ → α × Int} {err : ε}

/-- Reads with a decoder that returns how many places it has used, or nothing positive. -/
def counted (decode : List τ → α × Int) (err : ε) : Parser τ ε α := fun input =>
  let (value, n) := decode input
  if n ≤ 0 then .error err else .ok (value, input.drop n.toNat)

theorem counted_eq (input : List τ) : counted decode err input =
    if (decode input).2 ≤ 0 then .error err
    else .ok ((decode input).1, input.drop (decode input).2.toNat) := rfl

theorem steady_counted (hle : ∀ input, (decode input).2 ≤ input.length)
    (happend : ∀ input more, 0 < (decode input).2 → decode (input ++ more) = decode input) :
    Steady (counted decode err) := by
  intro input value rest more h
  rw [counted_eq] at h ⊢
  by_cases hnone : (decode input).2 ≤ 0
  · rw [if_pos hnone] at h
    cases h
  · rw [if_neg hnone] at h
    cases h
    have hroom : (decode input).2.toNat ≤ input.length := by
      have := hle input
      omega
    rw [happend input more (by omega), if_neg hnone, List.drop_append_of_le_length hroom]

end Counted

def taking (n : Nat) (err : ε) : Parser τ ε (List τ) := fun input =>
  if input.length < n then .error err else .ok (input.take n, input.drop n)

theorem steady_taking (n : Nat) (err : ε) : Steady (taking n err : Parser τ ε (List τ)) := by
  intro input value rest more h
  unfold taking at h ⊢
  by_cases hshort : input.length < n
  · rw [if_pos hshort] at h
    cases h
  · rw [if_neg hshort] at h
    cases h
    have hroom : n ≤ input.length := by omega
    have hlong : ¬(input ++ more).length < n := by
      rw [List.length_append]
      omega
    rw [if_neg hlong, List.take_append_of_le_length hroom, List.drop_append_of_le_length hroom]

/-- What is missing makes a parser fail that would have used up the whole. -/
theorem Steady.rejects {read : Parser τ ε α} {part more : List τ} {value : α} (h : Steady read)
    (hwhole : read (part ++ more) = .ok (value, [])) (hmore : more ≠ []) :
    ∃ err, read part = .error err := by
  cases hpart : read part with
  | error err => exact ⟨err, rfl⟩
  | ok result =>
    have hsame := h more hpart
    rw [hwhole, Except.ok.injEq, Prod.mk.injEq] at hsame
    exact absurd (List.append_eq_nil_iff.mp hsame.2.symm).2 hmore

end Parser
