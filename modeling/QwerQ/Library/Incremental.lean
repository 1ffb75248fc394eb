/-! Readers that take items from the front of a buffer to which more is appended. A
reader's answer stands: input that comes later changes neither an item nor an error. -/

structure Reader (α : Type u) (β : Type v) (ε : Type w) where
  next : List α → Except ε (Option (β × List α))
  shrinks {input : List α} {item : β} {rest : List α} :
    next input = .ok (some (item, rest)) → rest.length < input.length
  steady {input : List α} {item : β} {rest : List α} (more : List α) :
    next input = .ok (some (item, rest)) → next (input ++ more) = .ok (some (item, rest ++ more))
  steadyError {input : List α} {err : ε} (more : List α) :
    next input = .error err → next (input ++ more) = .error err

namespace Reader
variable {α : Type u} {β : Type v} {ε : Type w} (reader : Reader α β ε)

/-- Every item that is complete, and what is left in the buffer. An error ends the reading
and takes the items before it along. -/
def drain (input : List α) : Except ε (List β) × List α :=
  match h : reader.next input with
  | .error err => (.error err, input)
  | .ok none => (.ok [], input)
  | .ok (some (item, rest)) =>
      have : rest.length < input.length := reader.shrinks h
      match drain rest with
      | (.error err, left) => (.error err, left)
      | (.ok items, left) => (.ok (item :: items), left)
termination_by input.length

def feed (buffer : List α) : List (List α) → Except ε (List β) × List α
  | [] => (.ok [], buffer)
  | chunk :: chunks =>
      match reader.drain (buffer ++ chunk) with
      | (.error err, left) => (.error err, left)
      | (.ok items, left) =>
          match feed left chunks with
          | (.error err, left) => (.error err, left)
          | (.ok more, left) => (.ok (items ++ more), left)

variable {reader} {input rest left : List α} {item : β} {items : List β} {err : ε}

theorem drain_none (h : reader.next input = .ok none) : reader.drain input = (.ok [], input) := by
  rw [drain]
  split <;> simp_all

theorem drain_error (h : reader.next input = .error err) :
    reader.drain input = (.error err, input) := by
  rw [drain]
  split <;> simp_all

theorem drain_some (h : reader.next input = .ok (some (item, rest))) :
    reader.drain input = ((reader.drain rest).1.map (item :: ·), (reader.drain rest).2) := by
  rw [drain]
  split
  · simp_all
  · simp_all
  · rename_i item' rest' hnext
    obtain ⟨rfl, rfl⟩ : item' = item ∧ rest' = rest := by simp_all
    cases hrest : reader.drain rest' with
    | mk result left => cases result <;> rfl

theorem next_drained (h : reader.drain input = (.ok items, left)) :
    reader.next left = .ok none := by
  fun_induction drain reader input generalizing items with
  | case1 input err hnext => cases h
  | case2 input hnext =>
    cases h
    exact hnext
  | case3 input item rest hnext hlt err left' hrest ih => cases h
  | case4 input item rest hnext hlt items' left' hrest ih =>
    cases h
    exact ih hrest

theorem drain_append (more : List α) (h : reader.drain input = (.ok items, left)) :
    reader.drain (input ++ more) =
      ((reader.drain (left ++ more)).1.map (items ++ ·), (reader.drain (left ++ more)).2) := by
  fun_induction drain reader input generalizing items with
  | case1 input err hnext => cases h
  | case2 input hnext =>
    cases h
    cases hmore : reader.drain (left ++ more) with
    | mk result left' => cases result <;> rfl
  | case3 input item rest hnext hlt err left' hrest ih => cases h
  | case4 input item rest hnext hlt items' left' hrest ih =>
    cases h
    rw [drain_some (reader.steady more hnext), ih hrest]
    cases (reader.drain (left ++ more)).1 <;> rfl

theorem drain_append_error (more : List α) (h : reader.drain input = (.error err, left)) :
    (reader.drain (input ++ more)).1 = .error err := by
  fun_induction drain reader input with
  | case1 input err' hnext =>
    cases h
    rw [drain_error (reader.steadyError more hnext)]
  | case2 input hnext => cases h
  | case3 input item rest hnext hlt err' left' hrest ih =>
    cases h
    rw [drain_some (reader.steady more hnext), ih hrest]
    rfl
  | case4 input item rest hnext hlt items' left' hrest ih => cases h

/-- However the input is cut into chunks, the items are those of the whole. -/
theorem feed_eq_drain {buffer : List α} {chunks : List (List α)}
    (hbuffer : reader.next buffer = .ok none)
    (h : reader.drain (buffer ++ chunks.flatten) = (.ok items, left)) :
    reader.feed buffer chunks = (.ok items, left) := by
  induction chunks generalizing buffer items with
  | nil =>
    rw [List.flatten_nil, List.append_nil, drain_none hbuffer] at h
    exact h
  | cons chunk chunks ih =>
    rw [List.flatten_cons, ← List.append_assoc] at h
    rw [feed]
    cases hchunk : reader.drain (buffer ++ chunk) with
    | mk result pending =>
      cases result with
      | error err =>
        have herr := drain_append_error chunks.flatten hchunk
        rw [h] at herr
        cases herr
      | ok first =>
        rw [drain_append chunks.flatten hchunk] at h
        cases hrest : reader.drain (pending ++ chunks.flatten) with
        | mk result' left' =>
          rw [hrest] at h
          cases result' with
          | error err => cases h
          | ok others =>
            cases h
            simp only [ih (next_drained hchunk) hrest]

end Reader
