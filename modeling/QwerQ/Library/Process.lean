import Mathlib.Data.List.Basic

/-! Programs over a shared state, cut into atomic steps. A step reads the state
once: it names what it does, changes the state and chooses how to go on. The
same program can be run alone, stopped after any number of steps, or interleaved
with others, and the definitions below are the only semantics of each. -/

inductive Process (L : Type u) (σ : Type v) (ε : Type w) (α : Type x) where
  | done (result : α)
  | crash (failure : ε)
  | step (label : σ → L) (act : σ → σ) (next : σ → Process L σ ε α)

namespace Process
open List
variable {L : Type u} {σ : Type v} {ε : Type w} {α : Type x} {β : Type y}

def bind (program : Process L σ ε α) (next : α → Process L σ ε β) : Process L σ ε β :=
  match program with
  | .done result => next result
  | .crash failure => .crash failure
  | .step label act rest => .step label act fun s => (rest s).bind next

instance : Monad (Process L σ ε) where
  pure := .done
  bind := .bind

@[simp] theorem pure_eq (result : α) : (pure result : Process L σ ε α) = .done result := rfl

@[simp] theorem done_bind {α β : Type x} (result : α) (next : α → Process L σ ε β) :
    ((.done result : Process L σ ε α) >>= next) = next result := rfl

@[simp] theorem step_bind {α β : Type x} (label : σ → L) (act : σ → σ)
    (rest : σ → Process L σ ε α) (next : α → Process L σ ε β) :
    ((.step label act rest : Process L σ ε α) >>= next) =
      .step label act fun s => rest s >>= next := rfl

/-- One step that computes a new state and a result, or fails and leaves the state. -/
def atomic (label : σ → L) (body : σ → Except ε (α × σ)) : Process L σ ε α :=
  .step label
    (fun s => match body s with
      | .ok (_, s') => s'
      | .error _ => s)
    (fun s => match body s with
      | .ok (result, _) => .done result
      | .error failure => .crash failure)

def run : Process L σ ε α → σ → Except ε α × σ
  | .done result, s => (.ok result, s)
  | .crash failure, s => (.error failure, s)
  | .step _ act next, s => (next s).run (act s)

section Alone
variable {α β : Type x} {program : Process L σ ε α} {next : α → Process L σ ε β}
  {rest : σ → Process L σ ε α} {label : σ → L} {act : σ → σ} {body : σ → Except ε (α × σ)}
  {result : α} {failure : ε} {s : σ} {post weaker : α → σ → Prop} {final : β → σ → Prop}

@[simp] theorem run_done (result : α) (s : σ) :
    (.done result : Process L σ ε α).run s = (.ok result, s) := rfl

@[simp] theorem run_step (label : σ → L) (act : σ → σ) (next : σ → Process L σ ε α) (s : σ) :
    (Process.step label act next).run s = (next s).run (act s) := rfl

theorem run_bind (program : Process L σ ε α) (next : α → Process L σ ε β) (s : σ) :
    (program >>= next).run s =
      match program.run s with
      | (.ok result, s') => (next result).run s'
      | (.error failure, s') => (.error failure, s') := by
  induction program generalizing s with
  | done result => rfl
  | crash failure => rfl
  | step label act rest ih => exact ih s (act s)

theorem run_atomic (label : σ → L) (body : σ → Except ε (α × σ)) (s : σ) :
    (atomic label body).run s =
      match body s with
      | .ok (result, s') => (.ok result, s')
      | .error failure => (.error failure, s) := by
  unfold atomic
  rw [run_step]
  cases body s with
  | ok pair => rfl
  | error failure => rfl

/-- Run alone, the program returns, and what it returns meets the postcondition. -/
def Returns (program : Process L σ ε α) (s : σ) (post : α → σ → Prop) : Prop :=
  match program.run s with
  | (.ok result, s') => post result s'
  | (.error _, _) => False

theorem returns_iff :
    program.Returns s post ↔ ∃ result s', program.run s = (.ok result, s') ∧ post result s' := by
  unfold Returns
  match program.run s with
  | (.ok result, s') => simp
  | (.error failure, s') => simp

@[simp] theorem returns_done :
    (.done result : Process L σ ε α).Returns s post ↔ post result s := Iff.rfl

@[simp] theorem returns_crash :
    (.crash failure : Process L σ ε α).Returns s post ↔ False := Iff.rfl

@[simp] theorem returns_step :
    (Process.step label act rest).Returns s post ↔ (rest s).Returns (act s) post := Iff.rfl

@[simp] theorem returns_bind :
    (program >>= next).Returns s final ↔
      program.Returns s fun result s' => (next result).Returns s' final := by
  unfold Returns
  rw [run_bind]
  match program.run s with
  | (.ok result, s') => rfl
  | (.error failure, s') => rfl

theorem returns_atomic :
    (atomic label body).Returns s post ↔ ∃ result s', body s = .ok (result, s') ∧ post result s' := by
  unfold Returns
  rw [run_atomic]
  match body s with
  | .ok (result, s') => simp
  | .error failure => simp

theorem Returns.mono (h : program.Returns s post)
    (himp : ∀ result s', post result s' → weaker result s') : program.Returns s weaker := by
  rw [returns_iff] at h ⊢
  have ⟨result, s', hrun, hpost⟩ := h
  exact ⟨result, s', hrun, himp result s' hpost⟩

/-- The triple for a program that may fail: if it returns, `post` holds. -/
def Ensures (program : Process L σ ε α) (s : σ) (post : α → σ → Prop) : Prop :=
  match program.run s with
  | (.ok result, s') => post result s'
  | (.error _, _) => True

theorem ensures_iff :
    program.Ensures s post ↔ ∀ result s', program.run s = (.ok result, s') → post result s' := by
  unfold Ensures
  match program.run s with
  | (.ok result, s') =>
    refine ⟨fun h result s' heq => ?_, fun h => h result s' rfl⟩
    cases heq
    exact h
  | (.error failure, s') => simp

@[simp] theorem ensures_done :
    (.done result : Process L σ ε α).Ensures s post ↔ post result s := Iff.rfl

@[simp] theorem ensures_step :
    (Process.step label act rest).Ensures s post ↔ (rest s).Ensures (act s) post := Iff.rfl

@[simp] theorem ensures_bind :
    (program >>= next).Ensures s final ↔
      program.Ensures s fun result s' => (next result).Ensures s' final := by
  unfold Ensures
  rw [run_bind]
  match program.run s with
  | (.ok result, s') => rfl
  | (.error failure, s') => rfl

theorem ensures_atomic :
    (atomic label body).Ensures s post ↔ ∀ result s', body s = .ok (result, s') → post result s' := by
  rw [ensures_iff, run_atomic]
  match body s with
  | .ok (result, s') => simp
  | .error failure => simp

theorem Ensures.mono (h : program.Ensures s post)
    (himp : ∀ result s', post result s' → weaker result s') : program.Ensures s weaker := by
  rw [ensures_iff] at h ⊢
  intro result s' hrun
  exact himp result s' (h result s' hrun)

theorem Ensures.and {post' : α → σ → Prop} (h : program.Ensures s post)
    (h' : program.Ensures s post') :
    program.Ensures s fun result s' => post result s' ∧ post' result s' := by
  rw [ensures_iff] at h h' ⊢
  exact fun result s' hrun => ⟨h result s' hrun, h' result s' hrun⟩

end Alone

/-- Run alone from the same state, both programs return or neither does, and `alike`
relates what they leave. -/
def Agrees (left : Process L σ ε α) (right : Process L σ ε β) (s : σ)
    (alike : α → σ → β → σ → Prop) : Prop :=
  ((left.Returns s fun _ _ => True) ↔ right.Returns s fun _ _ => True) ∧
    left.Ensures s fun a sa => right.Ensures s fun b sb => alike a sa b sb

section Agrees
variable {left : Process L σ ε α} {right : Process L σ ε β} {s : σ}
  {alike : α → σ → β → σ → Prop} {post : α → σ → Prop} {post' : β → σ → Prop}

theorem agrees_of_returns (hleft : left.Returns s post) (hright : right.Returns s post')
    (halike : ∀ a sa b sb, post a sa → post' b sb → alike a sa b sb) :
    left.Agrees right s alike := by
  have ⟨a, sa, hl, hpost⟩ := returns_iff.mp hleft
  have ⟨b, sb, hr, hpost'⟩ := returns_iff.mp hright
  simpa only [Agrees, Returns, Ensures, hl, hr, true_and] using halike a sa b sb hpost hpost'

theorem agrees_of_fails (hleft : ¬ left.Returns s fun _ _ => True)
    (hright : ¬ right.Returns s fun _ _ => True) : left.Agrees right s alike :=
  ⟨iff_of_false hleft hright, ensures_iff.mpr fun a sa hrun =>
    absurd (returns_iff.mpr ⟨a, sa, hrun, trivial⟩) hleft⟩

theorem Agrees.relates (h : left.Agrees right s alike) (hleft : left.Returns s post)
    (hright : right.Returns s post') :
    ∃ a sa b sb, post a sa ∧ post' b sb ∧ alike a sa b sb := by
  have ⟨a, sa, hl, hpost⟩ := returns_iff.mp hleft
  have ⟨b, sb, hr, hpost'⟩ := returns_iff.mp hright
  exact ⟨a, sa, b, sb, hpost, hpost', ensures_iff.mp (ensures_iff.mp h.2 a sa hl) b sb hr⟩

end Agrees

/-- The state a program leaves behind when it is stopped after `n` of its steps. -/
def after : Nat → Process L σ ε α → σ → σ
  | n + 1, .step _ act next, s => after n (next s) (act s)
  | _, _, s => s

/-- The triple for a program that may be stopped: `crash` holds at every point of
its run alone, and `post` if it returns. -/
def Survives (crash : σ → Prop) (post : α → σ → Prop) : Process L σ ε α → σ → Prop
  | .done result, s => crash s ∧ post result s
  | .crash _, s => crash s
  | .step _ act next, s => crash s ∧ (next s).Survives crash post (act s)

section Survives
variable {α β : Type x} {program : Process L σ ε α} {next : α → Process L σ ε β}
  {rest : σ → Process L σ ε α} {label : σ → L} {act : σ → σ} {result : α} {s : σ}
  {crash : σ → Prop} {post : α → σ → Prop}

theorem Survives.now (h : program.Survives crash post s) : crash s := by
  cases program with
  | done result => exact h.1
  | crash failure => exact h
  | step label act next => exact h.1

theorem Survives.mono {weaker : α → σ → Prop} (h : program.Survives crash post s)
    (himp : ∀ result s', post result s' → weaker result s') :
    program.Survives crash weaker s := by
  induction program generalizing s with
  | done result => exact ⟨h.1, himp result s h.2⟩
  | crash failure => exact h
  | step label act next ih => exact ⟨h.1, ih s h.2⟩

end Survives

/-- Wherever others have moved the state up to, each step of the program moves it up
too, and `post` holds of what it returns. -/
def Keeps (le : σ → σ → Prop) (post : α → σ → Prop) : Process L σ ε α → σ → Prop
  | .done result, s => ∀ s', le s s' → post result s'
  | .crash _, _ => True
  | .step _ act next, s => ∀ s', le s s' → le s' (act s') ∧ (next s').Keeps le post (act s')

section Keeps
variable {α β : Type x} {program : Process L σ ε α} {le : σ → σ → Prop} {post : α → σ → Prop}
  {s : σ}

theorem Keeps.rise {s' : σ} (htrans : ∀ {a b c}, le a b → le b c → le a c)
    (h : program.Keeps le post s) (hle : le s s') : program.Keeps le post s' := by
  cases program with
  | done | step => exact fun later hlater => h later (htrans hle hlater)
  | crash failure => trivial

theorem Keeps.mono {weaker : α → σ → Prop} (h : program.Keeps le post s)
    (himp : ∀ result s', post result s' → weaker result s') :
    program.Keeps le weaker s := by
  induction program generalizing s with
  | done result => exact fun s' hle => himp result s' (h s' hle)
  | crash failure => trivial
  | step label act next ih => exact fun s' hle => ⟨(h s' hle).1, ih s' (h s' hle).2⟩

theorem Keeps.bind {next : α → Process L σ ε β} {post : β → σ → Prop} (hrefl : ∀ s, le s s)
    (h : program.Keeps le (fun result s' => (next result).Keeps le post s') s) :
    (program >>= next).Keeps le post s := by
  induction program generalizing s with
  | done result => exact h s (hrefl s)
  | crash failure => trivial
  | step label act rest ih => exact fun s' hle => ⟨(h s' hle).1, ih s' (h s' hle).2⟩

end Keeps

/-- Any shuffle of the steps of a pool of programs, with what each step was. -/
inductive Interleaves (pool : List (Process L σ ε α)) (s : σ) :
    List (Nat × L) → List (Process L σ ε α) → σ → Prop where
  | start : Interleaves pool s [] pool s
  | next {rest : List (Process L σ ε α)} {s' : σ} {trace : List (Nat × L)} {i : Nat}
      {label : σ → L} {act : σ → σ} {next : σ → Process L σ ε α} :
      Interleaves pool s trace rest s' → rest[i]? = some (.step label act next) →
      Interleaves pool s (trace ++ [(i, label s')]) (rest.set i (next s')) (act s')

/-- Every step a program can take, from any state, is in the relation. -/
def Every (rel : σ → L → σ → Prop) : Process L σ ε α → Prop
  | .done _ => True
  | .crash _ => True
  | .step label act next => ∀ s, rel s (label s) (act s) ∧ (next s).Every rel

section Every
variable {α β : Type x} {program : Process L σ ε α} {rel weaker : σ → L → σ → Prop}

theorem Every.bind {next : α → Process L σ ε β} (hfirst : program.Every rel)
    (hrest : ∀ result, (next result).Every rel) : (program >>= next).Every rel := by
  induction program with
  | done result => exact hrest result
  | crash failure => trivial
  | step label act rest ih => exact fun s => ⟨(hfirst s).1, ih s (hfirst s).2⟩

theorem every_of_forall (h : ∀ s label s', rel s label s') : program.Every rel := by
  induction program with
  | done result => trivial
  | crash failure => trivial
  | step label act next ih => exact fun s => ⟨h _ _ _, ih s⟩

theorem Every.mono (h : program.Every rel)
    (himp : ∀ s label s', rel s label s' → weaker s label s') : program.Every weaker := by
  induction program with
  | done result => trivial
  | crash failure => trivial
  | step label act next ih => exact fun s => ⟨himp _ _ _ (h s).1, ih s (h s).2⟩

theorem Every.run_keeps {inv : σ → Prop} {s : σ}
    (h : program.Every fun s _ s' => inv s → inv s') (hs : inv s) : inv (program.run s).2 := by
  induction program generalizing s with
  | done result => exact hs
  | crash failure => exact hs
  | step label act next ih =>
    have ⟨hstep, hrest⟩ := h s
    exact ih s hrest (hstep hs)

theorem every_atomic {label : σ → L} {body : σ → Except ε (α × σ)}
    (hok : ∀ s result s', body s = .ok (result, s') → rel s (label s) s')
    (herror : ∀ s failure, body s = .error failure → rel s (label s) s) :
    (atomic label body).Every rel := by
  intro s
  cases hbody : body s with
  | ok pair => simpa only [hbody, Every, and_true] using hok s pair.1 pair.2 hbody
  | error failure => simpa only [hbody, Every, and_true] using herror s failure hbody

end Every

section Interleaves
variable {inv : σ → Prop} {allowed : L → Prop} {rel : σ → L → σ → Prop}
  {pool rest : List (Process L σ ε α)} {program first last : Process L σ ε α} {s s' : σ}
  {trace : List (Nat × L)} {labels : List L} {label : σ → L} {act : σ → σ}
  {next : σ → Process L σ ε α} {i : Nat}

theorem Interleaves.every (run : Interleaves pool s trace rest s') (h : ∀ program ∈ pool, program.Every rel) :
    ∀ program ∈ rest, program.Every rel := by
  induction run with
  | start => exact h
  | @next rest s' trace i label act next _ hget ih =>
    intro program hprogram
    rcases mem_or_eq_of_mem_set hprogram with hold | rfl
    · exact ih program hold
    · exact (ih _ (mem_of_getElem? hget) s').2

/-- What holds at the start and is kept by every step of every program holds
after every interleaving of them. -/
theorem Interleaves.invariant (run : Interleaves pool s trace rest s')
    (hevery : ∀ program ∈ pool, program.Every rel) (inv : List L → σ → Prop) (hstart : inv [] s)
    (hstep : ∀ {labels s label s'}, rel s label s' → inv labels s → inv (labels ++ [label]) s') :
    inv (trace.map Prod.snd) s' := by
  induction run with
  | start => exact hstart
  | next earlier hget ih =>
    rw [map_append]
    exact hstep (earlier.every hevery _ (mem_of_getElem? hget) _).1 ih

theorem Interleaves.length (run : Interleaves pool s trace rest s') :
    rest.length = pool.length := by
  induction run with
  | start => rfl
  | next _ _ ih => rw [length_set, ih]

theorem Interleaves.turn_lt (run : Interleaves pool s trace rest s') :
    ∀ entry ∈ trace, entry.1 < pool.length := by
  induction run with
  | start => exact fun _ h => absurd h not_mem_nil
  | next earlier hget ih =>
    intro entry hentry
    rcases mem_append.mp hentry with hold | hnew
    · exact ih entry hold
    · rw [mem_singleton.mp hnew, ← earlier.length]
      exact (List.getElem?_eq_some_iff.mp hget).1

/-- The labels one program writes on a way through it, whatever the others do to
the state in between; `inv` is what is known of every state it meets. -/
inductive Emits (inv : σ → Prop) : Process L σ ε α → List L → Process L σ ε α → Prop where
  | here (program : Process L σ ε α) : Emits inv program [] program
  | step {label : σ → L} {act : σ → σ} {next : σ → Process L σ ε α} {s : σ} {labels : List L}
      {final : Process L σ ε α} : inv s → Emits inv (next s) labels final →
      Emits inv (.step label act next) (label s :: labels) final

theorem Emits.snoc (h : Emits inv program labels (.step label act next)) (hs : inv s) :
    Emits inv program (labels ++ [label s]) (next s) := by
  generalize hfinal : Process.step label act next = final at h
  induction h with
  | here program =>
    subst hfinal
    exact .step hs (.here _)
  | step hs' _ ih => exact .step hs' (ih hfinal)

theorem Emits.all (h : Emits inv program labels last)
    (hevery : program.Every fun _ label _ => allowed label) : ∀ label ∈ labels, allowed label := by
  induction h with
  | here program => exact fun _ hmem => absurd hmem not_mem_nil
  | step _ _ ih => exact forall_mem_cons.mpr ⟨(hevery _).1, ih (hevery _).2⟩

/-- The part of a trace that one program of the pool wrote. -/
def own (i : Nat) (trace : List (Nat × L)) : List L :=
  trace.filterMap fun entry => if entry.1 = i then some entry.2 else none

theorem own_append (i : Nat) (left right : List (Nat × L)) :
    own i (left ++ right) = own i left ++ own i right :=
  filterMap_append

theorem own_cons (i : Nat) (entry : Nat × L) (trace : List (Nat × L)) :
    own i (entry :: trace) = if entry.1 = i then entry.2 :: own i trace else own i trace := by
  by_cases h : entry.1 = i <;> simp [own, h]

theorem Interleaves.emits (run : Interleaves pool s trace rest s')
    (hevery : ∀ program ∈ pool, program.Every fun s _ s' => inv s → inv s')
    (hstart : inv s) (hfirst : pool[i]? = some first) (hlast : rest[i]? = some last) :
    Emits inv first (own i trace) last := by
  induction run generalizing last with
  | start =>
    rw [hfirst] at hlast
    cases hlast
    exact .here _
  | @next rest s' trace j label act next earlier hget ih =>
    have hinv : inv s' := earlier.invariant hevery (fun _ s => inv s) hstart
      (fun hkeep hs => hkeep hs)
    rw [own_append]
    by_cases hij : j = i
    · subst hij
      rw [getElem?_set_self (List.getElem?_eq_some_iff.mp hget).1] at hlast
      cases hlast
      simpa [own] using (ih hget).snoc hinv
    · rw [getElem?_set_ne hij] at hlast
      simpa [own, hij] using ih hlast

theorem Interleaves.own_all (run : Interleaves pool s trace rest s') (hget : pool[i]? = some program)
    (hevery : program.Every fun _ label _ => allowed label) :
    ∀ label ∈ own i trace, allowed label := by
  have hi : i < rest.length := run.length ▸ (List.getElem?_eq_some_iff.mp hget).1
  have hemits : Emits (fun _ => True) program (own i trace) rest[i] := by
    refine run.emits (fun other _ => ?_) trivial hget (getElem?_eq_getElem hi)
    exact every_of_forall fun _ _ _ _ => trivial
  exact hemits.all hevery

theorem Emits.bind_done {α β : Type x} {program : Process L σ ε α} {next : α → Process L σ ε β}
    {final : β}
    (h : Emits inv (program >>= next) labels (.done final)) :
    ∃ result first rest, Emits inv program first (.done result) ∧
      Emits inv (next result) rest (.done final) ∧ labels = first ++ rest := by
  induction program generalizing labels with
  | done result => exact ⟨result, [], labels, .here _, h, rfl⟩
  | crash failure => cases h
  | step label act rest ih =>
    cases h with
    | step hs htail =>
      obtain ⟨result, first, later, hfirst, hlater, rfl⟩ := ih _ htail
      exact ⟨result, _, later, .step hs hfirst, hlater, rfl⟩

theorem Emits.atomic_done {body : σ → Except ε (α × σ)} {result : α}
    (h : Emits inv (atomic label body) labels (.done result)) :
    ∃ s s', inv s ∧ body s = .ok (result, s') ∧ labels = [label s] := by
  cases h with
  | @step _ _ _ s labels _ hs htail =>
    cases hbody : body s with
    | error failure => simp only [hbody] at htail; cases htail
    | ok pair =>
      simp only [hbody] at htail
      cases htail
      exact ⟨s, pair.2, hs, hbody, rfl⟩

theorem Emits.done_done {left right : α}
    (h : Emits inv (.done left : Process L σ ε α) labels (.done right)) :
    labels = [] ∧ left = right := by
  cases h
  exact ⟨rfl, rfl⟩

end Interleaves

end Process
