import QwerQ.Library.Run

/-! Two replicas that apply the same commands, each with activity of its own in
between. A replica stands for the part of its state on which all are to agree. What
a command does to that part, and what it answers, may hang on a choice that the
replica makes by the rest of its state: the replicas agree while they choose alike. -/

namespace Replicas
variable {σ : Type u} {κ : Type v} {ρ : Type w} {α : Type x} {δ : Type y}

/-- A command with the answers of both replicas. -/
structure Outcome (κ : Type v) (ρ : Type w) where
  command : κ
  left : ρ
  right : ρ

inductive Step (apply : κ → σ → ρ → σ → Prop) (act : σ → σ → Prop) (guard : κ → σ → σ → Prop) :
    List (Outcome κ ρ) → σ × σ → List (Outcome κ ρ) → σ × σ → Prop where
  | command {history : List (Outcome κ ρ)} {l r l' r' : σ} {left right : ρ} (command : κ) :
      guard command l r → apply command l left l' → apply command r right r' →
      Step apply act guard history (l, r) [⟨command, left, right⟩] (l', r')
  | left {history : List (Outcome κ ρ)} {l r l' : σ} : act l l' →
      Step apply act guard history (l, r) [] (l', r)
  | right {history : List (Outcome κ ρ)} {l r r' : σ} : act r r' →
      Step apply act guard history (l, r) [] (l, r')

/-- One replica follows the shared part: a command moves it as `next` says for the
replica's choice, and activity of its own leaves it. -/
structure Simulates (apply : κ → σ → ρ → σ → Prop) (act : σ → σ → Prop) (inv : σ → Prop)
    (shared : σ → α) (choice : κ → σ → δ) (next : κ → δ → α → ρ × α) : Prop where
  apply : ∀ {k s answer s'}, inv s → apply k s answer s' →
    inv s' ∧ next k (choice k s) (shared s) = (answer, shared s')
  act : ∀ {s s'}, inv s → act s s' → inv s' ∧ shared s' = shared s

variable {apply : κ → σ → ρ → σ → Prop} {act : σ → σ → Prop} {inv : σ → Prop} {shared : σ → α}
  {choice : κ → σ → δ} {next : κ → δ → α → ρ × α}

theorem Simulates.same (h : Simulates apply act inv shared choice next) {k : κ} {l r l' r' : σ}
    {left right : ρ} (hl : inv l) (hr : inv r) (hshared : shared l = shared r)
    (hchoice : choice k l = choice k r) (hleft : apply k l left l') (hright : apply k r right r') :
    left = right ∧ shared l' = shared r' := by
  have hboth := (h.apply hl hleft).2.symm
  rw [hchoice, hshared, (h.apply hr hright).2] at hboth
  exact Prod.ext_iff.mp hboth

/-- The replicas agree, and have always answered alike. -/
structure Agree (inv : σ → Prop) (shared : σ → α) (history : List (Outcome κ ρ)) (s : σ × σ) :
    Prop where
  left : inv s.1
  right : inv s.2
  shared : shared s.1 = shared s.2
  answers : ∀ outcome ∈ history, outcome.left = outcome.right

theorem Agree.step (h : Simulates apply act inv shared choice next)
    {history events : List (Outcome κ ρ)} {s s' : σ × σ} (hagree : Agree inv shared history s)
    (taken : Step apply act (fun k l r => choice k l = choice k r) history s events s') :
    Agree inv shared (history ++ events) s' := by
  cases taken with
  | command k hchoice hleft hright =>
    have ⟨hanswer, hshared⟩ := h.same hagree.left hagree.right hagree.shared hchoice hleft hright
    refine ⟨(h.apply hagree.left hleft).1, (h.apply hagree.right hright).1, hshared, ?_⟩
    intro outcome hmem
    rcases List.mem_append.mp hmem with hold | hnew
    · exact hagree.answers outcome hold
    · rw [List.mem_singleton.mp hnew]
      exact hanswer
  | left hact =>
    have ⟨hinv, hsame⟩ := h.act hagree.left hact
    rw [List.append_nil]
    exact ⟨hinv, hagree.right, hsame.trans hagree.shared, hagree.answers⟩
  | right hact =>
    have ⟨hinv, hsame⟩ := h.act hagree.right hact
    rw [List.append_nil]
    exact ⟨hagree.left, hinv, hagree.shared.trans hsame.symm, hagree.answers⟩

theorem Simulates.agree (h : Simulates apply act inv shared choice next)
    {history : List (Outcome κ ρ)} {start s : σ × σ} (hstart : Agree inv shared ([] : List (Outcome κ ρ)) start)
    (run : Run (Step apply act fun k l r => choice k l = choice k r) start history s) :
    Agree inv shared history s :=
  run.invariant (Agree inv shared) hstart fun hagree taken => hagree.step h taken

end Replicas
