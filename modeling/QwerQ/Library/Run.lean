import Mathlib.Data.List.Induction

/-! Runs of a step relation that writes a history. A step sees the history so
far, so that conditions such as the freshness of a name are conditions on the
step and not on the run as a whole. -/

inductive Run {σ : Type u} {ε : Type v} (step : List ε → σ → List ε → σ → Prop)
    (start : σ) : List ε → σ → Prop where
  | start : Run step start [] start
  | next {history events : List ε} {before after : σ} :
      Run step start history before → step history before events after →
      Run step start (history ++ events) after

namespace Run
variable {σ : Type u} {ε : Type v} {step : List ε → σ → List ε → σ → Prop}
  {start after : σ} {history : List ε}

/-- What holds at the start and is kept by every step holds after every run. -/
theorem invariant (holds : List ε → σ → Prop) (hstart : holds [] start)
    (hstep : ∀ {history before events after}, holds history before →
      step history before events after → holds (history ++ events) after)
    (run : Run step start history after) : holds history after := by
  induction run with
  | start => exact hstart
  | next _ taken ih => exact hstep ih taken

end Run

/-- Every event of the history stands in the relation to what came before it. -/
def AtEach {ε : Type u} (holds : List ε → ε → Prop) (history : List ε) : Prop :=
  ∀ before event after, history = before ++ event :: after → holds before event

section AtEach
variable {ε : Type u} {holds : List ε → ε → Prop} {history : List ε}

theorem AtEach.nil : AtEach holds [] := by
  intro before event after h
  simp at h

theorem AtEach.snoc {event : ε} (h : AtEach holds history) (hevent : holds history event) :
    AtEach holds (history ++ [event]) := by
  intro before other after hsplit
  rcases List.eq_nil_or_concat after with rfl | ⟨rest, last, rfl⟩
  · have ⟨hbefore, hother⟩ := List.append_inj' hsplit rfl
    cases hother
    exact hbefore ▸ hevent
  · rw [List.concat_eq_append, ← List.cons_append, ← List.append_assoc] at hsplit
    exact h before other rest (List.append_inj' hsplit rfl).1

theorem AtEach.append {events : List ε} (h : AtEach holds history)
    (hevents : ∀ event ∈ events, ∀ before, holds before event) :
    AtEach holds (history ++ events) := by
  induction events generalizing history with
  | nil => simpa using h
  | cons first rest ih =>
    rw [← List.singleton_append, ← List.append_assoc]
    exact ih (h.snoc (hevents first List.mem_cons_self history))
      fun event hmem => hevents event (List.mem_cons_of_mem _ hmem)

theorem AtEach.last {event : ε} (h : AtEach holds (history ++ [event])) : holds history event :=
  h history event [] rfl

theorem AtEach.init {event : ε} (h : AtEach holds (history ++ [event])) : AtEach holds history := by
  intro before other after hsplit
  refine h before other (after ++ [event]) ?_
  rw [hsplit, List.append_assoc, List.cons_append]

/-- Where the past and a part of the event determine it, two histories that agree in that
part of their events are one. -/
theorem AtEach.determined {ι : Type v} {view : ε → ι} {other : List ε}
    (hdetermined : ∀ {before left right}, holds before left → holds before right →
      view left = view right → left = right)
    (h : AtEach holds history) (hother : AtEach holds other)
    (hview : other.map view = history.map view) : other = history := by
  induction history using List.reverseRecOn generalizing other with
  | nil => simpa using hview
  | append_singleton history event ih =>
    rcases List.eq_nil_or_concat other with rfl | ⟨rest, last, rfl⟩
    · simp at hview
    · rw [List.concat_eq_append] at hother hview ⊢
      rw [List.map_append, List.map_append] at hview
      have ⟨hrest, hlast⟩ := List.append_inj' hview rfl
      have hsame : rest = history := ih h.init hother.init hrest
      subst hsame
      rw [hdetermined hother.last h.last (List.head_eq_of_cons_eq hlast)]

end AtEach
