import MetricRelay.Service.Step
import Mathlib.Data.List.Induction

/-!
Runs of the service and what is read off them. Main statements: an invariant of the steps is one of the
runs, and what occurs in a run occurs in one of its steps.
-/
namespace MetricRelay

universe u

namespace Service

theorem run_cons (s : Service) (e : Event) (rest : List Event) :
    s.run (e :: rest) =
      (((s.step e).1.run rest).1, (s.step e).2 ++ ((s.step e).1.run rest).2) := rfl

theorem run_append (s : Service) (before after : List Event) :
    s.run (before ++ after) =
      (((s.run before).1.run after).1, (s.run before).2 ++ ((s.run before).1.run after).2) := by
  induction before generalizing s with
  | nil => rfl
  | cons e rest ih =>
    rw [List.cons_append, run_cons, run_cons, ih]
    simp only [List.append_assoc]

theorem run_concat (s : Service) (events : List Event) (e : Event) :
    s.run (events ++ [e]) =
      (((s.run events).1.step e).1, (s.run events).2 ++ ((s.run events).1.step e).2) := by
  rw [run_append, run_cons]
  simp only [run, List.append_nil]

/-- What holds at the start and is kept by every step holds after every run. The property may speak of
the events so far and of what occurred in them. -/
theorem run_invariant {s₀ : Service} {P : List Event → Service → List Occurrence → Prop}
    (start : P [] s₀ [])
    (step : ∀ events s l e, s₀.run events = (s, l) → P events s l →
      P (events ++ [e]) (s.step e).1 (l ++ (s.step e).2))
    (events : List Event) : P events (s₀.run events).1 (s₀.run events).2 := by
  -- from the end of the list, since `step` speaks of the events before the last one
  induction events using List.reverseRecOn with
  | nil => exact start
  | append_singleton events e ih =>
    rw [run_concat]
    exact step events _ _ e rfl ih

theorem exists_step_of_mem_run {s : Service} {events : List Event} {o : Occurrence}
    (h : o ∈ (s.run events).2) :
    ∃ before e after, events = before ++ e :: after ∧ o ∈ ((s.run before).1.step e).2 := by
  induction events generalizing s with
  | nil => cases h
  | cons e rest ih =>
    rw [run_cons] at h
    rcases List.mem_append.mp h with h | h
    · exact ⟨[], e, rest, rfl, h⟩
    · obtain ⟨before, e', after, rfl, ho⟩ := ih h
      exact ⟨e :: before, e', after, rfl, ho⟩

/-! ## What a run is fed with -/

/-- What `f` makes of every event and the state before it, in order. -/
def gather {α : Type u} (f : Service → Event → List α) (s : Service) : List Event → List α
  | [] => []
  | e :: rest => f s e ++ gather f (s.step e).1 rest

theorem gather_append {α : Type u} (f : Service → Event → List α) (s : Service)
    (before after : List Event) :
    gather f s (before ++ after) = gather f s before ++ gather f (s.run before).1 after := by
  induction before generalizing s with
  | nil => rfl
  | cons e rest ih =>
    rw [List.cons_append, gather, gather, ih, List.append_assoc]
    rfl

theorem gather_concat {α : Type u} (f : Service → Event → List α) (s : Service)
    (events : List Event) (e : Event) :
    gather f s (events ++ [e]) = gather f s events ++ f (s.run events).1 e := by
  rw [gather_append, gather, gather, List.append_nil]

theorem mem_gather {α : Type u} {f : Service → Event → List α} {s : Service} {events : List Event}
    {x : α} (h : x ∈ gather f s events) :
    ∃ before e after, events = before ++ e :: after ∧ x ∈ f (s.run before).1 e := by
  induction events generalizing s with
  | nil => cases h
  | cons e rest ih =>
    rcases List.mem_append.mp h with h | h
    · exact ⟨[], e, rest, rfl, h⟩
    · obtain ⟨before, e', after, rfl, hx⟩ := ih h
      exact ⟨e :: before, e', after, rfl, hx⟩

/-- Whether the service waits for nobody and takes up what comes next. -/
def Free (s : Service) : Prop := s.phase = .running ∧ s.sending = none

instance (s : Service) : Decidable s.Free := inferInstanceAs (Decidable (_ ∧ _))

/-- The record that the service takes up when it goes on with its work. -/
def nextRecord? (s : Service) : Option Record :=
  if s.Free then s.batch.head? else none

/-- The command that the service takes up when it goes on with its work. -/
def nextCommand? (s : Service) : Option Command :=
  if s.Free ∧ s.batch = [] then s.queue.head? else none

def postedBy (s : Service) : Event → List Command
  | .post c => if s.accepts then [c] else []
  | _ => []

def obeyedBy (s : Service) : Event → List Command
  | .work => s.nextCommand?.toList
  | _ => []

/-- The commands that a run puts into the queue. -/
def posted (s : Service) (events : List Event) : List Command := gather postedBy s events

/-- The commands that a run takes up. -/
def obeyed (s : Service) (events : List Event) : List Command := gather obeyedBy s events

end Service

end MetricRelay
