import MetricRelay.Duration

/-!
Timers that become due again and again. A timer that is handled in time keeps its rhythm; one that is
handled late starts a new one, so that it never has to catch up. Main statements: handling a due timer
moves it on, and it is due again within a period from then.
-/
namespace MetricRelay

structure Timer where
  due : Duration
  period : Duration
  period_pos : 0 < period.nanoseconds
  deriving DecidableEq, Repr

namespace Timer

/-- A timer of a period that becomes due first at `due`; a period of zero makes none. -/
def start? (period due : Duration) : Option Timer :=
  if h : 0 < period.nanoseconds then some ⟨due, period, h⟩ else none

def isDue (t : Timer) (now : Duration) : Bool := t.due ≤ now

/-- How late a timer may be handled and keep its rhythm. -/
def tolerance : Duration := .ofMillis 5

def next (t : Timer) (now : Duration) : Timer :=
  { t with due := if t.due + tolerance < now then now + t.period else t.due + t.period }

theorem due_lt_due_next {t : Timer} {now : Duration} (h : t.isDue now) :
    t.due.nanoseconds < (t.next now).due.nanoseconds := by
  have hd : t.due.nanoseconds ≤ now.nanoseconds := of_decide_eq_true h
  have hp := t.period_pos
  rw [next]
  split
  · change _ < now.nanoseconds + t.period.nanoseconds
    omega
  · change _ < t.due.nanoseconds + t.period.nanoseconds
    omega

-- unfolded by hand, as a mere `rfl` would compare the times and count out the tolerance
theorem period_next (t : Timer) (now : Duration) : (t.next now).period = t.period := by
  rw [next]

theorem due_next_le {t : Timer} {now : Duration} (h : t.isDue now) :
    (t.next now).due ≤ now + t.period := by
  have hd : t.due.nanoseconds ≤ now.nanoseconds := of_decide_eq_true h
  rw [next]
  split
  · exact Nat.le_refl _
  · change t.due.nanoseconds + t.period.nanoseconds ≤ now.nanoseconds + t.period.nanoseconds
    omega

end Timer

end MetricRelay
