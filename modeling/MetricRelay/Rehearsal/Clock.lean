import MetricRelay.Rehearsal.Basic

/-! The clock of a rehearsal, which stops wherever a timer is noticed. -/
namespace MetricRelay.Rehearsal

/-- The first time from `due` on at which the clock shows whole milliseconds; only then are timers
looked at. -/
def wakeTime (due : Duration) : Duration := ⟨(due.nanoseconds + 999999) / 1000000 * 1000000⟩

/-- The times at which the timers that are not due yet will be noticed. -/
def wakeTimes (s : Service) : List Duration :=
  ((s.timers.map (·.due)).filter (s.clock < ·)).map wakeTime

/-- When the next timer will be noticed, if that is not after `limit`. -/
def nextWake? (s : Service) (limit : Duration) : Option Duration :=
  Duration.least? ((wakeTimes s).filter (· ≤ limit))

/-- Lets time pass until the clock shows `now`, while nothing else happens. -/
def idleUntil (r : Rehearsal) (now : Duration) : Rehearsal :=
  (r.after (r.service.step (.elapse (now - r.service.clock)))).1

/-- Lets the clock run to `limit`, with at most `fuel` stops on the way. -/
def runUntilOnto (limit : Duration) :
    Nat → Rehearsal → List Service.Occurrence → Rehearsal × List Service.Occurrence
  | 0, r, occurred => settleOnto (r.idleUntil limit) occurred
  | fuel + 1, r, occurred =>
    match nextWake? r.service limit with
    | some wake =>
      let (r, occurred) := settleOnto (r.idleUntil wake) occurred
      runUntilOnto limit fuel r occurred
    | none => settleOnto (r.idleUntil limit) occurred

/-- Lets the clock run on for a time; all that becomes due on the way happens at its own time. A stop
moves the clock by a nanosecond or more, so there are enough of them. -/
def elapse (r : Rehearsal) (time : Duration) : Rehearsal × List Service.Occurrence :=
  let (r, occurred) := runUntilOnto (r.service.clock + time) time.nanoseconds r []
  (r, occurred.reverse)

end MetricRelay.Rehearsal
