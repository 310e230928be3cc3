import MetricRelay.Service.Progress

/-!
Rehearsals: the service run against a server whose answers are prepared, on a clock that moves only when
told to. After every action the service goes on until it must wait.
-/
namespace MetricRelay

namespace Rehearsal

/-- A gate that calls of the client pass; while it is held each needs a permit. -/
structure Gate where
  held : Bool
  permits : Nat
  deriving DecidableEq, Repr, Inhabited

namespace Gate

def opened : Gate := ⟨false, 0⟩

/-- A gate that is held from now on. Permits from before do not count any more. -/
def closed : Gate := ⟨true, 0⟩

/-- Gives permits to so many calls, or opens the gate for all. -/
def release (g : Gate) : Option Nat → Gate
  | some n => { g with permits := g.permits + n }
  | none => opened

/-- The gate after one call has passed it, if one can. -/
def pass? (g : Gate) : Option Gate :=
  if !g.held then some g
  else if g.permits = 0 then none
  else some { g with permits := g.permits - 1 }

end Gate

end Rehearsal

open Rehearsal

structure Rehearsal where
  service : Service
  answer : String → Except ClientError ActiveKeys
  sends : Batch.Allowance
  sendGate : Gate
  fetchGate : Gate

namespace Rehearsal

/-- At first the client accepts every message and no call is held. -/
def start (service : Service) (answer : String → Except ClientError ActiveKeys) : Rehearsal :=
  ⟨service, answer, ⟨none, .timeout "sending"⟩, .opened, .opened⟩

def after (r : Rehearsal) (o : Service.Outcome) : Rehearsal × List Service.Occurrence :=
  ({ r with service := o.1 }, o.2)

/-! ## Going on until the service must wait -/

/-- The server answers the message that it has, if it is let to. -/
def answerSend? (r : Rehearsal) : Option (Rehearsal × List Service.Occurrence) :=
  if r.service.sending.isSome then
    r.sendGate.pass?.map fun gate =>
      -- the permit is used up whatever the answer is
      let (result, sends) := r.sends.answer
      { r with sends, sendGate := gate }.after (r.service.answerSend result)
  else none

/-- The server answers the request for checks that it has, if it is let to. -/
def answerFetch? (r : Rehearsal) : Option (Rehearsal × List Service.Occurrence) :=
  match r.service.refresh with
  | some ⟨host :: _, _⟩ =>
    r.fetchGate.pass?.map fun gate =>
      { r with fetchGate := gate }.after (r.service.answerFetch (r.answer host))
  | _ => none

/-- A step of the service itself, if one is possible. -/
def advance? (r : Rehearsal) : Option (Rehearsal × List Service.Occurrence) :=
  r.service.ownEvent?.map fun e => r.after (r.service.step e)

/-- The next thing that happens without further action, none if all wait. -/
def next? (r : Rehearsal) : Option (Rehearsal × List Service.Occurrence) :=
  ((answerSend? r).or (answerFetch? r)).or (advance? r)

theorem answerSend?_closer {r r' : Rehearsal} {l : List Service.Occurrence}
    (h : answerSend? r = some (r', l)) : r'.service.Closer r.service := by
  rw [answerSend?] at h
  split at h
  · next hs =>
    obtain ⟨t, ht⟩ := Option.isSome_iff_exists.mp hs
    obtain ⟨gate, -, hr⟩ := Option.map_eq_some_iff.mp h
    cases hr
    exact Service.answerSend_closer ht _
  · cases h

theorem answerFetch?_closer {r r' : Rehearsal} {l : List Service.Occurrence}
    (h : answerFetch? r = some (r', l)) : r'.service.Closer r.service := by
  rw [answerFetch?] at h
  split at h
  · next host rest learned hs =>
    obtain ⟨gate, -, hr⟩ := Option.map_eq_some_iff.mp h
    cases hr
    exact Service.answerFetch_closer (by simp [Service.awaitsFetch, hs]) _
  · cases h

theorem advance?_closer {r r' : Rehearsal} {l : List Service.Occurrence}
    (h : advance? r = some (r', l)) : r'.service.Closer r.service := by
  obtain ⟨e, he, hr⟩ := Option.map_eq_some_iff.mp h
  cases hr
  exact Service.step_closer_of_ownEvent? he

theorem next?_closer {r r' : Rehearsal} {l : List Service.Occurrence}
    (h : next? r = some (r', l)) : r'.service.Closer r.service := by
  rw [next?, Option.or_eq_some_iff, Option.or_eq_some_iff] at h
  rcases h with (h | ⟨-, h⟩) | ⟨-, h⟩
  · exact answerSend?_closer h
  · exact answerFetch?_closer h
  · exact advance?_closer h

/-- Goes on until all wait. What occurred is put in front of `occurred`, newest first. -/
def settleOnto (r : Rehearsal) (occurred : List Service.Occurrence) :
    Rehearsal × List Service.Occurrence :=
  match _h : next? r with
  | some (r', l) => settleOnto r' (l.reverse ++ occurred)
  | none => (r, occurred)
termination_by r.service.remaining
decreasing_by exact next?_closer _h

def settle (r : Rehearsal) : Rehearsal × List Service.Occurrence :=
  let (r, occurred) := settleOnto r []
  (r, occurred.reverse)

end Rehearsal

end MetricRelay
