import MetricRelay.Proofs.Service.Omission
import MetricRelay.Rehearsal.Action

/-!
Records that come to nothing. Main statement: any set of records without a key or host, and without filtering
of records that cannot be encoded, may be left out of a run; the same is sent, asked and reported, and the log
lacks one error for each of those that would have been taken up.
-/
namespace MetricRelay.Service

variable {filtering : Bool} {encoder : Encoder}

/-! ## What the runs show -/

/-- A message that the client is given. -/
def Occurrence.handed? : Occurrence → Option Bytes
  | .offered records => some (AgentData.message records)
  | _ => none

/-- What is logged. -/
def notices (l : List Occurrence) : List Notice := l.filterMap Occurrence.notice?

/-- The error that is logged when the record is taken up. -/
def complaintNotice? (filtering : Bool) (encoder : Encoder) (r : Record) : Option Notice :=
  (complaint? filtering encoder r).bind Occurrence.notice?

namespace Beside

variable {l l' : List Occurrence} {d : List Record}

/-- What is not about the taking up of records and their defects is the same. -/
theorem filterMap_eq {α : Type} (h : Beside filtering encoder l l' d) {f : Occurrence → Option α}
    (handled : ∀ r, f (.handled r) = none) (malformed : ∀ e, f (.malformed e) = none)
    (unencodable : ∀ e, f (.unencodable e) = none) : l'.filterMap f = l.filterMap f := by
  induction h with
  | nil => rfl
  | both o _ ih => rw [List.filterMap_cons, List.filterMap_cons, ih]
  | complaint complained _ ih =>
    rw [List.filterMap_cons_none (handled _), ih]
    obtain ⟨e, rfl | rfl⟩ := eq_of_complaint? complained
    · rw [List.filterMap_cons_none (malformed e)]
    · rw [List.filterMap_cons_none (unencodable e)]

/-- Each record that is left out adds what comes of it. -/
theorem filterMap_perm {α : Type} (h : Beside filtering encoder l l' d) {f : Occurrence → Option α}
    {g : Record → Option α} (hg : ∀ r o, complaint? filtering encoder r = some o →
      [.handled r, o].filterMap f = (g r).toList) :
    (l.filterMap f).Perm (d.filterMap g ++ l'.filterMap f) := by
  induction h with
  | nil => exact .nil
  | @both l l' d o _ ih =>
    have hfirst (tail : List Occurrence) :
        (o :: tail).filterMap f = (f o).toList ++ tail.filterMap f := by
      rw [List.filterMap_cons]
      cases f o <;> rfl
    -- what is in both lists changes places with what comes of the records left out
    have hmoved : ((f o).toList ++ (d.filterMap g ++ l'.filterMap f)).Perm
        (d.filterMap g ++ ((f o).toList ++ l'.filterMap f)) := by
      rw [← List.append_assoc, ← List.append_assoc]
      exact List.perm_append_comm.append_right _
    rw [hfirst, hfirst]
    exact (ih.append_left _).trans hmoved
  | @complaint l l' d r o complained _ ih =>
    have hfirst : (.handled r :: o :: l).filterMap f = (g r).toList ++ l.filterMap f := by
      rw [← hg r o complained, ← List.filterMap_append]
      rfl
    have hd : (r :: d).filterMap g = (g r).toList ++ d.filterMap g := by
      rw [List.filterMap_cons]
      cases g r <;> rfl
    rw [hfirst, hd, List.append_assoc]
    exact ih.append_left _

theorem sublist (h : Beside filtering encoder l l' d) : l'.Sublist l := by
  induction h with
  | nil => exact .slnil
  | both o _ ih => exact ih.cons_cons o
  | complaint _ _ ih => exact (ih.cons _).cons _

theorem handled_perm (h : Beside filtering encoder l l' d) : (handled l).Perm (d ++ handled l') := by
  have htaken (r : Record) (o : Occurrence) (complained : complaint? filtering encoder r = some o) :
      [.handled r, o].filterMap Occurrence.handled? = [r] := by
    obtain ⟨e, rfl | rfl⟩ := eq_of_complaint? complained <;> rfl
  have hperm := h.filterMap_perm (g := some) htaken
  rwa [List.filterMap_some] at hperm

theorem notices_perm (h : Beside filtering encoder l l' d) :
    (notices l).Perm (d.filterMap (complaintNotice? filtering encoder) ++ notices l') := by
  apply h.filterMap_perm
  intro r o complained
  rw [complaintNotice?, complained]
  obtain ⟨e, rfl | rfl⟩ := eq_of_complaint? complained <;> rfl

theorem complained_of_mem (h : Beside filtering encoder l l' d) {r : Record} (hr : r ∈ d) :
    ∃ n, complaintNotice? filtering encoder r = some n ∧ n.level = .error := by
  induction h with
  | nil => cases hr
  | both o _ ih => exact ih hr
  | complaint complained _ ih =>
    rcases List.mem_cons.mp hr with rfl | hr
    · obtain ⟨e, rfl | rfl⟩ := eq_of_complaint? complained
      · exact ⟨.malformedRecord e, by rw [complaintNotice?, complained]; rfl, rfl⟩
      · exact ⟨.unencodableRecord e, by rw [complaintNotice?, complained]; rfl, rfl⟩
    · exact ih hr

end Beside

/-- How the outcome of a run without some records stands to that of the run with all of them. What waits is
the same but for those records; `d` are those that the full run takes up. -/
structure Undisturbed (filtering : Bool) (encoder : Encoder) (w : Waiting filtering encoder) (d : List Record)
    (o o' : Outcome) : Prop where
  full : w.full o.1 = o.1
  thinned : o'.1 = w.thinned o.1
  buffer : o'.1.buffer = o.1.buffer
  filter : o'.1.filter = o.1.filter
  seen : o'.1.seen = o.1.seen
  messages : o'.2.filterMap Occurrence.handed? = o.2.filterMap Occurrence.handed?
  fetches : o'.2.filterMap Occurrence.asked? = o.2.filterMap Occurrence.asked?
  reports : o'.2.filterMap Occurrence.reported? = o.2.filterMap Occurrence.reported?
  taken : (handled o.2).Perm (d ++ handled o'.2)
  /-- The log has an error more for each of the records, and nothing else. -/
  logged : (notices o.2).Perm (d.filterMap (complaintNotice? filtering encoder) ++ notices o'.2)
  inOrder : (notices o'.2).Sublist (notices o.2)
  errors : ∀ r ∈ d, ∃ n, complaintNotice? filtering encoder r = some n ∧ n.level = .error

/-- The run with all records. -/
def runFull (s : Service) (plan : List (Planned filtering encoder)) : Outcome :=
  s.run (plan.map Planned.full)

/-- The run without the records that are left out, of a service for which nothing waits. -/
def runThinned (s : Service) (plan : List (Planned filtering encoder)) : Outcome :=
  s.run (Waiting.empty.thin s plan)

/-- Records without a key or host, and without filtering those that cannot be encoded, may be left out of a
run: the client is given the same messages, the server is asked for the same hosts, and the reports, the
buffer, the filter and the seen keys are the same. The log lacks one error for each record left out that the
full run takes up. -/
theorem run_without_inert {config : Config} {localHost : String} {now : Duration} {s₀ : Service}
    (hstart : start config localHost now = .ok s₀)
    (plan : List (Planned config.filtering s₀.encoder)) :
    Undisturbed config.filtering s₀.encoder (Waiting.empty.after s₀ plan) (Waiting.empty.missed s₀ plan)
      (s₀.runFull plan) (s₀.runThinned plan) := by
  have hfiltering : s₀.filter.enabled = config.filtering := filter_enabled_run hstart []
  have hempty : (Waiting.empty : Waiting config.filtering s₀.encoder).full s₀ = s₀ := by
    obtain ⟨-, hs⟩ := start_eq hstart
    apply Waiting.full_eq_iff.mpr
    exact ⟨congrArg Service.batch hs, congrArg Service.queue hs⟩
  have hthinned : (Waiting.empty : Waiting config.filtering s₀.encoder).thinned s₀ = s₀ := hempty
  obtain ⟨hfull, l', hrun, hbeside⟩ := Follows.run hfiltering rfl hempty plan
  rw [hthinned] at hrun
  rw [runThinned, hrun]
  constructor
  case full => exact hfull
  case thinned | buffer | filter | seen => rfl
  case messages => exact hbeside.filterMap_eq (fun _ => rfl) (fun _ => rfl) fun _ => rfl
  case fetches => exact hbeside.filterMap_eq (fun _ => rfl) (fun _ => rfl) fun _ => rfl
  case reports => exact hbeside.filterMap_eq (fun _ => rfl) (fun _ => rfl) fun _ => rfl
  case taken => exact hbeside.handled_perm
  case logged => exact hbeside.notices_perm
  case inOrder => exact hbeside.sublist.filterMap _
  case errors => exact fun r hr => hbeside.complained_of_mem hr

/-- A record without a key. -/
def keyless : Record := (Record.empty 0).set "host" (.text "h")

/-- A record whose host is a number. -/
def hostless : Record := ((Record.empty 0).set "key" (.text "x")).set "host" (.integer 7)

theorem keyless_inert : Inert filtering encoder keyless := .inl ⟨.missingField "key", by decide +kernel⟩

theorem hostless_inert : Inert filtering encoder hostless :=
  .inr (.inl ⟨.notText "host", by decide +kernel⟩)

/-- Defective records before and behind one that passes the filter, and one on its own. -/
def strewn (filtering : Bool) (encoder : Encoder) : List (Planned filtering encoder) :=
  [.other (.refreshTick ["h"]) nofun, .other (.answerFetch (.ok (Table.empty.insert "x" .zero))) nofun,
    .post (.insertBatch [⟨keyless, true, fun _ => keyless_inert⟩,
      ⟨.metric "h" "x" "1" 0, false, nofun⟩, ⟨hostless, true, fun _ => hostless_inert⟩]),
    .other .work nofun, .other .work nofun, .other .work nofun, .other .work nofun,
    .other (.elapse (.ofSecs 15)) nofun, .other .flushTick nofun, .other (.answerSend (.ok ())) nofun,
    .post (.insert ⟨keyless, true, fun _ => keyless_inert⟩), .other .work nofun, .other .work nofun,
    .post (.report true), .other .work nofun]

theorem run_without_inert_strewn :
    ∃ s₀, start {} "h" .zero = .ok s₀ ∧
      Waiting.empty.missed s₀ (strewn true s₀.encoder) = [keyless, hostless, keyless] ∧
      ((s₀.runThinned (strewn true s₀.encoder)).2.filterMap Occurrence.handed?).length = 1 ∧
      Undisturbed true s₀.encoder (Waiting.empty.after s₀ (strewn true s₀.encoder))
        (Waiting.empty.missed s₀ (strewn true s₀.encoder)) (s₀.runFull (strewn true s₀.encoder))
        (s₀.runThinned (strewn true s₀.encoder)) := by
  have hready : ∃ s₀, start {} "h" .zero = .ok s₀ ∧
      Waiting.empty.missed s₀ (strewn true s₀.encoder) = [keyless, hostless, keyless] ∧
      ((s₀.runThinned (strewn true s₀.encoder)).2.filterMap Occurrence.handed?).length = 1 :=
    ⟨_, rfl, by decide +kernel, by decide +kernel⟩
  obtain ⟨s₀, hstart, hmissed, hmessages⟩ := hready
  exact ⟨s₀, hstart, hmissed, hmessages, run_without_inert hstart (strewn true s₀.encoder)⟩

/-- The records of an event that are left out. -/
def Planned.omitted : Planned filtering encoder → List Record
  | .post c => (c.records.filter Marked.out).map Marked.record
  | .other _ _ => []

/-- A defective record behind a shutdown. -/
def closing (filtering : Bool) (encoder : Encoder) : List (Planned filtering encoder) :=
  [.post .shutdown, .post (.insert ⟨keyless, true, fun _ => keyless_inert⟩), .other .work nofun,
    .other .work nofun]

/-- What is not taken up is not complained of. -/
theorem run_without_inert_closing :
    ∃ s₀, start {} "h" .zero = .ok s₀ ∧
      (closing true s₀.encoder).flatMap Planned.omitted = [keyless] ∧
      (s₀.runFull (closing true s₀.encoder)).1.phase = .stopped ∧
      notices (s₀.runFull (closing true s₀.encoder)).2 =
        notices (s₀.runThinned (closing true s₀.encoder)).2 :=
  ⟨_, rfl, by decide +kernel, by decide +kernel, by decide +kernel⟩

end MetricRelay.Service
