import MetricRelay.Proofs.Service.Admission
import MetricRelay.Proofs.Service.Waiting

/-!
Leaving records out of a run that come to nothing. A record without a key or host, and without filtering one
that cannot be encoded, leaves no trace but a complaint. Main statement: the run without any set of such
records goes step by step with the run that has them, with all that waits the same but for them, and what
occurs in it is what occurs in the other but for their taking up and the complaints.
-/
namespace MetricRelay.Service

/-! ## What comes of a record that is left out -/

section
variable (filtering : Bool) (encoder : Encoder)

/-- The key or the host is no text, or the record is not filtered and cannot be encoded. -/
def Inert (r : Record) : Prop :=
  (∃ e, r.key = .error e) ∨ (∃ e, r.host = .error e) ∨
    filtering = false ∧ ∃ e, encoder.encode r = .error e

/-- What is complained of when the record is taken up. -/
def complaint? (r : Record) : Option Occurrence :=
  if filtering then
    match r.key, r.host with
    | .error e, _ => some (.malformed e)
    | .ok _, .error e => some (.malformed e)
    | .ok _, .ok _ => none
  else
    match encoder.encode r with
    | .error e => some (.unencodable e)
    | .ok _ => none

end

variable {filtering : Bool} {encoder : Encoder}

/-- Without a key or a host a record cannot be encoded either. -/
theorem exists_encode_eq_error {r : Record}
    (h : (∃ e, r.key = .error e) ∨ ∃ e, r.host = .error e) : ∃ e, encoder.encode r = .error e := by
  cases hr : encoder.encode r with
  | error e => exact ⟨e, rfl⟩
  | ok p =>
    obtain ⟨m, hm, -⟩ := Encoder.encode_eq_ok hr
    obtain ⟨hhost, hkey, -⟩ := Metric.of_ofRecord hm
    rcases h with ⟨e, he⟩ | ⟨e, he⟩
    · cases he.symm.trans hkey
    · cases he.symm.trans hhost

theorem Inert.exists_complaint {r : Record} (h : Inert filtering encoder r) :
    ∃ o, complaint? filtering encoder r = some o := by
  rw [complaint?]
  cases filtering with
  | true =>
    cases hk : r.key with
    | error e => exact ⟨.malformed e, rfl⟩
    | ok key =>
      cases hh : r.host with
      | error e => exact ⟨.malformed e, rfl⟩
      | ok host =>
        -- a record with a key and a host may be left out without filtering only
        rcases h with ⟨e, he⟩ | ⟨e, he⟩ | ⟨hf, -⟩
        · cases he.symm.trans hk
        · cases he.symm.trans hh
        · cases hf
  | false =>
    have hencode : ∃ e, encoder.encode r = .error e := by
      rcases h with hk | hh | ⟨-, he⟩
      · exact exists_encode_eq_error (.inl hk)
      · exact exists_encode_eq_error (.inr hh)
      · exact he
    obtain ⟨e, he⟩ := hencode
    rw [he]
    exact ⟨.unencodable e, rfl⟩

theorem eq_of_complaint? {r : Record} {o : Occurrence} (h : complaint? filtering encoder r = some o) :
    ∃ e, o = .malformed e ∨ o = .unencodable e := by
  rw [complaint?] at h
  split at h
  · split at h
    · next e _ =>
      cases h
      exact ⟨e, .inl rfl⟩
    · next e _ _ =>
      cases h
      exact ⟨e, .inl rfl⟩
    · cases h
  · split at h
    · next e _ =>
      cases h
      exact ⟨e, .inr rfl⟩
    · cases h

/-- Nothing is left of such a record but the complaint. -/
theorem handle_of_complaint? {s : Service} {r : Record} {o : Occurrence}
    (hf : s.filter.enabled = filtering) (he : s.encoder = encoder)
    (h : complaint? filtering encoder r = some o) : s.handle r = (s, [o]) := by
  subst hf he
  rw [complaint?] at h
  rw [handle]
  by_cases hf : s.filter.enabled = true
  · rw [if_pos hf] at h ⊢
    cases hk : r.key with
    | error e =>
      rw [hk] at h
      cases h
      rfl
    | ok key =>
      cases hh : r.host with
      | error e =>
        rw [hk, hh] at h
        cases h
        rfl
      | ok host =>
        rw [hk, hh] at h
        cases h
  · rw [if_neg hf] at h ⊢
    rw [store]
    cases he : s.encoder.encode r with
    | error e =>
      rw [he] at h
      cases h
      rfl
    | ok payload =>
      rw [he] at h
      cases h

/-! ## Leaving records out -/

/-- A record, and whether it is left out. -/
structure Marked (filtering : Bool) (encoder : Encoder) where
  record : Record
  out : Bool
  inert : out = true → Inert filtering encoder record

/-- The records that are not left out. -/
def kept (l : List (Marked filtering encoder)) : List Record :=
  (l.filter fun m => !m.out).map Marked.record

inductive MarkedCommand (filtering : Bool) (encoder : Encoder) where
  | insert (m : Marked filtering encoder)
  | insertBatch (l : List (Marked filtering encoder))
  | report (awaited : Bool)
  | shutdown

namespace MarkedCommand

/-- The command with all its records. -/
def full : MarkedCommand filtering encoder → Command
  | .insert m => .insert m.record
  | .insertBatch l => .insertBatch (l.map Marked.record)
  | .report awaited => .report awaited
  | .shutdown => .shutdown

/-- The command without the records that are left out; the insertion of a single one is left out as well. -/
def thinned : MarkedCommand filtering encoder → Option Command
  | .insert m => if m.out then none else some (.insert m.record)
  | .insertBatch l => some (.insertBatch (kept l))
  | .report awaited => some (.report awaited)
  | .shutdown => some .shutdown

def records : MarkedCommand filtering encoder → List (Marked filtering encoder)
  | .insert m => [m]
  | .insertBatch l => l
  | .report _ | .shutdown => []

end MarkedCommand

/-- An event of a run, with marks on the records that it brings. -/
inductive Planned (filtering : Bool) (encoder : Encoder) where
  | post (c : MarkedCommand filtering encoder)
  | other (e : Event) (h : ∀ c, e ≠ .post c)

def Planned.full : Planned filtering encoder → Event
  | .post c => .post c.full
  | .other e _ => e

/-- The records and commands that wait to be taken up, with their marks. -/
structure Waiting (filtering : Bool) (encoder : Encoder) where
  batch : List (Marked filtering encoder)
  queue : List (MarkedCommand filtering encoder)

namespace Waiting

/-- Nothing waits. -/
def empty : Waiting filtering encoder := ⟨[], []⟩

/-- The service with all that waits. -/
def full (w : Waiting filtering encoder) (s : Service) : Service :=
  s.waiting (w.batch.map Marked.record) (w.queue.map MarkedCommand.full)

/-- The service with what waits and is not left out. -/
def thinned (w : Waiting filtering encoder) (s : Service) : Service :=
  s.waiting (kept w.batch) (w.queue.filterMap MarkedCommand.thinned)

/-- What waits when the service has gone on with its work. -/
def work (w : Waiting filtering encoder) (s : Service) : Waiting filtering encoder :=
  match s.phase, s.sending with
  | .running, none =>
    match w.batch, w.queue with
    | _ :: rest, _ => { w with batch := rest }
    | [], c :: rest => ⟨c.records, rest⟩
    | [], [] => w
  | .draining, none => { w with queue := [] }
  | _, _ => w

/-- What waits after an event. -/
def next (w : Waiting filtering encoder) (s : Service) :
    Planned filtering encoder → Waiting filtering encoder
  | .post c => if s.accepts then { w with queue := w.queue ++ [c] } else w
  | .other .work _ => w.work s
  | .other _ _ => w

/-- Whether a record or a command that is left out is to be taken up next. -/
def passesOver (w : Waiting filtering encoder) (s : Service) : Bool :=
  s.Free && match w.batch, w.queue with
    | m :: _, _ => m.out
    | [], c :: _ => c.thinned.isNone
    | [], [] => false

/-- The record that is taken up at an event, if it is left out. -/
def leftOut (w : Waiting filtering encoder) (s : Service) : Planned filtering encoder → List Record
  | .other .work _ =>
    if s.Free then ((w.batch.take 1).filter Marked.out).map Marked.record else []
  | _ => []

/-- The event in the run without the records that are left out. There the service does not take them up, and
notices its flush timer only where it does so with them. -/
def event? (w : Waiting filtering encoder) (s : Service) : Planned filtering encoder → Option Event
  | .post c => c.thinned.map .post
  | .other .work _ => if w.passesOver s then none else some .work
  | .other .flushTick _ => if s.canFlush then some .flushTick else none
  | .other e _ => some e

end Waiting

/-- The first list is the second with, at some places, a record that is taken up and the complaint about it;
these are the records of the third list, in order. -/
inductive Beside (filtering : Bool) (encoder : Encoder) :
    List Occurrence → List Occurrence → List Record → Prop
  | nil : Beside filtering encoder [] [] []
  | both {l l' : List Occurrence} {d : List Record} (o : Occurrence)
    (rest : Beside filtering encoder l l' d) : Beside filtering encoder (o :: l) (o :: l') d
  | complaint {l l' : List Occurrence} {d : List Record} {r : Record} {o : Occurrence}
    (complained : complaint? filtering encoder r = some o) (rest : Beside filtering encoder l l' d) :
    Beside filtering encoder (.handled r :: o :: l) l' (r :: d)

theorem Beside.refl (l : List Occurrence) : Beside filtering encoder l l [] := by
  induction l with
  | nil => exact .nil
  | cons o rest ih => exact .both o ih

theorem Beside.append {l₁ l₁' l₂ l₂' : List Occurrence} {d₁ d₂ : List Record}
    (h₁ : Beside filtering encoder l₁ l₁' d₁) (h₂ : Beside filtering encoder l₂ l₂' d₂) :
    Beside filtering encoder (l₁ ++ l₂) (l₁' ++ l₂') (d₁ ++ d₂) := by
  induction h₁ with
  | nil => exact h₂
  | both o _ ih => exact .both o ih
  | complaint complained _ ih => exact .complaint complained ih

/-! ## Steps in two runs -/

theorem kept_cons_of_out {m : Marked filtering encoder} (h : m.out = true)
    (rest : List (Marked filtering encoder)) : kept (m :: rest) = kept rest := by
  simp [kept, h]

theorem kept_cons_of_not_out {m : Marked filtering encoder} (h : m.out = false)
    (rest : List (Marked filtering encoder)) : kept (m :: rest) = m.record :: kept rest := by
  simp [kept, h]

/-- The run without the records that are left out has gone on as the full one has. -/
structure Follows (w w' : Waiting filtering encoder) (s t : Service) (l : List Occurrence)
    (events : List Event) (d : List Record) : Prop where
  full : w'.full t = t
  thinned : ∃ l', (w.thinned s).run events = (w'.thinned t, l') ∧ Beside filtering encoder l l' d

section
variable {w : Waiting filtering encoder} {s : Service}

/-- What does not look at what waits does the same in both runs. -/
theorem Follows.of_unaware {f : Service → Outcome} {e : Event} {w' : Waiting filtering encoder}
    {u : Service} (h : Unaware f) (hu : w'.full u = u) (hstep : (w.thinned s).step e = f (w'.thinned u)) :
    Follows w w' s (f u).1 (f u).2 [e] [] := by
  have hfull : f (w'.full u) = (w'.full (f u).1, (f u).2) := h u _ _
  have hthinned : f (w'.thinned u) = (w'.thinned (f u).1, (f u).2) := h u _ _
  constructor
  case full =>
    rw [hu] at hfull
    exact (congrArg Prod.fst hfull).symm
  case thinned =>
    refine ⟨(f u).2, ?_, .refl _⟩
    rw [run_cons, hstep, hthinned]
    simp only [run, List.append_nil]

theorem Waiting.full_eq_iff :
    w.full s = s ↔ s.batch = w.batch.map Marked.record ∧ s.queue = w.queue.map MarkedCommand.full := by
  constructor
  · intro h
    exact ⟨(congrArg Service.batch h).symm, (congrArg Service.queue h).symm⟩
  · rintro ⟨hbatch, hqueue⟩
    rw [full, waiting, ← hbatch, ← hqueue]

theorem Follows.post (hw : w.full s = s) (c : MarkedCommand filtering encoder) :
    Follows w (w.next s (.post c)) s (s.post c.full) [] (c.thinned.map Event.post).toList [] := by
  obtain ⟨hbatch, hqueue⟩ := Waiting.full_eq_iff.mp hw
  have haccepts : (w.thinned s).accepts = s.accepts := rfl
  rw [Waiting.next, Service.post]
  by_cases ha : s.accepts = true
  · rw [if_pos ha, if_pos ha]
    constructor
    case full =>
      apply Waiting.full_eq_iff.mpr
      refine ⟨hbatch, ?_⟩
      rw [List.map_append, ← hqueue]
      rfl
    case thinned =>
      refine ⟨[], ?_, .nil⟩
      have hthinned : (w.queue ++ [c]).filterMap MarkedCommand.thinned =
          w.queue.filterMap MarkedCommand.thinned ++ c.thinned.toList := by
        rw [List.filterMap_append]
        cases hc : c.thinned <;> simp [hc]
      simp only [Waiting.thinned, hthinned]
      cases c.thinned with
      | none => simp [run, waiting]
      | some c' => exact congrArg (·, []) (if_pos ha)
  · rw [if_neg ha, if_neg ha]
    refine ⟨hw, [], ?_, .nil⟩
    cases c.thinned with
    | none => rfl
    | some c' => simp [run, step, Service.post, haccepts, ha]

/-! ### Work -/

theorem Follows.record_out {m : Marked filtering encoder} {rest : List (Marked filtering encoder)}
    (hf : s.filter.enabled = filtering) (he : s.encoder = encoder) (hw : w.full s = s) (free : s.Free)
    (hbatch : w.batch = m :: rest) (hm : m.out = true) :
    Follows w { w with batch := rest } s s.work.1 s.work.2 [] [m.record] := by
  obtain ⟨hb, hq⟩ := Waiting.full_eq_iff.mp hw
  rw [hbatch, List.map_cons] at hb
  obtain ⟨o, ho⟩ := (m.inert hm).exists_complaint
  have hhandle : handle { s with batch := rest.map Marked.record } m.record =
      ({ s with batch := rest.map Marked.record }, [o]) := handle_of_complaint? hf he ho
  rw [work_of_record free hb, hhandle]
  constructor
  case full => exact Waiting.full_eq_iff.mpr ⟨rfl, hq⟩
  case thinned =>
    refine ⟨[], ?_, .complaint ho .nil⟩
    rw [Waiting.thinned, hbatch, kept_cons_of_out hm]
    rfl

theorem Follows.record_kept {m : Marked filtering encoder} {rest : List (Marked filtering encoder)}
    (hw : w.full s = s) (free : s.Free) (hbatch : w.batch = m :: rest) (hm : m.out = false) :
    Follows w { w with batch := rest } s s.work.1 s.work.2 [.work] [] := by
  obtain ⟨hb, hq⟩ := Waiting.full_eq_iff.mp hw
  rw [hbatch, List.map_cons] at hb
  have hkept : (w.thinned s).batch = m.record :: kept rest := by
    rw [← kept_cons_of_not_out hm, ← hbatch]
    rfl
  have htake : Unaware fun u => ((u.handle m.record).1, .handled m.record :: (u.handle m.record).2) :=
    fun u batch queue => congrArg (fun o : Outcome => (o.1, Occurrence.handled m.record :: o.2))
      (unaware_handle m.record u batch queue)
  have hfull : Waiting.full { w with batch := rest } { s with batch := rest.map Marked.record } =
      { s with batch := rest.map Marked.record } := Waiting.full_eq_iff.mpr ⟨rfl, hq⟩
  rw [work_of_record free hb]
  exact .of_unaware htake hfull (work_of_record free hkept)

theorem Follows.nothing (hw : w.full s = s) (free : s.Free) (hbatch : w.batch = [])
    (hqueue : w.queue = []) : Follows w w s s.work.1 s.work.2 [.work] [] := by
  obtain ⟨hb, hq⟩ := Waiting.full_eq_iff.mp hw
  rw [hbatch] at hb
  rw [hqueue] at hq
  have hthinned : (w.thinned s).work = if s.connected then (w.thinned s, []) else drain (w.thinned s) := by
    refine work_of_nothing (s := w.thinned s) free ?_ ?_
    · rw [Waiting.thinned, hbatch]
      rfl
    · rw [Waiting.thinned, hqueue]
      rfl
  rw [work_of_nothing free hb hq]
  by_cases hc : s.connected = true
  · rw [if_pos hc] at hthinned ⊢
    exact .of_unaware (f := fun u => (u, [])) (fun _ _ _ => rfl) hw hthinned
  · rw [if_neg hc] at hthinned ⊢
    exact .of_unaware unaware_drain hw hthinned

/-- The insertion of a record that is left out is left out as well. -/
theorem Follows.insert_out {m : Marked filtering encoder} {rest : List (MarkedCommand filtering encoder)}
    (hw : w.full s = s) (free : s.Free) (hbatch : w.batch = []) (hqueue : w.queue = .insert m :: rest)
    (hm : m.out = true) : Follows w ⟨[m], rest⟩ s s.work.1 s.work.2 [] [] := by
  obtain ⟨hb, hq⟩ := Waiting.full_eq_iff.mp hw
  rw [hbatch] at hb
  rw [hqueue] at hq
  rw [work_of_command free hb hq]
  constructor
  case full => exact Waiting.full_eq_iff.mpr ⟨rfl, rfl⟩
  case thinned =>
    refine ⟨[], ?_, .nil⟩
    rw [Waiting.thinned, hbatch, hqueue, Waiting.thinned, kept_cons_of_out hm]
    simp only [List.filterMap_cons, MarkedCommand.thinned, hm]
    rfl

/-- A command that is there in both runs. -/
theorem Follows.command {c : MarkedCommand filtering encoder} {c' : Command}
    {rest : List (MarkedCommand filtering encoder)} (hw : w.full s = s) (free : s.Free)
    (hbatch : w.batch = []) (hqueue : w.queue = c :: rest) (hc : c.thinned = some c') :
    Follows w ⟨c.records, rest⟩ s s.work.1 s.work.2 [.work] [] := by
  obtain ⟨hb, hq⟩ := Waiting.full_eq_iff.mp hw
  rw [hbatch] at hb
  rw [hqueue] at hq
  have hthinned : (w.thinned s).work =
      obey (s.waiting [] (rest.filterMap MarkedCommand.thinned)) c' := by
    have hbatch' : (w.thinned s).batch = [] := by
      rw [Waiting.thinned, hbatch]
      rfl
    have hqueue' : (w.thinned s).queue = c' :: rest.filterMap MarkedCommand.thinned := by
      rw [← List.filterMap_cons_some hc, ← hqueue]
      rfl
    rw [work_of_command (s := w.thinned s) free hbatch' hqueue', Waiting.thinned, hbatch]
    rfl
  have hrest : Waiting.full ⟨[], rest⟩ { s with queue := rest.map MarkedCommand.full } =
      { s with queue := rest.map MarkedCommand.full } := Waiting.full_eq_iff.mpr ⟨hb, rfl⟩
  rw [work_of_command free hb hq]
  -- an insertion takes its records in hand; other commands leave none there
  cases c with
  | insert m =>
    obtain ⟨hm, hc⟩ := Option.ite_none_left_eq_some.mp hc
    cases hc
    have hone : [m.record] = kept [m] := (kept_cons_of_not_out (Bool.eq_false_iff.mpr hm) []).symm
    have hopened : (w.thinned s).work =
        (s.waiting (kept [m]) (rest.filterMap MarkedCommand.thinned), []) := by
      rw [hthinned, ← hone]
      rfl
    exact .of_unaware (f := fun u => (u, []))
      (u := s.waiting [m.record] (rest.map MarkedCommand.full)) (fun _ _ _ => rfl) rfl hopened
  | insertBatch l =>
    cases hc
    exact .of_unaware (f := fun u => (u, []))
      (u := s.waiting (l.map Marked.record) (rest.map MarkedCommand.full)) (fun _ _ _ => rfl) rfl hthinned
  | report awaited =>
    cases hc
    exact .of_unaware (f := fun u => (u, if awaited then [.reported u.currentReport] else []))
      (fun _ _ _ => rfl) hrest hthinned
  | shutdown =>
    cases hc
    exact .of_unaware unaware_drain hrest hthinned

/-- Reports are asked for in both runs. -/
theorem lateReports_thinned (queue : List (MarkedCommand filtering encoder)) :
    lateReports (queue.filterMap MarkedCommand.thinned) = lateReports (queue.map MarkedCommand.full) := by
  induction queue with
  | nil => rfl
  | cons c rest ih =>
    rw [lateReports, lateReports] at ih
    cases c with
    | insert m =>
      by_cases hm : m.out = true <;>
        simp [lateReports, MarkedCommand.thinned, MarkedCommand.full, hm, ih]
    | insertBatch l => simp [lateReports, MarkedCommand.thinned, MarkedCommand.full, ih]
    | report awaited =>
      simp [lateReports, MarkedCommand.thinned, MarkedCommand.full, List.filterMap_cons, ih]
    | shutdown => simp [lateReports, MarkedCommand.thinned, MarkedCommand.full, ih]

theorem Follows.stop (hw : w.full s = s) (phase : s.phase = .draining) (sending : s.sending = none) :
    Follows w { w with queue := [] } s s.work.1 s.work.2 [.work] [] := by
  obtain ⟨hb, hq⟩ := Waiting.full_eq_iff.mp hw
  have hwork (batch : List Record) (queue : List Command) :
      (s.waiting batch queue).work = (s.waiting batch queue).stop :=
    work_of_draining (s := s.waiting batch queue) phase sending
  have hlate : lateReports (w.queue.filterMap MarkedCommand.thinned) = lateReports s.queue := by
    rw [hq, lateReports_thinned]
  have hfull : Waiting.full { w with queue := [] } { s with queue := [] } = { s with queue := [] } :=
    Waiting.full_eq_iff.mpr ⟨hb, rfl⟩
  have hstop : s.work = s.stop := hwork s.batch s.queue
  rw [hstop]
  refine .of_unaware (f := fun u => ({ u with phase := .stopped, buffer := [], refresh := none },
    (if u.buffer = [] then [] else [.lost u.buffer.length]) ++ .stopped :: lateReports s.queue))
    (fun _ _ _ => rfl) hfull ?_
  rw [step, Waiting.thinned, hwork, ← hlate]
  rfl

/-- The service waits for the client, or has stopped. -/
theorem Follows.idle (hw : w.full s = s)
    (hwork : ∀ batch queue, (s.waiting batch queue).work = (s.waiting batch queue, [])) :
    Follows w w s s.work.1 s.work.2 [.work] [] := by
  have hself : s.work = (s, []) := hwork s.batch s.queue
  rw [hself]
  exact .of_unaware (f := fun u => (u, [])) (fun _ _ _ => rfl) hw (hwork _ _)

theorem Follows.work (hf : s.filter.enabled = filtering) (he : s.encoder = encoder) (hw : w.full s = s)
    (h : ∀ c, Event.work ≠ .post c) :
    Follows w (w.next s (.other .work h)) s s.work.1 s.work.2 (w.event? s (.other .work h)).toList
      (w.leftOut s (.other .work h)) := by
  rw [Waiting.next, Waiting.event?, Waiting.leftOut, Waiting.work, Waiting.passesOver]
  by_cases free : s.Free
  · simp only [free, free.1, free.2, decide_true, Bool.true_and, if_true]
    cases hbatch : w.batch with
    | cons m rest =>
      cases hm : m.out with
      | true =>
        have hout := Follows.record_out hf he hw free hbatch hm
        simpa [hm] using hout
      | false =>
        have hkept := Follows.record_kept hw free hbatch hm
        simpa [hm] using hkept
    | nil =>
      cases hqueue : w.queue with
      | nil =>
        have hnothing := Follows.nothing hw free hbatch hqueue
        simpa using hnothing
      | cons c rest =>
        cases hc : c.thinned with
        | none =>
          cases c with
          | insert m =>
            have hm : m.out = true := by
              by_contra hm
              simp [MarkedCommand.thinned, hm] at hc
            have hinsert := Follows.insert_out hw free hbatch hqueue hm
            simpa [hc, MarkedCommand.records] using hinsert
          | insertBatch _ | report _ | shutdown => cases hc
        | some c' =>
          have hcommand := Follows.command hw free hbatch hqueue hc
          simpa [hc] using hcommand
  · simp only [free, decide_false, Bool.false_and, if_false]
    cases sending : s.sending with
    | some t =>
      have hidle := Follows.idle hw fun batch queue =>
        work_of_sending (s := s.waiting batch queue) sending
      cases phase : s.phase <;> simpa using hidle
    | none =>
      cases phase : s.phase with
      | running => exact absurd ⟨phase, sending⟩ free
      | draining =>
        have hstop := Follows.stop hw phase sending
        simpa using hstop
      | stopped =>
        have hidle := Follows.idle hw fun batch queue =>
          work_of_stopped (s := s.waiting batch queue) phase
        simpa using hidle

/-- The flush timer is noticed in both runs or in none. -/
theorem Follows.flushTick (hw : w.full s = s) (h : ∀ c, Event.flushTick ≠ .post c) :
    Follows w w s s.flushTick.1 s.flushTick.2 (w.event? s (.other .flushTick h)).toList [] := by
  rw [Waiting.event?, Service.flushTick]
  by_cases hc : s.canFlush = true
  · rw [if_pos hc, if_pos hc]
    obtain ⟨hb, hq⟩ := Waiting.full_eq_iff.mp hw
    -- no record is in hand, so none is in hand that is left out
    have hnil : s.batch = [] := (free_of_canFlush hc).2
    have hbatch : w.batch = [] := List.map_eq_nil_iff.mp (hb.symm.trans hnil)
    have hthinned : (w.thinned s).canFlush = true := by
      rw [← hc, Waiting.thinned, hbatch, canFlush, canFlush, hnil]
      rfl
    have hfull : w.full { s with flushTimer := s.flushTimer.map (·.next s.clock) } =
        { s with flushTimer := s.flushTimer.map (·.next s.clock) } := Waiting.full_eq_iff.mpr ⟨hb, hq⟩
    exact .of_unaware unaware_beginFlush hfull (if_pos hthinned)
  · rw [if_neg hc, if_neg hc]
    exact ⟨hw, [], rfl, .nil⟩

theorem Follows.step (hf : s.filter.enabled = filtering) (he : s.encoder = encoder) (hw : w.full s = s)
    (p : Planned filtering encoder) :
    Follows w (w.next s p) s (s.step p.full).1 (s.step p.full).2 (w.event? s p).toList (w.leftOut s p) := by
  cases p with
  | post c => exact .post hw c
  | other e h =>
    cases e with
    | post c => exact absurd rfl (h c)
    | work => exact .work hf he hw h
    | flushTick => exact .flushTick hw h
    | disconnect | elapse _ | age _ | answerSend _ | answerFetch _ | refreshTick _ | sweepTick =>
      exact .of_unaware (f := (Service.step · _)) (unaware_step rfl) hw rfl

theorem Follows.append {w' w'' : Waiting filtering encoder} {t u : Service} {l l' : List Occurrence}
    {events events' : List Event} {d d' : List Record} (h : Follows w w' s t l events d)
    (h' : Follows w' w'' t u l' events' d') :
    Follows w w'' s u (l ++ l') (events ++ events') (d ++ d') := by
  obtain ⟨m, hrun, hm⟩ := h.thinned
  obtain ⟨m', hrun', hm'⟩ := h'.thinned
  refine ⟨h'.full, m ++ m', ?_, hm.append hm'⟩
  rw [run_append, hrun, hrun']

end

/-! ## Two runs -/

namespace Waiting

/-- What waits after a run. -/
def after (w : Waiting filtering encoder) (s : Service) :
    List (Planned filtering encoder) → Waiting filtering encoder
  | [] => w
  | p :: rest => (w.next s p).after (s.step p.full).1 rest

/-- The events of the run without the records that are left out. -/
def thin (w : Waiting filtering encoder) (s : Service) : List (Planned filtering encoder) → List Event
  | [] => []
  | p :: rest => (w.event? s p).toList ++ (w.next s p).thin (s.step p.full).1 rest

/-- The records taken up in a run that are left out in the other. -/
def missed (w : Waiting filtering encoder) (s : Service) : List (Planned filtering encoder) → List Record
  | [] => []
  | p :: rest => w.leftOut s p ++ (w.next s p).missed (s.step p.full).1 rest

end Waiting

theorem Transition.encoder_eq {s s' : Service} {e : Event} {l : List Occurrence}
    (h : Transition s e s' l) : s'.encoder = s.encoder := by
  cases h <;> rfl

theorem Follows.run {w : Waiting filtering encoder} {s : Service} (hf : s.filter.enabled = filtering)
    (he : s.encoder = encoder) (hw : w.full s = s) (plan : List (Planned filtering encoder)) :
    Follows w (w.after s plan) s (s.run (plan.map Planned.full)).1 (s.run (plan.map Planned.full)).2
      (w.thin s plan) (w.missed s plan) := by
  induction plan generalizing w s with
  | nil => exact ⟨hw, [], rfl, .nil⟩
  | cons p rest ih =>
    have hstep := Follows.step hf he hw p
    have htransition := transition_step s p.full
    have hrest := ih (htransition.filter_enabled.trans hf) (htransition.encoder_eq.trans he) hstep.full
    exact hstep.append hrest

end MetricRelay.Service
