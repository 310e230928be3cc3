import MetricRelay.Proofs.Service.Admission
import MetricRelay.Proofs.Service.Shutdown

/-!
Runs in which the client accepts every message. Main statements: nothing is lost then, and without
filtering what is accepted are the metrics of all records taken up, in order.
-/
namespace MetricRelay.Service

/-! ## What is put into the queue -/

def Event.command? : Event → Option Command
  | .post c => some c
  | _ => none

theorem Transition.connected_eq {s s' : Service} {e : Event} {l : List Occurrence}
    (h : Transition s e s' l) (he : e ≠ .disconnect) : s'.connected = s.connected := by
  cases h with
  | disconnected => exact absurd rfl he
  | _ => rfl

theorem connected_run {s : Service} {events : List Event} (h : .disconnect ∉ events) :
    (s.run events).1.connected = s.connected := by
  induction events generalizing s with
  | nil => rfl
  | cons e rest ih =>
    have he : e ≠ .disconnect := fun he => h (he ▸ List.mem_cons_self)
    rw [run_cons, ih fun hr => h (List.mem_cons_of_mem _ hr)]
    exact (transition_step s e).connected_eq he

theorem mem_of_mem_posted {s : Service} {events : List Event} {c : Command}
    (h : c ∈ s.posted events) : .post c ∈ events := by
  obtain ⟨before, e, after, rfl, hc⟩ := mem_gather h
  cases e with
  | post d =>
    rw [postedBy] at hc
    split at hc
    · cases List.mem_singleton.mp hc
      exact List.mem_append_right _ List.mem_cons_self
    · cases hc
  | _ => cases hc

theorem mem_of_mem_upToShutdown {l : List Command} {c : Command} (h : c ∈ upToShutdown l) : c ∈ l := by
  induction l with
  | nil => cases h
  | cons d rest ih =>
    rcases List.mem_cons.mp h with rfl | h
    · exact List.mem_cons_self
    · split at h
      · cases h
      · exact List.mem_cons_of_mem _ (ih h)

/-- Until somebody asks for the shutdown or all are gone, commands are accepted. -/
theorem accepts_run {s : Service} (hi : InOrder [] [] s []) (hc : s.connected = true)
    {events : List Event} (hdisconnect : .disconnect ∉ events)
    (hshutdown : .post .shutdown ∉ events) : (s.run events).1.accepts = true := by
  have hconnected := (connected_run hdisconnect).trans hc
  have h := inOrder_run hi events
  by_cases hp : (s.run events).1.phase = .running
  · rw [accepts, hconnected, hp]
    rfl
  · -- it left the running phase for one of two reasons, and neither is among the events
    rcases h.reason hp with hr | hr
    · rw [h.closed hp] at hr
      exact absurd (mem_of_mem_posted (mem_of_mem_upToShutdown hr)) hshutdown
    · rw [hconnected] at hr
      cases hr

theorem posted_eq {s : Service} (hi : InOrder [] [] s []) (hc : s.connected = true)
    {events : List Event} (hdisconnect : .disconnect ∉ events)
    (hshutdown : .post .shutdown ∉ events) :
    s.posted events = events.filterMap Event.command? := by
  induction events using List.reverseRecOn with
  | nil => rfl
  | append_singleton events e ih =>
    rw [List.mem_append, not_or] at hdisconnect hshutdown
    have haccepts := accepts_run hi hc hdisconnect.1 hshutdown.1
    have hrest := ih hdisconnect.1 hshutdown.1
    rw [posted] at hrest ⊢
    rw [gather_concat, hrest, List.filterMap_append]
    cases e with
    | post c =>
      rw [postedBy, if_pos haccepts]
      rfl
    | _ => rfl

/-! ## Nothing is lost -/

theorem Transition.of_sendFailed {s s' : Service} {e : Event} {l : List Occurrence}
    {u : Batch.Unsent} (h : Transition s e s' l) (hu : .sendFailed u ∈ l) :
    e = .answerSend (.error u.cause) := by
  cases h with
  | @failed t cause sending =>
    rcases List.mem_cons.mp hu with hu | hu
    · cases hu
      rfl
    · split at hu <;> simp at hu
  | refused free batch turned aside =>
    rcases List.mem_cons.mp hu with hu | hu
    · cases hu
    · cases aside _ hu
  | @reported awaited _ _ _ _ => cases awaited <;> simp at hu
  | stopped phase sending =>
    rcases eq_of_mem_stop hu with hu | hu | hu <;> cases hu
  | @fetched _ _ _ _ answer _ | @refreshed _ _ answer _ =>
    cases answer <;> simp [fetchOccurrence] at hu
  | _ => simp at hu

theorem not_failed_run {s : Service} {events : List Event}
    (h : ∀ answer, .answerSend answer ∈ events → answer = .ok ()) (u : Batch.Unsent) :
    .sendFailed u ∉ (s.run events).2 := by
  intro hu
  obtain ⟨before, e, after, rfl, hstep⟩ := exists_step_of_mem_run hu
  cases (transition_step _ e).of_sendFailed hstep
  cases h _ (List.mem_append_right _ List.mem_cons_self)

/-- The last attempt takes all of the buffer, and only a failure puts something back. -/
theorem Transition.drained {s s' : Service} {e : Event} {l : List Occurrence}
    (h : Transition s e s' l) (he : ∀ cause, e ≠ .answerSend (.error cause))
    (hs : s.phase = .draining → s.buffer = []) (hp : s'.phase = .draining) : s'.buffer = [] := by
  cases h with
  | closed free batch closes empty => exact empty
  | closing free batch closes start => rfl
  | stopped phase sending => cases hp
  | failed sending => exact absurd rfl (he _)
  | refused free | opened free | reported free | stored free | filled free =>
    exact absurd hp free.not_draining
  | flushing can start => rfl
  | _ => exact hs hp

theorem drained_run {s : Service} (hs : s.phase = .running) {events : List Event}
    (h : ∀ answer, .answerSend answer ∈ events → answer = .ok ())
    (hp : (s.run events).1.phase = .draining) : (s.run events).1.buffer = [] := by
  -- the invariant must speak of the answers so far, which a longer run restricts further
  refine run_invariant
    (P := fun events s _ => (∀ answer, .answerSend answer ∈ events → answer = .ok ()) →
      s.phase = .draining → s.buffer = [])
    ?_ (fun events s l e _ hi => ?_) events h hp
  · intro _ hd
    rw [hs] at hd
    cases hd
  · intro hok
    have hrest := hi fun answer ha => hok answer (List.mem_append_left _ ha)
    refine (transition_step s e).drained (fun cause hcause => ?_) hrest
    cases hok (.error cause) (List.mem_append_right _ (hcause ▸ List.mem_cons_self))

theorem not_lost_run {s : Service} (hs : s.Sound) (hrunning : s.phase = .running)
    {events : List Event} (h : ∀ answer, .answerSend answer ∈ events → answer = .ok ()) :
    lost (s.run events).2 = 0 := by
  by_cases hlost : ∃ n, .lost n ∈ (s.run events).2
  · obtain ⟨n, hn⟩ := hlost
    rw [lost_eq_of_mem hs hn]
    obtain ⟨before, e, after, rfl, hstep⟩ := exists_step_of_mem_run hn
    have hbefore : ∀ answer, .answerSend answer ∈ before → answer = .ok () := fun answer ha =>
      h answer (List.mem_append_left _ ha)
    obtain ⟨t, -, -, hd⟩ | ⟨t, cause, -, -, -, -, hd⟩ | ⟨phase, -, -, -, hd⟩ :=
      (transition_step _ e).of_isExit hstep rfl
    · cases hd
    · cases hd
    · -- the stop finds an empty buffer, so there is nothing to warn of
      cases hd
      rw [drained_run hrunning hbefore phase]
      rfl
  · exact lost_eq_zero fun n hn => hlost ⟨n, hn⟩

/-- Without failures the accepted messages carry all that was ever buffered. -/
theorem delivered_eq_stored {s : Service} (hs : s.Sound) (h₀ : s.held = [])
    (hrunning : s.phase = .running) {events : List Event}
    (h : ∀ answer, .answerSend answer ∈ events → answer = .ok ())
    (hp : (s.run events).1.phase = .stopped) : delivered (s.run events).2 = s.stored events := by
  have hb := balanced_run hs events
  have hheld : (s.run events).1.held = [] := by
    have hstopped := (sound_run hs events).stopped hp
    rw [held_of_idle hstopped.1]
    exact hstopped.2.1
  have hdropped := not_cut_of_not_failed (not_failed_run (s := s) h)
  have hlost := not_lost_run hs hrunning h
  obtain ⟨order, count⟩ := hb
  rw [h₀, hheld] at order count
  rw [List.append_nil, List.nil_append] at order
  -- what was delivered is as long as what was stored, as nothing was dropped or lost
  apply order.eq_of_length
  simp only [List.length_nil] at count
  omega

/-! ## What is stored without filtering -/

/-- The record that an event makes the service take up. -/
def takenBy (s : Service) : Event → List Record
  | .work => s.nextRecord?.toList
  | _ => []

theorem takenBy_of_batch {s : Service} (batch : s.batch = []) : s.takenBy .work = [] := by
  rw [takenBy, nextRecord?_of_batch batch]
  rfl

theorem takenBy_of_free {s : Service} {r : Record} {rest : List Record} (free : s.Free)
    (batch : s.batch = r :: rest) : s.takenBy .work = [r] := by
  rw [takenBy, nextRecord?_of_free free batch]
  rfl

theorem Transition.handled_eq {s s' : Service} {e : Event} {l : List Occurrence}
    (h : Transition s e s' l) : handled l = s.takenBy e := by
  cases h with
  | idle blocked =>
    cases e with
    | work =>
      rw [takenBy, nextRecord?_of_blocked blocked]
      rfl
    | _ => rfl
  | @refused r _ m free batch turned aside =>
    change handled ([.handled r] ++ m) = _
    rw [takenBy_of_free free batch, handled_append, handled_of_isRefusal aside]
    rfl
  | stored free batch | filled free batch =>
    rw [takenBy_of_free free batch]
    rfl
  | opened free batch | closed free batch | closing free batch =>
    rw [takenBy_of_batch batch]
    rfl
  | @reported awaited _ free batch queue =>
    rw [takenBy_of_batch batch]
    cases awaited <;> rfl
  | stopped phase sending =>
    rw [takenBy, nextRecord?_of_phase (by simp [phase]), handled_stop]
    rfl
  | failed sending => split <;> rfl
  | @fetched _ _ _ _ answer refresh | @refreshed _ _ answer refresh => cases answer <;> rfl
  | _ => rfl

/-- What a step stores comes from the record that is taken up in it. -/
theorem Transition.storedBy_eq {s s' : Service} {e : Event} {l : List Occurrence}
    (h : Transition s e s' l) : s.storedBy e = (handled l).filterMap s.stored? := by
  rw [h.handled_eq]
  cases e with
  | work =>
    rw [storedBy, takenBy]
    cases s.nextRecord? with
    | none => rfl
    | some r =>
      rw [Option.bind_some, Option.toList_some, List.filterMap_cons]
      cases s.stored? r <;> rfl
  | _ => rfl

/-- The metric of a record, if it has all that a metric needs. -/
def metric? (r : Record) : Option Metric := (Metric.ofRecord r).toOption

theorem toOption_encode (e : Encoder) (r : Record) :
    (e.encode r).toOption = (metric? r).map Metric.encode := by
  cases e
  rw [Encoder.encode, metric?]
  cases Metric.ofRecord r <;> rfl

theorem stored?_of_not_enabled {s : Service} (h : s.filter.enabled = false) (r : Record) :
    s.stored? r = (metric? r).map Metric.encode := by
  have hadmits : s.admits r = true := by
    rw [admits, h]
    rfl
  rw [stored?, if_pos hadmits, toOption_encode]

/-- Without filtering every record that is taken up and makes a metric is stored. -/
theorem stored_eq_handled {s : Service} (h : s.filter.enabled = false) (events : List Event) :
    s.stored events = ((handled (s.run events).2).filterMap metric?).map Metric.encode := by
  have hrun := run_invariant
    (P := fun events t l => t.filter.enabled = false ∧
      s.stored events = ((handled l).filterMap metric?).map Metric.encode)
    ⟨h, rfl⟩ (fun events t l e hrun hi => ?_) events
  · exact hrun.2
  · have ht := transition_step t e
    refine ⟨ht.filter_enabled.trans hi.1, ?_⟩
    have hstep : t.storedBy e = ((handled (t.step e).2).filterMap metric?).map Metric.encode := by
      rw [ht.storedBy_eq, List.map_filterMap]
      exact congrArg (fun f => (handled (t.step e).2).filterMap f)
        (funext (stored?_of_not_enabled hi.1))
    calc s.stored (events ++ [e])
        = s.stored events ++ t.storedBy e := by rw [stored, gather_concat, hrun]; rfl
      _ = ((handled l).filterMap metric?).map Metric.encode ++
          ((handled (t.step e).2).filterMap metric?).map Metric.encode := by rw [hi.2, hstep]
      _ = ((handled (l ++ (t.step e).2)).filterMap metric?).map Metric.encode := by
        rw [handled_append, List.filterMap_append, List.map_append]

end MetricRelay.Service
