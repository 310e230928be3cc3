import MetricRelay.Proofs.AgentData
import MetricRelay.Proofs.Service.Commands
import MetricRelay.Proofs.Service.Conservation

/-!
What passes the filter. Main statement: with filtering every record that the service holds or gives to
the client was inserted before, and when it was taken up the keys last learned for its host contained its
key.
-/
namespace MetricRelay

/-- The keys that are known of a host. -/
def Filter.keys? (f : Filter) (host : String) : Option ActiveKeys := (f.hosts.find? host).join

namespace Service

open Batch (Transmission)

def Occurrence.learnedFor? (host : String) : Occurrence → Option ActiveKeys
  | .learned name keys => if name = host then some keys else none
  | _ => none

/-- The keys that were learned for a host last. -/
def lastLearned (host : String) (l : List Occurrence) : Option ActiveKeys :=
  (l.filterMap (Occurrence.learnedFor? host)).getLast?

theorem lastLearned_append (host : String) (l m : List Occurrence) :
    lastLearned host (l ++ m) = (lastLearned host m).or (lastLearned host l) := by
  rw [lastLearned, List.filterMap_append, List.getLast?_append]
  rfl

/-! ## What the filter knows -/

theorem keys?_note (f : Filter) (name host : String) : (f.note name).keys? host = f.keys? host := by
  rw [Filter.keys?, Filter.keys?, Filter.find?_note]
  split
  · -- a host is noted only if it was not known at all
    cases f.hosts.find? host <;> rfl
  · rfl

theorem keys?_pass (f : Filter) (name key host : String) :
    (f.pass name key).2.keys? host = f.keys? host := by
  rw [Filter.pass]
  split
  · split
    · rfl
    · exact keys?_note f name host
  · rfl

theorem keys?_filterAfter (s : Service) (r : Record) (host : String) :
    (s.filterAfter r).keys? host = s.filter.keys? host := by
  rw [filterAfter]
  split
  · exact keys?_pass _ _ _ _
  · rfl

theorem keys?_learn (f : Filter) (name host : String) (answer : Except ClientError ActiveKeys) :
    (f.learn name answer).keys? host =
      (Occurrence.learnedFor? host (fetchOccurrence name answer)).or (f.keys? host) := by
  cases answer with
  | error cause => rfl
  | ok keys =>
    -- the new keys take the place of what was known, pending or not
    have hl : (f.learn name (.ok keys)).keys? host =
        (if host = name then some (some keys) else f.hosts.find? host).join :=
      congrArg Option.join (Filter.find?_replace f name host keys)
    rw [hl, fetchOccurrence, Occurrence.learnedFor?]
    by_cases h : host = name
    · rw [if_pos h, if_pos h.symm]
      rfl
    · rw [if_neg h, if_neg fun h' => h h'.symm]
      rfl

theorem lastLearned_of_isRefusal (host : String) {l : List Occurrence}
    (h : ∀ o ∈ l, o.isRefusal = true) : lastLearned host l = none := by
  have hf : l.filterMap (Occurrence.learnedFor? host) = [] := by
    apply List.filterMap_eq_nil_iff.mpr
    intro o ho
    have hr := h o ho
    cases o <;> first | rfl | cases hr
  rw [lastLearned, hf]
  rfl

theorem lastLearned_stop (host : String) (s : Service) :
    lastLearned host ((if s.buffer = [] then [] else [.lost s.buffer.length]) ++
      .stopped :: lateReports s.queue) = none := by
  rw [lastLearned, List.filterMap_eq_nil_iff.mpr fun o ho => ?_]
  · rfl
  · rcases eq_of_mem_stop ho with rfl | rfl | rfl <;> rfl

theorem lastLearned_pair {host : String} {o o' : Occurrence}
    (h : Occurrence.learnedFor? host o' = none) :
    lastLearned host [o, o'] = Occurrence.learnedFor? host o := by
  rw [lastLearned, List.filterMap_cons, List.filterMap_cons, h]
  cases Occurrence.learnedFor? host o <;> rfl

/-- A step changes what is known of a host only by what it learns. -/
theorem Transition.keys? {s s' : Service} {e : Event} {l : List Occurrence}
    (h : Transition s e s' l) (host : String) :
    s'.filter.keys? host = (lastLearned host l).or (s.filter.keys? host) := by
  cases h with
  | @refused r rest l free batch turned aside =>
    have hl : lastLearned host (.handled r :: l) = none := by
      change lastLearned host ([.handled r] ++ l) = none
      rw [lastLearned_append, lastLearned_of_isRefusal host aside]
      rfl
    rw [hl]
    exact keys?_filterAfter s r host
  | stored _ _ _ _ | filled _ _ _ _ _ => exact keys?_filterAfter s _ host
  | @reported awaited _ _ _ _ => cases awaited <;> rfl
  | stopped phase sending =>
    rw [lastLearned_stop]
    rfl
  | failed sending => split <;> rfl
  | fetched refresh | refreshed refresh =>
    rw [lastLearned_pair rfl]
    exact keys?_learn s.filter _ host _
  | _ => rfl

theorem Transition.filter_enabled {s s' : Service} {e : Event} {l : List Occurrence}
    (h : Transition s e s' l) : s'.filter.enabled = s.filter.enabled := by
  have hpass (r : Record) : (s.filterAfter r).enabled = s.filter.enabled := by
    rw [filterAfter]
    split
    · next key host _ _ =>
      rw [Filter.pass]
      split
      · split
        · rfl
        · rw [Filter.note]
          split <;> rfl
      · rfl
    · rfl
  cases h with
  | refused | stored | filled => exact hpass _
  | @fetched _ _ _ _ answer _ | @refreshed _ _ answer _ => cases answer <;> rfl
  | _ => rfl

theorem filter_enabled_run {config : Config} {localHost : String} {now : Duration} {s₀ : Service}
    (hstart : start config localHost now = .ok s₀) (events : List Event) :
    (s₀.run events).1.filter.enabled = config.filtering := by
  refine run_invariant (P := fun _ s _ => s.filter.enabled = config.filtering) ?_
    (fun _ s _ e _ hi => (transition_step s e).filter_enabled.trans hi) events
  obtain ⟨-, rfl⟩ := start_eq hstart
  rfl

/-- The filter knows of every host the keys that were learned last. -/
theorem keys?_run {config : Config} {localHost : String} {now : Duration} {s₀ : Service}
    (hstart : start config localHost now = .ok s₀) (events : List Event) (host : String) :
    (s₀.run events).1.filter.keys? host = lastLearned host (s₀.run events).2 := by
  refine run_invariant (P := fun _ s l => s.filter.keys? host = lastLearned host l)
    ?_ (fun _ s l e _ hi => ?_) events
  · obtain ⟨-, rfl⟩ := start_eq hstart
    change ((Table.empty.insert localHost none).find? host).join = none
    rw [Table.find?_insert]
    split <;> rfl
  · rw [(transition_step s e).keys? host, lastLearned_append, hi]

/-! ## What is stored -/

/-- A record that goes into the buffer is encoded with the host and key that the filter judged. -/
theorem stored?_eq_some {s : Service} {r : Record} {p : Bytes} (h : s.stored? r = some p)
    (henabled : s.filter.enabled = true) :
    ∃ host key value keys, s.encoder.encode r = .ok p ∧
      (Json.Value.read? p).bind AgentData.element? = some (host, key, value) ∧
      s.filter.hosts.find? host = some (some keys) ∧ keys.contains key = true := by
  rw [stored?] at h
  split at h
  · next hadmits =>
    rw [admits, if_pos henabled] at hadmits
    have hencode : s.encoder.encode r = .ok p := by
      cases he : s.encoder.encode r with
      | error e => rw [he] at h; cases h
      | ok q => rw [he] at h; cases h; rfl
    -- the encoder looks up the same host and key that the filter was asked about
    obtain ⟨m, hm, rfl⟩ := Encoder.encode_eq_ok hencode
    obtain ⟨hhost, hkey, -⟩ := Metric.of_ofRecord hm
    rw [hhost, hkey] at hadmits
    have hjudge : s.filter.judge m.host m.key = some true := eq_of_beq hadmits
    obtain ⟨keys, hkeys, hcontains⟩ := Filter.judge_eq_true_iff.mp hjudge
    exact ⟨m.host, m.key, m.value, keys, hencode, m.read?_encode, hkeys, hcontains⟩
  · cases h

theorem mem_unsent_of_current {t : Transmission} {p : Bytes} (h : p ∈ t.current) : p ∈ t.unsent :=
  List.mem_append_left _ h

/-- What is given to the client is held until it is accepted. -/
theorem Transition.mem_held_of_offered {s s' : Service} {e : Event} {l : List Occurrence}
    {records : List Bytes} (h : Transition s e s' l) (ho : .offered records ∈ l) {p : Bytes}
    (hp : p ∈ records) : p ∈ s'.held := by
  obtain ⟨t, ht, rfl⟩ := h.sending_of_offered ho
  rw [held, ht]
  exact List.mem_append_left _ (mem_unsent_of_current hp)

theorem mem_stored_of_held {s : Service} (hs : s.Sound) (h₀ : s.held = []) {events : List Event}
    {p : Bytes} (h : p ∈ (s.run events).1.held) : p ∈ s.stored events := by
  have horder := (balanced_run hs events).order
  rw [h₀, List.nil_append] at horder
  exact horder.subset (List.mem_append_right _ h)

/-- What is in the buffer or was ever given to the client was appended to the buffer before. -/
theorem mem_stored {s : Service} (hs : s.Sound) (h₀ : s.held = []) {events : List Event} {p : Bytes}
    (h : p ∈ (s.run events).1.buffer ∨ ∃ records, .offered records ∈ (s.run events).2 ∧ p ∈ records) :
    p ∈ s.stored events := by
  rcases h with h | ⟨records, ho, hp⟩
  · exact mem_stored_of_held hs h₀ (List.mem_append_right _ h)
  · -- right after the message was given its records are held
    obtain ⟨before, e, after, rfl, hoffered⟩ := exists_step_of_mem_run ho
    have hheld : p ∈ (s.run (before ++ [e])).1.held := by
      rw [run_concat]
      exact (transition_step _ e).mem_held_of_offered hoffered hp
    have hsplit : before ++ e :: after = (before ++ [e]) ++ after := by simp
    rw [hsplit, stored, gather_append]
    exact List.mem_append_left _ (mem_stored_of_held hs h₀ hheld)

/-- A record that is taken up was inserted before. -/
theorem mem_posted_of_nextRecord? {posted obeyed : List Command} {s : Service} {l : List Occurrence}
    {r : Record} (h : InOrder posted obeyed s l) (hr : s.nextRecord? = some r) :
    r ∈ posted.flatMap Command.records := by
  rw [nextRecord?] at hr
  split at hr
  · next free =>
    have hbatch : r ∈ s.batch := List.mem_of_mem_head? hr
    have hobeyed : r ∈ obeyed.flatMap Command.records :=
      h.records ▸ List.mem_append_right _ hbatch
    rw [(h.waiting free.1).1, List.flatMap_append]
    exact List.mem_append_left _ hobeyed
  · cases hr

/-- With filtering every record in the buffer or in a message that the client was given was inserted, and
at the moment when it was taken up the keys last learned for the host that it names contained the key
that it names. -/
theorem held_admitted {config : Config} {localHost : String} {now : Duration} {s₀ s : Service}
    {events : List Event} {l : List Occurrence} {p : Bytes}
    (hstart : start config localHost now = .ok s₀) (hfiltering : config.filtering = true)
    (hrun : s₀.run events = (s, l))
    (hp : p ∈ s.buffer ∨ ∃ records, .offered records ∈ l ∧ p ∈ records) :
    ∃ before after r host key value keys, events = before ++ .work :: after ∧
      (s₀.run before).1.nextRecord? = some r ∧
      r ∈ (s₀.posted before).flatMap Command.records ∧
      (s₀.run before).1.encoder.encode r = .ok p ∧
      (Json.Value.read? p).bind AgentData.element? = some (host, key, value) ∧
      (s₀.run before).1.filter.hosts.find? host = some (some keys) ∧
      lastLearned host (s₀.run before).2 = some keys ∧ keys.contains key = true := by
  have hs₀ := sound_start hstart
  have h₀ := held_start hstart
  have hstored : p ∈ s₀.stored events := by
    apply mem_stored hs₀ h₀
    rwa [hrun]
  obtain ⟨before, e, after, rfl, hpe⟩ := mem_gather hstored
  -- the step that stored it took up a record, and no other kind of step stores anything
  cases e with
  | work =>
    obtain ⟨r, hr, hkept⟩ := Option.bind_eq_some_iff.mp (Option.mem_toList.mp hpe)
    have henabled := (filter_enabled_run hstart before).trans hfiltering
    obtain ⟨host, key, value, keys, hencode, hread, hkeys, hcontains⟩ :=
      stored?_eq_some hkept henabled
    -- the keys that the filter has are those learned last before this step
    have hlearned := keys?_run hstart before host
    rw [Filter.keys?, hkeys] at hlearned
    exact ⟨before, after, r, host, key, value, keys, rfl, hr,
      mem_posted_of_nextRecord? (inOrder_run (inOrder_start hstart) before) hr, hencode, hread, hkeys,
      hlearned.symm, hcontains⟩
  | _ => cases hpe

/-- A record with names in several spellings; its key is set twice. -/
def motley : Record :=
  ((((Record.empty 0).set "KEY" (.text "k")).set "Host" (.text "h")).set "VALUE" (.text "1")).set
    "KEY" (.text "k2")

/-- The keys of the host are fetched after the record was inserted, and again after it was taken up. -/
def learning : List Event :=
  [.post (.insert motley), .refreshTick ["h"],
    .answerFetch (.ok (Table.empty.insert "k2" (.ofSecs 60))), .work, .work, .elapse (.ofSecs 300),
    .refreshTick ["h"], .answerFetch (.ok Table.empty)]

theorem held_admitted_learning :
    ∃ s₀ s l p, start {} "h" .zero = .ok s₀ ∧ Config.filtering {} = true ∧
      s₀.run learning = (s, l) ∧ s.buffer = [p] ∧
      ∃ before after r host key value keys, learning = before ++ .work :: after ∧
        (s₀.run before).1.nextRecord? = some r ∧
        (s₀.run before).1.encoder.encode r = .ok p ∧
        (Json.Value.read? p).bind AgentData.element? = some (host, key, value) ∧
        lastLearned host (s₀.run before).2 = some keys ∧ keys.contains key = true := by
  refine ⟨_, _, _, Metric.encode ⟨"h", "k2", "1", 0⟩, rfl, rfl, rfl, by decide +kernel, ?_⟩
  obtain ⟨before, after, r, host, key, value, keys, hsplit, hr, -, hencode, hread, -, hlearned,
    hcontains⟩ := @held_admitted {} "h" .zero _ _ learning _ (Metric.encode ⟨"h", "k2", "1", 0⟩) rfl
      rfl rfl (Or.inl (by decide +kernel))
  exact ⟨before, after, r, host, key, value, keys, hsplit, hr, hencode, hread, hlearned, hcontains⟩

end Service

end MetricRelay
