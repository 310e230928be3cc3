import MetricRelay.Proofs.Report
import MetricRelay.Proofs.Seen
import MetricRelay.Proofs.Service.Acceptance
import MetricRelay.Proofs.Service.Bounds

/-!
Reports that the service answers. Main statement: a report tells, at the place of its request in the
queue, the keys last learned for every host and those that the records taken up before had and no sweep
forgot, in whatever order hosts and keys are gone through.
-/
namespace MetricRelay

open Report (Lists Reordered hostText)

/-- The host and the key of a record, if both are texts. -/
def Record.pair? (r : Record) : Option (String × String) :=
  match r.key, r.host with
  | .ok key, .ok host => some (host, key)
  | _, _ => none

/-- The pair that a deed notes. -/
def Seen.Deed.touched? : Seen.Deed → Option (String × String)
  | .touch host key _ => some (host, key)
  | .sweep _ _ => none

/-! ## Hosts with their keys -/

namespace Filter

theorem mem_known_iff {f : Filter} {host : String} {names : List String} :
    (host, names) ∈ f.known ↔ ∃ keys, f.keys? host = some keys ∧ keys.names = names := by
  rw [known, List.mem_filterMap]
  constructor
  · rintro ⟨⟨other, value⟩, hmem, he⟩
    obtain ⟨keys, rfl, he⟩ := Option.map_eq_some_iff.mp he
    cases he
    rw [keys?, Table.find?_eq_some_iff.mpr hmem]
    exact ⟨keys, rfl, rfl⟩
  · rintro ⟨keys, hkeys, rfl⟩
    have hfind := Option.join_eq_some_iff.mp hkeys
    exact ⟨(host, some keys), Table.find?_eq_some_iff.mp hfind, rfl⟩

theorem exists_known_iff (f : Filter) (P : String → List String → Prop) :
    (∃ e ∈ f.known, P e.1 e.2) ↔ ∃ host keys, f.keys? host = some keys ∧ P host keys.names := by
  constructor
  · rintro ⟨⟨host, names⟩, hmem, hP⟩
    obtain ⟨keys, hkeys, rfl⟩ := mem_known_iff.mp hmem
    exact ⟨host, keys, hkeys, hP⟩
  · rintro ⟨host, keys, hkeys, hP⟩
    exact ⟨_, mem_known_iff.mpr ⟨keys, hkeys, rfl⟩, hP⟩

end Filter

namespace Seen

/-- The keys that are shown of hosts are those that their history leaves. -/
theorem exists_mem_keys_replay_iff (history : List Deed) (P : String → Prop) (key : String) :
    (∃ e ∈ (replay history).keys, P e.1 ∧ key ∈ e.2) ↔ ∃ host, P host ∧ (host, key) ∈ held history := by
  constructor
  · rintro ⟨⟨host, names⟩, hmem, hP, hkey⟩
    obtain ⟨keys, hkeys, rfl⟩ := mem_keys_iff.mp hmem
    obtain ⟨time, htime⟩ := Option.isSome_iff_exists.mp ((Table.find?_isSome_iff keys key).mpr hkey)
    have hlast : (replay history).last? host key = some time :=
      Option.bind_eq_some_iff.mpr ⟨keys, hkeys, htime⟩
    exact ⟨host, hP, (mem_held_iff history host key).mpr ⟨time, hlast⟩⟩
  · rintro ⟨host, hP, hheld⟩
    obtain ⟨time, hlast⟩ := (mem_held_iff history host key).mp hheld
    obtain ⟨keys, hkeys, htime⟩ := Option.bind_eq_some_iff.mp hlast
    refine ⟨_, mem_keys_iff.mpr ⟨keys, hkeys, rfl⟩, hP, ?_⟩
    exact (Table.find?_isSome_iff keys key).mp (Option.isSome_iff_exists.mpr ⟨time, htime⟩)

theorem exists_keys_replay_iff (history : List Deed) (P : String → Prop) :
    (∃ e ∈ (replay history).keys, P e.1) ↔ ∃ host key, P host ∧ (host, key) ∈ held history := by
  constructor
  · rintro ⟨⟨host, names⟩, hmem, hP⟩
    -- a host is shown only with keys
    obtain ⟨keys, hkeys, rfl⟩ := mem_keys_iff.mp hmem
    obtain ⟨pair, hpair⟩ := List.exists_mem_of_ne_nil _ (tidy_replay history host keys hkeys)
    obtain ⟨other, hother, hheld⟩ := (exists_mem_keys_replay_iff history P pair.1).mp
      ⟨_, hmem, hP, List.mem_map_of_mem hpair⟩
    exact ⟨other, pair.1, hother, hheld⟩
  · rintro ⟨host, key, hP, hheld⟩
    obtain ⟨e, hmem, he, -⟩ := (exists_mem_keys_replay_iff history P key).mpr ⟨host, hP, hheld⟩
    exact ⟨e, hmem, he⟩

end Seen

namespace Service

/-! ## What is done to the seen keys -/

/-- What is done to the seen keys when a record is taken up, whether it passes the filter or not. -/
def touchOf? (s : Service) (r : Record) : Option Seen.Deed :=
  if s.filter.enabled && s.config.tracksSeen then
    r.pair?.map fun p => .touch p.1 p.2 s.seenClock
  else none

def seenDeedsBy (s : Service) : Event → List Seen.Deed
  | .sweepTick => if s.canSweep then [.sweep s.seenClock s.config.seenWindow] else []
  | e => (s.takenBy e).filterMap s.touchOf?

/-- What a run does to the seen keys. -/
def seenDeeds (s : Service) (events : List Event) : List Seen.Deed := gather seenDeedsBy s events

theorem seenAfter_eq (s : Service) (r : Record) :
    s.seenAfter r = ([r].filterMap s.touchOf?).foldl Seen.perform s.seen := by
  rw [seenAfter, List.filterMap_cons, touchOf?, Record.pair?]
  cases r.key with
  | error e => cases s.filter.enabled && s.config.tracksSeen <;> rfl
  | ok key =>
    cases r.host with
    | error e => cases s.filter.enabled && s.config.tracksSeen <;> rfl
    | ok host => cases s.filter.enabled && s.config.tracksSeen <;> rfl

theorem seenDeedsBy_work (s : Service) :
    s.seenDeedsBy .work = (s.takenBy .work).filterMap s.touchOf? := rfl

theorem Transition.seen_eq {s s' : Service} {e : Event} {l : List Occurrence}
    (h : Transition s e s' l) : s'.seen = (s.seenDeedsBy e).foldl Seen.perform s.seen := by
  cases h with
  | idle blocked =>
    cases e with
    | work =>
      rw [seenDeedsBy_work, takenBy, nextRecord?_of_blocked blocked]
      rfl
    | sweepTick =>
      rw [seenDeedsBy, if_neg (Bool.eq_false_iff.mp blocked)]
      rfl
    | _ => rfl
  | refused free batch | stored free batch | filled free batch =>
    rw [seenDeedsBy_work, takenBy_of_free free batch]
    exact seenAfter_eq s _
  | opened free batch | reported free batch | closed free batch | closing free batch =>
    rw [seenDeedsBy_work, takenBy_of_batch batch]
    rfl
  | stopped phase sending =>
    rw [seenDeedsBy_work, takenBy, nextRecord?_of_phase (by simp [phase])]
    rfl
  | swept can =>
    rw [seenDeedsBy, if_pos can]
    rfl
  | _ => rfl

theorem seen_run (s : Service) (events : List Event) :
    (s.run events).1.seen = (s.seenDeeds events).foldl Seen.perform s.seen := by
  refine run_invariant (P := fun events t _ => t.seen = (s.seenDeeds events).foldl Seen.perform s.seen)
    rfl (fun events t l e hrun hi => ?_) events
  rw [(transition_step t e).seen_eq, seenDeeds, gather_concat, hrun, List.foldl_append, hi]
  rfl

theorem touched_touchOf (s : Service) (l : List Record) :
    (l.filterMap s.touchOf?).filterMap Seen.Deed.touched? =
      if s.filter.enabled && s.config.tracksSeen then l.filterMap Record.pair? else [] := by
  rw [List.filterMap_filterMap]
  split
  · next h =>
    congr 1
    funext r
    rw [touchOf?, if_pos h]
    cases r.pair? <;> rfl
  · next h =>
    apply List.filterMap_eq_nil_iff.mpr
    intro r _
    rw [touchOf?, if_neg h]
    rfl

theorem touched_seenDeedsBy (s : Service) (e : Event) :
    (s.seenDeedsBy e).filterMap Seen.Deed.touched? =
      if s.filter.enabled && s.config.tracksSeen then (s.takenBy e).filterMap Record.pair? else [] := by
  cases e with
  | sweepTick =>
    -- a sweep notes nothing, and no record is taken up in it
    rw [← touched_touchOf, seenDeedsBy]
    split <;> rfl
  | _ => exact touched_touchOf s _

/-- With filtering and tracking the pairs that are noted are those of the records taken up, in order;
otherwise nothing is noted. -/
theorem touched_seenDeeds {config : Config} {localHost : String} {now : Duration} {s₀ : Service}
    (hstart : start config localHost now = .ok s₀) (events : List Event) :
    (s₀.seenDeeds events).filterMap Seen.Deed.touched? =
      if config.filtering && config.tracksSeen then
        (handled (s₀.run events).2).filterMap Record.pair?
      else [] := by
  refine run_invariant
    (P := fun events _ l => (s₀.seenDeeds events).filterMap Seen.Deed.touched? =
      if config.filtering && config.tracksSeen then (handled l).filterMap Record.pair? else [])
    (by split <;> rfl) (fun events t l e hrun hi => ?_) events
  have henabled := filter_enabled_run hstart events
  have hconfig := config_run hstart events
  rw [hrun] at henabled hconfig
  rw [seenDeeds, gather_concat, hrun, List.filterMap_append, ← seenDeeds, hi, touched_seenDeedsBy,
    henabled, hconfig, handled_append, (transition_step t e).handled_eq, List.filterMap_append]
  split <;> rfl

/-! ## What a report tells -/

/-- What a report tells that is answered after a run from `s₀` to `s`. -/
structure Snapshot (config : Config) (s₀ s : Service) (events : List Event) (l : List Occurrence)
    (r : Report) : Prop where
  /-- The commands put into the queue before the request were taken up, and none behind it. -/
  place : ∃ behind, s₀.posted events = s₀.obeyed events ++ .report true :: behind
  /-- All their records were handled. -/
  records : handled l = (s₀.obeyed events).flatMap Command.records
  /-- A host is known by the keys that were learned last for it. -/
  known : ∀ host, s.filter.keys? host = lastLearned host l
  active : ∀ n, (r.get? ("ActiveChecks-" ++ n)).isSome ↔
    ∃ host keys, hostText host = n ∧ s.filter.keys? host = some keys
  activeText : ∀ n text, r.get? ("ActiveChecks-" ++ n) = some text → Lists text fun key =>
    ∃ host keys, hostText host = n ∧ s.filter.keys? host = some keys ∧ keys.contains key = true
  /-- With filtering and tracking every handled record with a key and a host is noted as seen. -/
  touched : (s₀.seenDeeds events).filterMap Seen.Deed.touched? =
    if config.filtering && config.tracksSeen then (handled l).filterMap Record.pair? else []
  seen : ∀ n, (r.get? ("KeySeen-" ++ n)).isSome ↔
    ∃ host key, hostText host = n ∧ (host, key) ∈ Seen.held (s₀.seenDeeds events)
  seenText : ∀ n text, r.get? ("KeySeen-" ++ n) = some text → Lists text fun key =>
    ∃ host, hostText host = n ∧ (host, key) ∈ Seen.held (s₀.seenDeeds events)
  /-- There is nothing else in the report. -/
  only : ∀ name, (r.get? name).isSome → ∃ n, name = "ActiveChecks-" ++ n ∨ name = "KeySeen-" ++ n
  /-- The order in which hosts and keys are gone through does not count. -/
  order : ∀ expected seen, Reordered s.filter.known expected → Reordered s.seen.keys seen →
    Report.ofKeys expected seen = r

theorem currentReport_eq (s : Service) :
    s.currentReport = Report.ofKeys s.filter.known s.seen.keys := rfl

theorem queue_of_nextCommand? {s : Service} {c : Command} (h : s.nextCommand? = some c) :
    s.Free ∧ s.batch = [] ∧ ∃ rest, s.queue = c :: rest := by
  rw [nextCommand?] at h
  split at h
  · next hf => exact ⟨hf.1, hf.2, List.head?_eq_some_iff.mp h⟩
  · cases h

/-- A request that is taken up is answered with the report of that moment. -/
theorem reported_of_nextCommand? {s : Service} (h : s.nextCommand? = some (.report true)) :
    (s.step .work).2 = [.reported s.currentReport] := by
  obtain ⟨free, batch, rest, queue⟩ := queue_of_nextCommand? h
  change s.work.2 = _
  rw [work_of_command free batch queue]
  rfl

/-- A request for a report that the service takes up is answered, and the report tells what is known and
was seen at the place of the request in the queue. -/
theorem report_snapshot {config : Config} {localHost : String} {now : Duration} {s₀ s : Service}
    {events : List Event} {l : List Occurrence} (hstart : start config localHost now = .ok s₀)
    (hrun : s₀.run events = (s, l)) (hnext : s.nextCommand? = some (.report true)) :
    (s.step .work).2 = [.reported s.currentReport] ∧
      Snapshot config s₀ s events l s.currentReport := by
  obtain ⟨free, batch, rest, queue⟩ := queue_of_nextCommand? hnext
  have horder := inOrder_run (inOrder_start hstart) events
  have hknown := keys?_run hstart events
  have htouched := touched_seenDeeds hstart events
  have hseen : s.seen = Seen.replay (s₀.seenDeeds events) := by
    have hreplay := seen_run s₀ events
    obtain ⟨-, rfl⟩ := start_eq hstart
    rwa [hrun] at hreplay
  rw [hrun] at horder hknown htouched
  refine ⟨reported_of_nextCommand? hnext, ?_⟩
  rw [currentReport_eq]
  constructor
  case place =>
    refine ⟨rest, ?_⟩
    rw [(horder.waiting free.1).1, queue]
  case records =>
    have hrecords := horder.records
    rwa [batch, List.append_nil] at hrecords
  case known => exact hknown
  case active =>
    intro n
    rw [Report.isSome_get?_activeChecks, s.filter.exists_known_iff fun host _ => hostText host = n]
    simp only [and_comm]
  case activeText =>
    intro n text h
    refine (Report.lists_activeChecks h).congr fun key => ?_
    rw [s.filter.exists_known_iff fun host names => hostText host = n ∧ key ∈ names]
    simp only [Table.contains, Table.find?_isSome_iff, and_left_comm]
  case touched => exact htouched
  case seen =>
    intro n
    rw [Report.isSome_get?_keySeen, hseen]
    exact Seen.exists_keys_replay_iff _ fun host => hostText host = n
  case seenText =>
    intro n text h
    refine (Report.lists_keySeen h).congr fun key => ?_
    rw [hseen]
    exact Seen.exists_mem_keys_replay_iff _ (fun host => hostText host = n) key
  case only => exact fun name h => Report.eq_heading_of_get? h
  case order =>
    intro expected seen hexpected hkeys
    exact (Report.ofKeys_eq_of_reordered hexpected hkeys).symm

/-- Seen keys are forgotten after a minute. -/
def tracking : Config := { seenWindow := .ofSecs 60 }

/-- Two hosts have one name in reports. Of the records that are taken up once the first ones are out of date
one passes, one has no value, one does not pass and one has no key. -/
def surveyed : List Event :=
  let expected := (Table.empty.insert "x" (.ofSecs 60)).insert "w" (.ofSecs 60)
  let keyless := (Record.empty 0).set "host" (.text "a.b")
  [.refreshTick ["a.b"], .answerFetch (.ok expected),
    .post (.insertBatch [.metric "a_b" "old" "1" 0, .metric "h" "old" "1" 0]), .work, .work, .work,
    .elapse (.ofSecs 60), .age (.ofSecs 61),
    .post (.insertBatch
      [.metric "a.b" "x" "1" 0, keyless.set "key" (.text "w"), .metric "a_b" "y" "1" 0, keyless]),
    .work, .work, .work, .work, .work, .sweepTick, .post (.report true)]

theorem report_snapshot_surveyed :
    ∃ s₀ s l, start tracking "a.b" .zero = .ok s₀ ∧ s₀.run surveyed = (s, l) ∧
      s.nextCommand? = some (.report true) ∧ (s.step .work).2 = [.reported s.currentReport] ∧
      s.currentReport.text = "ActiveChecks-a_b: w x\nKeySeen-a_b: w x y\n" ∧
      Snapshot tracking s₀ s surveyed l s.currentReport := by
  have hready : ∃ s₀ s l, start tracking "a.b" .zero = .ok s₀ ∧ s₀.run surveyed = (s, l) ∧
      s.nextCommand? = some (.report true) ∧
      s.currentReport.text = "ActiveChecks-a_b: w x\nKeySeen-a_b: w x y\n" :=
    ⟨_, _, _, rfl, rfl, by decide +kernel, by decide +kernel⟩
  obtain ⟨s₀, s, l, hstart, hrun, hnext, htext⟩ := hready
  obtain ⟨hreported, hsnapshot⟩ := report_snapshot hstart hrun hnext
  exact ⟨s₀, s, l, hstart, hrun, hnext, hreported, htext, hsnapshot⟩

end Service

end MetricRelay

