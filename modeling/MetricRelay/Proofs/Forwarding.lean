import MetricRelay.Proofs.AgentData
import MetricRelay.Proofs.Inbound
import MetricRelay.Proofs.Service.Acceptance
import MetricRelay.Rehearsal.Action

/-!
From datagrams to messages. Main statement: without filtering, and with a client that accepts every
message, the messages carry exactly what the lines of the datagrams tell, in order.
-/
namespace MetricRelay

namespace Service

/-! ## Messages -/

theorem filterMap_message? (l : List Occurrence) :
    l.filterMap Occurrence.message? = (l.filterMap Occurrence.delivered?).map AgentData.message := by
  rw [List.map_filterMap]
  congr 1
  funext o
  cases o <;> rfl

/-- Messages of encoded metrics are read back as what the metrics tell, wherever the list of them was
cut into messages. -/
theorem read?_messages {parts : List (List Bytes)} {metrics : List Metric}
    (h : parts.flatten = metrics.map Metric.encode) :
    ∃ read, (parts.map AgentData.message).mapM AgentData.read? = some read ∧
      read.flatten = metrics.map fun m => (m.host, m.key, m.value) := by
  -- the metrics of the first message are a first part of all metrics
  induction parts generalizing metrics with
  | nil =>
    have hnil : metrics = [] := List.map_eq_nil_iff.mp h.symm
    rw [hnil]
    exact ⟨[], rfl, rfl⟩
  | cons part rest ih =>
    obtain ⟨front, back, rfl, hfront, hback⟩ := List.map_eq_append_iff.mp h.symm
    obtain ⟨read, hread, hflatten⟩ := ih hback.symm
    refine ⟨(front.map fun m => (m.host, m.key, m.value)) :: read, ?_, ?_⟩
    · rw [List.map_cons, List.mapM_cons, ← hfront, AgentData.read?_message, hread]
      rfl
    · rw [List.flatten_cons, hflatten, List.map_append]

end Service

/-! ## From datagrams to messages -/

namespace Rehearsal

open Service

theorem records_consume (timestamp : Int64) (datagram : Bytes) :
    ((consume timestamp datagram).1.toList.flatMap Command.records).filterMap metric? =
      (Inbound.receive timestamp datagram).1.filterMap metric? := by
  rw [consume]
  simp only
  split
  · next h =>
    rw [h]
    rfl
  · simp [Command.records]

/-- The commands of some datagrams, in order. -/
def consumed (datagrams : List (Int64 × Bytes)) : List Command :=
  datagrams.filterMap fun d => (consume d.1 d.2).1

theorem shutdown_not_mem_consumed (datagrams : List (Int64 × Bytes)) :
    .shutdown ∉ consumed datagrams := by
  intro h
  obtain ⟨d, -, hd⟩ := List.mem_filterMap.mp h
  rw [consume] at hd
  simp only at hd
  split at hd <;> cases hd

/-- The metrics of all records are what the datagrams tell, one after the other. -/
theorem metrics_consumed (datagrams : List (Int64 × Bytes)) :
    (((consumed datagrams).flatMap Command.records).filterMap metric?).map
      (fun m => (m.host, m.key, m.value)) = datagrams.flatMap fun d => Inbound.told d.2 := by
  induction datagrams with
  | nil => rfl
  | cons d rest ih =>
    have hconsumed : consumed (d :: rest) = (consume d.1 d.2).1.toList ++ consumed rest := by
      rw [consumed, List.filterMap_cons]
      cases (consume d.1 d.2).1 <;> rfl
    have hd := Inbound.metrics_receive d.1 d.2
    rw [hconsumed, List.flatMap_append, List.filterMap_append, List.map_append, records_consume, ih]
    exact congrArg (· ++ _) hd

section

variable {config : Config} {localHost : String} {now : Duration} {s₀ : Service}

/-- What stands before the shutdown is taken up, and nothing else. -/
theorem handled_until_shutdown (hstart : Service.start config localHost now = .ok s₀)
    {before after : List Event} (hdisconnect : .disconnect ∉ before)
    (hshutdown : .post .shutdown ∉ before)
    (hp : (s₀.run (before ++ .post .shutdown :: after)).1.phase = .stopped) :
    handled (s₀.run (before ++ .post .shutdown :: after)).2 =
      (before.filterMap Event.command?).flatMap Command.records := by
  have hi := inOrder_start hstart
  have hc := (running_start hstart).2
  have haccepts := accepts_run hi hc hdisconnect hshutdown
  have hbefore := posted_eq hi hc hdisconnect hshutdown
  -- whatever is put into the queue later stands behind the shutdown
  have hposted : s₀.posted (before ++ .post .shutdown :: after) =
      before.filterMap Event.command? ++ .shutdown ::
        ((s₀.run before).1.step (.post .shutdown)).1.posted after := by
    rw [posted] at hbefore ⊢
    rw [gather_append, hbefore, gather, postedBy, if_pos haccepts]
    rfl
  have hfirst : .shutdown ∉ before.filterMap Event.command? := by
    rw [← hbefore]
    intro h
    exact hshutdown (mem_of_mem_posted h)
  have h := inOrder_run hi (before ++ .post .shutdown :: after)
  have hrunning : (s₀.run (before ++ .post .shutdown :: after)).1.phase ≠ .running := by
    rw [hp]
    decide
  have hrecords := h.records
  rw [h.closed hrunning, hposted, upToShutdown_append hfirst,
    (sound_run (sound_start hstart) _).batch_nil hrunning, List.append_nil] at hrecords
  rw [hrecords]
  simp [Command.records]

theorem stops_after_shutdown (hstart : Service.start config localHost now = .ok s₀)
    {before : List Event} (after : List Event) (hdisconnect : .disconnect ∉ before)
    (hshutdown : .post .shutdown ∉ before) :
    ∃ more, (∀ e ∈ more, e = .work ∨ e = .answerSend (.ok ())) ∧
      (s₀.run (before ++ .post .shutdown :: (after ++ more))).1.phase = .stopped := by
  have haccepts := accepts_run (inOrder_start hstart) (running_start hstart).2 hdisconnect hshutdown
  have hending : ((s₀.run before).1.step (.post .shutdown)).1.Ending := by
    refine Or.inr (Or.inl ?_)
    rw [step, post, if_pos haccepts]
    exact List.mem_append_right _ List.mem_cons_self
  -- the client goes on accepting
  obtain ⟨more, n, hown, hmore, hstop⟩ := (hending.run after).stops fun _ => .ok ()
  refine ⟨more, fun e he => ?_, ?_⟩
  · apply (hown e he).imp_right
    intro hsome
    obtain ⟨answer, ha⟩ := Option.isSome_iff_exists.mp hsome
    have hmem : answer ∈ more.filterMap Event.answer? := List.mem_filterMap.mpr ⟨e, he, ha⟩
    rw [hmore] at hmem
    obtain ⟨i, -, rfl⟩ := List.mem_map.mp hmem
    cases e with
    | answerSend answer =>
      cases ha
      rfl
    | _ => cases ha
  · rw [run_append, run_cons, run_append]
    exact hstop

/-- Without filtering, with every message accepted and a shutdown after the datagrams, the service comes
to its stop, and then the messages carry exactly what the datagrams tell, in order. Whoever takes in the
datagrams does not let go of the service before the shutdown is asked for. -/
theorem forwarded (hstart : Service.start config localHost now = .ok s₀)
    (hpoll : config.pollInterval = .zero) {datagrams : List (Int64 × Bytes)}
    {before after : List Event} (hposts : before.filterMap Event.command? = consumed datagrams)
    (hdisconnect : .disconnect ∉ before)
    (hanswers : ∀ answer, .answerSend answer ∈ before ++ after → answer = .ok ()) :
    (∃ more, (∀ e ∈ more, e = .work ∨ e = .answerSend (.ok ())) ∧
      (s₀.run (before ++ .post .shutdown :: (after ++ more))).1.phase = .stopped) ∧
    ((s₀.run (before ++ .post .shutdown :: after)).1.phase = .stopped →
      ∃ read, ((s₀.run (before ++ .post .shutdown :: after)).2.filterMap
          Occurrence.message?).mapM AgentData.read? = some read ∧
        read.flatten = datagrams.flatMap fun d => Inbound.told d.2) := by
  have hshutdown : .post .shutdown ∉ before := fun h => by
    have hmem : .shutdown ∈ before.filterMap Event.command? := List.mem_filterMap.mpr ⟨_, h, rfl⟩
    rw [hposts] at hmem
    exact shutdown_not_mem_consumed datagrams hmem
  refine ⟨stops_after_shutdown hstart after hdisconnect hshutdown, fun hp => ?_⟩
  have hdisabled : s₀.filter.enabled = false := by
    have henabled := filter_enabled_run hstart []
    rw [Config.filtering, hpoll] at henabled
    exact henabled
  have hok : ∀ answer, .answerSend answer ∈ before ++ .post .shutdown :: after →
      answer = .ok () := by
    intro answer ha
    apply hanswers answer
    simpa using ha
  -- accepted is what was stored, stored what was taken up, and taken up what the datagrams hold
  have hdelivered := delivered_eq_stored (sound_start hstart) (held_start hstart)
    (running_start hstart).1 hok hp
  rw [stored_eq_handled hdisabled, handled_until_shutdown hstart hdisconnect hshutdown hp, hposts]
    at hdelivered
  obtain ⟨read, hread, hflatten⟩ := read?_messages hdelivered
  rw [← filterMap_message?] at hread
  exact ⟨read, hread, hflatten.trans (metrics_consumed datagrams)⟩

end

/-- Three datagrams. In the first a name occurs twice and another in several spellings, and one line is
no object; the second is no text; in the third a line stands between no-break spaces. -/
def motleyDatagrams : List (Int64 × Bytes) :=
  [(0, Bytes.ofString ("\x7b\"HOST\":\"x\",\"host\":\"a\",\"Key\":\"b\",\"value\":1,\"value\":\"c\"\x7d" ++
      "\nnonsense\n")),
    (1, [0xFF]),
    (2, Bytes.ofString "\u00A0\x7b\"KEY\":\"d\",\"VALUE\":\"e\",\"host\":\"f\"\x7d\u00A0")]

theorem forwarded_motley :
    ∃ s₀ before after, Service.start Service.scant "h" .zero = .ok s₀ ∧
      before.filterMap Event.command? = consumed motleyDatagrams ∧
      (s₀.run (before ++ .post .shutdown :: after)).1.phase = .stopped ∧
      ∃ read, ((s₀.run (before ++ .post .shutdown :: after)).2.filterMap
          Occurrence.message?).mapM AgentData.read? = some read ∧
        read.flatten = [("a", "b", "c"), ("f", "d", "e")] := by
  let before := (consumed motleyDatagrams).map Event.post ++ [.work, .work, .answerSend (.ok ())]
  let after : List Event := [.flushTick, .work, .work, .answerSend (.ok ()), .work, .work]
  have hposts : before.filterMap Event.command? = consumed motleyDatagrams := by decide +kernel
  have hdisconnect : .disconnect ∉ before := by simp [before]
  have hanswers : ∀ answer, .answerSend answer ∈ before ++ after → answer = .ok () := by
    simp [before, after]
  have htold : (motleyDatagrams.flatMap fun d => Inbound.told d.2) =
      [("a", "b", "c"), ("f", "d", "e")] := by decide +kernel
  refine ⟨_, before, after, rfl, hposts, by decide +kernel, ?_⟩
  rw [← htold]
  exact (@forwarded Service.scant "h" .zero _ rfl rfl motleyDatagrams before after hposts hdisconnect
    hanswers).2 (by decide +kernel)

/-- A number out of range, in whatever member it stands, makes a line unreadable. -/
example : Inbound.told (Bytes.ofString
    "\x7b\"host\":\"a\",\"key\":\"b\",\"value\":\"c\",\"x\":1.7976931348623158e308\x7d") = [] := by
  decide +kernel

/-- A line that begins with a no-break space, which JSON text does not know. -/
def spacedDatagrams : List (Int64 × Bytes) :=
  [(0, Bytes.ofString "\u00A0\x7b\"host\":\"a\",\"key\":\"b\",\"value\":\"c\"\x7d")]

/-- The line is sent although as it stands it is no object. -/
theorem forwarded_not_verbatim :
    ∃ s₀ before after, Service.start Service.scant "h" .zero = .ok s₀ ∧
      before.filterMap Event.command? = consumed spacedDatagrams ∧ .disconnect ∉ before ∧
      (∀ answer, .answerSend answer ∈ before ++ after → answer = .ok ()) ∧
      (s₀.run (before ++ .post .shutdown :: after)).1.phase = .stopped ∧
      ∃ read, ((s₀.run (before ++ .post .shutdown :: after)).2.filterMap
          Occurrence.message?).mapM AgentData.read? = some read ∧
        read.flatten = [("a", "b", "c")] ∧
        read.flatten ≠ spacedDatagrams.flatMap fun d => Inbound.toldVerbatim d.2 := by
  refine ⟨_, (consumed spacedDatagrams).map Event.post,
    [.work, .work, .answerSend (.ok ()), .work, .work], rfl, by decide +kernel, by simp, by simp,
    by decide +kernel, [[("a", "b", "c")]], by decide +kernel, rfl, by decide +kernel⟩

end Rehearsal

end MetricRelay
