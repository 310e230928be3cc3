import MetricRelay.Proofs.Service.Soundness
import Mathlib.Algebra.Ring.Nat

/-!
What becomes of the records that the service takes into its buffer. Main statement: at every point of a
run they were accepted by the client, in order, or are still held, or were dropped with a warning that
counts them.
-/
namespace MetricRelay

/-- How many records a notice says were dropped from the buffer. -/
def Notice.dropped : Notice → Nat
  | .bufferCut n => n
  | _ => 0

/-- How many records a notice says were lost at the stop. -/
def Notice.lost : Notice → Nat
  | .lostAtShutdown n => n
  | _ => 0

namespace Service

open Batch (Transmission)

def Occurrence.delivered? : Occurrence → Option (List Bytes)
  | .delivered records => some records
  | _ => none

/-- The records of all accepted messages, in order. -/
def delivered (l : List Occurrence) : List Bytes := (l.filterMap Occurrence.delivered?).flatten

def warned (count : Notice → Nat) (l : List Occurrence) : Nat :=
  ((l.filterMap Occurrence.notice?).map count).sum

/-- The sum of the counts in all warnings about a cut of the buffer. -/
def dropped (l : List Occurrence) : Nat := warned Notice.dropped l

/-- The count in the warning about records lost at the stop, zero if there is none. -/
def lost (l : List Occurrence) : Nat := warned Notice.lost l

/-- What an event makes the service append to its buffer: the encoded form of the record that it takes
up, if that passes the filter and can be encoded. -/
def storedBy (s : Service) : Event → List Bytes
  | .work => (s.nextRecord?.bind s.stored?).toList
  | _ => []

/-- All that a run appends to the buffer, in order. -/
def stored (s : Service) (events : List Event) : List Bytes := gather storedBy s events

/-- The records that the service holds: those of the send attempt under way that no accepted message
carries, then those of the buffer. -/
def held (s : Service) : List Bytes := s.sending.elim [] Transmission.unsent ++ s.buffer

@[simp] theorem delivered_nil : delivered [] = [] := rfl

@[simp] theorem delivered_append (l m : List Occurrence) :
    delivered (l ++ m) = delivered l ++ delivered m := by
  simp [delivered]

@[simp] theorem delivered_cons (o : Occurrence) (l : List Occurrence) :
    delivered (o :: l) = (o.delivered?.getD []) ++ delivered l := by
  rw [delivered, delivered, List.filterMap_cons]
  cases o.delivered? <;> rfl

@[simp] theorem warned_nil (count : Notice → Nat) : warned count [] = 0 := rfl

@[simp] theorem warned_append (count : Notice → Nat) (l m : List Occurrence) :
    warned count (l ++ m) = warned count l + warned count m := by
  simp [warned]

@[simp] theorem warned_cons (count : Notice → Nat) (o : Occurrence) (l : List Occurrence) :
    warned count (o :: l) = (o.notice?.map count).getD 0 + warned count l := by
  rw [warned, warned, List.filterMap_cons]
  cases o.notice? with
  | none => simp
  | some n => simp

theorem held_of_idle {s : Service} (h : s.sending = none) : s.held = s.buffer := by
  rw [held, h]
  rfl

theorem held_of_sending {s : Service} {t : Transmission} (hs : s.Sound) (h : s.sending = some t) :
    s.held = t.unsent := by
  rw [held, hs.exclusive (by simp [h]), h]
  exact List.append_nil _

theorem held_start {config : Config} {localHost : String} {now : Duration} {s : Service}
    (h : start config localHost now = .ok s) : s.held = [] := by
  obtain ⟨-, rfl⟩ := start_eq h
  rfl

theorem nextRecord?_of_free {s : Service} {r : Record} {rest : List Record} (free : s.Free)
    (batch : s.batch = r :: rest) : s.nextRecord? = some r := by
  rw [nextRecord?, if_pos free, batch]
  rfl

theorem nextRecord?_of_batch {s : Service} (batch : s.batch = []) : s.nextRecord? = none := by
  rw [nextRecord?, batch]
  split <;> rfl

theorem nextRecord?_of_phase {s : Service} (h : s.phase ≠ .running) : s.nextRecord? = none :=
  if_neg fun free => h free.1

theorem nextRecord?_of_blocked {s : Service} (h : s.canWork = false) : s.nextRecord? = none := by
  by_cases free : s.Free
  · exact nextRecord?_of_batch (batch_queue_of_not_canWork free h).1
  · exact if_neg free

/-! ## The balance of a step -/

/-- Between two states nothing is lost but what warnings count, while `a` is appended. -/
structure Balanced (s s' : Service) (a : List Bytes) (l : List Occurrence) : Prop where
  order : (delivered l ++ s'.held).Sublist (s.held ++ a)
  count : s.held.length + a.length = (delivered l).length + s'.held.length + dropped l + lost l

theorem Balanced.of_eq {s s' : Service} {a : List Bytes} {l : List Occurrence}
    (h : delivered l ++ s'.held = s.held ++ a) (hd : dropped l = 0) (hl : lost l = 0) :
    Balanced s s' a l := by
  refine ⟨h ▸ .refl _, ?_⟩
  have hlen := congrArg List.length h
  rw [List.length_append, List.length_append] at hlen
  omega

theorem Balanced.refl (s : Service) : Balanced s s [] [] :=
  .of_eq (List.append_nil _).symm rfl rfl

theorem Balanced.trans {s t u : Service} {a b : List Bytes} {l m : List Occurrence}
    (h : Balanced s t a l) (k : Balanced t u b m) : Balanced s u (a ++ b) (l ++ m) := by
  constructor
  · calc delivered (l ++ m) ++ u.held
        = delivered l ++ (delivered m ++ u.held) := by rw [delivered_append, List.append_assoc]
      List.Sublist _ (delivered l ++ (t.held ++ b)) := k.order.append_left _
      _ = delivered l ++ t.held ++ b := (List.append_assoc _ _ _).symm
      List.Sublist _ (s.held ++ a ++ b) := h.order.append_right b
      _ = s.held ++ (a ++ b) := List.append_assoc _ _ _
  · have hc := h.count
    have kc := k.count
    simp only [dropped, lost] at hc kc ⊢
    simp only [delivered_append, warned_append, List.length_append]
    omega

/-- Whether an occurrence tells of records that left the service. -/
def Occurrence.isExit : Occurrence → Bool
  | .delivered _ | .cut _ | .lost _ => true
  | _ => false

theorem Occurrence.isExit_of_isRefusal {o : Occurrence} (h : o.isRefusal = true) :
    o.isExit = false := by
  cases o <;> first | rfl | cases h

theorem warned_eq_zero {count : Notice → Nat} {l : List Occurrence}
    (h : ∀ o ∈ l, (o.notice?.map count).getD 0 = 0) : warned count l = 0 := by
  induction l with
  | nil => rfl
  | cons o rest ih =>
    rw [warned_cons, h o List.mem_cons_self, ih fun o ho => h o (List.mem_cons_of_mem _ ho)]

theorem dropped_eq_zero {l : List Occurrence} (h : ∀ n, .cut n ∉ l) : dropped l = 0 := by
  apply warned_eq_zero
  intro o ho
  cases o with
  | cut n => exact absurd ho (h n)
  | _ => rfl

theorem lost_eq_zero {l : List Occurrence} (h : ∀ n, .lost n ∉ l) : lost l = 0 := by
  apply warned_eq_zero
  intro o ho
  cases o with
  | lost n => exact absurd ho (h n)
  | _ => rfl

theorem no_exit {l : List Occurrence} (h : ∀ o ∈ l, o.isExit = false) :
    delivered l = [] ∧ dropped l = 0 ∧ lost l = 0 := by
  refine ⟨?_, dropped_eq_zero fun n hn => ?_, lost_eq_zero fun n hn => ?_⟩
  · have hf : l.filterMap Occurrence.delivered? = [] := by
      apply List.filterMap_eq_nil_iff.mpr
      intro o ho
      have hx := h o ho
      cases o <;> first | rfl | cases hx
    rw [delivered, hf]
    rfl
  · cases h _ hn
  · cases h _ hn

theorem Balanced.of_no_exit {s s' : Service} {a : List Bytes} {l : List Occurrence}
    (hl : ∀ o ∈ l, o.isExit = false) (h : s'.held = s.held ++ a) : Balanced s s' a l := by
  obtain ⟨hd, hc, hn⟩ := no_exit hl
  exact .of_eq (by rw [hd, h, List.nil_append]) hc hn

theorem storedBy_of_batch {s : Service} (batch : s.batch = []) (e : Event) : s.storedBy e = [] := by
  cases e <;> simp [storedBy, nextRecord?_of_batch batch]

theorem balanced_failed {s : Service} {t : Transmission} (hs : s.Sound) (sending : s.sending = some t)
    (cause : ClientError) :
    Balanced s (s.giveUp ⟨t.unsent, cause⟩).1 [] (s.giveUp ⟨t.unsent, cause⟩).2 := by
  obtain ⟨cut, hcut, hlen⟩ :=
    Batch.truncate_append_drop s.config.maxKeys s.config.sendKeys t.unsent
  have hheld : (s.giveUp ⟨t.unsent, cause⟩).1.held =
      Batch.truncate s.config.maxKeys s.config.sendKeys t.unsent := held_of_idle rfl
  have hd : delivered (s.giveUp ⟨t.unsent, cause⟩).2 = [] := by
    rw [giveUp]
    simp only
    split <;> simp [Occurrence.delivered?]
  have hl : lost (s.giveUp ⟨t.unsent, cause⟩).2 = 0 := by
    rw [giveUp]
    simp only
    split <;> simp [lost, Occurrence.notice?, Notice.lost]
  have hc : dropped (s.giveUp ⟨t.unsent, cause⟩).2 = cut.length := by
    rw [giveUp]
    simp only
    split
    · simp [dropped, Occurrence.notice?, Notice.dropped, hlen]
    · next ho =>
      -- without an overflow the cut takes nothing
      have hle : t.unsent.length ≤ s.config.maxKeys := Nat.le_of_not_lt fun h => ho (decide_eq_true h)
      rw [hlen, Batch.dropCount, Batch.truncate_eq_self hle, Nat.sub_self]
      rfl
  have ht := congrArg List.length hcut
  rw [List.length_append] at ht
  constructor
  · rw [hd, hheld, held_of_sending hs sending, List.nil_append, List.append_nil]
    exact List.IsPrefix.sublist ⟨cut, hcut⟩
  · rw [hd, hl, hc, hheld, held_of_sending hs sending, List.length_nil]
    omega

/-- The stop tells of all that was still in the buffer. -/
theorem stop_counts (s : Service) :
    delivered s.stop.2 = [] ∧ dropped s.stop.2 = 0 ∧ lost s.stop.2 = s.buffer.length := by
  obtain ⟨hd, hc, hl⟩ := no_exit (l := .stopped :: lateReports s.queue) (by
    intro o ho
    rcases List.mem_cons.mp ho with rfl | ho
    · rfl
    · rw [eq_reported_of_mem_lateReports ho]
      rfl)
  rw [dropped] at hc
  rw [lost] at hl
  have hs : s.stop.2 = (if s.buffer = [] then [] else [.lost s.buffer.length]) ++
      .stopped :: lateReports s.queue := rfl
  rw [hs, dropped, lost, delivered_append, warned_append, warned_append, hd, hc, hl]
  split
  · next hb => simp [hb]
  · simp [Occurrence.delivered?, Occurrence.notice?, Notice.dropped, Notice.lost]

theorem balanced_stop {s : Service} (sending : s.sending = none) :
    Balanced s s.stop.1 [] s.stop.2 := by
  have hheld : s.stop.1.held = [] := held_of_idle sending
  obtain ⟨hd, hc, hl⟩ := stop_counts s
  constructor
  · rw [hd, hheld]
    exact List.nil_sublist _
  · rw [hd, hc, hl, hheld, held_of_idle sending, List.length_nil]
    omega

theorem Transition.balanced {s s' : Service} {e : Event} {l : List Occurrence}
    (h : Transition s e s' l) (hs : s.Sound) : Balanced s s' (s.storedBy e) l := by
  cases h with
  | idle blocked =>
    have hn : s.storedBy e = [] := by
      cases e with
      | work => rw [storedBy, nextRecord?_of_blocked blocked]; rfl
      | _ => rfl
    rw [hn]
    exact .refl s
  | posted _ | disconnected | elapsed | aged | ticked _ _ =>
    exact .of_no_exit (by simp) (List.append_nil _).symm
  | refused free batch turned aside =>
    have hn : s.storedBy .work = [] := by
      rw [storedBy, nextRecord?_of_free free batch, Option.bind_some, turned]
      rfl
    rw [hn]
    refine .of_no_exit ?_ (List.append_nil _).symm
    intro o ho
    rcases List.mem_cons.mp ho with rfl | ho
    · rfl
    · exact Occurrence.isExit_of_isRefusal (aside o ho)
  | @stored r rest p free batch kept room =>
    have hp : s.storedBy .work = [p] := by
      rw [storedBy, nextRecord?_of_free free batch, Option.bind_some, kept]
      rfl
    rw [hp]
    -- the new record stands at the end of what is held
    exact .of_no_exit (by simp [Occurrence.isExit]) (List.append_assoc _ _ _).symm
  | @filled r rest p t free batch kept full start =>
    have hp : s.storedBy .work = [p] := by
      rw [storedBy, nextRecord?_of_free free batch, Option.bind_some, kept]
      rfl
    rw [hp]
    -- the send attempt holds all that was buffered, with the new record at the end
    refine .of_no_exit (by simp [Occurrence.isExit]) ?_
    rw [held_of_idle free.2, ← Transmission.unsent_of_start? start]
    exact List.append_nil _
  | opened free batch queue insertion =>
    rw [storedBy_of_batch batch]
    exact .of_no_exit (by simp) (List.append_nil _).symm
  | @reported awaited rest free batch queue =>
    rw [storedBy_of_batch batch]
    refine .of_no_exit ?_ (List.append_nil _).symm
    cases awaited <;> simp [Occurrence.isExit]
  | closed free batch =>
    rw [storedBy_of_batch batch]
    exact .of_no_exit (by simp [Occurrence.isExit]) (List.append_nil _).symm
  | closing free batch closes start =>
    rw [storedBy_of_batch batch]
    -- the buffer becomes the attempt, and what is held stays the same
    refine .of_no_exit (by simp [Occurrence.isExit]) ?_
    rw [held_of_idle free.2, List.append_nil, ← Transmission.unsent_of_start? start]
    exact List.append_nil _
  | stopped phase sending =>
    -- a service that drains has no record left to take up
    have hb : s.batch = [] := hs.batch_nil (by simp [phase])
    rw [storedBy_of_batch hb]
    exact balanced_stop sending
  | accepted sending next =>
    -- the accepted chunk passes from the front of what is held to what is delivered
    refine .of_eq ?_ rfl rfl
    change _ = s.held ++ []
    rw [held_of_sending hs sending, Transmission.unsent_of_next? next, List.append_nil]
    simp [held, Occurrence.delivered?, hs.exclusive (by simp [sending])]
  | completed sending next =>
    refine .of_eq ?_ rfl rfl
    change _ = s.held ++ []
    rw [held_of_sending hs sending, Transmission.unsent_of_next?_eq_none next, List.append_nil]
    simp [held, Occurrence.delivered?, hs.exclusive (by simp [sending])]
  | failed sending => exact balanced_failed hs sending _
  | @fetched _ _ _ _ answer refresh | @refreshed _ _ answer refresh =>
    refine .of_no_exit ?_ (List.append_nil _).symm
    cases answer <;> simp [Occurrence.isExit, fetchOccurrence]
  | flushing can start =>
    have free := (free_of_canFlush can).1
    refine .of_no_exit (by simp [Occurrence.isExit]) ?_
    change _ = s.held ++ []
    rw [held_of_idle free.2, List.append_nil, ← Transmission.unsent_of_start? start]
    exact List.append_nil _
  | nothingToRefresh _ _ | refreshing _ _ | swept _ =>
    exact .of_no_exit (by simp [Occurrence.isExit]) (List.append_nil _).symm

/-- From a sound state every record appended is sent, held or counted as dropped or lost. -/
theorem balanced_run {s : Service} (hs : s.Sound) (events : List Event) :
    Balanced s (s.run events).1 (s.stored events) (s.run events).2 := by
  induction events generalizing s with
  | nil => exact .refl s
  | cons e rest ih =>
    -- the balance of the first step and that of the others add up
    have h := transition_step s e
    exact (h.balanced hs).trans (ih (h.sound hs))

/-! ## Losses -/

/-- The ways in which records leave: with an accepted message, by a cut after a failed send, and at the
stop. -/
theorem Transition.of_isExit {s s' : Service} {e : Event} {l : List Occurrence} {o : Occurrence}
    (h : Transition s e s' l) (ho : o ∈ l) (hx : o.isExit = true) :
    (∃ t, s.sending = some t ∧ e = .answerSend (.ok ()) ∧ o = .delivered t.current) ∨
    (∃ t cause, s.sending = some t ∧ e = .answerSend (.error cause) ∧
      .sendFailed ⟨t.unsent, cause⟩ ∈ l ∧
      s'.buffer = Batch.truncate s.config.maxKeys s.config.sendKeys t.unsent ∧
      o = .cut (Batch.dropCount s.config.maxKeys s.config.sendKeys t.unsent)) ∨
    (s.phase = .draining ∧ s.sending = none ∧ s'.phase = .stopped ∧ e = .work ∧
      o = .lost s.buffer.length) := by
  cases h with
  | accepted sending next | completed sending next =>
    refine Or.inl ⟨_, sending, rfl, ?_⟩
    rcases List.mem_cons.mp ho with rfl | ho
    · rfl
    · cases List.mem_singleton.mp ho
      cases hx
  | @failed t cause sending =>
    refine Or.inr (Or.inl ⟨t, cause, sending, rfl, List.mem_cons_self, rfl, ?_⟩)
    rcases List.mem_cons.mp ho with rfl | ho
    · cases hx
    · split at ho
      · exact List.mem_singleton.mp ho
      · cases ho
  | stopped phase sending =>
    refine Or.inr (Or.inr ⟨phase, sending, rfl, rfl, ?_⟩)
    rcases eq_of_mem_stop ho with rfl | rfl | rfl
    · rfl
    · cases hx
    · cases hx
  | refused free batch turned aside =>
    rcases List.mem_cons.mp ho with rfl | ho
    · cases hx
    · rw [Occurrence.isExit_of_isRefusal (aside o ho)] at hx
      cases hx
  | @reported awaited rest free batch queue =>
    cases awaited
    · cases ho
    · cases List.mem_singleton.mp ho
      cases hx
  | @fetched _ _ _ _ answer refresh | @refreshed _ _ answer refresh =>
    rcases List.mem_cons.mp ho with rfl | ho
    · cases answer <;> cases hx
    · cases List.mem_singleton.mp ho
      cases hx
  | idle _ | posted _ | disconnected | elapsed | aged | opened _ _ _ _ | ticked _ _ => cases ho
  | stored _ _ _ _ | filled _ _ _ _ _ | closed _ _ _ _ | closing _ _ _ _ | flushing _ _
  | nothingToRefresh _ _ | refreshing _ _ | swept _ =>
    simp only [List.mem_cons, List.not_mem_nil, or_false] at ho
    rcases ho with rfl | rfl | rfl | rfl <;> cases hx

theorem Transition.rank_le {s s' : Service} {e : Event} {l : List Occurrence}
    (h : Transition s e s' l) : s'.phase.rank ≤ s.phase.rank := by
  cases h with
  | closed free batch closes empty => simp [free.1, Phase.rank]
  | closing free batch closes start => simp [free.1, Phase.rank]
  | stopped phase sending => simp [phase, Phase.rank]
  | _ => exact Nat.le_refl _

theorem rank_run_le (s : Service) (events : List Event) :
    (s.run events).1.phase.rank ≤ s.phase.rank :=
  run_invariant (P := fun _ t _ => t.phase.rank ≤ s.phase.rank) (Nat.le_refl _)
    (fun _ t _ e _ h => Nat.le_trans (transition_step t e).rank_le h) events

theorem run_split (s : Service) (before : List Event) (e : Event) (after : List Event) :
    s.run (before ++ e :: after) =
      ((((s.run before).1.step e).1.run after).1,
        (s.run before).2 ++ (((s.run before).1.step e).2 ++
          (((s.run before).1.step e).1.run after).2)) := by
  rw [run_append, run_cons]

theorem lost_eq_zero_of_not_stopped {s : Service} {events : List Event}
    (h : (s.run events).1.phase ≠ .stopped) : lost (s.run events).2 = 0 := by
  apply lost_eq_zero
  intro n hn
  obtain ⟨before, e, after, rfl, ho⟩ := exists_step_of_mem_run hn
  obtain ⟨t, -, -, hd⟩ | ⟨t, cause, -, -, -, -, hd⟩ | ⟨-, -, hp, -, -⟩ :=
    (transition_step _ e).of_isExit ho rfl
  · cases hd
  · cases hd
  · -- once stopped, the service stays so
    have hr := rank_run_le ((s.run before).1.step e).1 after
    rw [run_split] at h
    rw [hp] at hr
    cases hs : (((s.run before).1.step e).1.run after).1.phase with
    | stopped => exact h hs
    | running | draining => simp [hs, Phase.rank] at hr

theorem not_cut_of_not_failed {s : Service} {events : List Event}
    (h : ∀ u, .sendFailed u ∉ (s.run events).2) : dropped (s.run events).2 = 0 := by
  apply dropped_eq_zero
  intro n hn
  obtain ⟨before, e, after, rfl, ho⟩ := exists_step_of_mem_run hn
  obtain ⟨t, -, -, hd⟩ | ⟨t, cause, -, -, hf, -, -⟩ | ⟨-, -, -, -, hd⟩ :=
    (transition_step _ e).of_isExit ho rfl
  · cases hd
  · rw [run_split] at h
    exact h _ (List.mem_append_right _ (List.mem_append_left _ hf))
  · cases hd

/-- While the service runs and no message is unanswered, what was accepted followed by what is in the
buffer is all that was ever put there, in order and less what the warnings count. A cut follows a failed
send and takes only records newer than those that it leaves. -/
theorem records_conserved {config : Config} {localHost : String} {now : Duration} {s₀ s : Service}
    {events : List Event} {l : List Occurrence} (hstart : start config localHost now = .ok s₀)
    (hrun : s₀.run events = (s, l)) (hphase : s.phase = .running) (hsending : s.sending = none) :
    (delivered l ++ s.buffer).Sublist (s₀.stored events) ∧
    (s₀.stored events).length = (delivered l).length + s.buffer.length + dropped l ∧
    ((∀ u, .sendFailed u ∉ l) → delivered l ++ s.buffer = s₀.stored events) ∧
    ∀ before e after n, events = before ++ e :: after → .cut n ∈ ((s₀.run before).1.step e).2 →
      ∃ t cause gone, (s₀.run before).1.sending = some t ∧ e = .answerSend (.error cause) ∧
        ((s₀.run before).1.step e).1.buffer ++ gone = t.unsent ∧ gone.length = n ∧
        (delivered (s₀.run before).2 ++ (((s₀.run before).1.step e).1.buffer ++ gone)).Sublist
          (s₀.stored before) := by
  have hs := sound_start hstart
  have hb := balanced_run hs events
  have h₀ := held_start hstart
  have hheld : s.held = s.buffer := held_of_idle hsending
  have hl : lost l = 0 := by
    have hnot : (s₀.run events).1.phase ≠ .stopped := by simp [hrun, hphase]
    have hzero := lost_eq_zero_of_not_stopped hnot
    rwa [hrun] at hzero
  -- at the start nothing is held, and now only what is in the buffer
  obtain ⟨order, count⟩ := hb
  rw [hrun, h₀] at order count
  simp only [List.nil_append, List.length_nil, hheld, hl] at order count
  refine ⟨order, by omega, fun hf => ?_, fun before e after n _ hn => ?_⟩
  · -- without a cut the sublist has the length of the whole list
    have hd : dropped l = 0 := by
      have hnot : ∀ u, .sendFailed u ∉ (s₀.run events).2 := by rwa [hrun]
      have hzero := not_cut_of_not_failed hnot
      rwa [hrun] at hzero
    apply order.eq_of_length
    rw [List.length_append]
    omega
  · -- of the ways in which records leave only a failed send cuts the buffer
    obtain ⟨t, -, -, hd⟩ | ⟨t, cause, sending, he, -, hbuffer, hcut⟩ | ⟨-, -, -, -, hd⟩ :=
      (transition_step _ e).of_isExit hn rfl
    · cases hd
    · obtain ⟨gone, hgone, hlen⟩ := Batch.truncate_append_drop
        (s₀.run before).1.config.maxKeys (s₀.run before).1.config.sendKeys t.unsent
      cases hcut
      refine ⟨t, cause, gone, sending, he, hbuffer ▸ hgone, hlen, ?_⟩
      -- just before the failure everything unsent was held, in the order of arrival
      have hbefore := (balanced_run hs before).order
      rw [h₀, held_of_sending (sound_run hs before) sending, ← hgone] at hbefore
      rw [hbuffer]
      exact hbefore
    · cases hd

/-- The buffer has room for two records, and each is sent in a message of its own. -/
def scant : Config := { sendKeys := 1, maxKeys := 2, pollInterval := .zero }

/-- Four records are inserted, and of five messages the server takes the second. -/
def troubled : List Event :=
  let answer := Event.answerSend (.error (.timeout "sending"))
  [.post (.insertBatch (["1", "2", "3", "4"].map fun value => Record.metric "h" "k" value 0)), .work,
    .work, answer, .work, .answerSend (.ok ()), answer, .work, answer, .work, answer]

theorem records_conserved_troubled :
    ∃ s₀ s l, start scant "h" .zero = .ok s₀ ∧ s₀.run troubled = (s, l) ∧ s.phase = .running ∧
      s.sending = none ∧ (s₀.stored troubled).length = 4 ∧ (delivered l).length = 1 ∧
      s.buffer.length = 1 ∧ dropped l = 2 ∧
      (delivered l ++ s.buffer).Sublist (s₀.stored troubled) := by
  refine ⟨_, _, _, rfl, rfl, by decide +kernel, by decide +kernel, by decide +kernel,
    by decide +kernel, by decide +kernel, by decide +kernel, ?_⟩
  exact (@records_conserved scant "h" .zero _ _ troubled _ rfl rfl (by decide +kernel)
    (by decide +kernel)).1

end Service

end MetricRelay
