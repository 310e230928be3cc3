import MetricRelay.Proofs.Service.Soundness

/-!
Commands on their way through the queue. Main statement: the commands taken up are those that were put
into the queue, in order, up to the first shutdown, and their records are the ones that are handled.
-/
namespace MetricRelay.Service

/-- The commands up to the first shutdown, that one included. -/
def upToShutdown : List Command → List Command
  | [] => []
  | c :: rest => c :: if c = .shutdown then [] else upToShutdown rest

theorem upToShutdown_of_not_mem {l : List Command} (h : .shutdown ∉ l) : upToShutdown l = l := by
  induction l with
  | nil => rfl
  | cons c rest ih =>
    have hc : c ≠ .shutdown := fun hc => h (hc ▸ List.mem_cons_self)
    rw [upToShutdown, if_neg hc, ih fun hr => h (List.mem_cons_of_mem _ hr)]

theorem upToShutdown_append {front : List Command} (h : .shutdown ∉ front) (behind : List Command) :
    upToShutdown (front ++ .shutdown :: behind) = front ++ [.shutdown] := by
  induction front with
  | nil => rfl
  | cons c rest ih =>
    have hc : c ≠ .shutdown := fun hc => h (hc ▸ List.mem_cons_self)
    rw [List.cons_append, upToShutdown, if_neg hc, ih fun hr => h (List.mem_cons_of_mem _ hr)]
    rfl

def Occurrence.handled? : Occurrence → Option Record
  | .handled r => some r
  | _ => none

/-- The records that were taken up, in order. -/
def handled (l : List Occurrence) : List Record := l.filterMap Occurrence.handled?

/-- How a run stands to the commands that it put into the queue and those that it took up. -/
structure InOrder (posted obeyed : List Command) (s : Service) (l : List Occurrence) : Prop where
  waiting : s.phase = .running → posted = obeyed ++ s.queue ∧ .shutdown ∉ obeyed
  left : s.phase = .draining → posted = obeyed ++ s.queue
  closed : s.phase ≠ .running → obeyed = upToShutdown posted
  reason : s.phase ≠ .running → .shutdown ∈ obeyed ∨ s.connected = false
  records : handled l ++ s.batch = obeyed.flatMap Command.records

theorem nextCommand?_of_free {s : Service} {c : Command} {rest : List Command} (free : s.Free)
    (batch : s.batch = []) (queue : s.queue = c :: rest) : s.nextCommand? = some c := by
  rw [nextCommand?, if_pos ⟨free, batch⟩, queue]
  rfl

theorem nextCommand?_of_queue {s : Service} (queue : s.queue = []) : s.nextCommand? = none := by
  rw [nextCommand?, queue]
  split <;> rfl

theorem nextCommand?_of_batch {s : Service} {r : Record} {rest : List Record}
    (batch : s.batch = r :: rest) : s.nextCommand? = none :=
  if_neg fun h => by simp [batch] at h

theorem nextCommand?_of_phase {s : Service} (h : s.phase ≠ .running) : s.nextCommand? = none :=
  if_neg fun hf => h hf.1.1

theorem nextCommand?_of_blocked {s : Service} (h : s.canWork = false) : s.nextCommand? = none := by
  by_cases hf : s.Free ∧ s.batch = []
  · exact nextCommand?_of_queue (batch_queue_of_not_canWork hf.1 h).2
  · exact if_neg hf

theorem handled_of_isRefusal {l : List Occurrence} (h : ∀ o ∈ l, o.isRefusal = true) :
    handled l = [] := by
  apply List.filterMap_eq_nil_iff.mpr
  intro o ho
  have hr := h o ho
  cases o <;> first | rfl | cases hr

theorem handled_stop (s : Service) :
    handled ((if s.buffer = [] then [] else [.lost s.buffer.length]) ++
      .stopped :: lateReports s.queue) = [] := by
  apply List.filterMap_eq_nil_iff.mpr
  intro o ho
  rcases eq_of_mem_stop ho with rfl | rfl | rfl <;> rfl

@[simp] theorem handled_append (l m : List Occurrence) : handled (l ++ m) = handled l ++ handled m :=
  List.filterMap_append

/-- A step that moves no command and no record. -/
theorem InOrder.keep {posted obeyed : List Command} {s s' : Service} {l m : List Occurrence}
    (h : InOrder posted obeyed s l) (hq : s'.queue = s.queue) (hb : s'.batch = s.batch)
    (hp : s'.phase = s.phase) (hc : s.connected = false → s'.connected = false)
    (hm : handled m = []) : InOrder (posted ++ []) (obeyed ++ []) s' (l ++ m) := by
  rw [List.append_nil, List.append_nil]
  constructor
  case waiting =>
    rw [hq, hp]
    exact h.waiting
  case left =>
    rw [hq, hp]
    exact h.left
  case closed =>
    rw [hp]
    exact h.closed
  case reason =>
    intro hn
    rw [hp] at hn
    exact (h.reason hn).imp_right hc
  case records =>
    rw [handled_append, hm, List.append_nil, hb]
    exact h.records

/-- Taking up a record of the batch moves it from the batch to what is handled. -/
theorem InOrder.take {posted obeyed : List Command} {s s' : Service} {l m : List Occurrence}
    {r : Record} {rest : List Record} (h : InOrder posted obeyed s l) (hb : s.batch = r :: rest)
    (hq : s'.queue = s.queue) (hb' : s'.batch = rest) (hp : s'.phase = s.phase)
    (hc : s'.connected = s.connected) (hm : handled m = [r]) :
    InOrder (posted ++ []) (obeyed ++ s.obeyedBy .work) s' (l ++ m) := by
  -- no command is taken up while the batch holds records
  have ho : s.obeyedBy .work = [] := by
    rw [obeyedBy, nextCommand?_of_batch hb]
    rfl
  rw [ho, List.append_nil, List.append_nil]
  constructor
  case waiting =>
    rw [hq, hp]
    exact h.waiting
  case left =>
    rw [hq, hp]
    exact h.left
  case closed =>
    rw [hp]
    exact h.closed
  case reason =>
    rw [hp, hc]
    exact h.reason
  case records =>
    calc handled (l ++ m) ++ s'.batch
        = handled l ++ (r :: rest) := by rw [handled_append, hm, hb', List.append_assoc]; rfl
      _ = obeyed.flatMap Command.records := by rw [← hb, h.records]

/-- Taking up a command that does not close the service. -/
theorem InOrder.next {posted obeyed : List Command} {s s' : Service} {l m : List Occurrence}
    {c : Command} {rest : List Command} (h : InOrder posted obeyed s l) (free : s.Free)
    (batch : s.batch = []) (queue : s.queue = c :: rest) (hc : c ≠ .shutdown)
    (hq : s'.queue = rest) (hb : s'.batch = c.records) (hp : s'.phase = .running)
    (hm : handled m = []) : InOrder (posted ++ []) (obeyed ++ s.obeyedBy .work) s' (l ++ m) := by
  obtain ⟨hw, hn⟩ := h.waiting free.1
  have ho : s.obeyedBy .work = [c] := by
    rw [obeyedBy, nextCommand?_of_free free batch queue]
    rfl
  rw [ho, List.append_nil]
  constructor
  case waiting =>
    intro _
    constructor
    · rw [hw, queue, hq, List.append_assoc]
      rfl
    · rw [List.mem_append, List.mem_singleton]
      rintro (hs | hs)
      · exact hn hs
      · exact hc hs.symm
  case left =>
    intro hd
    rw [hp] at hd
    cases hd
  case closed =>
    intro hr
    exact absurd hp hr
  case reason =>
    intro hr
    exact absurd hp hr
  case records =>
    have hr := h.records
    rw [batch, List.append_nil] at hr
    rw [handled_append, hm, List.append_nil, hb, hr, List.flatMap_append, List.flatMap_singleton]

/-- Closing the service takes up the shutdown, if there is one, and leaves what is queued behind it. -/
theorem InOrder.close {posted obeyed : List Command} {s s' : Service} {l m : List Occurrence}
    {left : List Command} (h : InOrder posted obeyed s l) (free : s.Free) (batch : s.batch = [])
    (closes : s.Closes left) (hq : s'.queue = left) (hb : s'.batch = [])
    (hp : s'.phase = .draining) (hc : s'.connected = s.connected) (hm : handled m = []) :
    InOrder (posted ++ []) (obeyed ++ s.obeyedBy .work) s' (l ++ m) := by
  obtain ⟨hw, hn⟩ := h.waiting free.1
  have hr := h.records
  rw [batch, List.append_nil] at hr
  have hrun : s'.phase ≠ .running := by
    rw [hp]
    decide
  rcases closes with queue | ⟨queue, rfl, connected⟩
  · -- a shutdown stands first in the queue
    have ho : s.obeyedBy .work = [.shutdown] := by
      rw [obeyedBy, nextCommand?_of_free free batch queue]
      rfl
    rw [ho, List.append_nil]
    constructor
    case waiting =>
      intro h
      exact absurd h hrun
    case left =>
      intro _
      rw [hw, queue, hq, List.append_assoc]
      rfl
    case closed =>
      intro _
      rw [hw, queue, upToShutdown_append hn]
    case reason =>
      intro _
      exact Or.inl (List.mem_append_right _ List.mem_cons_self)
    case records =>
      rw [handled_append, hm, List.append_nil, hb, hr]
      simp [Command.records]
  · -- nothing is queued, and nobody can queue anything
    have ho : s.obeyedBy .work = [] := by
      rw [obeyedBy, nextCommand?_of_queue queue]
      rfl
    rw [queue, List.append_nil] at hw
    rw [ho, List.append_nil, List.append_nil]
    constructor
    case waiting =>
      intro h
      exact absurd h hrun
    case left =>
      intro _
      rw [hw, hq, List.append_nil]
    case closed =>
      intro _
      rw [hw, upToShutdown_of_not_mem hn]
    case reason =>
      intro _
      exact Or.inr (hc.trans connected)
    case records => rw [handled_append, hm, List.append_nil, hb, List.append_nil, hr]

theorem Transition.inOrder {posted obeyed : List Command} {s s' : Service} {e : Event}
    {l m : List Occurrence} (h : Transition s e s' m) (hi : InOrder posted obeyed s l) :
    InOrder (posted ++ s.postedBy e) (obeyed ++ s.obeyedBy e) s' (l ++ m) := by
  cases h with
  | idle blocked =>
    have hp : s.postedBy e = [] := by
      cases e with
      | post c => exact if_neg (Bool.eq_false_iff.mp blocked)
      | _ => rfl
    have ho : s.obeyedBy e = [] := by
      cases e with
      | work =>
        rw [obeyedBy, nextCommand?_of_blocked blocked]
        rfl
      | _ => rfl
    rw [hp, ho]
    exact hi.keep rfl rfl rfl id rfl
  | @posted c accepts =>
    -- only a running service accepts a command, and it puts it behind the others
    have hr := phase_of_accepts accepts
    obtain ⟨hw, hn⟩ := hi.waiting hr
    have hp : s.postedBy (.post c) = [c] := if_pos accepts
    have ho : s.obeyedBy (.post c) = [] := rfl
    rw [hp, ho, List.append_nil, List.append_nil]
    constructor
    case waiting =>
      intro _
      rw [hw, List.append_assoc]
      exact ⟨rfl, hn⟩
    case left =>
      intro hd
      have hd : s.phase = .draining := hd
      rw [hr] at hd
      cases hd
    case closed =>
      intro hd
      exact absurd hr hd
    case reason =>
      intro hd
      exact absurd hr hd
    case records => exact hi.records
  | disconnected => exact hi.keep rfl rfl rfl (fun _ => rfl) rfl
  | elapsed | aged | accepted _ _ | completed _ _ | ticked _ _ | flushing _ _
  | nothingToRefresh _ _ | refreshing _ _ | swept _ => exact hi.keep rfl rfl rfl id rfl
  | failed sending =>
    refine hi.keep rfl rfl rfl id ?_
    split <;> rfl
  | @fetched _ _ _ _ answer refresh | @refreshed _ _ answer refresh =>
    refine hi.keep rfl rfl rfl id ?_
    cases answer <;> rfl
  | refused free batch turned aside =>
    refine hi.take batch rfl rfl rfl rfl ?_
    exact congrArg _ (handled_of_isRefusal aside)
  | stored free batch kept room => exact hi.take batch rfl rfl rfl rfl rfl
  | filled free batch kept full start => exact hi.take batch rfl rfl rfl rfl rfl
  | opened free batch queue insertion =>
    refine hi.next free batch queue ?_ rfl rfl free.1 rfl
    rintro rfl
    cases insertion
  | @reported awaited rest free batch queue =>
    refine hi.next free batch queue (by rintro ⟨⟩) rfl batch free.1 ?_
    cases awaited <;> rfl
  | closed free batch closes empty => exact hi.close free batch closes rfl batch rfl rfl rfl
  | closing free batch closes start => exact hi.close free batch closes rfl batch rfl rfl rfl
  | stopped phase sending =>
    -- what still stands in the queue is thrown away and never taken up
    have hr : s.phase ≠ .running := by
      rw [phase]
      decide
    have ho : s.obeyedBy .work = [] := by
      rw [obeyedBy, nextCommand?_of_phase hr]
      rfl
    have hp : s.postedBy .work = [] := rfl
    rw [hp, ho, List.append_nil, List.append_nil]
    constructor
    case waiting =>
      intro h
      cases h
    case left =>
      intro h
      cases h
    case closed =>
      intro _
      exact hi.closed hr
    case reason =>
      intro _
      exact hi.reason hr
    case records =>
      rw [handled_append, handled_stop s, List.append_nil]
      exact hi.records

theorem inOrder_start {config : Config} {localHost : String} {now : Duration} {s : Service}
    (h : start config localHost now = .ok s) : InOrder [] [] s [] := by
  obtain ⟨-, rfl⟩ := start_eq h
  constructor
  case waiting =>
    intro _
    exact ⟨rfl, List.not_mem_nil⟩
  case left =>
    intro hd
    cases hd
  case closed =>
    intro hr
    exact absurd rfl hr
  case reason =>
    intro hr
    exact absurd rfl hr
  case records => rfl

/-- Whatever happens, commands are taken up in the order in which they were put into the queue. -/
theorem inOrder_run {s : Service} (h : InOrder [] [] s []) (events : List Event) :
    InOrder (s.posted events) (s.obeyed events) (s.run events).1 (s.run events).2 := by
  refine run_invariant (P := fun events t l => InOrder (s.posted events) (s.obeyed events) t l)
    h (fun events t l e hrun hi => ?_) events
  have hp : s.posted (events ++ [e]) = s.posted events ++ t.postedBy e := by
    rw [posted, gather_concat, hrun]
    rfl
  have ho : s.obeyed (events ++ [e]) = s.obeyed events ++ t.obeyedBy e := by
    rw [obeyed, gather_concat, hrun]
    rfl
  rw [hp, ho]
  exact (transition_step t e).inOrder hi

end MetricRelay.Service
