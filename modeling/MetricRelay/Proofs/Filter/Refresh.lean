import MetricRelay.Proofs.Filter.Settling
import Mathlib.Data.List.Nodup

/-!
Refreshes of a shared filter. Main statement: a refresh asks for every host that was kept track of when it
began, once each and in its order, and does with each what the server's answer says, whatever other tasks
look up and register meanwhile. One that is given up has done so for the hosts that were answered.
-/
namespace MetricRelay.Filter

variable {server : String → Except ClientError ActiveKeys} {i : Nat}

/-! ## A refresh among other calls -/

/-- Whether a call may bring new keys. -/
def Call.learns : Call → Bool
  | .replace _ _ | .refresh => true
  | .pass _ _ | .note _ => false

/-- Whether a task may still bring new keys. -/
def Task.learns : Task → Bool
  | .called call => call.learns
  | .asking (_ :: _) => true
  | _ => false

theorem Advances.learns {f f' : Filter} {task task' : Task} {part : Part} {deeds : List Deed}
    (h : Advances f task part f' task' deeds) (htask : task.learns = false) :
    task'.learns = false ∧ ∀ d ∈ deeds, ∀ host, d.keysFor? host = none := by
  cases h with
  | idle => exact ⟨htask, fun d hd => nomatch hd⟩
  | waved | cancelled => exact ⟨rfl, fun d hd => nomatch hd⟩
  | judged | missed | registered | noted =>
    refine ⟨rfl, fun d hd host => ?_⟩
    rw [List.mem_singleton.mp hd]
    rfl
  | replaced | copied | answered => cases htask

namespace Shared

/-- Whether none but one task may still bring new keys. -/
def Quiet (i : Nat) (p : Shared) : Prop :=
  ∀ j task, j ≠ i → p.tasks[j]? = some task → task.learns = false

/-- On the way from `p` to `q` none but one task has brought new keys. -/
def Undisturbed (i : Nat) (p q : Shared) : Prop :=
  ∃ new, q.history = p.history ++ new ∧ ∀ e ∈ new, e.1 ≠ i → ∀ host, e.2.keysFor? host = none

theorem Undisturbed.trans {p q r : Shared} (h : Undisturbed i p q) (h' : Undisturbed i q r) :
    Undisturbed i p r := by
  obtain ⟨new, hnew, hkeys⟩ := h
  obtain ⟨new', hnew', hkeys'⟩ := h'
  refine ⟨new ++ new', by rw [hnew', hnew, List.append_assoc], fun e he => ?_⟩
  rcases List.mem_append.mp he with he | he
  · exact hkeys e he
  · exact hkeys' e he

theorem Quiet.step {p : Shared} (h : p.Quiet i) {m : Move}
    (hcall : ∀ call, m = .call call → call.learns = false) :
    (p.step m).Quiet i ∧ Undisturbed i p (p.step m) := by
  have hsteps := p.steps m
  generalize p.step m = q at hsteps ⊢
  cases hsteps with
  | @called call =>
    refine ⟨fun j task hj htask => ?_, [], (List.append_nil _).symm, fun e he => nomatch he⟩
    rcases getElem?_concat_eq_some htask with htask | ⟨-, rfl⟩
    · exact h j task hj htask
    · exact hcall call rfl
  | absent => exact ⟨h, [], (List.append_nil _).symm, fun e he => nomatch he⟩
  | @acted k part task₀ task' f deeds current advances =>
    refine ⟨fun j task hj htask => ?_, deeds.map (k, ·), rfl, fun e he hne host => ?_⟩
    · by_cases hkj : k = j
      · subst hkj
        rw [List.getElem?_set_self (List.getElem?_eq_some_iff.mp current).1] at htask
        cases htask
        exact (advances.learns (h k task₀ hj current)).1
      · rw [List.getElem?_set_ne hkj] at htask
        exact h j task hj htask
    · obtain ⟨d, hd, rfl⟩ := List.mem_map.mp he
      exact (advances.learns (h k task₀ hne current)).2 d hd host

theorem Quiet.act {p : Shared} (h : p.Quiet i) (j : Nat) (part : Part) :
    (p.step (.act j part)).Quiet i := by
  refine (h.step fun call hm => ?_).1
  cases hm

theorem Quiet.run {p : Shared} (h : p.Quiet i) {moves : List Move}
    (hcalls : ∀ call, .call call ∈ moves → call.learns = false) :
    (p.run moves).Quiet i ∧ Undisturbed i p (p.run moves) := by
  induction moves generalizing p with
  | nil => exact ⟨h, [], (List.append_nil _).symm, fun e he => nomatch he⟩
  | cons m rest ih =>
    obtain ⟨hquiet, hstep⟩ := h.step fun call hm => hcalls call (hm ▸ List.mem_cons_self)
    obtain ⟨hrun, hrest⟩ := ih hquiet fun call hm => hcalls call (List.mem_cons_of_mem m hm)
    exact ⟨hrun, hstep.trans hrest⟩

end Shared

/-- If one task alone replaces keys, its deeds tell which ones replaced the others last. -/
theorem lastReplaced_eq_deedsBy {history : List (Nat × Deed)} {host : String}
    (h : ∀ e ∈ history, e.1 ≠ i → e.2.keysFor? host = none) :
    lastReplaced host history = lastReplaced host ((deedsBy i history).map (i, ·)) := by
  rw [lastReplaced, lastReplaced]
  congr 1
  induction history with
  | nil => rfl
  | cons e rest ih =>
    have hrest := ih fun e' he' => h e' (List.mem_cons_of_mem e he')
    obtain ⟨j, d⟩ := e
    by_cases hj : j = i
    · subst hj
      have hdeeds : deedsBy j ((j, d) :: rest) = d :: deedsBy j rest := by
        simp [deedsBy]
      rw [hdeeds, List.map_cons, List.filterMap_cons, List.filterMap_cons, hrest]
    · have hdeeds : deedsBy i ((j, d) :: rest) = deedsBy i rest := by
        simp [deedsBy, hj]
      have hnone : d.keysFor? host = none := h (j, d) List.mem_cons_self hj
      rw [hdeeds, List.filterMap_cons, hnone, hrest]

/-- A refresh that copies its hosts in some order and goes on while the other tasks look keys up and
register hosts. -/
structure Refreshing (server : String → Except ClientError ActiveKeys) (i : Nat)
    (order : List String) (p : Shared) (moves : List Move) : Prop where
  called : p.tasks[i]? = some (.called .refresh)
  order : order.Perm p.filter.tracked
  others : p.Quiet i
  calls : ∀ call, .call call ∈ moves → call.learns = false
  server : ∀ g, .act i (.answer g) ∈ moves → g = server

namespace Refreshing

variable {order : List String} {p : Shared} {moves : List Move}

theorem mem_order_iff (h : Refreshing server i order p moves) {host : String} :
    host ∈ order ↔ host ∈ p.filter.tracked :=
  h.order.mem_iff

theorem nodup_order (h : Refreshing server i order p moves) : order.Nodup :=
  h.order.nodup_iff.mpr p.filter.nodup_tracked

theorem came (h : Refreshing server i order p moves) :
    Shared.Came i p (p.run (.act i (.copy order) :: moves))
      (remaining (moves.any (Move.givesUp i)) (order.drop (answersTo i moves)))
      (asks order ++ settled server order (answersTo i moves)) := by
  have hgo : goOn p.filter i (.called .refresh) (.act i (.copy order)) =
      (.asking order, asks order) := by
    rw [goOn, if_pos rfl, advance, if_pos (List.isPerm_iff.mpr h.order)]
  have hstep := Shared.came_step h.called (.act i (.copy order))
  rw [hgo] at hstep
  exact hstep.trans (Shared.came_of_asking hstep.1 h.server)

theorem undisturbed (h : Refreshing server i order p moves) :
    (p.run (.act i (.copy order) :: moves)).Quiet i ∧
      Shared.Undisturbed i p (p.run (.act i (.copy order) :: moves)) := by
  refine h.others.run fun call hm => ?_
  rcases List.mem_cons.mp hm with hm | hm
  · cases hm
  · exact h.calls call hm

/-- What a filter holds of a host after a refresh. -/
theorem exists_deeds (h : Refreshing server i order p moves) :
    ∃ new, (p.run (.act i (.copy order) :: moves)).history = p.history ++ new ∧
      deedsBy i new = asks order ++ settled server order (answersTo i moves) ∧
      ∀ host, (p.run (.act i (.copy order) :: moves)).filter.hosts.find? host =
        ((if host ∈ order.take (answersTo i moves) then (server host).toOption else none).map
          some).or ((p.filter.hosts.find? host).or (if isNoted host new then some none else none)) := by
  obtain ⟨-, new, hnew, hdeeds⟩ := h.came
  obtain ⟨new', hnew', hfilter, -⟩ := p.exists_replay (.act i (.copy order) :: moves)
  obtain ⟨-, new'', hnew'', hothers⟩ := h.undisturbed
  -- the three speak of the same piece of the history
  obtain rfl : new = new' := List.append_cancel_left (hnew.symm.trans hnew')
  obtain rfl : new = new'' := List.append_cancel_left (hnew.symm.trans hnew'')
  refine ⟨new, hnew, hdeeds, fun host => ?_⟩
  have hlast := lastReplaced_eq_deedsBy fun e he hne => hothers e he hne host
  rw [hfilter, find?_replay, hlast, hdeeds, lastReplaced_settled]

end Refreshing

/-! ## What the others do without the refresh -/

/-- A task with what it told its caller forgotten. -/
def Task.blurred : Task → Task
  | .judged host key _ => .judged host key true
  | task => task

theorem Task.eq_of_blurred {task task' : Task} (h : task.blurred = task'.blurred) :
    task' = task ∨ ∃ host key passes passes', task = .judged host key passes ∧
      task' = .judged host key passes' := by
  cases task with
  | judged host key passes =>
    cases task' with
    | judged host' key' passes' =>
      obtain ⟨rfl, rfl⟩ : host = host' ∧ key = key' := by simpa [Task.blurred] using h
      exact .inr ⟨host, key, passes, passes', rfl, rfl⟩
    | _ => simp [Task.blurred] at h
  | _ =>
    cases task' with
    | judged host' key' passes' => simp [Task.blurred] at h
    | _ => exact .inl h.symm

theorem enabled_advance (f : Filter) (task : Task) (part : Part) :
    (f.advance task part).1.enabled = f.enabled := by
  rw [← (advances f task part).replay_eq 0, enabled_replay]

theorem lookUp_blurred {f g : Filter} (henabled : f.enabled = g.enabled)
    (htracked : f.tracked = g.tracked) (host key : String) :
    (f.lookUp host key).blurred = (g.lookUp host key).blurred := by
  have hjudge : f.judge host key = none ↔ g.judge host key = none := by
    rw [judge_eq_none_iff, judge_eq_none_iff, htracked]
  rw [lookUp, lookUp, henabled]
  split
  · cases hf : f.judge host key with
    | none => rw [hjudge.mp hf]
    | some passes =>
      cases hg : g.judge host key with
      | none => cases hf.symm.trans (hjudge.mpr hg)
      | some passes' => rfl
  · rfl

/-- What comes of a call that brings no keys, but for the answer, hangs on the hosts alone. -/
theorem advance_blurred {f g : Filter} (henabled : f.enabled = g.enabled)
    (htracked : f.tracked = g.tracked) {task task' : Task} (h : task.blurred = task'.blurred)
    (hlearns : task.learns = false) (part : Part) :
    (f.advance task part).1.tracked = (g.advance task' part).1.tracked ∧
      (f.advance task part).2.1.blurred = (g.advance task' part).2.1.blurred := by
  have hnote (host : String) : (f.note host).tracked = (g.note host).tracked := by
    rw [tracked_note, tracked_note, htracked]
  obtain rfl | ⟨host, key, passes, passes', rfl, rfl⟩ := Task.eq_of_blurred h
  · cases task' with
    | called call =>
      cases call with
      | replace | refresh => cases hlearns
      | note host =>
        cases part with
        | own => exact ⟨hnote host, rfl⟩
        | _ => exact ⟨htracked, rfl⟩
      | pass host key =>
        cases part with
        | own =>
          rw [advance_pass, advance_pass]
          exact ⟨htracked, lookUp_blurred henabled htracked host key⟩
        | _ => exact ⟨htracked, rfl⟩
    | unknown host key =>
      cases part with
      | own => exact ⟨hnote host, rfl⟩
      | _ => exact ⟨htracked, rfl⟩
    | judged host key passes => exact ⟨htracked, rfl⟩
    | done call => exact ⟨htracked, rfl⟩
    | asking hosts =>
      cases hosts with
      | nil => exact ⟨htracked, rfl⟩
      | cons host rest => cases hlearns
    | cancelled hosts => exact ⟨htracked, rfl⟩
  · exact ⟨htracked, rfl⟩

/-- Two pools that differ in one task, in the keys of hosts and so in what callers were told. -/
structure AlikeBut (i : Nat) (q r : Shared) : Prop where
  enabled : q.filter.enabled = r.filter.enabled
  tracked : q.filter.tracked = r.filter.tracked
  length : q.tasks.length = r.tasks.length
  tasks : ∀ j, j ≠ i → q.tasks[j]?.map Task.blurred = r.tasks[j]?.map Task.blurred

def Move.isBy (i : Nat) : Move → Bool
  | .call _ => false
  | .act j _ => j = i

/-- The moves that are not a task's own. -/
def notBy (i : Nat) (moves : List Move) : List Move := moves.filter fun m => !m.isBy i

theorem notBy_concat (moves : List Move) (m : Move) :
    notBy i (moves ++ [m]) = notBy i moves ++ if m.isBy i = true then [] else [m] := by
  rw [notBy, List.filter_append, List.filter_cons, List.filter_nil]
  cases m.isBy i <;> rfl

namespace AlikeBut

variable {q r : Shared}

theorem step_call (h : AlikeBut i q r) (call : Call) :
    AlikeBut i (q.step (.call call)) (r.step (.call call)) := by
  refine ⟨h.enabled, h.tracked, ?_, fun j hj => ?_⟩
  · change (q.tasks ++ [_]).length = (r.tasks ++ [_]).length
    rw [List.length_append, List.length_append, h.length]
  · change (q.tasks ++ [_])[j]?.map _ = (r.tasks ++ [_])[j]?.map _
    rcases Nat.lt_or_ge j q.tasks.length with hlt | hle
    · rw [List.getElem?_append_left hlt, List.getElem?_append_left (h.length ▸ hlt), h.tasks j hj]
    · rw [List.getElem?_append_right hle, List.getElem?_append_right (h.length ▸ hle), h.length]

theorem step_act (h : AlikeBut i q r) {j : Nat} (hj : j ≠ i) (part : Part)
    (hquiet : q.Quiet i) : AlikeBut i (q.step (.act j part)) (r.step (.act j part)) := by
  have hmap := h.tasks j hj
  rw [Shared.step, Shared.step]
  cases hq : q.tasks[j]? with
  | none =>
    rw [hq] at hmap
    rw [Option.map_eq_none_iff.mp hmap.symm]
    exact h
  | some task =>
    rw [hq] at hmap
    obtain ⟨task', hr, hblurred⟩ := Option.map_eq_some_iff.mp hmap.symm
    -- the task does the same part in both, on filters that keep track of the same hosts
    obtain ⟨htracked, htask⟩ :=
      advance_blurred h.enabled h.tracked hblurred.symm (hquiet j task hj hq) part
    rw [hr]
    refine ⟨?_, htracked, ?_, fun k hk => ?_⟩
    · change (q.filter.advance task part).1.enabled = (r.filter.advance task' part).1.enabled
      rw [enabled_advance, enabled_advance, h.enabled]
    · change (q.tasks.set j _).length = (r.tasks.set j _).length
      rw [List.length_set, List.length_set, h.length]
    · change (q.tasks.set j _)[k]?.map _ = (r.tasks.set j _)[k]?.map _
      by_cases hkj : j = k
      · subst hkj
        rw [List.getElem?_set_self (List.getElem?_eq_some_iff.mp hq).1,
          List.getElem?_set_self (List.getElem?_eq_some_iff.mp hr).1]
        exact congrArg some htask
      · rw [List.getElem?_set_ne hkj, List.getElem?_set_ne hkj, h.tasks k hk]

/-- A part of the task itself is not seen by the others if it keeps the hosts. -/
theorem step_own (h : AlikeBut i q r) (part : Part)
    (hkeeps : (q.step (.act i part)).filter.tracked = q.filter.tracked) :
    AlikeBut i (q.step (.act i part)) r := by
  have hsteps := q.steps (.act i part)
  generalize q.step (.act i part) = q' at hsteps hkeeps ⊢
  cases hsteps with
  | absent => exact h
  | @acted _ _ task task' f deeds current advances =>
    refine ⟨?_, hkeeps.trans h.tracked, ?_, fun j hj => ?_⟩
    · rw [← h.enabled, ← enabled_replay q.filter (deeds.map (i, ·)), advances.replay_eq]
    · change (q.tasks.set i task').length = _
      rw [List.length_set, h.length]
    · change (q.tasks.set i task')[j]?.map _ = _
      rw [List.getElem?_set_ne hj.symm, h.tasks j hj]

end AlikeBut

/-- A refresh goes on with hosts that are kept track of already. -/
theorem tracked_advance_remaining {f : Filter} {hosts : List String}
    (h : ∀ host ∈ hosts, host ∈ f.tracked) (givenUp : Bool) (part : Part) :
    (f.advance (remaining givenUp hosts) part).1.tracked = f.tracked := by
  rw [remaining]
  split
  · rfl
  · cases hosts with
    | nil => rfl
    | cons host rest =>
      cases part with
      | answer g => exact tracked_learn (h host List.mem_cons_self) (g host)
      | _ => rfl

namespace Refreshing

variable {order : List String} {p : Shared} {moves : List Move}

theorem of_append {more : List Move} (h : Refreshing server i order p (moves ++ more)) :
    Refreshing server i order p moves where
  called := h.called
  order := h.order
  others := h.others
  calls call hm := h.calls call (List.mem_append_left more hm)
  server g hm := h.server g (List.mem_append_left more hm)

theorem isSome_find? (h : Refreshing server i order p moves) {host : String} (hhost : host ∈ order) :
    (p.filter.hosts.find? host).isSome = true :=
  mem_tracked_iff.mp (h.mem_order_iff.mp hhost)

theorem tracked_of_mem (h : Refreshing server i order p moves) {host : String}
    (hhost : host ∈ order) :
    host ∈ (p.run (.act i (.copy order) :: moves)).filter.tracked := by
  obtain ⟨new, -, -, hfind⟩ := h.exists_deeds
  obtain ⟨entry, hentry⟩ := Option.isSome_iff_exists.mp (h.isSome_find? hhost)
  rw [mem_tracked_iff, hfind, hentry, Option.some_or, Option.isSome_or]
  exact Bool.or_true _

/-- Which hosts others register, and what else they do, does not hang on the refresh. -/
theorem alike (h : Refreshing server i order p moves) :
    AlikeBut i (p.run (.act i (.copy order) :: moves)) (p.run (notBy i moves)) := by
  -- from the end, since what the refresh has left is known after every beginning of the run
  induction moves using List.reverseRecOn with
  | nil =>
    refine AlikeBut.step_own ⟨rfl, rfl, rfl, fun _ _ => rfl⟩ _ ?_
    rw [(Shared.step_act h.called _).1, advance, if_pos (List.isPerm_iff.mpr h.order)]
  | append_singleton ms m ih =>
    have hms := h.of_append
    have halike := ih hms
    rw [← List.cons_append, Shared.run_append, notBy_concat, Shared.run_append]
    cases m with
    | call call => exact halike.step_call call
    | act j part =>
      by_cases hj : j = i
      · subst hj
        rw [if_pos (show Move.isBy j (.act j part) = true from decide_eq_true rfl)]
        refine halike.step_own part ?_
        rw [(Shared.step_act hms.came.1 part).1]
        refine tracked_advance_remaining (fun host hhost => ?_) _ part
        exact hms.tracked_of_mem (List.mem_of_mem_drop hhost)
      · -- what others were told may differ, and they do the same
        rw [if_neg (by simpa [Move.isBy] using hj)]
        exact halike.step_act hj part hms.undisturbed.1

end Refreshing

/-! ## What comes of a refresh -/

/-- What has come of a refresh of the hosts in `order` when `n` of them were answered. -/
structure Refreshed (server : String → Except ClientError ActiveKeys) (order : List String) (n : Nat)
    (before after : Filter) (deeds : List Deed) (meanwhile : List (Nat × Deed)) : Prop where
  /-- The hosts are asked for in their order, each when there is an answer for the one before. -/
  asked : deeds.filterMap Deed.asked? = order.take (n + 1)
  complete : order.length ≤ n → ∀ host,
    (deeds.filterMap Deed.asked?).count host = if host ∈ before.tracked then 1 else 0
  fetched : ∀ host ∈ order.take n, ∀ keys, server host = .ok keys →
    after.hosts.find? host = some (some keys)
  failed : ∀ host ∈ order.take n, ∀ cause, server host = .error cause →
    after.hosts.find? host = before.hosts.find? host ∧
      (deeds.filterMap Deed.notice?).count (.checksUnavailable host cause) = 1
  warned : deeds.filterMap Deed.notice? = failures (order.take n) server
  untouched : ∀ host ∈ before.tracked, host ∉ order.take n →
    after.hosts.find? host = before.hosts.find? host
  registered : ∀ host ∉ before.tracked, isNoted host meanwhile = true →
    after.isPending host = true ∧ .asked host ∉ deeds
  absent : ∀ host ∉ before.tracked, isNoted host meanwhile = false → after.hosts.find? host = none

theorem eq_of_failure? {host : String} {answer : Except ClientError ActiveKeys} {notice : Notice}
    (h : failure? host answer = some notice) : ∃ cause, notice = .checksUnavailable host cause := by
  cases answer with
  | ok keys => cases h
  | error cause =>
    cases h
    exact ⟨cause, rfl⟩

/-- Of each host that was refused there is one failure. -/
theorem count_failures {hosts : List String} (hnodup : hosts.Nodup) {host : String}
    (hhost : host ∈ hosts) {cause : ClientError} (hcause : server host = .error cause) :
    (failures hosts server).count (.checksUnavailable host cause) = 1 := by
  have hfailure : failure? host (server host) = some (.checksUnavailable host cause) := by
    rw [hcause]
    rfl
  refine List.count_eq_one_of_mem (hnodup.filterMap fun a b notice ha hb => ?_)
    (List.mem_filterMap.mpr ⟨host, hhost, hfailure⟩)
  -- a notice names its host
  rw [Option.mem_def] at ha hb
  obtain ⟨e, rfl⟩ := eq_of_failure? ha
  obtain ⟨e', he'⟩ := eq_of_failure? hb
  cases he'
  rfl

/-- In every run a refresh settles the hosts that were answered, each as its answer says, and no other. -/
theorem Refreshing.exists_refreshed {order : List String} {p : Shared} {moves : List Move}
    (h : Refreshing server i order p moves) :
    ∃ new, (p.run (.act i (.copy order) :: moves)).history = p.history ++ new ∧
      Refreshed server order (answersTo i moves) p.filter
        (p.run (.act i (.copy order) :: moves)).filter (deedsBy i new) new := by
  obtain ⟨new, hnew, hdeeds, hfind⟩ := h.exists_deeds
  refine ⟨new, hnew, ?_⟩
  have hasked : (deedsBy i new).filterMap Deed.asked? = order.take (answersTo i moves + 1) := by
    rw [hdeeds, asked_settled]
  have hwarned : (deedsBy i new).filterMap Deed.notice? =
      failures (order.take (answersTo i moves)) server := by
    rw [hdeeds, notices_settled]
  have htracked : ∀ host ∈ order, ∃ entry, p.filter.hosts.find? host = some entry :=
    fun host hhost => Option.isSome_iff_exists.mp (h.isSome_find? hhost)
  have hunmet : ∀ host ∉ p.filter.tracked, p.filter.hosts.find? host = none :=
    fun host hhost => Option.not_isSome_iff_eq_none.mp (mt mem_tracked_iff.mpr hhost)
  -- no answer is ever got for a host that was not met before
  have hafter : ∀ host ∉ p.filter.tracked,
      (p.run (.act i (.copy order) :: moves)).filter.hosts.find? host =
        if isNoted host new then some none else none := by
    intro host hhost
    have horder : host ∉ order.take (answersTo i moves) := fun hmem =>
      hhost (h.mem_order_iff.mp (List.mem_of_mem_take hmem))
    rw [hfind, if_neg horder, hunmet host hhost]
    rfl
  exact
    { asked := hasked
      complete := by
        intro hdone host
        rw [hasked, List.take_of_length_le (Nat.le_succ_of_le hdone)]
        by_cases hmem : host ∈ p.filter.tracked
        · rw [if_pos hmem]
          exact List.count_eq_one_of_mem h.nodup_order (h.mem_order_iff.mpr hmem)
        · rw [if_neg hmem]
          exact List.count_eq_zero_of_not_mem (mt h.mem_order_iff.mp hmem)
      fetched := by
        intro host hmem keys hkeys
        rw [hfind, if_pos hmem, hkeys]
        rfl
      failed := by
        intro host hmem cause hcause
        obtain ⟨entry, hentry⟩ := htracked host (List.mem_of_mem_take hmem)
        refine ⟨?_, ?_⟩
        · rw [hfind, if_pos hmem, hcause, hentry]
          rfl
        · rw [hwarned]
          exact count_failures (h.nodup_order.sublist (List.take_sublist _ _)) hmem hcause
      warned := hwarned
      untouched := by
        intro host hbefore hmem
        obtain ⟨entry, hentry⟩ := htracked host (h.mem_order_iff.mpr hbefore)
        rw [hfind, if_neg hmem, hentry]
        rfl
      registered := by
        intro host hbefore hnoted
        refine ⟨?_, fun hdeed => hbefore ?_⟩
        · rw [isPending_iff, hafter host hbefore, if_pos hnoted]
        · have hmem : host ∈ (deedsBy i new).filterMap Deed.asked? :=
            List.mem_filterMap.mpr ⟨_, hdeed, rfl⟩
          rw [hasked] at hmem
          exact h.mem_order_iff.mp (List.mem_of_mem_take hmem)
      absent := by
        intro host hbefore hnoted
        rw [hafter host hbefore, hnoted]
        rfl }

/-- What a filter holds at the end is a matter of what it held, of the answers and of the hosts that are
kept track of by then. -/
theorem Refreshed.find?_of_complete {order : List String} {n : Nat} {before after : Filter}
    {deeds : List Deed} {meanwhile : List (Nat × Deed)}
    (h : Refreshed server order n before after deeds meanwhile)
    (horder : order.Perm before.tracked) (hdone : order.length ≤ n) (host : String) :
    after.hosts.find? host =
      if host ∈ before.tracked then
        ((server host).toOption.map some).or (before.hosts.find? host)
      else if host ∈ after.tracked then some none else none := by
  by_cases hbefore : host ∈ before.tracked
  · have hmem : host ∈ order.take n := by
      rw [List.take_of_length_le hdone]
      exact horder.mem_iff.mpr hbefore
    rw [if_pos hbefore]
    cases hanswer : server host with
    | ok keys => exact h.fetched host hmem keys hanswer
    | error cause => exact (h.failed host hmem cause hanswer).1
  · rw [if_neg hbefore]
    cases hnoted : isNoted host meanwhile with
    | true =>
      have hpending := isPending_iff.mp (h.registered host hbefore hnoted).1
      have hafter : host ∈ after.tracked := by
        rw [mem_tracked_iff, hpending]
        rfl
      rw [if_pos hafter, hpending]
    | false =>
      have habsent := h.absent host hbefore hnoted
      have hafter : host ∉ after.tracked := by
        rw [mem_tracked_iff, habsent]
        exact Bool.false_ne_true
      rw [if_neg hafter, habsent]

/-- Neither the order of the hosts nor the moments of the answers make a difference in the end. -/
theorem Refreshing.filter_eq_of_complete {order : List String} {p : Shared} {moves : List Move}
    (h : Refreshing server i order p moves) (hdone : order.length ≤ answersTo i moves)
    {order' : List String} {moves' : List Move} (h' : Refreshing server i order' p moves')
    (hdone' : order'.length ≤ answersTo i moves')
    (hothers : notBy i moves' = notBy i moves) :
    (p.run (.act i (.copy order') :: moves')).filter =
      (p.run (.act i (.copy order) :: moves)).filter := by
  have halike := h.alike
  have halike' := h'.alike
  rw [hothers] at halike'
  -- the hosts are those that the others registered, in their order
  have htracked := halike'.tracked.trans halike.tracked.symm
  refine eq_of_find? (halike'.enabled.trans halike.enabled.symm) htracked fun host => ?_
  obtain ⟨new, -, hsettled⟩ := h.exists_refreshed
  obtain ⟨new', -, hsettled'⟩ := h'.exists_refreshed
  rw [hsettled'.find?_of_complete h'.order hdone', hsettled.find?_of_complete h.order hdone,
    htracked]

/-- A refresh asks for the hosts that were kept track of when it began, in its order, does with each what
the answer says and nothing with the others, whatever comes in between. In the end the order has made no
difference, and given up in between the refresh has done the same for the hosts answered by then. -/
theorem refresh_settles_each_host {order : List String} {p : Shared} {moves : List Move}
    (h : Refreshing server i order p moves) :
    (p.run (.act i (.copy order) :: moves)).tasks[i]? =
      some (remaining (moves.any (Move.givesUp i)) (order.drop (answersTo i moves))) ∧
    (∃ new, (p.run (.act i (.copy order) :: moves)).history = p.history ++ new ∧
      Refreshed server order (answersTo i moves) p.filter
        (p.run (.act i (.copy order) :: moves)).filter (deedsBy i new) new) ∧
    ∀ order' moves', Refreshing server i order' p moves' → notBy i moves' = notBy i moves →
      order.length ≤ answersTo i moves → order'.length ≤ answersTo i moves' →
      (p.run (.act i (.copy order') :: moves')).filter =
        (p.run (.act i (.copy order) :: moves)).filter := by
  refine ⟨h.came.1, h.exists_refreshed, ?_⟩
  intro order' moves' h' hothers hdone hdone'
  exact h.filter_eq_of_complete hdone h' hdone' hothers

/-- A server that knows one host. -/
def oneHost (host : String) : Except ClientError ActiveKeys :=
  if host = "web" then .ok (Table.empty.insert "load" ⟨60⟩) else .error .invalidReply

/-- A refresh is due, and a key of a host that was not met is to be judged. -/
def awaiting : Shared :=
  (Shared.start true "relay").run
    [.call (.replace "web" (Table.empty.insert "disk" ⟨30⟩)), .act 0 .own, .call .refresh,
      .call (.pass "db" "load")]

theorem refreshing_awaiting {order : List String} (horder : order.Perm ["relay", "web"])
    {moves : List Move} (hcalls : ∀ call, .call call ∉ moves)
    (hserver : ∀ g, .act 1 (.answer g) ∈ moves → g = oneHost) :
    Refreshing oneHost 1 order awaiting moves where
  called := by decide +kernel
  order := horder
  others := by
    have htasks : awaiting.tasks =
        [.done (.replace "web" (Table.empty.insert "disk" ⟨30⟩)), .called .refresh,
          .called (.pass "db" "load")] := by decide +kernel
    intro j task hj h
    rw [htasks] at h
    match j with
    | 0 | 2 =>
      cases h
      rfl
    | 1 => exact absurd rfl hj
    | j + 3 => cases h
  calls call hm := absurd hm (hcalls call)
  server := hserver

theorem refresh_settles_each_host_awaiting :
    let moves := [.act 2 .own, .act 1 (.answer oneHost), .act 2 .own, .act 1 (.answer oneHost)]
    let moves' := [.act 1 (.answer oneHost), .act 2 .own, .act 1 (.answer oneHost), .act 2 .own]
    let q := awaiting.run (.act 1 (.copy ["web", "relay"]) :: moves)
    Refreshing oneHost 1 ["web", "relay"] awaiting moves ∧
      q.filter.known = [("web", ["load"])] ∧ q.filter.pending = ["relay", "db"] ∧
      (awaiting.run (.act 1 (.copy ["relay", "web"]) :: moves')).filter = q.filter := by
  intro moves moves' q
  have h : Refreshing oneHost 1 ["web", "relay"] awaiting moves :=
    refreshing_awaiting (by decide +kernel) (by simp [moves]) (by simp [moves])
  have h' : Refreshing oneHost 1 ["relay", "web"] awaiting moves' :=
    refreshing_awaiting (by decide +kernel) (by simp [moves']) (by simp [moves'])
  exact ⟨h, by decide +kernel, by decide +kernel,
    (refresh_settles_each_host h).2.2 _ _ h' rfl (by decide) (by decide)⟩

end MetricRelay.Filter
