import MetricRelay.Proofs.Filter.History

/-!
What the callers of a shared filter are told. Main statement: in whatever order the parts of the calls
come, the filter and each answer are what the history of the registrations and replacements makes of them.
-/
namespace MetricRelay.Filter

/-! ## What a caller is told -/

theorem Shared.Owned.deedsBy_length {p : Shared} (h : p.Owned p.history) :
    deedsBy p.tasks.length p.history = [] := by
  rw [List.eq_nil_iff_forall_not_mem]
  intro d hd
  obtain ⟨call, hcall, -⟩ := h _ (mem_deedsBy_iff.mp hd)
  obtain ⟨hlt, -⟩ := List.getElem?_eq_some_iff.mp hcall
  rw [Shared.calls, List.length_map] at hlt
  exact absurd hlt (Nat.lt_irrefl _)

/-- The task looked the key up once, when the history before it made this of the key. -/
def Saw (start : Filter) (history : List (Nat × Deed)) (i : Nat) (host key : String)
    (found : Option Bool) (later : List Deed) : Prop :=
  ∃ before after, history = before ++ (i, .lookedUp host key) :: after ∧ deedsBy i before = [] ∧
    deedsBy i after = later ∧ (replay start before).judge host key = found

theorem Saw.append {start : Filter} {history : List (Nat × Deed)} {i : Nat} {host key : String}
    {found : Option Bool} {later : List Deed} (h : Saw start history i host key found later)
    (new : List (Nat × Deed)) :
    Saw start (history ++ new) i host key found (later ++ deedsBy i new) := by
  obtain ⟨before, after, rfl, hbefore, rfl, hfound⟩ := h
  refine ⟨before, after ++ new, ?_, hbefore, deedsBy_append i after new, hfound⟩
  rw [List.append_assoc, List.cons_append]

theorem saw_concat {start : Filter} {history : List (Nat × Deed)} {i : Nat} (host key : String)
    (h : deedsBy i history = []) :
    Saw start (history ++ [(i, .lookedUp host key)]) i host key
      ((replay start history).judge host key) [] :=
  ⟨history, [], rfl, h, rfl, rfl⟩

/-- How far a task may have come, by the history of the filter that it shares. -/
inductive Told (start : Filter) (history : List (Nat × Deed)) (i : Nat) : Task → Prop
  | called {call : Call} (deeds : deedsBy i history = []) : Told start history i (.called call)
  | unknown {host key : String} (enabled : start.enabled = true)
    (saw : Saw start history i host key none []) : Told start history i (.unknown host key)
  | judged {host key : String} {passes : Bool} (enabled : start.enabled = true)
    (saw : Saw start history i host key (some passes) []) :
    Told start history i (.judged host key passes)
  | registered {host key : String} (enabled : start.enabled = true)
    (saw : Saw start history i host key none [.noted host]) :
    Told start history i (.judged host key false)
  | waved {host key : String} (disabled : start.enabled = false) (deeds : deedsBy i history = []) :
    Told start history i (.judged host key true)
  | noted {host : String} (deeds : deedsBy i history = [.noted host]) :
    Told start history i (.done (.note host))
  | replaced {host : String} {keys : ActiveKeys} (deeds : deedsBy i history = [.replaced host keys]) :
    Told start history i (.done (.replace host keys))
  | asking {hosts : List String} : Told start history i (.asking hosts)
  | cancelled {hosts : List String} : Told start history i (.cancelled hosts)

/-- What other tasks do does not change how far a task has come. -/
theorem Told.append {start : Filter} {history : List (Nat × Deed)} {i : Nat} {task : Task}
    (h : Told start history i task) {new : List (Nat × Deed)} (hnew : deedsBy i new = []) :
    Told start (history ++ new) i task := by
  have hsaw {host key : String} {found : Option Bool} {later : List Deed}
      (saw : Saw start history i host key found later) :
      Saw start (history ++ new) i host key found later := by
    have hs := saw.append new
    rwa [hnew, List.append_nil] at hs
  have hdeeds : deedsBy i (history ++ new) = deedsBy i history := by
    rw [deedsBy_append, hnew, List.append_nil]
  cases h with
  | called deeds => exact .called (hdeeds.trans deeds)
  | unknown enabled saw => exact .unknown enabled (hsaw saw)
  | judged enabled saw => exact .judged enabled (hsaw saw)
  | registered enabled saw => exact .registered enabled (hsaw saw)
  | waved disabled deeds => exact .waved disabled (hdeeds.trans deeds)
  | noted deeds => exact .noted (hdeeds.trans deeds)
  | replaced deeds => exact .replaced (hdeeds.trans deeds)
  | asking => exact .asking
  | cancelled => exact .cancelled

/-- What a task does itself brings it as far as it says. -/
theorem Told.advance {start : Filter} {history : List (Nat × Deed)} {i : Nat} {task task' : Task}
    {part : Part} {f' : Filter} {deeds : List Deed} (h : Told start history i task)
    (advances : Advances (replay start history) task part f' task' deeds) :
    Told start (history ++ deeds.map (i, ·)) i task' := by
  have hnew : deedsBy i (history ++ deeds.map (i, ·)) = deedsBy i history ++ deeds := by
    rw [deedsBy_append, deedsBy_map_self]
  -- a look-up is the first deed of its task, and a registration that follows it the second
  cases advances with
  | idle => exact h.append rfl
  | @judged host key passes enabled judge =>
    cases h with
    | called none =>
      exact .judged (enabled_replay start history ▸ enabled) (judge ▸ saw_concat host key none)
  | @missed host key enabled judge =>
    cases h with
    | called none =>
      exact .unknown (enabled_replay start history ▸ enabled) (judge ▸ saw_concat host key none)
  | waved disabled =>
    cases h with
    | called none =>
      exact .waved (enabled_replay start history ▸ disabled) (hnew.trans (congrArg (· ++ _) none))
  | @registered host key =>
    cases h with
    | unknown enabled saw =>
      have hs := saw.append ([Deed.noted host].map (i, ·))
      rw [deedsBy_map_self] at hs
      exact .registered enabled hs
  | noted =>
    cases h with
    | called none => exact .noted (hnew.trans (congrArg (· ++ _) none))
  | replaced =>
    cases h with
    | called none => exact .replaced (hnew.trans (congrArg (· ++ _) none))
  | copied copy => exact .asking
  | answered => exact .asking
  | cancelled => exact .cancelled

namespace Shared

/-- What holds of every run of a filter from its start. -/
structure Faithful (start : Filter) (p : Shared) : Prop where
  owned : p.Owned p.history
  replayed : p.filter = replay start p.history
  told : ∀ i task, p.tasks[i]? = some task → Told start p.history i task

theorem Faithful.step {start : Filter} {p : Shared} (h : p.Faithful start) (m : Move) :
    (p.step m).Faithful start := by
  obtain ⟨new, hhistory, hfilter, hnew⟩ := p.exists_replay [m]
  change (p.step m).history = _ at hhistory
  refine ⟨?_, ?_, ?_⟩
  · rw [hhistory]
    exact (h.owned.run [m]).append hnew
  · change (p.step m).filter = _ at hfilter
    rw [hfilter, hhistory, replay_append, h.replayed]
  · have hsteps := p.steps m
    clear hhistory hfilter hnew
    generalize p.step m = q at hsteps ⊢
    intro j task hj
    cases hsteps with
    | called =>
      rcases getElem?_concat_eq_some hj with hj | ⟨rfl, rfl⟩
      · exact h.told j task hj
      · -- nothing was done under the number of a new task
        exact .called h.owned.deedsBy_length
    | absent => exact h.told j task hj
    | @acted i _ current task' _ deeds hi advances =>
      rw [h.replayed] at advances
      by_cases hij : i = j
      · subst hij
        rw [List.getElem?_set_self (List.getElem?_eq_some_iff.mp hi).1] at hj
        cases hj
        exact (h.told i current hi).advance advances
      · rw [List.getElem?_set_ne hij] at hj
        exact (h.told j task hj).append (deedsBy_map_of_ne hij deeds)

/-- A task that has looked its key up. -/
def Halfway (i : Nat) (host key : String) (p : Shared) : Prop :=
  p.tasks[i]? = some (.unknown host key) ∨
    ∃ passes, p.tasks[i]? = some (.judged host key passes)

theorem Halfway.step {p : Shared} {i : Nat} {host key : String} (h : p.Halfway i host key)
    (m : Move) : (p.step m).Halfway i host key := by
  rcases h with h | ⟨passes, h⟩
  · have hstep := (came_step h m).1
    cases m with
    | call call => exact .inl hstep
    | act j part =>
      rw [goOn] at hstep
      split at hstep
      · cases part with
        | own => exact .inr ⟨false, hstep⟩
        | _ => exact .inl hstep
      · exact .inl hstep
  · exact .inr ⟨passes, (came_of_still (fun f part => rfl) h [m]).1⟩

theorem step_lookUp {p : Shared} {i : Nat} {host key : String}
    (h : p.tasks[i]? = some (.called (.pass host key))) :
    (p.step (.act i .own)).filter = p.filter ∧
      (p.step (.act i .own)).tasks[i]? = some (p.filter.lookUp host key) := by
  obtain ⟨hfilter, htask, -⟩ := step_act h .own
  rw [advance_pass] at hfilter htask
  exact ⟨hfilter, htask⟩

/-- A call whose two parts nothing comes between is judged as if it had the filter to itself. -/
theorem run_own_own {p : Shared} {i : Nat} {host key : String}
    (h : p.tasks[i]? = some (.called (.pass host key))) :
    (p.run [.act i .own, .act i .own]).filter = (p.filter.pass host key).2 ∧
      (p.run [.act i .own, .act i .own]).tasks[i]? =
        some (.judged host key (p.filter.pass host key).1) := by
  obtain ⟨hfilter, htask⟩ := step_lookUp h
  obtain ⟨hfilter', htask', -⟩ := step_act htask .own
  obtain ⟨hpass, hjudged⟩ := advance_lookUp p.filter host key
  rw [hfilter] at hfilter' htask'
  exact ⟨hfilter'.trans hpass, htask'.trans (congrArg some hjudged)⟩

end Shared

/-! ## What a history from the start says of a host -/

section

variable (enabled : Bool) (localHost : String) (history : List (Nat × Deed)) (host : String)

end

/-! ## The shared filter and its history -/

/-- Keys that are fetched after a look-up missed their host outlive the registration that it leads to. -/
example :
    let p := (Shared.start true "relay").run
      [.call (.pass "web" "load"), .call (.replace "web" (Table.empty.insert "load" ⟨60⟩)),
        .act 0 .own, .act 1 .own, .act 0 .own]
    p.tasks[0]? = some (.judged "web" "load" false) ∧ p.filter.judge "web" "load" = some true := by
  decide +kernel

end MetricRelay.Filter
