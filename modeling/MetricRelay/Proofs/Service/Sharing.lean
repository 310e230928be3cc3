import MetricRelay.Proofs.Filter.Refinement
import MetricRelay.Proofs.Filter.Refresh
import MetricRelay.Proofs.Service.Soundness

/-!
The filter of the service as a shared one. Main statement: whatever the service does with its filter in a
run, calls that share the filter do as well, one for each record that is judged and one for each refresh.
-/
namespace MetricRelay.Service

open MetricRelay.Filter (Shared)

/-- The tasks that share the filter are as far as the service: one of them is at the refresh under way, and
no other may bring new keys. -/
structure Mirrored (s : Service) (p : Shared) : Prop where
  filter : p.filter = s.filter
  idle : s.refresh = none → ∀ i, p.Quiet i
  refreshing : ∀ r, s.refresh = some r → ∃ i, p.tasks[i]? = some (.asking r.hosts) ∧ p.Quiet i

/-- A key can be judged by one more call, which leaves the other tasks as they are. -/
theorem exists_pass (p : Shared) (host key : String) :
    ∃ moves, (p.run moves).filter = (p.filter.pass host key).2 ∧
      (∀ i, p.Quiet i → (p.run moves).Quiet i) ∧
      ∀ (i : Nat) task, p.tasks[i]? = some task → (p.run moves).tasks[i]? = some task := by
  have hcalled : (p.step (.call (.pass host key))).tasks[p.tasks.length]? =
      some (.called (.pass host key)) := List.getElem?_concat_length
  have hown := Shared.run_own_own hcalled
  refine ⟨[.call (.pass host key), .act p.tasks.length .own, .act p.tasks.length .own],
    hown.1, fun i hquiet => (hquiet.run fun call hm => ?_).1, fun i task htask => ?_⟩
  · obtain rfl : call = .pass host key := by simpa using hm
    rfl
  · have hlt := (List.getElem?_eq_some_iff.mp htask).1
    refine Shared.getElem?_run htask fun part hm => ?_
    obtain ⟨rfl, -⟩ : i = p.tasks.length ∧ part = .own := by simpa using hm
    exact absurd hlt (Nat.lt_irrefl _)

/-- A record that is judged counts as a call if its key is looked up at all. -/
theorem Mirrored.judged {s : Service} {p : Shared} (h : Mirrored s p) (r : Record)
    (rest : List Record) : ∃ moves, Mirrored (s.judged r rest) (p.run moves) := by
  cases hkey : r.key with
  | error e =>
    have hfilter : s.filterAfter r = s.filter := by rw [filterAfter, hkey]
    exact ⟨[], h.filter.trans hfilter.symm, h.idle, h.refreshing⟩
  | ok key =>
    cases hhost : r.host with
    | error e =>
      have hfilter : s.filterAfter r = s.filter := by rw [filterAfter, hkey, hhost]
      exact ⟨[], h.filter.trans hfilter.symm, h.idle, h.refreshing⟩
    | ok host =>
      have hfilter : s.filterAfter r = (s.filter.pass host key).2 := by
        rw [filterAfter, hkey, hhost]
      obtain ⟨moves, hpass, hquiet, htasks⟩ := exists_pass p host key
      refine ⟨moves, ?_, fun hr i => hquiet i (h.idle hr i), fun refresh hr => ?_⟩
      · rw [hpass, h.filter]
        exact hfilter.symm
      · obtain ⟨i, htask, hi⟩ := h.refreshing refresh hr
        exact ⟨i, htasks i _ htask, hquiet i hi⟩

/-- Once its refresh is over, a task may bring no more keys than the others. -/
theorem quiet_of_over {p : Shared} {i : Nat} {task : Filter.Task} (h : p.Quiet i)
    (htask : p.tasks[i]? = some task) (hover : task.learns = false) (j : Nat) : p.Quiet j := by
  intro k task' _ hk
  by_cases hki : k = i
  · subst hki
    cases htask.symm.trans hk
    exact hover
  · exact h k task' hki hk

/-- The server's answer brings the task at the refresh further, too. -/
theorem Mirrored.learn {s s' : Service} {p : Shared} {host : String} {rest : List String}
    {n : Nat} {answer : Except ClientError ActiveKeys} (h : Mirrored s p)
    (hrefresh : s.refresh = some ⟨host :: rest, n⟩)
    (hfilter : s'.filter = s.filter.learn host answer)
    (hrest : ∀ r, s'.refresh = some r → r.hosts = rest) (hidle : s'.refresh = none → rest = []) :
    ∃ moves, Mirrored s' (p.run moves) := by
  obtain ⟨i, htask, hquiet⟩ := h.refreshing _ hrefresh
  obtain ⟨hlearn, hasking, -⟩ := Shared.step_act htask (.answer fun _ => answer)
  have hkept := hquiet.act i (.answer fun _ => answer)
  refine ⟨[.act i (.answer fun _ => answer)], ?_, fun hr j => ?_, fun r hr => ⟨i, ?_, hkept⟩⟩
  · rw [hfilter, ← h.filter]
    exact hlearn
  · obtain rfl := hidle hr
    exact quiet_of_over hkept hasking rfl j
  · rw [hrest r hr]
    exact hasking

/-- A refresh of the service counts as a call as well. -/
theorem Mirrored.refresh {s s' : Service} {p : Shared} {order : List String} {n : Nat}
    (h : Mirrored s p) (hidle : s.refresh = none) (horder : order.Perm s.filter.tracked)
    (hfilter : s'.filter = s.filter) (hrefresh : s'.refresh = some ⟨order, n⟩) :
    ∃ moves, Mirrored s' (p.run moves) := by
  have hcalled : (p.step (.call .refresh)).tasks[p.tasks.length]? = some (.called .refresh) :=
    List.getElem?_concat_length
  have hquiet : (p.step (.call .refresh)).Quiet p.tasks.length := by
    intro j task hj htask
    rcases Shared.getElem?_concat_eq_some htask with htask | ⟨rfl, -⟩
    · exact h.idle hidle (j + 1) j task (Nat.ne_of_lt (Nat.lt_succ_self j)) htask
    · exact absurd rfl hj
  have hcopied : (p.step (.call .refresh)).filter.advance (.called .refresh) (.copy order) =
      (p.filter, .asking order, Filter.asks order) := by
    refine if_pos (List.isPerm_iff.mpr ?_)
    rw [← h.filter] at horder
    exact horder
  obtain ⟨hsame, hasking, -⟩ := Shared.step_act hcalled (.copy order)
  rw [hcopied] at hsame hasking
  refine ⟨[.call .refresh, .act p.tasks.length (.copy order)], ?_, fun hr => ?_, fun r hr => ?_⟩
  · rw [hfilter, ← h.filter]
    exact hsame
  · rw [hrefresh] at hr
    cases hr
  · rw [hrefresh] at hr
    cases hr
    exact ⟨_, hasking, hquiet.act _ _⟩

/-- A refresh that is under way when the service stops is cancelled. -/
theorem Mirrored.stop {s s' : Service} {p : Shared} (h : Mirrored s p)
    (hfilter : s'.filter = s.filter) (hrefresh : s'.refresh = none) :
    ∃ moves, Mirrored s' (p.run moves) := by
  cases hr : s.refresh with
  | none =>
    refine ⟨[], h.filter.trans hfilter.symm, fun _ => h.idle hr, fun r hr' => ?_⟩
    rw [hrefresh] at hr'
    cases hr'
  | some r =>
    obtain ⟨i, htask, hquiet⟩ := h.refreshing r hr
    obtain ⟨hsame, hover, -⟩ := Shared.step_act htask .cancel
    have hkept := hquiet.act i .cancel
    refine ⟨[.act i .cancel], ?_, fun _ => quiet_of_over hkept hover ?_, fun r hr' => ?_⟩
    · rw [hfilter, ← h.filter]
      refine hsame.trans ?_
      cases r.hosts <;> rfl
    · cases r.hosts <;> rfl
    · rw [hrefresh] at hr'
      cases hr'

theorem Transition.mirrored {s s' : Service} {e : Event} {l : List Occurrence}
    (h : Transition s e s' l) {p : Shared} (hp : Mirrored s p) :
    ∃ moves, Mirrored s' (p.run moves) := by
  have hsame {t : Service} (hfilter : t.filter = s.filter) (hrefresh : t.refresh = s.refresh) :
      ∃ moves, Mirrored t (p.run moves) := by
    refine ⟨[], hp.filter.trans hfilter.symm, fun hr => hp.idle (hrefresh ▸ hr), fun r hr => ?_⟩
    exact hp.refreshing r (hrefresh ▸ hr)
  cases h with
  | @refused r rest _ _ _ _ _ | @stored r rest _ _ _ _ _ | @filled r rest _ _ _ _ _ _ _ =>
    obtain ⟨moves, hm⟩ := hp.judged r rest
    exact ⟨moves, hm.filter, hm.idle, hm.refreshing⟩
  | fetched refresh =>
    refine hp.learn refresh rfl (fun r hr => ?_) (fun hr => nomatch hr)
    cases hr
    rfl
  | refreshed refresh => exact hp.learn refresh rfl (fun r hr => nomatch hr) fun _ => rfl
  | refreshing can order =>
    have hidle : s.refresh = none := by
      simp only [canRefresh, Bool.and_eq_true, decide_eq_true_eq] at can
      exact can.1.2
    exact hp.refresh hidle order rfl rfl
  | stopped => exact hp.stop rfl rfl
  | _ => exact hsame rfl rfl

/-- In every run the filter of the service is one that calls have shared. -/
theorem exists_mirrored {config : Config} {localHost : String} {now : Duration} {s₀ : Service}
    (hstart : start config localHost now = .ok s₀) (events : List Event) :
    ∃ moves, Mirrored (s₀.run events).1 ((Shared.start config.filtering localHost).run moves) := by
  refine run_invariant (P := fun _ s _ => ∃ moves,
    Mirrored s ((Shared.start config.filtering localHost).run moves)) ?_ ?_ events
  · obtain ⟨-, rfl⟩ := start_eq hstart
    exact ⟨[], rfl, fun _ i j task _ h => (nomatch h), fun r hr => nomatch hr⟩
  · rintro _ s _ e _ ⟨moves, hp⟩
    obtain ⟨more, hmore⟩ := (transition_step s e).mirrored hp
    refine ⟨moves ++ more, ?_⟩
    rw [Shared.run_append]
    exact hmore

end MetricRelay.Service
