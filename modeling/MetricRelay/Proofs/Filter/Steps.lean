import MetricRelay.Filter.Sharing
import Mathlib.Data.List.Induction

/-!
The steps of tasks that share a filter. Main statements: what a part of a call can do, what a step can do,
and how far a run brings each of the tasks.
-/
namespace MetricRelay.Filter

/-! ## What a part of a call can do -/

/-- The ways in which a task can go on. -/
inductive Advances (f : Filter) : Task → Part → Filter → Task → List Deed → Prop
  | idle {task : Task} {part : Part} : Advances f task part f task []
  | judged {host key : String} {passes : Bool} (enabled : f.enabled = true)
    (judge : f.judge host key = some passes) :
    Advances f (.called (.pass host key)) .own f (.judged host key passes) [.lookedUp host key]
  | missed {host key : String} (enabled : f.enabled = true) (judge : f.judge host key = none) :
    Advances f (.called (.pass host key)) .own f (.unknown host key) [.lookedUp host key]
  | waved {host key : String} (disabled : f.enabled = false) :
    Advances f (.called (.pass host key)) .own f (.judged host key true) []
  | registered {host key : String} :
    Advances f (.unknown host key) .own (f.note host) (.judged host key false) [.noted host]
  | noted {host : String} :
    Advances f (.called (.note host)) .own (f.note host) (.done (.note host)) [.noted host]
  | replaced {host : String} {keys : ActiveKeys} :
    Advances f (.called (.replace host keys)) .own (f.replace host keys)
      (.done (.replace host keys)) [.replaced host keys]
  | copied {order : List String} (copy : order.Perm f.tracked) :
    Advances f (.called .refresh) (.copy order) f (.asking order) (asks order)
  | answered {host : String} {rest : List String}
    {server : String → Except ClientError ActiveKeys} :
    Advances f (.asking (host :: rest)) (.answer server) (f.learn host (server host)) (.asking rest)
      (settles host (server host) :: asks rest)
  | cancelled {host : String} {rest : List String} :
    Advances f (.asking (host :: rest)) .cancel f (.cancelled (host :: rest)) []

theorem advances (f : Filter) (task : Task) (part : Part) :
    Advances f task part (f.advance task part).1 (f.advance task part).2.1
      (f.advance task part).2.2 := by
  fun_cases advance f task part with
  | case1 host key enabled passes judge => exact .judged enabled judge
  | case2 host key enabled judge => exact .missed enabled judge
  | case3 host key disabled => exact .waved (Bool.eq_false_iff.mpr disabled)
  | case4 host key => exact .registered
  | case5 host => exact .noted
  | case6 host keys => exact .replaced
  | case7 order copy => exact .copied (List.isPerm_iff.mp copy)
  | case8 order copy => exact .idle
  | case9 host rest server => exact .answered
  | case10 host rest => exact .cancelled
  | case11 task part => exact .idle

/-- What looking its key up makes of a call to judge it. -/
def lookUp (f : Filter) (host key : String) : Task :=
  if f.enabled then (f.judge host key).elim (.unknown host key) (.judged host key)
  else .judged host key true

theorem advance_pass (f : Filter) (host key : String) :
    f.advance (.called (.pass host key)) .own =
      (f, f.lookUp host key, if f.enabled then [.lookedUp host key] else []) := by
  rw [advance, lookUp]
  split
  · cases f.judge host key <;> rfl
  · rfl

/-- With nothing in between, the two parts of a call judge the key as `Filter.pass` does. -/
theorem advance_lookUp (f : Filter) (host key : String) :
    (f.advance (f.lookUp host key) .own).1 = (f.pass host key).2 ∧
      (f.advance (f.lookUp host key) .own).2.1 = .judged host key (f.pass host key).1 := by
  rw [lookUp, pass]
  split
  · cases f.judge host key <;> exact ⟨rfl, rfl⟩
  · exact ⟨rfl, rfl⟩

namespace Shared

theorem getElem?_concat_eq_some {α : Type} {l : List α} {a b : α} {j : Nat}
    (h : (l ++ [a])[j]? = some b) : l[j]? = some b ∨ j = l.length ∧ b = a := by
  rcases Nat.lt_or_ge j l.length with hlt | hle
  · exact .inl ((List.getElem?_append_left hlt).symm.trans h)
  · rw [List.getElem?_append_right hle, List.getElem?_singleton] at h
    split at h
    · next hzero =>
      cases h
      exact .inr ⟨by omega, rfl⟩
    · cases h

/-- The ways in which a shared filter and its tasks can go on. -/
inductive Steps (p : Shared) : Move → Shared → Prop
  | called {call : Call} : Steps p (.call call) { p with tasks := p.tasks ++ [.called call] }
  | absent {i : Nat} {part : Part} (task : p.tasks[i]? = none) : Steps p (.act i part) p
  | acted {i : Nat} {part : Part} {task task' : Task} {f : Filter} {deeds : List Deed}
    (current : p.tasks[i]? = some task) (advances : Advances p.filter task part f task' deeds) :
    Steps p (.act i part) ⟨f, p.tasks.set i task', p.history ++ deeds.map (i, ·)⟩

theorem steps (p : Shared) (m : Move) : Steps p m (p.step m) := by
  cases m with
  | call call => exact .called
  | act i part =>
    rw [step]
    split
    · next h => exact .absent h
    · next task h => exact .acted h (Filter.advances _ _ _)

theorem step_act {p : Shared} {i : Nat} {task : Task} (h : p.tasks[i]? = some task) (part : Part) :
    (p.step (.act i part)).filter = (p.filter.advance task part).1 ∧
      (p.step (.act i part)).tasks[i]? = some (p.filter.advance task part).2.1 ∧
      (p.step (.act i part)).history =
        p.history ++ (p.filter.advance task part).2.2.map (i, ·) := by
  rw [step, h]
  exact ⟨rfl, List.getElem?_set_self (List.getElem?_eq_some_iff.mp h).1, rfl⟩

theorem run_cons (p : Shared) (m : Move) (rest : List Move) :
    p.run (m :: rest) = (p.step m).run rest := rfl

theorem run_append (p : Shared) (before after : List Move) :
    p.run (before ++ after) = (p.run before).run after :=
  List.foldl_append

/-- What every step keeps, every run keeps. -/
theorem run_invariant {P : Shared → Prop} (step : ∀ p m, P p → P (p.step m)) {p : Shared} (h : P p)
    (moves : List Move) : P (p.run moves) := by
  induction moves generalizing p with
  | nil => exact h
  | cons m rest ih => exact ih (step p m h)

end Shared

/-! ## The calls of a run -/

def Task.call : Task → Call
  | .called call | .done call => call
  | .unknown host key | .judged host key _ => .pass host key
  | .asking _ | .cancelled _ => .refresh

def Move.call? : Move → Option Call
  | .call c => some c
  | .act _ _ => none

/-- What a call may do on its way. -/
def Call.May : Call → Deed → Prop
  | .pass host key, d => d = .lookedUp host key ∨ d = .noted host
  | .note host, d => d = .noted host
  | .replace host keys, d => d = .replaced host keys
  | .refresh, d => ∃ host, d = .asked host ∨ ∃ answer, d = settles host answer

theorem may_refresh_of_mem_asks {hosts : List String} {d : Deed} (hd : d ∈ asks hosts) :
    Call.refresh.May d := by
  cases hosts with
  | nil => cases hd
  | cons host rest => exact ⟨host, .inl (List.mem_singleton.mp hd)⟩

theorem Advances.call_eq {f f' : Filter} {task task' : Task} {part : Part} {deeds : List Deed}
    (h : Advances f task part f' task' deeds) : task'.call = task.call := by
  cases h <;> rfl

theorem Advances.may {f f' : Filter} {task task' : Task} {part : Part} {deeds : List Deed}
    (h : Advances f task part f' task' deeds) : ∀ d ∈ deeds, task.call.May d := by
  intro d hd
  cases h with
  | idle | waved | cancelled => cases hd
  | judged | missed => exact .inl (List.mem_singleton.mp hd)
  | registered => exact .inr (List.mem_singleton.mp hd)
  | noted | replaced => exact List.mem_singleton.mp hd
  | copied => exact may_refresh_of_mem_asks hd
  | @answered host rest server =>
    rcases List.mem_cons.mp hd with hd | hd
    · exact ⟨host, .inr ⟨_, hd⟩⟩
    · exact may_refresh_of_mem_asks hd

namespace Shared

/-- The calls that were made, each at the number of its task. -/
def calls (p : Shared) : List Call := p.tasks.map Task.call

theorem calls_step (p : Shared) (m : Move) : (p.step m).calls = p.calls ++ m.call?.toList := by
  have h := p.steps m
  generalize p.step m = q at h ⊢
  cases h with
  | called => exact List.map_append
  | absent => exact (List.append_nil _).symm
  | @acted i _ task task' _ _ current advances =>
    refine Eq.trans (List.map_set) (Eq.trans ?_ (List.append_nil _).symm)
    -- a part brings a task further, but not to another call
    rw [advances.call_eq]
    obtain ⟨hi, rfl⟩ := List.getElem?_eq_some_iff.mp current
    rw [← List.map_set, List.set_getElem_self]
    rfl

theorem calls_run (p : Shared) (moves : List Move) :
    (p.run moves).calls = p.calls ++ moves.filterMap Move.call? := by
  induction moves generalizing p with
  | nil => exact (List.append_nil _).symm
  | cons m rest ih =>
    rw [run_cons, ih, calls_step, List.append_assoc]
    cases h : m.call? with
    | none => rw [List.filterMap_cons_none h]; rfl
    | some call => rw [List.filterMap_cons_some h]; rfl

theorem getElem?_calls_run {p : Shared} {i : Nat} {call : Call} (h : p.calls[i]? = some call)
    (moves : List Move) : (p.run moves).calls[i]? = some call := by
  rw [calls_run, List.getElem?_append_left (List.getElem?_eq_some_iff.mp h).1, h]

/-- Whether each of these deeds is one that the call of its task may do. -/
def Owned (p : Shared) (history : List (Nat × Deed)) : Prop :=
  ∀ e ∈ history, ∃ call, p.calls[e.1]? = some call ∧ call.May e.2

theorem Owned.run {p : Shared} {history : List (Nat × Deed)} (h : p.Owned history)
    (moves : List Move) : (p.run moves).Owned history := by
  intro e he
  obtain ⟨call, hcall, hmay⟩ := h e he
  exact ⟨call, getElem?_calls_run hcall moves, hmay⟩

theorem Owned.append {p : Shared} {before after : List (Nat × Deed)} (hbefore : p.Owned before)
    (hafter : p.Owned after) : p.Owned (before ++ after) := by
  intro e he
  rcases List.mem_append.mp he with he | he
  · exact hbefore e he
  · exact hafter e he

end Shared

/-! ## The deeds of one task -/

def deedsBy (i : Nat) (history : List (Nat × Deed)) : List Deed :=
  (history.filter fun e => e.1 = i).map Prod.snd

theorem deedsBy_append (i : Nat) (before after : List (Nat × Deed)) :
    deedsBy i (before ++ after) = deedsBy i before ++ deedsBy i after := by
  rw [deedsBy, List.filter_append, List.map_append]
  rfl

theorem deedsBy_map_self (i : Nat) (deeds : List Deed) :
    deedsBy i (deeds.map (i, ·)) = deeds := by
  rw [deedsBy, List.filter_eq_self.mpr, List.map_map]
  · exact List.map_id _
  · intro e he
    obtain ⟨d, -, rfl⟩ := List.mem_map.mp he
    exact decide_eq_true rfl

theorem deedsBy_map_of_ne {i j : Nat} (h : j ≠ i) (deeds : List Deed) :
    deedsBy i (deeds.map (j, ·)) = [] := by
  rw [deedsBy, List.filter_eq_nil_iff.mpr]
  · rfl
  · intro e he
    obtain ⟨d, -, rfl⟩ := List.mem_map.mp he
    simpa using h

theorem mem_deedsBy_iff {i : Nat} {history : List (Nat × Deed)} {d : Deed} :
    d ∈ deedsBy i history ↔ (i, d) ∈ history := by
  simp [deedsBy]

/-! ## How a task comes along in a run -/

section

variable {i : Nat}

/-- How far a move brings a task, with what the task does then. -/
def goOn (f : Filter) (i : Nat) (task : Task) : Move → Task × List Deed
  | .call _ => (task, [])
  | .act j part => if j = i then (f.advance task part).2 else (task, [])

namespace Shared

/-- On the way from `p` to `q` these deeds have brought a task as far as it is now. -/
def Came (i : Nat) (p q : Shared) (task : Task) (deeds : List Deed) : Prop :=
  q.tasks[i]? = some task ∧ ∃ new, q.history = p.history ++ new ∧ deedsBy i new = deeds

theorem came_refl {p : Shared} {task : Task} (h : p.tasks[i]? = some task) :
    Came i p p task [] :=
  ⟨h, [], (List.append_nil _).symm, rfl⟩

theorem Came.trans {p q r : Shared} {task task' : Task} {deeds deeds' : List Deed}
    (h : Came i p q task deeds) (h' : Came i q r task' deeds') :
    Came i p r task' (deeds ++ deeds') := by
  obtain ⟨-, new, hnew, rfl⟩ := h
  obtain ⟨htask, new', hnew', rfl⟩ := h'
  refine ⟨htask, new ++ new', ?_, deedsBy_append i new new'⟩
  rw [hnew', hnew, List.append_assoc]

theorem came_step {p : Shared} {task : Task} (h : p.tasks[i]? = some task) (m : Move) :
    Came i p (p.step m) (goOn p.filter i task m).1 (goOn p.filter i task m).2 := by
  have hlt := (List.getElem?_eq_some_iff.mp h).1
  cases m with
  | call call =>
    exact ⟨(List.getElem?_append_left hlt).trans h, [], (List.append_nil _).symm, rfl⟩
  | act j part =>
    by_cases hj : j = i
    · subst hj
      obtain ⟨-, htask, hhistory⟩ := step_act h part
      rw [goOn, if_pos rfl]
      exact ⟨htask, _, hhistory, deedsBy_map_self j _⟩
    · rw [goOn, if_neg hj]
      have hsteps := p.steps (.act j part)
      generalize p.step (.act j part) = q at hsteps ⊢
      cases hsteps with
      | absent => exact came_refl h
      | @acted _ _ _ task' f deeds _ _ =>
        exact ⟨(List.getElem?_set_ne hj).trans h, _, rfl, deedsBy_map_of_ne hj deeds⟩

/-- A task that no part brings further stays as it is. -/
theorem came_of_still {task : Task} (hstill : ∀ f part, advance f task part = (f, task, []))
    {p : Shared} (h : p.tasks[i]? = some task) (moves : List Move) :
    Came i p (p.run moves) task [] := by
  induction moves generalizing p with
  | nil => exact came_refl h
  | cons m rest ih =>
    have hgo : goOn p.filter i task m = (task, []) := by
      cases m with
      | call call => rfl
      | act j part =>
        rw [goOn, hstill]
        exact ite_self _
    have hstep := came_step h m
    rw [hgo] at hstep
    exact hstep.trans (ih hstep.1)

/-- What other tasks do does not bring a task further. -/
theorem getElem?_run {p : Shared} {task : Task} (h : p.tasks[i]? = some task) {moves : List Move}
    (hmoves : ∀ part, .act i part ∉ moves) : (p.run moves).tasks[i]? = some task := by
  induction moves generalizing p with
  | nil => exact h
  | cons m rest ih =>
    have hgo : goOn p.filter i task m = (task, []) := by
      cases m with
      | call call => rfl
      | act j part =>
        have hj : j ≠ i := by
          rintro rfl
          exact hmoves part List.mem_cons_self
        exact if_neg hj
    have hstep := (came_step h m).1
    rw [hgo] at hstep
    exact ih hstep fun part hpart => hmoves part (List.mem_cons_of_mem m hpart)

end Shared

end

end MetricRelay.Filter
