import MetricRelay.Proofs.Filter.History

/-!
How far a refresh comes by itself. Main statements: of a shared filter's refresh the next host is asked for
with each answer, there is a warning for each host that was refused, and the keys of the others replace what
was known of them.
-/
namespace MetricRelay.Filter

variable {server : String → Except ClientError ActiveKeys} {i : Nat}

/-! ## What a refresh does by itself -/

def Move.answers (i : Nat) : Move → Bool
  | .act j (.answer _) => j = i
  | _ => false

def Move.givesUp (i : Nat) : Move → Bool
  | .act j .cancel => j = i
  | _ => false

/-- How many answers a task gets before it is told to give up. -/
def answersTo (i : Nat) (moves : List Move) : Nat :=
  (moves.takeWhile fun m => !m.givesUp i).countP (Move.answers i)

theorem answersTo_cons (m : Move) (rest : List Move) :
    answersTo i (m :: rest) =
      if m.givesUp i = true then 0
      else answersTo i rest + if m.answers i = true then 1 else 0 := by
  rw [answersTo, List.takeWhile_cons]
  by_cases h : m.givesUp i = true
  · simp [h]
  · simp [h, List.countP_cons, answersTo]

/-- What a refresh does when the server has answered for the first `n` of these hosts. -/
def settled (server : String → Except ClientError ActiveKeys) : List String → Nat → List Deed
  | host :: rest, n + 1 => settles host (server host) :: asks rest ++ settled server rest n
  | _, _ => []

theorem settled_nil (n : Nat) : settled server [] n = [] := by
  rw [settled]
  rintro host rest n ⟨⟩

/-- How far a refresh has come that has these hosts left. -/
def remaining (givenUp : Bool) (hosts : List String) : Task :=
  if givenUp = true ∧ hosts ≠ [] then .cancelled hosts else .asking hosts

theorem settled_zero (hosts : List String) : settled server hosts 0 = [] := by
  cases hosts <;> rfl

theorem remaining_false (hosts : List String) : remaining false hosts = .asking hosts :=
  if_neg fun h => nomatch h.1

theorem remaining_nil (givenUp : Bool) : remaining givenUp [] = .asking [] :=
  if_neg fun h => h.2 rfl

/-- A refresh that waits is brought further by an answer, ended by a cancel, and not touched by all else. -/
theorem answer_or_cancel_or_idle (i : Nat) (m : Move) :
    (∃ g, m = .act i (.answer g)) ∨ m = .act i .cancel ∨
      m.answers i = false ∧ m.givesUp i = false ∧
        ∀ f hosts, goOn f i (.asking hosts) m = (.asking hosts, []) := by
  cases m with
  | call call => exact .inr (.inr ⟨rfl, rfl, fun f hosts => rfl⟩)
  | act j part =>
    by_cases hj : j = i
    · subst hj
      cases part with
      | answer g => exact .inl ⟨g, rfl⟩
      | cancel => exact .inr (.inl rfl)
      | own | copy =>
        refine .inr (.inr ⟨rfl, rfl, fun f hosts => ?_⟩)
        refine (if_pos rfl).trans ?_
        cases hosts <;> rfl
    · refine .inr (.inr ⟨?_, ?_, fun f hosts => if_neg hj⟩)
      · cases part <;> simp [Move.answers, hj]
      · cases part <;> simp [Move.givesUp, hj]

namespace Shared

/-- A refresh goes through its hosts as the answers come, until it is given up. -/
theorem came_of_asking {hosts : List String} {p : Shared}
    (h : p.tasks[i]? = some (.asking hosts)) {moves : List Move}
    (hserver : ∀ g, .act i (.answer g) ∈ moves → g = server) :
    Came i p (p.run moves)
      (remaining (moves.any (Move.givesUp i)) (hosts.drop (answersTo i moves)))
      (settled server hosts (answersTo i moves)) := by
  induction moves generalizing p hosts with
  | nil =>
    rw [List.any_nil, remaining_false]
    rw [show answersTo i [] = 0 from rfl, List.drop_zero, settled_zero]
    exact came_refl h
  | cons m rest ih =>
    have hrest : ∀ g, .act i (.answer g) ∈ rest → g = server := fun g hg =>
      hserver g (List.mem_cons_of_mem m hg)
    cases hosts with
    | nil =>
      rw [List.drop_nil, remaining_nil, settled_nil]
      exact came_of_still (fun f part => rfl) h (m :: rest)
    | cons host tail =>
      have hstep := came_step h m
      rw [answersTo_cons, List.any_cons, run_cons]
      rcases answer_or_cancel_or_idle i m with ⟨g, rfl⟩ | rfl | ⟨hanswers, hgivesUp, hidle⟩
      · -- the first host is settled, and a refresh of the other ones is left
        obtain rfl := hserver g List.mem_cons_self
        have hgo : goOn p.filter i (.asking (host :: tail)) (.act i (.answer g)) =
            (.asking tail, settles host (g host) :: asks tail) := if_pos rfl
        rw [hgo] at hstep
        have htail := hstep.trans (ih hstep.1 hrest)
        simpa [Move.answers, Move.givesUp, settled] using htail
      · -- answers that come later find nobody
        have hgo : goOn p.filter i (.asking (host :: tail)) (.act i .cancel) =
            (.cancelled (host :: tail), []) := if_pos rfl
        rw [hgo] at hstep
        have htail := hstep.trans (came_of_still (fun f part => rfl) hstep.1 rest)
        simpa [Move.givesUp, remaining, settled] using htail
      · rw [hidle] at hstep
        have htail := hstep.trans (ih hstep.1 hrest)
        simpa [hanswers, hgivesUp] using htail

/-- A refresh that gets its answers with nothing in between learns what `learnAll` does. -/
theorem run_answers (server : String → Except ClientError ActiveKeys) {hosts : List String}
    {p : Shared} (h : p.tasks[i]? = some (.asking hosts)) :
    (p.run (hosts.map fun _ => .act i (.answer server))).filter = p.filter.learnAll hosts server := by
  induction hosts generalizing p with
  | nil => rfl
  | cons host rest ih =>
    obtain ⟨hfilter, htask, -⟩ := step_act h (.answer server)
    rw [List.map_cons, run_cons, ih htask, hfilter]
    rfl

end Shared

/-! ## What the deeds of a refresh say -/

def Deed.asked? : Deed → Option String
  | .asked host => some host
  | _ => none

def Deed.notice? : Deed → Option Notice
  | .warned notice => some notice
  | _ => none

theorem asked?_settles (host : String) (answer : Except ClientError ActiveKeys) :
    (settles host answer).asked? = none := by
  cases answer <;> rfl

theorem notice?_settles (host : String) (answer : Except ClientError ActiveKeys) :
    (settles host answer).notice? = failure? host answer := by
  cases answer <;> rfl

theorem keysFor?_settles (name host : String) (answer : Except ClientError ActiveKeys) :
    (settles name answer).keysFor? host = if name = host then answer.toOption else none := by
  cases answer with
  | ok keys => rfl
  | error cause => exact (ite_self none).symm

theorem asks_settled_cons (host : String) (rest : List String) (n : Nat) :
    asks (host :: rest) ++ settled server (host :: rest) (n + 1) =
      .asked host :: settles host (server host) :: (asks rest ++ settled server rest n) := rfl

/-- With each answer the next host is asked for, after the first one. -/
theorem asked_settled (hosts : List String) (n : Nat) :
    (asks hosts ++ settled server hosts n).filterMap Deed.asked? = hosts.take (n + 1) := by
  induction hosts generalizing n with
  | nil =>
    rw [settled_nil]
    rfl
  | cons host rest ih =>
    cases n with
    | zero => rfl
    | succ n =>
      have hasked : (Deed.asked host).asked? = some host := rfl
      rw [asks_settled_cons, List.filterMap_cons_some hasked,
        List.filterMap_cons_none (asked?_settles host _), ih]
      rfl

/-- There is one warning for each host that the server has refused. -/
theorem notices_settled (hosts : List String) (n : Nat) :
    (asks hosts ++ settled server hosts n).filterMap Deed.notice? =
      failures (hosts.take n) server := by
  induction hosts generalizing n with
  | nil =>
    rw [settled_nil, List.take_nil]
    rfl
  | cons host rest ih =>
    cases n with
    | zero => rfl
    | succ n =>
      rw [asks_settled_cons, List.filterMap_cons_none rfl, List.filterMap_cons, ih,
        notice?_settles]
      rfl

/-- The keys of a host are replaced if it is among those that were answered and not refused. -/
theorem lastReplaced_settled (host : String) (hosts : List String) (n : Nat) :
    lastReplaced host ((asks hosts ++ settled server hosts n).map (i, ·)) =
      if host ∈ hosts.take n then (server host).toOption else none := by
  induction hosts generalizing n with
  | nil =>
    rw [settled_nil, List.take_nil]
    rfl
  | cons name rest ih =>
    cases n with
    | zero => rfl
    | succ n =>
      have hsplit : (asks (name :: rest) ++ settled server (name :: rest) (n + 1)).map (i, ·) =
          [(i, .asked name)] ++ ([(i, settles name (server name))] ++
            (asks rest ++ settled server rest n).map (i, ·)) := rfl
      rw [hsplit, lastReplaced_append, lastReplaced_append, lastReplaced_singleton,
        lastReplaced_singleton, ih, keysFor?_settles, List.take_succ_cons]
      by_cases hname : name = host
      · subst hname
        by_cases hrest : name ∈ rest.take n
        · cases (server name).toOption <;> simp [hrest, Deed.keysFor?]
        · simp [hrest, Deed.keysFor?]
      · have hne : ¬host = name := fun h => hname h.symm
        simp [hname, hne, Deed.keysFor?]

end MetricRelay.Filter
