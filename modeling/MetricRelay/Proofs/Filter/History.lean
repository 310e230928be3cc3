import MetricRelay.Proofs.Filter.Steps

/-!
What a shared filter holds, told from what the tasks did. Main statement: of each host a filter holds the
keys that replaced others last, and a host that was met but whose keys nobody replaced is pending.
-/
namespace MetricRelay.Filter

/-! ## The history told again -/

/-- What a deed does to the filter. -/
def Deed.apply : Deed → Filter → Filter
  | .noted host, f => f.note host
  | .replaced host keys, f => f.replace host keys
  | .lookedUp _ _, f | .asked _, f | .warned _, f => f

/-- The filter after a history. -/
def replay (f : Filter) (history : List (Nat × Deed)) : Filter :=
  history.foldl (fun f e => e.2.apply f) f

theorem replay_append (f : Filter) (before after : List (Nat × Deed)) :
    replay f (before ++ after) = replay (replay f before) after :=
  List.foldl_append

theorem replay_concat (f : Filter) (history : List (Nat × Deed)) (e : Nat × Deed) :
    replay f (history ++ [e]) = e.2.apply (replay f history) :=
  replay_append f history [e]

theorem replay_asks (f : Filter) (i : Nat) (hosts : List String) :
    replay f ((asks hosts).map (i, ·)) = f := by
  cases hosts <;> rfl

theorem apply_settles (f : Filter) (host : String) (answer : Except ClientError ActiveKeys) :
    (settles host answer).apply f = f.learn host answer := by
  cases answer <;> rfl

/-- A task changes the filter by its deeds alone. -/
theorem Advances.replay_eq {f f' : Filter} {task task' : Task} {part : Part} {deeds : List Deed}
    (h : Advances f task part f' task' deeds) (i : Nat) : replay f (deeds.map (i, ·)) = f' := by
  cases h with
  | copied copy => exact replay_asks f i _
  | @answered host rest server =>
    change replay ((settles host (server host)).apply f) _ = _
    rw [apply_settles, replay_asks]
  | _ => rfl

/-- In every run the filter is what the deeds make of it, and the calls allow each of them. -/
theorem Shared.exists_replay (p : Shared) (moves : List Move) :
    ∃ new, (p.run moves).history = p.history ++ new ∧ (p.run moves).filter = replay p.filter new ∧
      (p.run moves).Owned new := by
  refine run_invariant (P := fun q => ∃ new, q.history = p.history ++ new ∧
    q.filter = replay p.filter new ∧ q.Owned new) (fun q m hq => ?_)
    ⟨[], (List.append_nil _).symm, rfl, fun e he => nomatch he⟩ moves
  obtain ⟨new, hhistory, hfilter, howned⟩ := hq
  have howned' : (q.step m).Owned new := howned.run [m]
  have hcalls : ∀ (i : Nat) call, q.calls[i]? = some call → (q.step m).calls[i]? = some call := by
    intro i call hcall
    exact getElem?_calls_run hcall [m]
  have hstep := q.steps m
  generalize q.step m = q' at hstep howned' hcalls ⊢
  cases hstep with
  | called | absent => exact ⟨new, hhistory, hfilter, howned'⟩
  | @acted i _ task _ f deeds current advances =>
    refine ⟨new ++ deeds.map (i, ·), ?_, ?_, howned'.append ?_⟩
    · rw [hhistory, List.append_assoc]
    · rw [replay_append, ← hfilter, advances.replay_eq]
    · intro e he
      obtain ⟨d, hd, rfl⟩ := List.mem_map.mp he
      refine ⟨task.call, hcalls i _ ?_, advances.may d hd⟩
      rw [calls, List.getElem?_map, current]
      rfl

/-! ## What a history says of a host -/

def Deed.keysFor? (host : String) : Deed → Option ActiveKeys
  | .replaced name keys => if name = host then some keys else none
  | _ => none

/-- The keys that replaced those of a host last. -/
def lastReplaced (host : String) (history : List (Nat × Deed)) : Option ActiveKeys :=
  (history.filterMap fun e => e.2.keysFor? host).getLast?

/-- Whether the host was registered by somebody. -/
def isNoted (host : String) (history : List (Nat × Deed)) : Bool :=
  history.any fun e => e.2 = .noted host

theorem isNoted_concat (host : String) (history : List (Nat × Deed)) (e : Nat × Deed) :
    isNoted host (history ++ [e]) = (isNoted host history || decide (e.2 = .noted host)) := by
  simp [isNoted]

theorem lastReplaced_append (host : String) (before after : List (Nat × Deed)) :
    lastReplaced host (before ++ after) =
      (lastReplaced host after).or (lastReplaced host before) := by
  rw [lastReplaced, List.filterMap_append, List.getLast?_append]
  rfl

theorem lastReplaced_singleton (host : String) (e : Nat × Deed) :
    lastReplaced host [e] = e.2.keysFor? host := by
  rw [lastReplaced, List.filterMap_cons]
  cases e.2.keysFor? host <;> rfl

/-- Of each host a filter holds the keys that replaced others last, else what it held before, and a host
that was only registered is pending. -/
theorem find?_replay (f : Filter) (history : List (Nat × Deed)) (host : String) :
    (replay f history).hosts.find? host =
      ((lastReplaced host history).map some).or
        ((f.hosts.find? host).or (if isNoted host history then some none else none)) := by
  -- from the end, since the last replacement counts
  induction history using List.reverseRecOn with
  | nil =>
    change f.hosts.find? host = (f.hosts.find? host).or none
    rw [Option.or_none]
  | append_singleton history e ih =>
    obtain ⟨i, d⟩ := e
    rw [replay_concat, isNoted_concat, lastReplaced_append, lastReplaced_singleton]
    cases d with
    | noted name =>
      change ((replay f history).note name).hosts.find? host =
        ((none.or (lastReplaced host history)).map some).or _
      rw [find?_note, ih, Option.none_or]
      by_cases h : host = name
      · subst h
        cases lastReplaced host history <;> cases f.hosts.find? host <;>
          cases isNoted host history <;> simp
      · have hne : ¬name = host := fun hn => h hn.symm
        simp [h, hne]
    | replaced name keys =>
      change ((replay f history).replace name keys).hosts.find? host = _
      rw [find?_replace, ih, Deed.keysFor?]
      by_cases h : host = name
      · simp [h]
      · have hne : ¬name = host := fun hn => h hn.symm
        simp [h, hne]
    | _ =>
      change (replay f history).hosts.find? host = _
      simp [ih, Deed.keysFor?]

theorem enabled_replay (f : Filter) (history : List (Nat × Deed)) :
    (replay f history).enabled = f.enabled := by
  induction history using List.reverseRecOn with
  | nil => rfl
  | append_singleton history e ih =>
    rw [replay_concat, ← ih]
    cases e.2 with
    | noted host =>
      change ((replay f history).note host).enabled = _
      rw [note]
      split <;> rfl
    | _ => rfl

end MetricRelay.Filter
