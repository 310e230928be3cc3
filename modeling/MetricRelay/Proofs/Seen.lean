import Mathlib.Data.List.Induction
import Mathlib.Data.Set.Card
import MetricRelay.Seen

/-!
Seen keys and their history. Main statement: the pairs of host and key that are held are those whose last
note no later sweep found out of date, and every pair that was ever put in is still held or was counted by
the sweep that forgot it.
-/
namespace MetricRelay.Seen

/-! ## Single operations -/

theorem isStale_iff {now window seen : Duration} :
    isStale now window seen = true ↔ seen + window < now := by
  rw [isStale, decide_eq_true_iff]
  change window.nanoseconds < now.nanoseconds - seen.nanoseconds ↔
    seen.nanoseconds + window.nanoseconds < now.nanoseconds
  omega

theorem last?_touch (s : Seen) (host key other name : String) (time : Duration) :
    (s.touch host key time).last? other name =
      if other = host ∧ name = key then some time else s.last? other name := by
  rw [last?, touch, Table.find?_insert]
  by_cases hhost : other = host
  · rw [if_pos hhost, Option.bind_some, Table.find?_insert, hhost, last?]
    by_cases hkey : name = key
    · rw [if_pos hkey, if_pos ⟨rfl, hkey⟩]
    · rw [if_neg hkey, if_neg fun h => hkey h.2]
      -- a host that is new has no other key
      cases s.hosts.find? host <;> rfl
  · rw [if_neg hhost, if_neg fun h => hhost h.1]
    rfl

/-- What a sweep leaves of the keys of a host. -/
def kept (now window : Duration) (keys : Table Duration) : Table Duration :=
  keys.filterMap fun _ seen => if isStale now window seen then none else some seen

theorem find?_kept (now window : Duration) (keys : Table Duration) (key : String) :
    (kept now window keys).find? key =
      (keys.find? key).filter fun seen => !isStale now window seen := by
  rw [kept, Table.find?_filterMap]
  cases keys.find? key with
  | none => rfl
  | some seen =>
    rw [Option.bind_some, Option.filter_some]
    cases isStale now window seen <;> rfl

theorem find?_sweep (s : Seen) (now window : Duration) (host : String) :
    (s.sweep now window).hosts.find? host =
      (s.hosts.find? host).bind fun keys =>
        if (kept now window keys).entries = [] then none else some (kept now window keys) :=
  Table.find?_filterMap _ s.hosts host

theorem last?_sweep (s : Seen) (now window : Duration) (host key : String) :
    (s.sweep now window).last? host key =
      (s.last? host key).filter fun seen => !isStale now window seen := by
  rw [last?, last?, find?_sweep]
  cases s.hosts.find? host with
  | none => rfl
  | some keys =>
    rw [Option.bind_some, Option.bind_some, ← find?_kept]
    split
    · next hnil =>
      -- the host is forgotten, but nothing was left of it
      rw [Table.find?, hnil]
      rfl
    · rfl

/-! ## Hosts without keys -/

/-- No host is held without keys. -/
def Tidy (s : Seen) : Prop :=
  ∀ host keys, s.hosts.find? host = some keys → keys.entries ≠ []

theorem ne_nil_of_find? {keys : Table Duration} {key : String} {time : Duration}
    (h : keys.find? key = some time) : keys.entries ≠ [] :=
  List.ne_nil_of_mem (Table.find?_eq_some_iff.mp h)

theorem tidy_touch {s : Seen} (h : s.Tidy) (host key : String) (time : Duration) :
    (s.touch host key time).Tidy := by
  intro other keys hkeys
  rw [touch, Table.find?_insert] at hkeys
  split at hkeys
  · cases hkeys
    exact ne_nil_of_find? (Table.find?_insert_self _ key time)
  · exact h other keys hkeys

theorem tidy_sweep (s : Seen) (now window : Duration) : (s.sweep now window).Tidy := by
  intro host keys hkeys
  rw [find?_sweep] at hkeys
  obtain ⟨held, -, hheld⟩ := Option.bind_eq_some_iff.mp hkeys
  split at hheld
  · cases hheld
  · next hne =>
    cases hheld
    exact hne

theorem mem_names_iff {s : Seen} (h : s.Tidy) (host : String) :
    host ∈ s.hosts.names ↔ ∃ key time, s.last? host key = some time := by
  rw [← Table.find?_isSome_iff, Option.isSome_iff_exists]
  constructor
  · rintro ⟨keys, hkeys⟩
    obtain ⟨⟨key, time⟩, hmem⟩ := List.exists_mem_of_ne_nil _ (h host keys hkeys)
    refine ⟨key, time, ?_⟩
    rw [last?, hkeys]
    exact Table.find?_eq_some_iff.mpr hmem
  · rintro ⟨key, time, hlast⟩
    obtain ⟨keys, hkeys, -⟩ := Option.bind_eq_some_iff.mp hlast
    exact ⟨keys, hkeys⟩

theorem names_keys (s : Seen) : s.keys.map Prod.fst = s.hosts.names := by
  rw [keys, List.map_map]
  rfl

theorem mem_keys_iff {s : Seen} {host : String} {names : List String} :
    (host, names) ∈ s.keys ↔ ∃ keys, s.hosts.find? host = some keys ∧ keys.names = names := by
  rw [keys, List.mem_map]
  constructor
  · rintro ⟨⟨other, keys⟩, hmem, he⟩
    cases he
    exact ⟨keys, Table.find?_eq_some_iff.mpr hmem, rfl⟩
  · rintro ⟨keys, hkeys, rfl⟩
    exact ⟨(host, keys), Table.find?_eq_some_iff.mp hkeys, rfl⟩

/-! ## Counting pairs -/

/-- The pairs of host and key that are held, each with the time of its last note. -/
def stamps (s : Seen) : List ((String × String) × Duration) :=
  s.hosts.entries.flatMap fun e => e.2.entries.map fun k => ((e.1, k.1), k.2)

theorem mem_stamps_iff {s : Seen} {host key : String} {time : Duration} :
    ((host, key), time) ∈ s.stamps ↔ s.last? host key = some time := by
  rw [stamps, List.mem_flatMap, last?, Option.bind_eq_some_iff]
  constructor
  · rintro ⟨⟨other, keys⟩, hkeys, hmem⟩
    obtain ⟨⟨name, seen⟩, hseen, he⟩ := List.mem_map.mp hmem
    cases he
    exact ⟨keys, Table.find?_eq_some_iff.mpr hkeys, Table.find?_eq_some_iff.mpr hseen⟩
  · rintro ⟨keys, hkeys, hseen⟩
    refine ⟨(host, keys), Table.find?_eq_some_iff.mp hkeys, ?_⟩
    exact List.mem_map.mpr ⟨(key, time), Table.find?_eq_some_iff.mp hseen, rfl⟩

theorem nodup_stamps (s : Seen) : (s.stamps.map Prod.fst).Nodup := by
  rw [stamps, List.map_flatMap, List.nodup_flatMap]
  constructor
  · intro e _
    -- within a host the keys differ
    rw [List.map_map]
    have h := e.2.nodup.map (f := fun key => (e.1, key)) fun _ _ he => congrArg Prod.snd he
    rwa [List.map_map] at h
  · -- pairs of two entries differ in their hosts
    apply (List.pairwise_map.mp s.hosts.nodup).imp
    intro e d hne p hp hq
    obtain ⟨_, hk, rfl⟩ := List.mem_map.mp hp
    obtain ⟨_, hl, he⟩ := List.mem_map.mp hq
    obtain ⟨_, -, rfl⟩ := List.mem_map.mp hk
    obtain ⟨_, -, rfl⟩ := List.mem_map.mp hl
    exact hne (congrArg Prod.fst he).symm

/-- The pairs that a sweep finds out of date. -/
def stalePairs (s : Seen) (now window : Duration) : List (String × String) :=
  (s.stamps.filter fun e => isStale now window e.2).map Prod.fst

theorem mem_stalePairs_iff {s : Seen} {now window : Duration} {host key : String} :
    (host, key) ∈ s.stalePairs now window ↔
      ∃ time, s.last? host key = some time ∧ time + window < now := by
  constructor
  · intro hmem
    obtain ⟨⟨_, time⟩, hfilter, rfl⟩ := List.mem_map.mp hmem
    obtain ⟨hstamp, hstale⟩ := List.mem_filter.mp hfilter
    exact ⟨time, mem_stamps_iff.mp hstamp, isStale_iff.mp hstale⟩
  · rintro ⟨time, hlast, hstale⟩
    refine List.mem_map.mpr ⟨((host, key), time), ?_, rfl⟩
    exact List.mem_filter.mpr ⟨mem_stamps_iff.mpr hlast, isStale_iff.mpr hstale⟩

theorem nodup_stalePairs (s : Seen) (now window : Duration) : (s.stalePairs now window).Nodup :=
  (nodup_stamps s).sublist (List.filter_sublist.map _)

theorem length_stalePairs (s : Seen) (now window : Duration) :
    (s.stalePairs now window).length = s.staleCount now window := by
  rw [stalePairs, List.length_map, staleCount, stamps, ← List.countP_eq_length_filter,
    List.countP_flatMap, List.countP_flatMap]
  congr 1
  apply List.map_congr_left
  intro e _
  rw [Function.comp_apply, Function.comp_apply, List.countP_map]
  rfl

theorem encard_setOf_mem {l : List (String × String)} (h : l.Nodup) :
    {p | p ∈ l}.encard = l.length := by
  rw [← List.coe_toFinset, Set.encard_coe_eq_coe_finsetCard, List.toFinset_card_of_nodup h]

/-- A sweep counts the pairs that are out of date. -/
theorem encard_stale (s : Seen) (now window : Duration) :
    {p : String × String | ∃ time, s.last? p.1 p.2 = some time ∧ time + window < now}.encard =
      s.staleCount now window := by
  have hset : {p : String × String | ∃ time, s.last? p.1 p.2 = some time ∧ time + window < now} =
      {p | p ∈ s.stalePairs now window} := by
    ext ⟨host, key⟩
    exact mem_stalePairs_iff.symm
  calc
    _ = {p | p ∈ s.stalePairs now window}.encard := congrArg Set.encard hset
    _ = (s.stalePairs now window).length := encard_setOf_mem (nodup_stalePairs s now window)
    _ = s.staleCount now window := by rw [length_stalePairs]

/-! ## Histories -/

/-- What is done to the seen keys. -/
inductive Deed where
  | touch (host key : String) (time : Duration)
  | sweep (now window : Duration)
  deriving DecidableEq, Repr

def perform (s : Seen) : Deed → Seen
  | .touch host key time => s.touch host key time
  | .sweep now window => s.sweep now window

/-- How many keys a deed says that it forgot. -/
def forgets (s : Seen) : Deed → Nat
  | .touch _ _ _ => 0
  | .sweep now window => s.staleCount now window

/-- The seen keys after all that was done to them. -/
def replay (history : List Deed) : Seen := history.foldl perform empty

/-- How many keys the deeds say that they forgot, all together. -/
def forgottenBy (s : Seen) : List Deed → Nat
  | [] => 0
  | d :: rest => s.forgets d + forgottenBy (s.perform d) rest

def forgotten (history : List Deed) : Nat := empty.forgottenBy history

/-- Whether a deed leaves the note of a pair at `time` in force: it is no later note of the pair, and no
sweep that finds the time out of date. -/
def Deed.Spares (host key : String) (time : Duration) : Deed → Prop
  | .touch other name _ => ¬(other = host ∧ name = key)
  | .sweep now window => ¬time + window < now

/-- The last note of a pair was at `time`, and no sweep after it found that out of date. -/
def SeenAt (history : List Deed) (host key : String) (time : Duration) : Prop :=
  ∃ before after, history = before ++ .touch host key time :: after ∧
    ∀ d ∈ after, d.Spares host key time

/-- The pairs of host and key that a history leaves. -/
def held (history : List Deed) : Set (String × String) :=
  {p | ∃ time, SeenAt history p.1 p.2 time}

/-- The notes, by their place in the history, of pairs that were not held just before. -/
def created (history : List Deed) : Set Nat :=
  {i | ∃ host key time, history[i]? = some (.touch host key time) ∧
    (host, key) ∉ held (history.take i)}

theorem replay_concat (history : List Deed) (d : Deed) :
    replay (history ++ [d]) = (replay history).perform d := by
  rw [replay, List.foldl_append]
  rfl

theorem forgotten_concat (history : List Deed) (d : Deed) :
    forgotten (history ++ [d]) = forgotten history + (replay history).forgets d := by
  have hfrom (s : Seen) : s.forgottenBy (history ++ [d]) =
      s.forgottenBy history + (history.foldl perform s).forgets d := by
    induction history generalizing s with
    | nil => exact Nat.add_comm _ _
    | cons e rest ih =>
      change s.forgets e + (s.perform e).forgottenBy (rest ++ [d]) = _
      rw [ih, ← Nat.add_assoc]
      rfl
  exact hfrom empty

theorem not_seenAt_nil (host key : String) (time : Duration) : ¬SeenAt [] host key time := by
  rintro ⟨before, after, h, -⟩
  exact List.append_ne_nil_of_right_ne_nil before (List.cons_ne_nil _ _) h.symm

/-- A further deed is the last note itself or leaves the last note in force. -/
theorem seenAt_concat (history : List Deed) (d : Deed) (host key : String) (time : Duration) :
    SeenAt (history ++ [d]) host key time ↔
      d = .touch host key time ∨ SeenAt history host key time ∧ d.Spares host key time := by
  constructor
  · rintro ⟨before, after, h, hspares⟩
    rcases List.eq_nil_or_concat' after with rfl | ⟨front, e, rfl⟩
    · obtain ⟨-, hd⟩ := List.append_inj' h rfl
      exact Or.inl (List.cons.inj hd).1
    · -- the note stands before the further deed
      rw [← List.cons_append, ← List.append_assoc] at h
      obtain ⟨hhistory, hd⟩ := List.append_inj' h rfl
      obtain rfl : d = e := (List.cons.inj hd).1
      rw [List.forall_mem_append, List.forall_mem_singleton] at hspares
      exact Or.inr ⟨⟨before, front, hhistory, hspares.1⟩, hspares.2⟩
  · rintro (rfl | ⟨⟨before, after, rfl, hspares⟩, hd⟩)
    · exact ⟨history, [], rfl, by simp⟩
    · refine ⟨before, after ++ [d], by simp, ?_⟩
      rw [List.forall_mem_append, List.forall_mem_singleton]
      exact ⟨hspares, hd⟩

theorem seenAt_touch (history : List Deed) (host key other name : String) (seen time : Duration) :
    SeenAt (history ++ [.touch host key seen]) other name time ↔
      if other = host ∧ name = key then seen = time else SeenAt history other name time := by
  rw [seenAt_concat]
  split
  · next h =>
    obtain ⟨rfl, rfl⟩ := h
    constructor
    · rintro (h | ⟨-, hspares⟩)
      · cases h
        rfl
      · exact absurd ⟨rfl, rfl⟩ hspares
    · rintro rfl
      exact Or.inl rfl
  · next h =>
    constructor
    · rintro (he | ⟨hseen, -⟩)
      · cases he
        exact absurd ⟨rfl, rfl⟩ h
      · exact hseen
    · intro hseen
      exact Or.inr ⟨hseen, fun he => h ⟨he.1.symm, he.2.symm⟩⟩

theorem seenAt_sweep (history : List Deed) (now window : Duration) (host key : String)
    (time : Duration) :
    SeenAt (history ++ [.sweep now window]) host key time ↔
      SeenAt history host key time ∧ ¬time + window < now := by
  rw [seenAt_concat]
  constructor
  · rintro (he | h)
    · cases he
    · exact h
  · exact Or.inr

/-- What is held of a pair is what its history says. -/
theorem last?_replay (history : List Deed) (host key : String) (time : Duration) :
    (replay history).last? host key = some time ↔ SeenAt history host key time := by
  induction history using List.reverseRecOn generalizing time with
  | nil =>
    refine ⟨fun h => ?_, fun h => absurd h (not_seenAt_nil host key time)⟩
    cases h
  | append_singleton history d ih =>
    rw [replay_concat]
    cases d with
    | touch h k seen =>
      rw [perform, last?_touch, seenAt_touch]
      split
      · exact Option.some_inj
      · exact ih time
    | sweep now window =>
      rw [perform, last?_sweep, seenAt_sweep, Option.filter_eq_some_iff, ih, Bool.not_eq_true',
        ← isStale_iff, Bool.not_eq_true]

theorem tidy_replay (history : List Deed) : (replay history).Tidy := by
  induction history using List.reverseRecOn with
  | nil => intro host keys h; cases h
  | append_singleton history d ih =>
    rw [replay_concat]
    cases d with
    | touch host key time => exact tidy_touch ih host key time
    | sweep now window => exact tidy_sweep _ now window

/-! ## What is held, created and forgotten -/

theorem mem_held_iff (history : List Deed) (host key : String) :
    (host, key) ∈ held history ↔ ∃ time, (replay history).last? host key = some time := by
  constructor
  · rintro ⟨time, h⟩
    exact ⟨time, (last?_replay history host key time).mpr h⟩
  · rintro ⟨time, h⟩
    exact ⟨time, (last?_replay history host key time).mp h⟩

theorem held_touch (history : List Deed) (host key : String) (time : Duration) :
    held (history ++ [.touch host key time]) = insert (host, key) (held history) := by
  ext ⟨other, name⟩
  rw [Set.mem_insert_iff, Prod.mk.injEq]
  constructor
  · rintro ⟨seen, h⟩
    rw [seenAt_touch] at h
    split at h
    · next he => exact Or.inl he
    · exact Or.inr ⟨seen, h⟩
  · intro h
    by_cases he : other = host ∧ name = key
    · exact ⟨time, (seenAt_touch ..).mpr (by rw [if_pos he])⟩
    · obtain ⟨seen, hseen⟩ := h.resolve_left he
      exact ⟨seen, (seenAt_touch ..).mpr (by rw [if_neg he]; exact hseen)⟩

theorem held_sweep_subset (history : List Deed) (now window : Duration) :
    held (history ++ [.sweep now window]) ⊆ held history := by
  rintro ⟨host, key⟩ ⟨time, h⟩
  exact ⟨time, ((seenAt_sweep ..).mp h).1⟩

/-- A sweep counts the pairs that it forgets. -/
theorem encard_forgotten (history : List Deed) (now window : Duration) :
    (held history \ held (history ++ [.sweep now window])).encard =
      (replay history).staleCount now window := by
  rw [← encard_stale]
  congr 1
  ext ⟨host, key⟩
  rw [Set.mem_sdiff]
  constructor
  · rintro ⟨⟨time, hseen⟩, hforgotten⟩
    refine ⟨time, (last?_replay ..).mpr hseen, ?_⟩
    by_contra hfresh
    exact hforgotten ⟨time, (seenAt_sweep ..).mpr ⟨hseen, hfresh⟩⟩
  · rintro ⟨time, hlast, hstale⟩
    refine ⟨⟨time, (last?_replay ..).mp hlast⟩, ?_⟩
    rintro ⟨other, hother⟩
    -- a pair is held with one time only
    obtain ⟨hseen, hfresh⟩ := (seenAt_sweep ..).mp hother
    have htime := (last?_replay ..).mpr hseen
    rw [hlast, Option.some_inj] at htime
    exact hfresh (htime ▸ hstale)

theorem lt_of_mem_created {history : List Deed} {i : Nat} (h : i ∈ created history) :
    i < history.length := by
  obtain ⟨host, key, time, hget, -⟩ := h
  exact (List.getElem?_eq_some_iff.mp hget).1

theorem mem_created_concat (history : List Deed) (d : Deed) (i : Nat) :
    i ∈ created (history ++ [d]) ↔ i ∈ created history ∨ i = history.length ∧
      ∃ host key time, d = .touch host key time ∧ (host, key) ∉ held history := by
  by_cases hi : i < history.length
  · -- an earlier place is judged by what stands before it
    have hget : (history ++ [d])[i]? = history[i]? := List.getElem?_append_left hi
    have htake : (history ++ [d]).take i = history.take i :=
      List.take_append_of_le_length (Nat.le_of_lt hi)
    rw [or_iff_left fun h => Nat.ne_of_lt hi h.1, created, created, Set.mem_ofPred_eq,
      Set.mem_ofPred_eq, hget, htake]
  · rw [or_iff_right fun h => hi (lt_of_mem_created h)]
    have hget : (history ++ [d])[history.length]? = some d := by simp
    have htake : (history ++ [d]).take history.length = history := List.take_left
    constructor
    · intro h
      have hlt := lt_of_mem_created h
      rw [List.length_append, List.length_singleton] at hlt
      obtain rfl : i = history.length := by omega
      obtain ⟨host, key, time, he, hnew⟩ := h
      rw [hget, Option.some_inj] at he
      rw [htake] at hnew
      exact ⟨rfl, host, key, time, he, hnew⟩
    · rintro ⟨rfl, host, key, time, rfl, hnew⟩
      exact ⟨host, key, time, hget, by rwa [htake]⟩

theorem created_touch_of_new {history : List Deed} {host key : String}
    (h : (host, key) ∉ held history) (time : Duration) :
    created (history ++ [.touch host key time]) = insert history.length (created history) := by
  ext i
  rw [mem_created_concat, Set.mem_insert_iff, or_comm]
  apply or_congr_left
  exact and_iff_left ⟨host, key, time, rfl, h⟩

theorem created_touch_of_held {history : List Deed} {host key : String}
    (h : (host, key) ∈ held history) (time : Duration) :
    created (history ++ [.touch host key time]) = created history := by
  ext i
  rw [mem_created_concat, or_iff_left]
  rintro ⟨-, other, name, seen, he, hnew⟩
  cases he
  exact hnew h

theorem created_sweep (history : List Deed) (now window : Duration) :
    created (history ++ [.sweep now window]) = created history := by
  ext i
  rw [mem_created_concat, or_iff_left]
  rintro ⟨-, _, _, _, he, -⟩
  cases he

/-- What was put in is held still or was forgotten. -/
theorem encard_created (history : List Deed) :
    (created history).encard = (held history).encard + forgotten history := by
  induction history using List.reverseRecOn with
  | nil =>
    have hcreated : created [] = ∅ :=
      Set.eq_empty_of_forall_notMem fun _ h => Nat.not_lt_zero _ (lt_of_mem_created h)
    have hheld : held [] = ∅ :=
      Set.eq_empty_of_forall_notMem fun _ ⟨time, h⟩ => not_seenAt_nil _ _ time h
    rw [hcreated, hheld, forgotten, forgottenBy, Nat.cast_zero, add_zero]
    -- nothing on either side, though of different things
    rw [Set.encard_empty, Set.encard_empty]
  | append_singleton history d ih =>
    rw [forgotten_concat]
    cases d with
    | touch host key time =>
      rw [held_touch]
      by_cases hmem : (host, key) ∈ held history
      · rw [created_touch_of_held hmem, Set.insert_eq_of_mem hmem]
        exact ih
      · have hlength : history.length ∉ created history := fun h =>
          Nat.lt_irrefl _ (lt_of_mem_created h)
        calc
          (created (history ++ [.touch host key time])).encard
            = (created history).encard + 1 := by
              rw [created_touch_of_new hmem, Set.encard_insert_of_notMem hlength]
          _ = (held history).encard + 1 + forgotten history := by rw [ih, add_right_comm]
          _ = (insert (host, key) (held history)).encard + forgotten history := by
              rw [Set.encard_insert_of_notMem hmem]
    | sweep now window =>
      -- what was held is held still or is counted by the sweep
      have hsplit := Set.encard_sdiff_add_encard_of_subset (held_sweep_subset history now window)
      rw [encard_forgotten] at hsplit
      calc
        (created (history ++ [.sweep now window])).encard
          = (held history).encard + forgotten history := by rw [created_sweep, ih]
        _ = (held (history ++ [.sweep now window])).encard +
            (forgotten history + (replay history).staleCount now window) := by
            rw [← hsplit]
            ac_rfl
        _ = _ := by rw [← Nat.cast_add]; rfl

/-- The look-up of a pair, the list of what is held, the count of each sweep and the sum of all counts are
those that the history of the notes and sweeps gives. -/
theorem refines_history (history : List Deed) :
    (∀ host key time, (replay history).last? host key = some time ↔
      SeenAt history host key time) ∧
    (((replay history).keys.map Prod.fst).Nodup ∧
      (∀ host, host ∈ (replay history).keys.map Prod.fst ↔ ∃ key, (host, key) ∈ held history) ∧
      ∀ e ∈ (replay history).keys, e.2.Nodup ∧ ∀ key, key ∈ e.2 ↔ (e.1, key) ∈ held history) ∧
    (∀ now window, (held history \ held (history ++ [.sweep now window])).encard =
      (replay history).staleCount now window) ∧
    (created history).encard = (held history).encard + forgotten history := by
  refine ⟨last?_replay history, ⟨?_, ?_, ?_⟩, encard_forgotten history, encard_created history⟩
  · rw [names_keys]
    exact (replay history).hosts.nodup
  · intro host
    rw [names_keys, mem_names_iff (tidy_replay history)]
    exact exists_congr fun key => (mem_held_iff history host key).symm
  · rintro ⟨host, names⟩ he
    obtain ⟨keys, hkeys, rfl⟩ := mem_keys_iff.mp he
    refine ⟨keys.nodup, fun key => ?_⟩
    rw [mem_held_iff, last?, hkeys, Option.bind_some, ← Table.find?_isSome_iff,
      Option.isSome_iff_exists]

/-- A sweep whose clock is behind forgets nothing, and a host stays as long as one of its keys does. -/
example : (replay [.touch "h" "a" ⟨9⟩, .sweep ⟨3⟩ ⟨0⟩, .touch "h" "b" ⟨1⟩, .touch "g" "b" ⟨3⟩,
    .sweep ⟨9⟩ ⟨5⟩]).keys = [("h", ["a"])] := by decide

end MetricRelay.Seen
