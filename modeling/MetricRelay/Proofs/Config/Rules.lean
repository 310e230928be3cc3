import MetricRelay.Config

/-!
The rules that settings must meet, one after the other. Main statements: settings are valid exactly if
they meet every rule, and otherwise the first rule that they break is reported.
-/
namespace MetricRelay

universe u v

/-! ## Checks one after the other -/

section
variable {ε : Type u} {α : Type v} {P : α → Prop} {f : α → Except ε Unit} {l : List α}

/-- Whether an item is the first of a list that has a property. -/
def IsFirst (P : α → Prop) (l : List α) (a : α) : Prop :=
  ∃ before after, l = before ++ a :: after ∧ P a ∧ ∀ b ∈ before, ¬P b

theorem IsFirst.holds {a : α} (h : IsFirst P l a) : P a := by
  obtain ⟨_, _, _, ha, _⟩ := h
  exact ha

theorem isFirst_nil {a : α} : ¬IsFirst P [] a := by
  rintro ⟨before, after, h, -⟩
  cases before <;> cases h

theorem isFirst_cons_iff {a b : α} : IsFirst P (a :: l) b ↔ P a ∧ b = a ∨ ¬P a ∧ IsFirst P l b := by
  constructor
  · rintro ⟨before, after, h, hb, hbefore⟩
    cases before with
    | nil =>
      cases h
      exact Or.inl ⟨hb, rfl⟩
    | cons c before =>
      cases h
      obtain ⟨ha, hbefore⟩ := List.forall_mem_cons.mp hbefore
      exact Or.inr ⟨ha, before, after, rfl, hb, hbefore⟩
  · rintro (⟨ha, rfl⟩ | ⟨ha, before, after, rfl, hb, hbefore⟩)
    · exact ⟨[], l, rfl, ha, fun _ hc => nomatch hc⟩
    · exact ⟨a :: before, after, rfl, hb, List.forall_mem_cons.mpr ⟨ha, hbefore⟩⟩

theorem forM_eq_ok_iff : l.forM f = .ok () ↔ ∀ a ∈ l, f a = .ok () := by
  induction l with
  | nil => exact iff_of_true rfl fun _ h => nomatch h
  | cons a rest ih =>
    rw [List.forall_mem_cons, ← ih, List.forM]
    cases f a with
    | error e => exact iff_of_false nofun nofun
    | ok u => exact (and_iff_right rfl).symm

/-- Checks fail with what the first of them that fails gives. -/
theorem forM_eq_error_iff {e : ε} :
    l.forM f = .error e ↔ ∃ a, IsFirst (fun a => f a ≠ .ok ()) l a ∧ f a = .error e := by
  induction l with
  | nil => exact iff_of_false nofun fun ⟨_, h, _⟩ => isFirst_nil h
  | cons a rest ih =>
    simp only [isFirst_cons_iff]
    rw [List.forM]
    cases h : f a with
    | error e' =>
      change Except.error e' = Except.error e ↔ _
      simp [h]
    | ok u =>
      change rest.forM f = Except.error e ↔ _
      rw [ih]
      simp

end

namespace Config

/-! ## The rules -/

/-- The times that are added to that of the clock. -/
inductive Period where
  | ticker
  | pollInterval
  | seenWindow
  deriving DecidableEq, Repr

namespace Period

def name : Period → String
  | .ticker => "ticker_interval"
  | .pollInterval => "zabbix_checks_poll_interval"
  | .seenWindow => "key_seen_window"

def length (c : Config) : Period → Duration
  | .ticker => c.ticker
  | .pollInterval => c.pollInterval
  | .seenWindow => c.seenWindow

end Period

inductive Rule where
  | keyCounts
  | pollInterval
  | ticker
  | period (p : Period)
  deriving DecidableEq, Repr

namespace Rule

def order : List Rule :=
  [.keyCounts, .pollInterval, .ticker, .period .ticker, .period .pollInterval, .period .seenWindow]

/-- Whether settings meet the rule at a time of the clock. -/
def Holds (c : Config) (now : Duration) : Rule → Prop
  | .keyCounts => 1 ≤ c.sendKeys ∧ c.sendKeys ≤ c.maxKeys
  | .pollInterval =>
    c.pollInterval.nanoseconds = 0 ∨ c.receiveTimeout.nanoseconds < c.pollInterval.nanoseconds
  | .ticker => c.ticker.nanoseconds ≠ 0
  -- the whole of the last second can be shown
  | .period p => now.nanoseconds + (p.length c).nanoseconds < (maxClock + 1) * 1000000000

instance (c : Config) (now : Duration) : (r : Rule) → Decidable (r.Holds c now)
  | .keyCounts => inferInstanceAs (Decidable (_ ∧ _))
  | .pollInterval => inferInstanceAs (Decidable (_ ∨ _))
  | .ticker => inferInstanceAs (Decidable (_ ≠ _))
  | .period _ => inferInstanceAs (Decidable (_ < _))

/-- What is reported if the rule is broken. -/
def fault (c : Config) : Rule → ConfigError
  | .keyCounts => .keyCounts c.sendKeys c.maxKeys
  | .pollInterval => .pollInterval c.pollInterval c.receiveTimeout
  | .ticker => .invalidValue "ticker_interval" "0"
  | .period p => .invalidValue p.name s!"{(p.length c).secs}s"

theorem mem_order (r : Rule) : r ∈ order := by
  cases r with
  | period p => cases p <;> decide
  | _ => decide

def check (c : Config) (now : Duration) (r : Rule) : Except ConfigError Unit :=
  if r.Holds c now then .ok () else .error (r.fault c)

variable {c : Config} {now : Duration} {r : Rule}

theorem check_eq_ok_iff : r.check c now = .ok () ↔ r.Holds c now := by
  rw [check]
  split
  · next h => exact iff_of_true rfl h
  · next h => exact iff_of_false nofun h

theorem check_eq_error_iff {e : ConfigError} :
    r.check c now = .error e ↔ ¬r.Holds c now ∧ e = r.fault c := by
  rw [check]
  split
  · next h => exact iff_of_false nofun fun hn => hn.1 h
  · next h => rw [Except.error.injEq, eq_comm, and_iff_right h]

/-- A check that is followed by others. -/
theorem check_bind {broken : Prop} [Decidable broken] (h : broken ↔ ¬r.Holds c now)
    {others others' : Except ConfigError Unit} (hothers : others = others') :
    (if broken then (do throw (r.fault c); others) else others) =
      (do r.check c now; others') := by
  rw [hothers, check]
  by_cases hr : r.Holds c now
  · rw [if_pos hr, if_neg fun hb => h.mp hb hr]
    rfl
  · rw [if_neg hr, if_pos (h.mpr hr)]
    rfl

theorem check_period (c : Config) (now : Duration) (p : Period) :
    check c now (.period p) = checkPeriod now p.name (p.length c) := by
  have hiff : schedulable now (p.length c) = true ↔ Holds c now (.period p) := by
    have hsum : (now + p.length c).nanoseconds = now.nanoseconds + (p.length c).nanoseconds := rfl
    rw [schedulable, decide_eq_true_iff, Duration.secs, hsum, Holds]
    omega
  rw [check, checkPeriod]
  simp only [hiff]
  rfl

end Rule

/-! ## Valid settings -/

variable {c : Config} {now : Duration}

theorem validate_eq (c : Config) (now : Duration) :
    c.validate now = Rule.order.forM (Rule.check c now) := by
  have hcounts : c.sendKeys < 1 ∨ c.sendKeys > c.maxKeys ↔ ¬Rule.keyCounts.Holds c now := by
    rw [Rule.Holds]
    omega
  have hpoll : c.filtering = true ∧ c.pollInterval ≤ c.receiveTimeout ↔
      ¬Rule.pollInterval.Holds c now := by
    have hle : c.pollInterval ≤ c.receiveTimeout ↔
        c.pollInterval.nanoseconds ≤ c.receiveTimeout.nanoseconds := Iff.rfl
    rw [Rule.Holds, filtering, Duration.isZero, hle]
    simp
  have hticker : c.ticker.isZero = true ↔ ¬Rule.ticker.Holds c now := by
    rw [Rule.Holds, Duration.isZero]
    simp
  refine Rule.check_bind hcounts (Rule.check_bind hpoll (Rule.check_bind hticker ?_))
  simp only [List.forM, Rule.check_period, bind_pure_unit]
  rfl

/-- Settings are valid if they meet every rule. -/
theorem validate_eq_ok_iff : c.validate now = .ok () ↔ ∀ r : Rule, r.Holds c now := by
  simp only [validate_eq, forM_eq_ok_iff, Rule.mem_order, true_implies, Rule.check_eq_ok_iff]

/-- The first rule that is broken is reported. -/
theorem validate_eq_error_iff {e : ConfigError} :
    c.validate now = .error e ↔
      ∃ r, IsFirst (fun r => ¬Rule.Holds c now r) Rule.order r ∧ e = r.fault c := by
  simp only [validate_eq, forM_eq_error_iff, ne_eq, Rule.check_eq_ok_iff, Rule.check_eq_error_iff]
  constructor
  · exact fun ⟨r, hfirst, _, he⟩ => ⟨r, hfirst, he⟩
  · exact fun ⟨r, hfirst, he⟩ => ⟨r, hfirst, hfirst.holds, he⟩

end Config

end MetricRelay
