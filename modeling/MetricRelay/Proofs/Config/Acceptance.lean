import Mathlib.Logic.ExistsUnique
import MetricRelay.Proofs.Config.Rules
import MetricRelay.Proofs.Settings
import MetricRelay.Proofs.Text

/-!
Which environments are accepted. Main statement: the settings that an environment gives are accepted exactly
if every number in it can be read and the settings meet every rule, and otherwise the first number that cannot
be read is reported, or else the first rule that is broken.
-/
namespace MetricRelay.Config

variable {e : Environment} {c c' : Config} {err : ConfigError}

/-! ## The numbers -/

namespace Number

/-- The order in which the numbers are read. -/
def order : List Number :=
  [.ticker, .pollInterval, .maxKeys, .sendKeys, .receiveTimeout, .sendTimeout, .seenWindow]

/-- Whether what is written for a setting cannot be read. -/
def Unreadable (e : Environment) (x : Number) : Prop := ∃ written, e.Misspells x.name written

theorem mem_order (x : Number) : x ∈ order := by
  cases x <;> decide

/-- Reads a number and forgets it. -/
def check (e : Environment) (x : Number) : Except ConfigError Unit :=
  (e.number? x.name).map fun _ => ()

variable {x : Number}

theorem check_eq_error_iff :
    x.check e = .error err ↔ ∃ written, e.Misspells x.name written ∧ err = .invalidValue x.name written :=
  map_eq_error_iff.trans Environment.number?_eq_error_iff

theorem check_eq_ok_iff : x.check e = .ok () ↔ ¬x.Unreadable e := by
  constructor
  · rintro hok ⟨written, hmisspells⟩
    have herror := check_eq_error_iff.mpr ⟨written, hmisspells, rfl⟩
    rw [hok] at herror
    cases herror
  · intro hreadable
    cases hcheck : x.check e with
    | ok _ => rfl
    | error err =>
      obtain ⟨written, hmisspells, -⟩ := check_eq_error_iff.mp hcheck
      exact absurd ⟨written, hmisspells⟩ hreadable

end Number

/-- Whether the settings can be read is a matter of their numbers. -/
theorem read_map_eq (e : Environment) :
    (read e).map (fun _ => ()) = Number.order.forM (Number.check e) := by
  simp only [read, Environment.secs?, Environment.millis?, map_of_bind, bind_of_map, Number.order, List.forM,
    Number.check]
  rfl

theorem read_eq_error_iff :
    read e = .error err ↔
      ∃ x written, IsFirst (Number.Unreadable e) Number.order x ∧ e.text? x.name = some written ∧
        err = .invalidValue x.name written := by
  -- an error is the same with and without the settings
  rw [← map_eq_error_iff (f := fun _ => ()), read_map_eq, forM_eq_error_iff]
  simp only [ne_eq, Number.check_eq_ok_iff, not_not]
  constructor
  · rintro ⟨x, hfirst, herror⟩
    obtain ⟨written, hmisspells, herr⟩ := Number.check_eq_error_iff.mp herror
    exact ⟨x, written, hfirst, hmisspells.1, herr⟩
  · rintro ⟨x, written, hfirst, hset, rfl⟩
    obtain ⟨written', hmisspells⟩ := hfirst.holds
    -- the variable is set to one text only
    cases hset.symm.trans hmisspells.1
    exact ⟨x, hfirst, Number.check_eq_error_iff.mpr ⟨written, hmisspells, rfl⟩⟩

/-! ## All settings -/

/-- The settings that an environment gives. A variable that is not set to a text leaves the default, and a
host's name that is blank counts as none. -/
structure Assembled (e : Environment) (c : Config) : Prop where
  number : ∀ x : Number, x.Follows e c
  address : c.address = (e.text? "ZABBIX_ADDRESS").getD "127.0.0.1:10051"
  encoder : c.encoder = (e.text? "ZABBIX_ENCODER").getD "ZabbixEncoder"
  hostname : ∀ name, c.hostname = some name ↔
    e.text? "ZABBIX_OVERRIDE_HOSTNAME" = some name ∧ ¬Text.AllBlank name.toList

theorem hostname?_eq_some_iff {name : String} :
    e.hostname? = some name ↔
      e.text? "ZABBIX_OVERRIDE_HOSTNAME" = some name ∧ ¬Text.AllBlank name.toList := by
  rw [Environment.hostname?, Option.filter_eq_some_iff, decide_eq_true_iff, ne_eq, Text.trim_eq_nil_iff]

theorem assembled_of_read (h : read e = .ok c) : Assembled e c := by
  have hnumber := follows_of_read h
  rw [read] at h
  obtain ⟨_, -, h⟩ := exists_of_bind_eq_ok h
  obtain ⟨_, -, h⟩ := exists_of_bind_eq_ok h
  obtain ⟨_, -, h⟩ := exists_of_bind_eq_ok h
  obtain ⟨_, -, h⟩ := exists_of_bind_eq_ok h
  obtain ⟨_, -, h⟩ := exists_of_bind_eq_ok h
  obtain ⟨_, -, h⟩ := exists_of_bind_eq_ok h
  obtain ⟨_, -, h⟩ := exists_of_bind_eq_ok h
  cases h
  exact ⟨hnumber, rfl, rfl, fun _ => hostname?_eq_some_iff⟩

theorem Number.Follows.amount_eq {x : Number} (h : x.Follows e c) (h' : x.Follows e c') :
    x.amount c = x.amount c' := by
  cases htext : e.text? x.name with
  | none => rw [h.unset htext, h'.unset htext]
  | some written =>
    obtain ⟨n, hn, -, hamount⟩ := h.set written htext
    obtain ⟨m, hm, -, hamount'⟩ := h'.set written htext
    rw [hamount, hamount', hn.eq hm]

/-- An environment gives at most one configuration. -/
theorem Assembled.eq (h : Assembled e c) (h' : Assembled e c') : c = c' := by
  have hamount (x : Number) : x.amount c = x.amount c' := (h.number x).amount_eq (h'.number x)
  have haddress := h.address.trans h'.address.symm
  have hencoder := h.encoder.trans h'.encoder.symm
  have hhostname : c.hostname = c'.hostname :=
    Option.ext fun name => (h.hostname name).trans (h'.hostname name).symm
  have hduration {d d' : Duration} (hd : d.nanoseconds = d'.nanoseconds) : d = d' :=
    congrArg Duration.mk hd
  have hticker : c.ticker = c'.ticker := hduration (hamount .ticker)
  have hpollInterval : c.pollInterval = c'.pollInterval := hduration (hamount .pollInterval)
  have hmaxKeys : c.maxKeys = c'.maxKeys := hamount .maxKeys
  have hsendKeys : c.sendKeys = c'.sendKeys := hamount .sendKeys
  have hreceiveTimeout : c.receiveTimeout = c'.receiveTimeout := hduration (hamount .receiveTimeout)
  have hsendTimeout : c.sendTimeout = c'.sendTimeout := hduration (hamount .sendTimeout)
  have hseenWindow : c.seenWindow = c'.seenWindow := hduration (hamount .seenWindow)
  cases c
  cases c'
  exact (mk.injEq ..).mpr ⟨haddress, hticker, hpollInterval, hmaxKeys, hsendKeys, hencoder,
    hreceiveTimeout, hsendTimeout, hhostname, hseenWindow⟩

theorem Assembled.not_unreadable (h : Assembled e c) (x : Number) : ¬x.Unreadable e := by
  rintro ⟨written, hset, hlarge⟩
  obtain ⟨n, hn, hle, -⟩ := (h.number x).set written hset
  exact Nat.not_lt_of_le hle (hlarge n hn)

theorem exists_read (h : ∀ x : Number, ¬x.Unreadable e) : ∃ c, read e = .ok c := by
  cases hread : read e with
  | ok c => exact ⟨c, rfl⟩
  | error err =>
    obtain ⟨x, -, hfirst, -⟩ := read_eq_error_iff.mp hread
    exact absurd hfirst.holds (h x)

theorem read_eq_ok_iff : read e = .ok c ↔ Assembled e c := by
  refine ⟨assembled_of_read, fun h => ?_⟩
  obtain ⟨c', hread⟩ := exists_read h.not_unreadable
  -- what is read is assembled too, and there is only one
  rw [hread, h.eq (assembled_of_read hread)]

theorem ofEnvironment_eq_ok_iff {now : Duration} :
    ofEnvironment e now = .ok c ↔ read e = .ok c ∧ c.validate now = .ok () := by
  rw [ofEnvironment]
  constructor
  · intro h
    obtain ⟨c', hread, h⟩ := exists_of_bind_eq_ok h
    obtain ⟨⟨⟩, hvalid, h⟩ := exists_of_bind_eq_ok h
    cases h
    exact ⟨hread, hvalid⟩
  · rintro ⟨hread, hvalid⟩
    rw [hread]
    change (c.validate now >>= fun _ => pure c) = _
    rw [hvalid]
    rfl

theorem ofEnvironment_eq_error_iff {now : Duration} :
    ofEnvironment e now = .error err ↔
      read e = .error err ∨ ∃ c, read e = .ok c ∧ c.validate now = .error err := by
  have hvalid (c : Config) : (c.validate now >>= fun _ => pure c) = Except.error err ↔
      c.validate now = .error err := by
    rw [bind_eq_error_iff]
    exact or_iff_left fun ⟨_, _, h⟩ => nomatch h
  rw [ofEnvironment, bind_eq_error_iff]
  simp only [hvalid]

/-- The settings are accepted exactly if all numbers can be read and the settings meet the rules. -/
theorem accepted_iff_sound (e : Environment) (now : Duration) :
    ((∀ x : Number, ¬x.Unreadable e) ↔ ∃! c, Assembled e c) ∧
      (∀ c, ofEnvironment e now = .ok c ↔ Assembled e c ∧ ∀ r : Rule, r.Holds c now) ∧
      ∀ err, ofEnvironment e now = .error err ↔
        (∃ x written, IsFirst (Number.Unreadable e) Number.order x ∧ e.text? x.name = some written ∧
          err = .invalidValue x.name written) ∨
        ∃ c r, Assembled e c ∧ IsFirst (fun r => ¬Rule.Holds c now r) Rule.order r ∧ err = r.fault c := by
  refine ⟨⟨fun h => ?_, ?_⟩, fun c => ?_, fun err => ?_⟩
  · obtain ⟨c, hread⟩ := exists_read h
    have hassembled := assembled_of_read hread
    exact ⟨c, hassembled, fun c' h' => h'.eq hassembled⟩
  · rintro ⟨c, hassembled, -⟩
    exact hassembled.not_unreadable
  · rw [ofEnvironment_eq_ok_iff, read_eq_ok_iff, validate_eq_ok_iff]
  · simp only [ofEnvironment_eq_error_iff, read_eq_error_iff, read_eq_ok_iff, validate_eq_error_iff,
      exists_and_left]

/-- A number that cannot be read comes before a rule that is broken, even if it is read last. -/
example : ofEnvironment (.ofList [("ZABBIX_SEND_KEY_COUNT", Bytes.ofString "2001"),
    ("ZABBIX_KEY_SEEN_WINDOW", Bytes.ofString " 1m")]) .zero =
      .error (.invalidValue "ZABBIX_KEY_SEEN_WINDOW" " 1m") := by decide +kernel

end MetricRelay.Config
