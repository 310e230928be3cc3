import MetricRelay.Proofs.Service.Soundness
import MetricRelay.Rehearsal.Forwarder

/-!
Numbers in the settings. Main statements: of every setting that is read from the environment exactly the
number that is written there is used, or nothing is; and a forwarder that serves uses them so, while its
port is left at the default whenever it cannot be read. One that does not serve ends with code 1, panics or
is aborted.
-/
namespace MetricRelay

universe u v

open Text.Decimal (Denotes)

theorem exists_of_bind_eq_ok {ε α β : Type u} {x : Except ε α} {f : α → Except ε β} {b : β}
    (h : (x >>= f) = .ok b) : ∃ a, x = .ok a ∧ f a = .ok b := by
  cases x with
  | error e => cases h
  | ok a => exact ⟨a, rfl, h⟩

theorem exists_of_map_eq_ok {ε : Type u} {α β : Type v} {x : Except ε α} {f : α → β} {b : β}
    (h : x.map f = .ok b) : ∃ a, x = .ok a ∧ f a = b := by
  cases x with
  | error e => cases h
  | ok a => exact ⟨a, rfl, Except.ok.inj h⟩

theorem bind_eq_error_iff {ε α β : Type u} {x : Except ε α} {f : α → Except ε β} {err : ε} :
    (x >>= f) = .error err ↔ x = .error err ∨ ∃ a, x = .ok a ∧ f a = .error err := by
  cases x with
  | error _ =>
    change Except.error _ = _ ↔ _
    simp
  | ok a =>
    change f a = _ ↔ _
    simp

theorem map_eq_error_iff {ε : Type u} {α β : Type v} {x : Except ε α} {f : α → β} {err : ε} :
    x.map f = .error err ↔ x = .error err := by
  cases x with
  | error _ => simp [Except.map]
  | ok _ => exact iff_of_false nofun nofun

theorem map_of_bind {ε α β γ : Type u} (x : Except ε α) (f : α → Except ε β) (g : β → γ) :
    (x >>= f).map g = x >>= fun a => (f a).map g := by
  cases x <;> rfl

theorem bind_of_map {ε α β γ : Type u} (x : Except ε α) (f : α → β) (g : β → Except ε γ) :
    (x.map f >>= g) = x >>= fun a => g (f a) := by
  cases x <;> rfl

/-! ## The settings from the environment -/

namespace Environment

variable {e : Environment} {name : String}

theorem number?_of_unset (h : e.text? name = none) : e.number? name = .ok none := by
  rw [number?, h]

/-- A variable that is set to a text gives the number that it spells between blanks, or an error. -/
theorem number?_of_text {written : String} (h : e.text? name = some written) {m : Option Nat} :
    e.number? name = .ok m ↔
      ∃ n, Denotes (Text.trim written.toList) n ∧ n ≤ Text.Decimal.maxWord ∧ m = some n := by
  have hread (n : Nat) : Text.Decimal.read? Text.Decimal.maxWord (Text.trim written.toList) = some n ↔
      Denotes (Text.trim written.toList) n ∧ n ≤ Text.Decimal.maxWord :=
    Text.Decimal.read?_eq_some_iff
  rw [number?, h]
  constructor
  · intro hm
    cases hn : Text.Decimal.read? Text.Decimal.maxWord (Text.trim written.toList) with
    | none =>
      simp only [hn] at hm
      cases hm
    | some n =>
      simp only [hn] at hm
      exact ⟨n, ((hread n).mp hn).1, ((hread n).mp hn).2, (Except.ok.inj hm).symm⟩
  · rintro ⟨n, hdenotes, hle, rfl⟩
    simp only [(hread n).mpr ⟨hdenotes, hle⟩]

/-- Whether a variable is set to a text that spells no number between blanks, or too large a one. -/
def Misspells (e : Environment) (name written : String) : Prop :=
  e.text? name = some written ∧ ∀ n, Denotes (Text.trim written.toList) n → Text.Decimal.maxWord < n

theorem number?_eq_error_iff {err : ConfigError} :
    e.number? name = .error err ↔
      ∃ written, e.Misspells name written ∧ err = .invalidValue name written := by
  simp only [Misspells]
  rw [number?]
  cases htext : e.text? name with
  | none => exact iff_of_false nofun fun ⟨_, h, _⟩ => nomatch h.1
  | some written =>
    simp only [Option.some.injEq, and_assoc, exists_eq_left']
    cases hread : Text.Decimal.read? Text.Decimal.maxWord (Text.trim written.toList) with
    | none =>
      have hlarge : ∀ n, Denotes (Text.trim written.toList) n → Text.Decimal.maxWord < n := by
        intro n hn
        rw [Text.Decimal.read?_of_denotes hn, ite_eq_right_iff] at hread
        exact Nat.lt_of_not_le fun hle => nomatch hread hle
      rw [and_iff_right hlarge, Except.error.injEq, eq_comm]
    | some n =>
      obtain ⟨hn, hle⟩ := Text.Decimal.read?_eq_some_iff.mp hread
      exact iff_of_false nofun fun h => Nat.not_lt_of_le hle (h.1 n hn)

end Environment

namespace Config

/-- The settings that are numbers. -/
inductive Number where
  | ticker
  | pollInterval
  | maxKeys
  | sendKeys
  | receiveTimeout
  | sendTimeout
  | seenWindow
  deriving DecidableEq, Repr

namespace Number

def name : Number → String
  | .ticker => "ZABBIX_TICKER_INTERVAL"
  | .pollInterval => "ZABBIX_CHECKS_POLL_INTERVAL"
  | .maxKeys => "ZABBIX_MAX_KEY_COUNT"
  | .sendKeys => "ZABBIX_SEND_KEY_COUNT"
  | .receiveTimeout => "ZABBIX_RECEIVE_TIMEOUT"
  | .sendTimeout => "ZABBIX_SEND_TIMEOUT"
  | .seenWindow => "ZABBIX_KEY_SEEN_WINDOW"

/-- What a one that is written stands for: a second or a millisecond in nanoseconds, or a record. -/
def unit : Number → Nat
  | .ticker | .pollInterval | .seenWindow => 1000000000
  | .maxKeys | .sendKeys => 1
  | .receiveTimeout | .sendTimeout => 1000000

/-- The setting in a configuration, in nanoseconds or records. -/
def amount (c : Config) : Number → Nat
  | .ticker => c.ticker.nanoseconds
  | .pollInterval => c.pollInterval.nanoseconds
  | .maxKeys => c.maxKeys
  | .sendKeys => c.sendKeys
  | .receiveTimeout => c.receiveTimeout.nanoseconds
  | .sendTimeout => c.sendTimeout.nanoseconds
  | .seenWindow => c.seenWindow.nanoseconds

/-- How a setting follows from its variable. One that is not set to a text leaves the default. -/
structure Follows (x : Number) (e : Environment) (c : Config) : Prop where
  unset : e.text? x.name = none → amount c x = amount {} x
  set : ∀ written, e.text? x.name = some written →
    ∃ n, Denotes (Text.trim written.toList) n ∧ n ≤ Text.Decimal.maxWord ∧ amount c x = n * x.unit

end Number

theorem nanoseconds_of_map {x : Except ConfigError (Option Nat)} {f : Nat → Duration} {unit : Nat}
    (hf : ∀ n, (f n).nanoseconds = n * unit) {o : Option Duration} (h : x.map (·.map f) = .ok o)
    (default : Duration) :
    ∃ m, x = .ok m ∧
      (o.getD default).nanoseconds = (m.map (· * unit)).getD default.nanoseconds := by
  obtain ⟨m, hm, rfl⟩ := exists_of_map_eq_ok h
  refine ⟨m, hm, ?_⟩
  cases m with
  | none => rfl
  | some n => exact hf n

theorem count_of_ok {x : Except ConfigError (Option Nat)} {o : Option Nat} (h : x = .ok o)
    (default : Nat) : ∃ m, x = .ok m ∧ o.getD default = (m.map (· * 1)).getD default := by
  refine ⟨o, h, ?_⟩
  cases o with
  | none => rfl
  | some n => exact (Nat.mul_one n).symm

/-- What is read is the number that the variable gives, or else the default. -/
theorem number_of_read {e : Environment} {c : Config} (h : read e = .ok c) (x : Number) :
    ∃ m, e.number? x.name = .ok m ∧ x.amount c = (m.map (· * x.unit)).getD (x.amount {}) := by
  rw [read] at h
  obtain ⟨ticker, hticker, h⟩ := exists_of_bind_eq_ok h
  obtain ⟨pollInterval, hpollInterval, h⟩ := exists_of_bind_eq_ok h
  obtain ⟨maxKeys, hmaxKeys, h⟩ := exists_of_bind_eq_ok h
  obtain ⟨sendKeys, hsendKeys, h⟩ := exists_of_bind_eq_ok h
  obtain ⟨receiveTimeout, hreceiveTimeout, h⟩ := exists_of_bind_eq_ok h
  obtain ⟨sendTimeout, hsendTimeout, h⟩ := exists_of_bind_eq_ok h
  obtain ⟨seenWindow, hseenWindow, h⟩ := exists_of_bind_eq_ok h
  cases h
  cases x with
  | ticker => exact nanoseconds_of_map (fun _ => rfl) hticker _
  | pollInterval => exact nanoseconds_of_map (fun _ => rfl) hpollInterval _
  | maxKeys => exact count_of_ok hmaxKeys _
  | sendKeys => exact count_of_ok hsendKeys _
  | receiveTimeout => exact nanoseconds_of_map (fun _ => rfl) hreceiveTimeout _
  | sendTimeout => exact nanoseconds_of_map (fun _ => rfl) hsendTimeout _
  | seenWindow => exact nanoseconds_of_map (fun _ => rfl) hseenWindow _

/-- No setting that can be read from the environment falls back on its default silently. -/
theorem follows_of_read {e : Environment} {c : Config} (h : read e = .ok c) (x : Number) :
    x.Follows e c := by
  obtain ⟨m, hm, hamount⟩ := number_of_read h x
  constructor
  case unset =>
    intro hunset
    rw [Environment.number?_of_unset hunset] at hm
    cases hm
    exact hamount
  case set =>
    intro written hset
    obtain ⟨n, hdenotes, hle, rfl⟩ := (Environment.number?_of_text hset).mp hm
    exact ⟨n, hdenotes, hle, hamount⟩

theorem read_of_ofEnvironment {e : Environment} {now : Duration} {c : Config}
    (h : ofEnvironment e now = .ok c) : read e = .ok c := by
  rw [ofEnvironment] at h
  obtain ⟨config, hread, h⟩ := exists_of_bind_eq_ok h
  obtain ⟨-, -, h⟩ := exists_of_bind_eq_ok h
  cases h
  exact hread

end Config

/-! ## The settings of the forwarder itself -/

namespace Forwarder.Settings

/-- How the port follows from its variable. It is read as it stands, and whatever cannot be read leaves
the default. -/
structure PortFollows (s : Settings) (e : Environment) : Prop where
  read : ∀ written n, e.text? "ZABBIX_FORWARDER_PORT" = some written → Denotes written.toList n →
    n ≤ 65535 → s.port = n
  unread : (∀ written n, e.text? "ZABBIX_FORWARDER_PORT" = some written → Denotes written.toList n →
    65535 < n) → s.port = 10060

theorem portFollows_of_read? {readFilter : String → Option LogFilter} {e : Environment} {s : Settings}
    (h : Settings.read? readFilter e = some s) : s.PortFollows e := by
  obtain ⟨filter, -, rfl⟩ := Option.map_eq_some_iff.mp h
  constructor
  case read =>
    intro written n hset hdenotes hle
    have hread := Text.Decimal.read?_eq_some_iff.mpr ⟨hdenotes, hle⟩
    simp only [hset, Option.bind_some, hread, Option.getD_some]
  case unread =>
    intro hnone
    have hread : ((e.text? "ZABBIX_FORWARDER_PORT").bind fun p =>
        Text.Decimal.read? 65535 p.toList) = none := by
      apply Option.eq_none_iff_forall_ne_some.mpr
      intro n hn
      obtain ⟨written, hset, hwritten⟩ := Option.bind_eq_some_iff.mp hn
      obtain ⟨hdenotes, hle⟩ := Text.Decimal.read?_eq_some_iff.mp hwritten
      exact absurd hle (Nat.not_le_of_lt (hnone written n hset hdenotes))
    simp only [hread, Option.getD_none]

end Forwarder.Settings

/-! ## The forwarder -/

theorem Service.create_cases (memory : Option Nat) (config : Config) (localHost : String)
    (now : Duration) :
    (∃ cause, create memory config localHost now = .refused cause) ∨
    (create memory config localHost now = .oversized ∧ maxCapacity < config.maxKeys) ∨
    (create memory config localHost now = .unallocated ∧
      ∃ bytes, memory = some bytes ∧ bytes < slotSize * config.maxKeys) ∨
    ∃ service, create memory config localHost now = .created service ∧
      start config localHost now = .ok service ∧ config.maxKeys ≤ maxCapacity := by
  rw [create]
  cases start config localHost now with
  | error cause => exact Or.inl ⟨cause, rfl⟩
  | ok service =>
    simp only
    split
    · next hlarge => exact Or.inr (Or.inl ⟨rfl, hlarge⟩)
    · next hfits =>
      split
      · next hmemory =>
        obtain ⟨bytes, hbytes, hlt⟩ := (Option.any_eq_true _ _).mp hmemory
        exact Or.inr (Or.inr (Or.inl ⟨rfl, bytes, hbytes, of_decide_eq_true hlt⟩))
      · exact Or.inr (Or.inr (Or.inr ⟨service, rfl, rfl, Nat.le_of_not_lt hfits⟩))

namespace Rehearsal

open Forwarder (Settings)

theorem Session.exit_run (s : Session) (deeds : List Deed) :
    (s.run deeds).exit = none ∨ (s.run deeds).exit = some 0 := by
  induction deeds generalizing s with
  | nil => exact Or.inl rfl
  | cons d rest ih =>
    cases d with
    | await text => exact ih _
    | datagram bytes => exact ih _
    | interrupt => exact Or.inr rfl

variable {around : Surroundings} {deeds : List Deed} {config : Config} {settings : Settings}

/-- Whether the forwarder ends without having served. -/
structure Unserved (around : Surroundings) (deeds : List Deed) (exit : Option Nat) : Prop where
  exit : (forward around deeds).exit = exit
  sent : (forward around deeds).sent = []

/-- Whether the forwarder serves, its service with this configuration and its listener where these
settings say. -/
def Serves (around : Surroundings) (deeds : List Deed) (config : Config) (settings : Settings) : Prop :=
  ∃ localHost notices service endpoint,
    Service.start config localHost around.now = .ok service ∧ config.maxKeys ≤ Service.maxCapacity ∧
    Network.bind settings.address = .ok endpoint ∧
    forward around deeds = (listening around settings config notices service endpoint).run deeds

/-- Whether the buffer is too large for any memory. -/
def Oversized (around : Surroundings) (config : Config) : Prop :=
  Config.ofEnvironment around.environment around.now = .ok config ∧ Service.maxCapacity < config.maxKeys

/-- Whether the buffer is too large for the memory that there is. -/
def Unallocated (around : Surroundings) (config : Config) : Prop :=
  Config.ofEnvironment around.environment around.now = .ok config ∧
    ∃ bytes, around.memory = some bytes ∧ bytes < Service.slotSize * config.maxKeys

theorem launch_cases (around : Surroundings) (settings : Settings) (config : Config)
    (deeds : List Deed) :
    (∃ told, launch around settings config deeds = .unserved settings (some 1) told) ∨
    (Service.maxCapacity < config.maxKeys ∧
      ∃ told, launch around settings config deeds = .unserved settings (some panicCode) told) ∨
    ((∃ bytes, around.memory = some bytes ∧ bytes < Service.slotSize * config.maxKeys) ∧
      ∃ told, launch around settings config deeds = .unserved settings none told) ∨
    ∃ localHost notices service endpoint,
      Service.start config localHost around.now = .ok service ∧ config.maxKeys ≤ Service.maxCapacity ∧
      Network.bind settings.address = .ok endpoint ∧
      launch around settings config deeds =
        (listening around settings config notices service endpoint).run deeds := by
  rw [launch]
  obtain ⟨localHost, notices⟩ := Hostname.resolve config.hostname around.hostname
    (around.environment.value? "HOSTNAME")
  simp only
  rcases Service.create_cases around.memory config localHost around.now with
    ⟨e, hservice⟩ | ⟨hservice, hlarge⟩ | ⟨hservice, hmemory⟩ | ⟨service, hservice, hstart, hfits⟩
  all_goals rw [hservice]
  · exact Or.inl ⟨_, rfl⟩
  · exact Or.inr (Or.inl ⟨hlarge, _, rfl⟩)
  · exact Or.inr (Or.inr (Or.inl ⟨hmemory, _, rfl⟩))
  · cases hbind : Network.bind settings.address with
    | error e => exact Or.inl ⟨_, rfl⟩
    | ok endpoint =>
      exact Or.inr (Or.inr (Or.inr ⟨localHost, notices, service, endpoint, hstart, hfits, rfl, rfl⟩))

theorem unserved_of_eq {exit : Option Nat} {told : List Forwarder.Message}
    (h : forward around deeds = .unserved settings exit told) : Unserved around deeds exit :=
  ⟨by rw [h, Ending.unserved], by rw [h, Ending.unserved]⟩

theorem forward_cases (around : Surroundings) (deeds : List Deed) :
    Unserved around deeds (some 1) ∨
    (Unserved around deeds (some panicCode) ∧
      (around.readFilter (Settings.logLevel around.environment) = none ∨
        ∃ config, Oversized around config)) ∨
    (Unserved around deeds none ∧ (forward around deeds).aborted = true ∧
      ∃ config, Unallocated around config) ∨
    ∃ config settings, Config.ofEnvironment around.environment around.now = .ok config ∧
      Settings.read? around.readFilter around.environment = some settings ∧
      Serves around deeds config settings := by
  cases hsettings : Settings.read? around.readFilter around.environment with
  | none =>
    have h : forward around deeds = ⟨some panicCode, false, [], []⟩ := by
      simp only [forward, hsettings]
    exact Or.inr (Or.inl ⟨⟨by rw [h], by rw [h]⟩, Or.inl (Option.map_eq_none_iff.mp hsettings)⟩)
  | some settings =>
    cases hconfig : Config.ofEnvironment around.environment around.now with
    | error e =>
      have h : forward around deeds = .unserved settings (some 1) [.loggingEnabled, .badConfig e] := by
        simp only [forward, hsettings, hconfig]
      exact Or.inl (unserved_of_eq h)
    | ok config =>
      have h : forward around deeds = launch around settings config deeds := by
        simp only [forward, hsettings, hconfig]
      rcases launch_cases around settings config deeds with
        ⟨_, hlaunch⟩ | ⟨hlarge, _, hlaunch⟩ | ⟨hmemory, _, hlaunch⟩ |
        ⟨localHost, notices, service, endpoint, hstart, hfits, hbind, hlaunch⟩
      all_goals rw [hlaunch] at h
      · exact Or.inl (unserved_of_eq h)
      · exact Or.inr (Or.inl ⟨unserved_of_eq h, Or.inr ⟨config, hconfig, hlarge⟩⟩)
      · have haborted : (forward around deeds).aborted = true := by
          rw [h, Ending.unserved, Option.isNone_none]
        exact Or.inr (Or.inr (Or.inl ⟨unserved_of_eq h, haborted, config, hconfig, hmemory⟩))
      · exact Or.inr (Or.inr (Or.inr ⟨config, settings, rfl, rfl, localHost, notices, service,
          endpoint, hstart, hfits, hbind, h⟩))

theorem Serves.exit (h : Serves around deeds config settings) :
    (forward around deeds).exit = none ∨ (forward around deeds).exit = some 0 := by
  obtain ⟨_, _, _, _, -, -, -, heq⟩ := h
  rw [heq]
  exact Session.exit_run _ deeds

/-- A forwarder that does not serve ends with code 1, panics or is aborted. It panics only if the log filter
cannot be read or its buffer is too large for any memory, and is aborted only if the buffer is too large for
the memory that there is. One that serves follows its settings, and so does one whose buffer is too large:
no number but the port ever gives way to its default because what is written cannot be read. -/
theorem forward_follows_settings (around : Surroundings) (deeds : List Deed) :
    Unserved around deeds (some 1) ∨
    (Unserved around deeds (some panicCode) ∧
      (around.readFilter (Settings.logLevel around.environment) = none ∨
        ∃ config, Oversized around config ∧
          ∀ x : Config.Number, x.Follows around.environment config)) ∨
    (Unserved around deeds none ∧ (forward around deeds).aborted = true ∧
      ∃ config, Unallocated around config ∧
        ∀ x : Config.Number, x.Follows around.environment config) ∨
    ∃ config settings, Serves around deeds config settings ∧
      ((forward around deeds).exit = none ∨ (forward around deeds).exit = some 0) ∧
      (∀ x : Config.Number, x.Follows around.environment config) ∧
      settings.PortFollows around.environment := by
  have hfollows {config : Config} (h : Config.ofEnvironment around.environment around.now = .ok config) :
      ∀ x : Config.Number, x.Follows around.environment config :=
    Config.follows_of_read (Config.read_of_ofEnvironment h)
  rcases forward_cases around deeds with
    hrefused | ⟨hends, hfilter | ⟨config, hsize⟩⟩ | ⟨hends, haborted, config, hsize⟩ |
    ⟨config, settings, hconfig, hsettings, hserves⟩
  · exact Or.inl hrefused
  · exact Or.inr (Or.inl ⟨hends, Or.inl hfilter⟩)
  · exact Or.inr (Or.inl ⟨hends, Or.inr ⟨config, hsize, hfollows hsize.1⟩⟩)
  · exact Or.inr (Or.inr (Or.inl ⟨hends, haborted, config, hsize, hfollows hsize.1⟩))
  · exact Or.inr (Or.inr (Or.inr ⟨config, settings, hserves, hserves.exit, hfollows hconfig,
      Settings.portFollows_of_read? hsettings⟩))

/-- A port is set that is no number. -/
def unreadablePort : Surroundings where
  environment := .ofList [("ZABBIX_CHECKS_POLL_INTERVAL", Bytes.ofString "0"),
    ("ZABBIX_FORWARDER_HOST", Bytes.ofString "127.0.0.1"),
    ("ZABBIX_FORWARDER_PORT", Bytes.ofString "http")]
  hostname := .ok (Bytes.ofString "h")
  server := "127.0.0.1:10051"
  reply := fun _ => []
  target := 10060
  now := .zero

/-- The forwarder serves at the default port then and ends with code 0. -/
theorem forward_unreadablePort :
    unreadablePort.environment.text? "ZABBIX_FORWARDER_PORT" = some "http" ∧
    (∀ n, ¬Denotes (Text.trim "http".toList) n) ∧
    ((Settings.read? unreadablePort.readFilter unreadablePort.environment).map (·.port)) = some 10060 ∧
    (forward unreadablePort [.interrupt]).exit = some 0 := by
  have htrim : Text.trim "http".toList = ['h', 't', 't', 'p'] := by decide +kernel
  refine ⟨by decide +kernel, ?_, by decide +kernel, by decide +kernel⟩
  rw [htrim]
  rintro n ⟨digits, rfl | hplus, -, hdigits, -⟩
  · exact absurd hdigits (by decide)
  · cases hplus

/-- With a log filter that cannot be read the forwarder panics before it looks at the other settings. -/
example : (forward { unreadablePort with
    environment := .ofList [("ZABBIX_LOG_LEVEL", Bytes.ofString "x=y=z")] } [.interrupt]).exit =
      some 101 := by
  decide +kernel

/-- A number that is within 64 bits is taken for the buffer's size, and the forwarder panics. -/
example : (forward { unreadablePort with
    environment := .ofList [("ZABBIX_MAX_KEY_COUNT", Bytes.ofString "18446744073709551615")] }
      [.interrupt]).exit = some 101 := by
  decide +kernel

end Rehearsal

end MetricRelay
