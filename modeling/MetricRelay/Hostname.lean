import MetricRelay.Notice

/-! The name of the local host. -/
namespace MetricRelay.Hostname

/-- What the system gives as its name: bytes, or the text of an error. -/
abbrev SystemAnswer := Except String Bytes

/-- The name in the system's bytes: it ends before the first zero and has at most 255 bytes. -/
def systemName (bytes : Bytes) : Bytes := (bytes.take 255).takeWhile (· ≠ 0)

/-- A name that can be used: text, and not empty. -/
def usable? (name : Bytes) : Option String := (Bytes.text? name).filter (· ≠ "")

/-- The host's name from the settings, the system or the variable that shells set, in this order; if all
fail it is `unknown`. -/
def resolve (setting : Option String) (system : SystemAnswer) (shellName : Option Bytes) :
    String × List Notice :=
  match setting.filter (· ≠ "") with
  | some name => (name, [])
  | none =>
    let ownName := match system with
      | .ok bytes => usable? (systemName bytes)
      | .error _ => none
    let complaint := match system with
      | .ok _ => []
      | .error cause => [Notice.hostnameUnavailable cause]
    match ownName, shellName >>= usable? with
    | some name, _ => (name, [])
    | none, some name => (name, complaint)
    | none, none => ("unknown", complaint ++ [.hostnameUnknown])

end MetricRelay.Hostname
