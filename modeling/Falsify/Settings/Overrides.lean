import Falsify.Settings
import Falsify.Text.Blank

/-!
# Settings from the environment

Variables whose names start with `CONJECTURE_` override settings. They are looked at in a fixed
order, and the first bad value ends it. Blanks around a value do not count, but messages show the
value as it is given.

* `Settings.withOverrides`: the settings after all variables, validated;
* `readVerbosity`, `readHealthCheck`: the readers of single words.
-/

namespace Falsify

/-- A text with the capital letters of ASCII made small. -/
def lowerAscii (text : String) : String :=
  String.ofList (text.toList.map Char.toLower)

/-- The word for a verbosity, in capitals or not. -/
def readVerbosity (text : String) : Except SettingsError Verbosity :=
  match Verbosity.all.find? fun v => v.name = lowerAscii (Text.trim text) with
  | some v => .ok v
  | none => .error (.invalidValue "verbosity" text .notVerbosity)

/-- The name of a health check, exactly. -/
def readHealthCheck (text : String) : Except SettingsError HealthCheck :=
  match HealthCheck.all.find? fun c => c.name = Text.trim text with
  | some c => .ok c
  | none => .error (.invalidValue "suppress_health_check" text .notCheck)

/-- A number below a limit. -/
def readSettingNumber (key : String) (limit : Nat) (text : String) : Except SettingsError Nat :=
  match Text.readNatural limit (Text.trim text) with
  | .ok n => .ok n
  | .error e => .error (.invalidValue key text (.numeral e))

/-- A truth value in one of its spellings. Nothing at all is false. -/
def readSettingBool (key : String) (text : String) : Except SettingsError Bool :=
  let word := lowerAscii (Text.trim text)
  if ["1", "true", "yes", "on"].contains word then .ok true
  else if ["0", "false", "no", "off", ""].contains word then .ok false
  else .error (.invalidValue key text .notBoolean)

/-- The word that turns a setting off. -/
def isNone (text : String) : Bool :=
  lowerAscii (Text.trim text) = "none"

/-- Several health checks with commas between them; gaps do not count. -/
def readSuppressed (s : Settings) : List String → Except SettingsError Settings
  | [] => .ok s
  | text :: rest => do
    let name := Text.trim text
    if name.isEmpty then readSuppressed s rest
    else readSuppressed (s.suppress (← readHealthCheck name)) rest

namespace Settings

/-- A variable: its name, and what its value does to the settings. -/
structure Override where
  variableName : String
  apply : String → Settings → Except SettingsError Settings

/-- The variables, in the order in which they are looked at. -/
def overrides : List Override := [
  ⟨"CONJECTURE_MAX_EXAMPLES", fun v s => do
    return { s with maxExamples := ← readSettingNumber "CONJECTURE_MAX_EXAMPLES" (2 ^ 32) v }⟩,
  ⟨"CONJECTURE_DEADLINE_MS", fun v s => do
    if isNone v then return { s with deadline := none }
    else
      let millis ← readSettingNumber "CONJECTURE_DEADLINE_MS" (2 ^ 64) v
      return { s with deadline := some (.ofMillis millis) }⟩,
  ⟨"CONJECTURE_SEED", fun v s => do
    let seed ← readSettingNumber "CONJECTURE_SEED" (2 ^ 64) v
    return { s with seed := some (UInt64.ofNat seed) }⟩,
  ⟨"CONJECTURE_DATABASE", fun v s =>
    return { s with database := if isNone v then none else some (Text.trim v) }⟩,
  ⟨"CONJECTURE_VERBOSITY", fun v s => do
    return { s with verbosity := ← readVerbosity v }⟩,
  ⟨"CONJECTURE_SUPPRESS_HEALTH_CHECK", fun v s => readSuppressed s (v.splitOn ",")⟩,
  ⟨"CONJECTURE_REPRODUCE", fun v s =>
    return if (Text.trim v).isEmpty then s else { s with reproduce := some (Text.trim v) }⟩,
  ⟨"CONJECTURE_DERANDOMIZE", fun v s => do
    return { s with derandomize := ← readSettingBool "CONJECTURE_DERANDOMIZE" v }⟩]

/-- The settings after every variable that `lookup` knows. -/
def withOverrides (s : Settings) (lookup : String → Option String) :
    Except SettingsError Settings := do
  let s ← overrides.foldlM (fun s o =>
    match lookup o.variableName with
    | some value => o.apply value s
    | none => .ok s) s
  s.validate
  return s

end Settings

end Falsify
