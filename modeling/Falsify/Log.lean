/-!
# Logs

What a run tells whoever watches it, line by line.
-/

namespace Falsify

inductive LogLevel where
  | info
  | warn
  | debug
  deriving DecidableEq

def LogLevel.name : LogLevel → String
  | .info => "INFO"
  | .warn => "WARN"
  | .debug => "DEBUG"

structure LogEntry where
  level : LogLevel
  text : String
  deriving DecidableEq

/-- The entries in the order in which they were made. -/
abbrev Log := Array LogEntry

end Falsify
