/-!
# DeviceRegisters.Log

Log lines: what the library tells an observer beside its results.
-/

namespace DeviceRegisters

/-- How grave a log line is. -/
inductive LogLevel where
  | error
  | warn
  | trace
  deriving DecidableEq, Repr

/-- The level's name as it stands in front of a line. -/
def LogLevel.text : LogLevel → String
  | .error => "ERROR"
  | .warn => "WARN"
  | .trace => "TRACE"

/-- A log line: its level and its message. -/
structure LogLine where
  level : LogLevel
  message : String
  deriving DecidableEq, Repr

namespace LogLine

/-- The line as an observer sees it. -/
def text (line : LogLine) : String := line.level.text ++ " " ++ line.message

end LogLine
end DeviceRegisters
