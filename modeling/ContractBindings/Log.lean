import ContractBindings.Fault
import ContractBindings.Value

namespace ContractBindings

/-!
# Logging

Operations that log return their records in the order in which they were
logged.  A reader sees warnings, and everything when debugging is on.

A logger is asked for by name, with a level of its own or without one.  Loggers
that were once asked for without a level are tracked: they have the level that
belongs to the debugging switch and change with it.  The empty name and `root`
are two names of one logger.
-/

/-- How important a log record is. -/
inductive Severity where
  | debug
  | info
  | warning
  deriving DecidableEq, Repr

/-- A logged message. -/
structure LogRecord where
  severity : Severity
  message : Text
  deriving DecidableEq

namespace LogRecord

/-- The records that a reader sees. -/
def visible (debug : Bool) (records : List LogRecord) : List LogRecord :=
  if debug then records else records.filter (·.severity = .warning)

end LogRecord

/-- The loggers asked for so far. -/
structure LoggerRegistry where
  /-- The debugging switch. -/
  debug : Bool
  /-- The level of each logger, under its own name. -/
  levels : Keyed Int
  /-- The loggers whose level follows the switch. -/
  tracked : List Text
  deriving DecidableEq

namespace LoggerRegistry

/-- No logger, and debugging off. -/
def empty : LoggerRegistry :=
  ⟨false, [], []⟩

/-- The level of tracked loggers while debugging is on. -/
def debugLevel : Int := 10

/-- The level of tracked loggers while debugging is off. -/
def warningLevel : Int := 30

/-- The level that belongs to a position of the debugging switch. -/
def levelFor (debug : Bool) : Int :=
  if debug then debugLevel else warningLevel

/-- The levels that have names. -/
def levelNames : Keyed Int :=
  [("CRITICAL", 50), ("FATAL", 50), ("ERROR", 40), ("WARN", 30), ("WARNING", 30), ("INFO", 20),
    ("DEBUG", 10), ("NOTSET", 0)]

/-- The level that a value stands for: null is no level, a number is its own and
a text is the name of one. -/
def levelOf : Value → Except Fault (Option Int)
  | .null => .ok none
  | .bool b => .ok (some (if b then 1 else 0))
  | .int i => .ok (some i)
  | .text name =>
      match levelNames.get? name with
      | some level => .ok (some level)
      | none => .error .badValue
  | _ => .error .wrongKind

/-- The logger that a name stands for. -/
def logger (name : Text) : Text :=
  if name = "root" then [] else name

/-- The level of the logger that a name stands for, if it was ever asked for. -/
def level? (registry : LoggerRegistry) (name : Text) : Option Int :=
  Keyed.get? (logger name) registry.levels

/-- Asks for a logger, with a level of its own or without one. -/
def get (registry : LoggerRegistry) (name : Text) (override : Option Int) : LoggerRegistry :=
  match override with
  | none =>
      { registry with
        levels := Keyed.put (logger name) (levelFor registry.debug) registry.levels
        tracked := logger name :: registry.tracked }
  | some level =>
      { registry with levels := Keyed.put (logger name) level registry.levels }

/-- Turns the debugging switch, which all tracked loggers follow. -/
def setDebug (registry : LoggerRegistry) (debug : Bool) : LoggerRegistry :=
  { registry with
    debug := debug
    levels := registry.levels.map fun (name, level) =>
      (name, if registry.tracked.contains name then levelFor debug else level) }

end LoggerRegistry

end ContractBindings
