/-!
# Log records

Operations note what they do as records, in order, in a log that they pass on.  The log is a value: what an operation
returns never depends on it, and a failing operation keeps the records made before the failure.
-/

namespace ClassGraft

/-- How much a record matters, the most severe first. -/
inductive Severity where
  | warning
  | info
  | debug
deriving DecidableEq, Repr

/-- One line of the log. -/
structure Record where
  severity : Severity
  message : String
deriving DecidableEq, Repr

/-- Records in the order in which they were made. -/
abbrev Log := Array Record

/-- A computation that notes records. -/
abbrev Logged := StateM Log

/-- A computation that notes records and may fail, keeping those noted before. -/
abbrev LoggedExcept (ε : Type) := ExceptT ε Logged

namespace Severity

/-- The rank of a severity, smaller for the more severe. -/
def rank : Severity → Nat
  | warning => 0
  | info => 1
  | debug => 2

/-- The word in front of a record of this severity. -/
def label : Severity → String
  | warning => "WARN"
  | info => "INFO"
  | debug => "DEBUG"

end Severity

/-- A record as one line of text. -/
def Record.line (record : Record) : String :=
  record.severity.label ++ " " ++ record.message

/-- The lines of the records that are at least as severe as the limit. -/
def Log.linesUpTo (limit : Severity) (log : Log) : List String :=
  (log.toList.filter fun record => record.severity.rank ≤ limit.rank).map Record.line

/-- Notes one record. -/
def note (severity : Severity) (message : String) : Logged Unit :=
  modify fun log => log.push ⟨severity, message⟩

/-- Notes several records of one severity. -/
def noteAll (severity : Severity) (messages : List String) : Logged Unit :=
  messages.forM (note severity)

end ClassGraft
