/-
Log records as values: what a run would write, in order. Who writes them,
and from which level on, is decided elsewhere.
-/
import VarSection.Text

namespace VarSection

/-- How much a record matters. -/
inductive LogLevel where
  | debug
  | info
  | error
deriving DecidableEq

namespace LogLevel

/-- How a level is written. -/
def name : LogLevel → Text
  | .debug => "DEBUG"
  | .info => "INFO"
  | .error => "ERROR"

/-- The rank of a level: a record is kept from its own rank down. -/
def rank : LogLevel → Int
  | .debug => 10
  | .info => 20
  | .error => 40

end LogLevel

/-- One entry of a log. -/
structure LogRecord where
  logger : Text
  level : LogLevel
  message : Text

end VarSection
