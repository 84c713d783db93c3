/-!
# The log
-/

namespace LoxReader.Log

inductive Severity where
  | trace | debug | error
deriving DecidableEq

def Severity.name : Severity → String
  | trace => "TRACE"
  | debug => "DEBUG"
  | error => "ERROR"

structure Entry where
  severity : Severity
  message : String
deriving DecidableEq

end LoxReader.Log
