/-!
# Faults

What can go wrong between reading a configuration and the end of a run. Each
fault is a cause; `Fault.message` is the only place where it is put in words.
-/

namespace Pipeworks

/-- Why a declaration name is refused. -/
inductive NameReason where
  | reserved
  | duplicate
  deriving DecidableEq, Repr

/-- What is wrong with a configuration text. -/
inductive SyntaxProblem where
  /-- No token starts here; the excerpt is the text that follows. -/
  | unexpectedInput (excerpt : String)
  /-- Another token than the wanted one, or the end of the text. -/
  | expected (wanted got : String)
  /-- The text ends inside a block or a list. -/
  | unfinished (container : String)
  | duplicateKey (key : String)
  | stated (text : String)
  deriving DecidableEq, Repr

/-- What is wrong with a run's configuration. -/
inductive ConfigProblem where
  | workersNotANumber (text : String)
  | noWorkers
  | unknownMode (text : String)
  | noAttempts
  | noCapacity
  | noInterval
  | multiplierTooSmall
  | cyclicGraph
  | registeredTwice (component : String)
  | subscribedTwice (subscriber : String)
  | notAnInput (component : String)
  | stated (text : String)
  deriving DecidableEq, Repr

/-- What can fail while components run. -/
inductive RunProblem where
  | busShutDown
  | streamClaimed (stream : String)
  | streamFinished (stream : String)
  | streamClosed (stream : String)
  | noOutputStream
  | componentsFailed (failures : List (String × String))
  | stated (text : String)
  deriving DecidableEq, Repr

/-- A cause of failure. -/
inductive Fault where
  | io (path message : String)
  | parse (line : Nat) (problem : SyntaxProblem)
  | forbiddenName (name : String) (reason : NameReason)
  | unresolvedReference (name within : String)
  | missingKey (component key : String)
  | invalidValue (component key expected : String)
  | config (problem : ConfigProblem)
  | notFound (kind id : String)
  | failed (component message : String)
  | run (problem : RunProblem)
  | streamTruncated (stream : String)
  | unreadable
  deriving DecidableEq, Repr

/-- A text between double quotes. -/
def inQuotes (s : String) : String :=
  "\"" ++ s ++ "\""

def NameReason.text : NameReason → String
  | .reserved => "boolean literals cannot be used as names"
  | .duplicate => "name is already declared"

def SyntaxProblem.text : SyntaxProblem → String
  | .unexpectedInput excerpt => "unexpected input at: " ++ inQuotes excerpt
  | .expected wanted got => "expected " ++ wanted ++ ", got " ++ got
  | .unfinished container => "unexpected end of input inside " ++ container
  | .duplicateKey key => "duplicate key " ++ inQuotes key ++ " in block"
  | .stated text => text

def ConfigProblem.text : ConfigProblem → String
  | .workersNotANumber text => "WOODWORK_WORKERS must be a positive integer, got " ++ inQuotes text
  | .noWorkers => "workers must be at least 1"
  | .unknownMode text => "unknown orchestration mode: " ++ text
  | .noAttempts => "max_attempts must be at least 1"
  | .noCapacity => "stream_capacity, queue_capacity and dead_letter_capacity must be positive"
  | .noInterval => "retry_interval_ms and cleanup_interval_ms must be positive"
  | .multiplierTooSmall => "backoff_multiplier must be a finite number >= 1"
  | .cyclicGraph => "cyclic dependency detected in component graph"
  | .registeredTwice component => "component " ++ inQuotes component ++ " registered twice"
  | .subscribedTwice subscriber => "subscriber " ++ inQuotes subscriber ++ " registered twice"
  | .notAnInput component => "component " ++ inQuotes component ++ " cannot be used as input"
  | .stated text => text

def RunProblem.text : RunProblem → String
  | .busShutDown => "message bus is shut down"
  | .streamClaimed stream => "stream " ++ stream ++ " already has a reader"
  | .streamFinished stream => "stream " ++ stream ++ " already finished"
  | .streamClosed stream => "stream " ++ stream ++ " is closed"
  | .noOutputStream => "no open output stream"
  | .componentsFailed failures =>
    toString failures.length ++ " component(s) failed to start: "
      ++ String.intercalate "; " (failures.map fun f => f.1 ++ ": " ++ f.2)
  | .stated text => text

/-- The message of a fault. -/
def Fault.message : Fault → String
  | .io path message => "I/O error at " ++ path ++ ": " ++ message
  | .parse line problem => "parse error on line " ++ toString line ++ ": " ++ problem.text
  | .forbiddenName name reason =>
    "forbidden variable name " ++ inQuotes name ++ ": " ++ reason.text
  | .unresolvedReference name within =>
    "unresolved reference to " ++ inQuotes name ++ " in declaration " ++ inQuotes within
  | .missingKey component key =>
    "component " ++ inQuotes component ++ " is missing required config key " ++ inQuotes key
  | .invalidValue component key expected =>
    "component " ++ inQuotes component ++ ": config key " ++ inQuotes key ++ " must be " ++ expected
  | .config problem => "invalid configuration: " ++ problem.text
  | .notFound kind id => kind ++ " not found: " ++ id
  | .failed component message => "component " ++ inQuotes component ++ " failed: " ++ message
  | .run problem => "runtime error: " ++ problem.text
  | .streamTruncated stream => "stream " ++ stream ++ " ended without a final chunk"
  | .unreadable => "unreadable data"

/-- Whether a fault comes from the configuration text itself. -/
def Fault.isParseFailure : Fault → Bool
  | .parse .. | .forbiddenName .. | .unresolvedReference .. => true
  | _ => false

end Pipeworks
