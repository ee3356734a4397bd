/-!
# Error values

An error is an ordinary value with a name, a message and the trace of call sites
it passed through, outermost first.  A call site is either a position in a source
text or the host program that built the call.  The evaluator raises errors of nine
kinds; programs may raise errors under any name.
-/

namespace ByNeed

/-- Where a call was written. -/
inductive Site where
  | position (file : String) (line column : Nat)
  | host
  deriving DecidableEq, Repr

namespace Site

def text : Site → String
  | .position file line column =>
    file ++ ":" ++ toString line ++ ":" ++ toString column
  | .host => "<host>"

end Site

/-- The kinds of errors the evaluator itself raises. -/
inductive ErrorKind where
  | type
  | arity
  | key
  | impureFunction
  | emptyList
  | value
  | index
  | infiniteLoop
  | internal
  deriving DecidableEq, Repr

namespace ErrorKind

def name : ErrorKind → String
  | .type => "TypeError"
  | .arity => "ArityError"
  | .key => "KeyError"
  | .impureFunction => "ImpureFunctionError"
  | .emptyList => "EmptyListError"
  | .value => "ValueError"
  | .index => "IndexError"
  | .infiniteLoop => "InfiniteLoopError"
  | .internal => "InternalError"

def all : List ErrorKind :=
  [.type, .arity, .key, .impureFunction, .emptyList, .value, .index, .infiniteLoop, .internal]

end ErrorKind

/-- An error with its call trace. -/
structure Error where
  name : String
  message : String
  trace : List Site := []
  deriving DecidableEq, Repr

namespace Error

/-- An error of a kind of the evaluator, with an empty trace. -/
def ofKind (kind : ErrorKind) (message : String) : Error :=
  { name := kind.name, message }

/-- The error after passing through one more call. -/
def through (error : Error) (site : Site) : Error :=
  { error with trace := site :: error.trace }

/-- Whether an error bears the name of a kind. -/
def isKind (error : Error) (kind : ErrorKind) : Bool :=
  error.name == kind.name

/-- The kinds whose name an error bears; there is at most one. -/
def kinds (error : Error) : List ErrorKind :=
  ErrorKind.all.filter error.isKind

/-- One line: the name and the message. -/
def text (error : Error) : String :=
  error.name ++ ": " ++ error.message

/-- One line for each site of the trace, then the error itself. -/
def report (error : Error) : String :=
  error.trace.foldr (fun site rest => site.text ++ "\n" ++ rest) error.text

end Error
end ByNeed
