/-!
# Options

What a host may configure.
-/

namespace ByNeed

/-- Settings of a runtime. -/
structure Options where
  /-- Which log entries are of interest. -/
  logFilter : String := "warn"
  /-- Capacity of the channels behind feeds and rallies. -/
  handoffCapacity : Nat := 64
  /-- Stack size of a daemon's thread, in bytes. -/
  daemonStackSize : Nat := 2097152
  /-- What generated symbols begin with. -/
  symbolStart : String := "$"

/-- Why there are no options. -/
inductive OptionsFailure where
  /-- There is no file at a path. -/
  | notFound (path : String)
  /-- A setting is out of range. -/
  | invalid (reason : String)
  /-- The text is not a document, or a setting has the wrong type. -/
  | malformed
  /-- The file cannot be read. -/
  | unreadable

namespace OptionsFailure

def message? : OptionsFailure → Option String
  | .notFound path => some ("configuration file not found: " ++ path)
  | .invalid reason => some ("invalid configuration: " ++ reason)
  | .malformed | .unreadable => none

end OptionsFailure

namespace Options

/-- Options whose settings are in range. -/
def validate (options : Options) : Except OptionsFailure Options :=
  if options.handoffCapacity = 0 then
    .error (.invalid "handoff_capacity must be at least 1")
  else if options.daemonStackSize < 65536 then
    .error (.invalid
      ("daemon_stack_size of " ++ toString options.daemonStackSize ++ " bytes is too small"))
  else
    .ok options

end Options
end ByNeed
