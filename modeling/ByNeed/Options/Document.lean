import ByNeed.Options.Basic
import ByNeed.Text.Quoted
import ByNeed.Toml.Document

/-!
# Options from documents

Settings are read from the top level of a document.  Settings that are missing have
their default, and keys that are no settings are ignored.
-/

namespace ByNeed
namespace Options

/-- A setting that is a string. -/
def stringSetting (entries : Toml.Entries) (key default : String) : Except OptionsFailure String :=
  match entries.lookup key with
  | none => .ok default
  | some (.string text) => .ok text
  | some _ => .error .malformed

/-- A setting that is a natural number. -/
def numberSetting (entries : Toml.Entries) (key : String) (default : Nat) :
    Except OptionsFailure Nat :=
  match entries.lookup key with
  | none => .ok default
  | some (.integer value) => if value < 0 then .error .malformed else .ok value.toNat
  | some _ => .error .malformed

/-- The options a document sets. -/
def ofDocument (text : String) : Except OptionsFailure Options :=
  match Toml.read text with
  | none => .error .malformed
  | some entries => do
      let defaults : Options := {}
      let logFilter ← stringSetting entries "log_filter" defaults.logFilter
      let handoffCapacity ← numberSetting entries "handoff_capacity" defaults.handoffCapacity
      let daemonStackSize ← numberSetting entries "daemon_stack_size" defaults.daemonStackSize
      let symbolStart ← stringSetting entries "symbol_prefix" defaults.symbolStart
      validate { logFilter, handoffCapacity, daemonStackSize, symbolStart }

/-- What a path leads to. -/
inductive Entry where
  | missing
  | directory
  | file (content : String)

/-- What a path leads to from an empty directory: only the ways to the directories
themselves are there. -/
def Entry.fromEmptyDirectory (path : String) : Entry :=
  if path != "" && (path.splitOn "/").all fun part => ["", ".", ".."].contains part then
    .directory
  else
    .missing

/-- The options set by what a path leads to. -/
def load (path : String) : Entry → Except OptionsFailure Options
  | .missing => .error (.notFound path)
  | .directory => .error .unreadable
  | .file content => ofDocument content

def outline (options : Options) : String :=
  "Options \x7b log_filter: " ++ Text.quote options.logFilter ++
    ", handoff_capacity: " ++ toString options.handoffCapacity ++
    ", daemon_stack_size: " ++ toString options.daemonStackSize ++
    ", symbol_prefix: " ++ Text.quote options.symbolStart ++ " \x7d"

end Options
end ByNeed
