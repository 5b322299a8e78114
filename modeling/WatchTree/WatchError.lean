import WatchTree.Duration
import WatchTree.Text.Quoted

/-!
# Errors

Why a watcher could not answer.
-/

namespace WatchTree

/-- Why a watcher could not answer. -/
inductive WatchError
  /-- The first value did not arrive within the bound; it may still arrive later. -/
  | timeout (limit : Duration)
  /-- The watcher was closed before its first value arrived. -/
  | cancelled
  /-- A value was asked for before there was one. -/
  | notInitialized
  /-- A pointer that neither is empty nor starts with a slash. -/
  | invalidPointer (pointer : String)
  deriving DecidableEq

namespace WatchError

def kind : WatchError → String
  | .timeout _ => "Timeout"
  | .cancelled => "Cancelled"
  | .notInitialized => "NotInitialized"
  | .invalidPointer _ => "InvalidJsonPointer"

def message : WatchError → String
  | .timeout limit => "initial value was not available within " ++ limit.describe
  | .cancelled => "watcher was closed"
  | .notInitialized => "value is not available yet"
  | .invalidPointer p =>
    "invalid JSON pointer " ++ Text.Quoted.encode p ++ ": must be empty or start with '/'"

/-- The kind with its argument. -/
def describe (e : WatchError) : String :=
  match e with
  | .timeout limit => e.kind ++ "(" ++ limit.describe ++ ")"
  | .invalidPointer p => e.kind ++ "(" ++ Text.Quoted.encode p ++ ")"
  | _ => e.kind

end WatchError

end WatchTree
