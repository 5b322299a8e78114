import WatchTree.Revision

/-!
# Latest states

The most recently observed value of an entry, with the revision it came from.
-/

namespace WatchTree

/-- A value and its revision. -/
@[ext] structure Latest (α : Type) where
  revision : Revision
  value : α

namespace Latest

def same {α : Type} [BEq α] (a b : Latest α) : Bool :=
  a.revision = b.revision && a.value == b.value

/-- The description, given how the value is described. -/
def describe {α : Type} (value : α → String) (l : Latest α) : String :=
  "Latest \x7b revision: " ++ l.revision.describe ++ ", value: " ++ value l.value ++ " \x7d"

def describeOption {α : Type} (value : α → String) : Option (Latest α) → String
  | none => "None"
  | some l => "Some(" ++ l.describe value ++ ")"

end Latest

end WatchTree
