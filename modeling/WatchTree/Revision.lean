import WatchTree.Text.Integer

/-!
# Revisions

A revision is a point in the history of a watched entry. Revisions are compared and shown, and
nothing else is done with them.
-/

namespace WatchTree

/-- A point in the history of a watched entry. -/
structure Revision where
  major : Int
  deriving DecidableEq

namespace Revision

instance : LE Revision := ⟨fun a b => a.major ≤ b.major⟩

instance : LT Revision := ⟨fun a b => a.major < b.major⟩

instance (a b : Revision) : Decidable (a ≤ b) := inferInstanceAs (Decidable (a.major ≤ b.major))

instance (a b : Revision) : Decidable (a < b) := inferInstanceAs (Decidable (a.major < b.major))

def display (r : Revision) : String := "r" ++ toString r.major

def describe (r : Revision) : String := "Revision(" ++ toString r.major ++ ")"

/-- The sign of the comparison with a later entry. -/
def order (a b : Revision) : Int := if a < b then -1 else if b < a then 1 else 0

def sort (rs : List Revision) : List Revision := rs.mergeSort fun a b => decide (a ≤ b)

end Revision

end WatchTree
