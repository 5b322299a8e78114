import WatchTree.Json.Pointer
import WatchTree.Machine.Run

/-!
# Watchers of JSON nodes

Nodes are compared as JSON values, a missing one being equal to a missing one only. A child at a
JSON pointer holds the node that the pointer addresses below its parent's.
-/

namespace WatchTree

namespace Json.Pointer

/-- What a child at a pointer is called after its parent, or why there is none. -/
def childLabel (p : String) : Except WatchError String :=
  if isPointer p then .ok ("JSON pointer " ++ p) else .error (.invalidPointer p)

end Json.Pointer

/-- Makes a child at a JSON pointer. -/
def Op.pointer (watcher name : Name) (p : String) : Op Node :=
  .child watcher name (Json.Pointer.childLabel p) (fun node => .value (Json.Pointer.resolve p node))
    fun _ => []

/-- Makes a child by a transformation. -/
def Op.transform {α : Type} (watcher name : Name) (apply : α → Outcome α) (actions : Actions α) :
    Op α :=
  .child watcher name (.ok "transform") apply actions

end WatchTree
