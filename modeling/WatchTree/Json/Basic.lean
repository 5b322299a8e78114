import WatchTree.Number.Binary64

/-!
# JSON values

Integers and floating-point numbers are kept apart: `1` is not `1.0`. The fields of an object are in
ascending order of their keys, each key once, so the order in which an object was written does not
matter to `Json.same`.
-/

namespace WatchTree

/-- A JSON value. -/
inductive Json
  | null
  | bool (b : Bool)
  | int (n : Int)
  | real (x : Binary64)
  | str (s : String)
  | arr (items : List Json)
  | obj (fields : List (String × Json))

/-- What a watcher of JSON nodes holds; `none` is a node that is missing. -/
abbrev Node := Option Json

namespace Json

mutual

/-- Equality of values; an integer never equals a floating-point number. -/
def same : Json → Json → Bool
  | .null, .null => true
  | .bool a, .bool b => a == b
  | .int a, .int b => a == b
  | .real a, .real b => a.same b
  | .str a, .str b => a == b
  | .arr a, .arr b => sameItems a b
  | .obj a, .obj b => sameFields a b
  | _, _ => false

def sameItems : List Json → List Json → Bool
  | [], [] => true
  | a :: as, b :: bs => a.same b && sameItems as bs
  | _, _ => false

def sameFields : List (String × Json) → List (String × Json) → Bool
  | [], [] => true
  | (k, a) :: as, (l, b) :: bs => k == l && a.same b && sameFields as bs
  | _, _ => false

end

instance : BEq Json := ⟨same⟩

/-- Sets a field, keeping the keys in ascending order. -/
def insertField (key : String) (value : Json) : List (String × Json) → List (String × Json)
  | [] => [(key, value)]
  | (k, v) :: rest =>
    if key < k then (key, value) :: (k, v) :: rest
    else if key = k then (key, value) :: rest
    else (k, v) :: insertField key value rest

/-- An object of these fields; of two fields with one key the later counts. -/
def ofFields (fields : List (String × Json)) : Json :=
  .obj (fields.foldl (fun acc kv => insertField kv.1 kv.2 acc) [])

def field? (key : String) : Json → Option Json
  | .obj fields => fields.lookup key
  | _ => none

def asStr? : Json → Option String
  | .str s => some s
  | _ => none

def asArr? : Json → Option (List Json)
  | .arr items => some items
  | _ => none

/-- A natural number below `2 ^ 64`. -/
def asNat? : Json → Option Nat
  | .int n => if 0 ≤ n then some n.toNat else none
  | _ => none

/-- Exactly `true`; anything else does not set an option. -/
def isTrue : Json → Bool
  | .bool b => b
  | _ => false

mutual

/-- The number of values in a value, itself included. -/
def size : Json → Nat
  | .arr items => sizeItems items + 1
  | .obj fields => sizeFields fields + 1
  | _ => 1

def sizeItems : List Json → Nat
  | [] => 0
  | a :: rest => a.size + sizeItems rest

def sizeFields : List (String × Json) → Nat
  | [] => 0
  | (_, a) :: rest => a.size + sizeFields rest

end

end Json

end WatchTree
