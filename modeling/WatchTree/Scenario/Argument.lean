import WatchTree.Json.Derived

/-!
# Arguments

The arguments of an operation are fields of a JSON object. A reader gives nothing if the field is
missing, of the wrong kind or out of range.
-/

namespace WatchTree.Scenario

def text? (o : Json) (key : String) : Option String := (o.field? key).bind Json.asStr?

/-- An option that only `true` sets. -/
def isSet (o : Json) (key : String) : Bool := (o.field? key).any Json.isTrue

/-- A revision fits 64 bits. -/
def revision? : Json → Option Revision
  | .int n => if Text.isInt64 n then some ⟨n⟩ else none
  | _ => none

/-- Seconds, below `2 ^ 64`, and nanoseconds, below `10 ^ 9`. -/
def duration? : Json → Option Duration
  | .arr [seconds, nanos] => do
    let s ← seconds.asNat?
    let n ← nanos.asNat?
    if n < Duration.perSecond then some (.of s n) else none
  | _ => none

/-- A field that may be missing: nothing is wrong then. -/
def optional? {β : Type} (o : Json) (key : String) (read : Json → Option β) : Option (Option β) :=
  match o.field? key with
  | none => some none
  | some v => (read v).map some

/-- The argument that a missing field or a value stands for. -/
def given : Node → Given Node
  | none => { plain := some .null, node := none }
  | some v => { plain := some v, node := some v }

/-- The double nearest to an integer of at most 64 bits. -/
def ofInt (n : Int) : Binary64 :=
  let magnitude := (UInt64.ofNat n.natAbs).toFloat
  .ofFloat (if n < 0 then -magnitude else magnitude)

/-- The sixteen hexadecimal digits of a number's bits. -/
def bits? (s : String) : Option Binary64 := do
  let cs := s.toList
  if cs.length ≠ 16 then none
  else
    let digits ← cs.mapM Text.hexDigit?
    some ⟨UInt64.ofNat (digits.foldl (fun n d => n * 16 + d) 0)⟩

def float? : Json → Option Binary64
  | .int n => some (ofInt n)
  | .real x => some x
  | .str "NaN" => some ⟨0x7ff8000000000000⟩
  | .str "inf" => some ⟨0x7ff0000000000000⟩
  | .str "-inf" => some ⟨0xfff0000000000000⟩
  | .str s => bits? s
  | _ => none

/-- One step of a configuration. -/
def configStep? (c : PollConfig) : Json → Option PollConfig
  | .arr [.str "with_delay", d] => (duration? d).map c.withDelay
  | .arr [.str "with_backoff", least, greatest] => do
    some (c.withBackoff (← duration? least) (← duration? greatest))
  | .arr [.str "with_multiplier", x] => (float? x).map c.withMultiplier
  | .arr [.str "delay", d] => (duration? d).map fun d => { c with delay := d }
  | .arr [.str "min_backoff", d] => (duration? d).map fun d => { c with minBackoff := d }
  | .arr [.str "max_backoff", d] => (duration? d).map fun d => { c with maxBackoff := d }
  | .arr [.str "multiplier", x] => (float? x).map fun x => { c with multiplier := x }
  | _ => none

/-- A configuration is a list of steps from the default one. -/
def config? : Json → Option PollConfig
  | .arr steps => steps.foldlM configStep? {}
  | _ => none

def payload (o : Json) : Payload :=
  if text? o "kind" = some "other" then .other else .text ((text? o "message").getD "")

/-- The text of an error with its contexts, the outermost first. -/
def chain (v : Json) : String :=
  ": ".intercalate ((v.asArr?.getD []).filterMap Json.asStr?)

end WatchTree.Scenario
