import WatchTree.Json.Basic

/-!
# JSON pointers

A pointer is empty or starts with a slash. Its tokens are separated by slashes; in a token `~1`
stands for a slash and then `~0` for a tilde. A token selects the field of an object by key, or an
item of an array by its index, written without sign or leading zeros.
-/

namespace WatchTree.Json.Pointer

/-- A pointer is empty or starts with a slash. -/
def isPointer (p : String) : Bool :=
  match p.toList with
  | [] => true
  | c :: _ => c = '/'

/-- The tokens between slashes, as written. -/
def split : List Char → List (List Char)
  | [] => [[]]
  | c :: rest =>
    if c = '/' then [] :: split rest
    else
      match split rest with
      | [] => [[c]]
      | token :: tokens => (c :: token) :: tokens

/-- Reads `~1` as a slash. -/
def unescapeSlash : List Char → List Char
  | [] => []
  | '~' :: '1' :: rest => '/' :: unescapeSlash rest
  | c :: rest => c :: unescapeSlash rest

/-- Reads `~0` as a tilde. -/
def unescapeTilde : List Char → List Char
  | [] => []
  | '~' :: '0' :: rest => '~' :: unescapeTilde rest
  | c :: rest => c :: unescapeTilde rest

/-- The text that a token selects by. -/
def unescape (token : List Char) : String := String.ofList (unescapeTilde (unescapeSlash token))

def tokens (p : String) : List String :=
  match p.toList with
  | [] => []
  | _ :: rest => (split rest).map unescape

def index? (token : String) : Option Nat :=
  let cs := token.toList
  if cs.isEmpty || !cs.all Char.isDigit then none
  else if 1 < cs.length && cs.head? = some '0' then none
  else
    let n := cs.foldl (fun n c => n * 10 + (c.toNat - '0'.toNat)) 0
    if n < Nat.pow 2 64 then some n else none

/-- The node one step below a value. -/
def step (value : Json) (token : String) : Node :=
  match value with
  | .obj fields => fields.lookup token
  | .arr items => (index? token).bind (items[·]?)
  | _ => none

/-- The node that a path of tokens leads to. -/
def walk (value : Json) : List String → Node
  | [] => some value
  | token :: rest => (step value token).bind (walk · rest)

/-- The node that a pointer addresses below a node. -/
def resolve (p : String) (node : Node) : Node := node.bind (walk · (tokens p))

end WatchTree.Json.Pointer
