import WatchTree.Text.Hidden
import WatchTree.Text.Hex

/-!
# Quoted text

Text between double quotes, with everything that could not be read on a screen written as an
escape. `Quoted.encode` never leaves a bare quote, backslash or hidden character behind.
-/

namespace WatchTree.Text

namespace Quoted

/-- One character inside the quotes; an apostrophe stays bare there. -/
def encodeChar (c : Char) : List Char :=
  if c = '"' then ['\\', '"']
  else if c = '\\' then ['\\', '\\']
  else if c = '\n' then ['\\', 'n']
  else if c = '\r' then ['\\', 'r']
  else if c = '\t' then ['\\', 't']
  else if c.toNat = 0 then ['\\', '0']
  else if isHidden c then ['\\', 'u', '\x7b'] ++ hexDigits c.toNat ++ ['\x7d']
  else [c]

/-- The text with its quotes. -/
def encode (s : String) : String :=
  String.ofList ('"' :: s.toList.flatMap encodeChar ++ ['"'])

end Quoted

end WatchTree.Text
