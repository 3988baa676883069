import Crosswalk.Text.HiddenTable
import Crosswalk.Decimal.Basic

/-!
# Texts shown with escapes

* `shown`: a text in double quotes in which every character can be seen: quotes, backslashes, line
  ends and tabs are escaped, and characters without a shape are written by their code.
-/

namespace Crosswalk.Text

def isHidden (c : Char) : Bool :=
  if c.toNat < 0x7f then c.toNat < 0x20
  else hiddenRuns.any fun (first, last) => first ≤ c.toNat && c.toNat ≤ last

/-- The code of a character, in hexadecimal. -/
def codeChars (c : Char) : List Char :=
  ['\\', 'u', '\x7b'] ++ Nat.toDigits 16 c.toNat ++ ['\x7d']

def shownChar (c : Char) : List Char :=
  if c = '\x00' then ['\\', '0']
  else if c = '\t' then ['\\', 't']
  else if c = '\r' then ['\\', 'r']
  else if c = '\n' then ['\\', 'n']
  else if c = '"' then ['\\', '"']
  else if c = '\\' then ['\\', '\\']
  else if isHidden c then codeChars c
  else [c]

def shown (s : String) : String :=
  String.ofList ('"' :: (s.toList.flatMap shownChar ++ ['"']))

end Crosswalk.Text
