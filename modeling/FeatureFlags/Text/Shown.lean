import FeatureFlags.Text.Hidden

/-!
# Texts shown in a complaint

`Text.shown` puts a text in quotes so that every character can be told: quotes, backslashes and
the common controls are escaped by a letter, and characters without a shape by their code in
braces.
-/

namespace FeatureFlags.Text

/-- A character by its code. -/
def byCode (c : Char) : List Char :=
  '\\' :: 'u' :: '\x7b' :: Nat.toDigits 16 c.toNat ++ ['\x7d']

/-- A character inside a quoted text. -/
def shownChar (c : Char) : List Char :=
  if c.toNat = 0 then ['\\', '0']
  else if c = '\t' then ['\\', 't']
  else if c = '\r' then ['\\', 'r']
  else if c = '\n' then ['\\', 'n']
  else if c = '"' then ['\\', '"']
  else if c = '\\' then ['\\', '\\']
  else if isHidden c then byCode c
  else [c]

def shown (s : String) : String :=
  String.ofList ('"' :: s.toList.flatMap shownChar ++ ['"'])

end FeatureFlags.Text
