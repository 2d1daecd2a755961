import Jukebox.Text.Invisible

/-!
# Quoted texts in messages

A text in double quotes, in which each character can be told: quotes and backslashes are escaped,
and characters that do not show by themselves are given by their code points.
-/

namespace Jukebox.Text

/-- A character inside quotes. -/
def visible (c : Char) : List Char :=
  if c = '"' then ['\\', '"']
  else if c = '\\' then ['\\', '\\']
  else if c = '\n' then ['\\', 'n']
  else if c = '\r' then ['\\', 'r']
  else if c = '\t' then ['\\', 't']
  else if c.toNat = 0 then ['\\', '0']
  else if isInvisible c then '\\' :: 'u' :: '\x7b' :: (Nat.toDigits 16 c.toNat ++ ['\x7d'])
  else [c]

def quoted (s : String) : String :=
  String.ofList ('"' :: (s.toList.flatMap visible ++ ['"']))

end Jukebox.Text
