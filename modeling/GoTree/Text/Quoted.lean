import GoTree.Text.Printable
/-!
# Quoted text

How a text is written inside other output: between double quotes, with a short
escape for six characters and the code point in braces for every other
character that would not be seen.
-/
namespace GoTree.Text

/-- The code point of `c` in lower case hexadecimal, without padding. -/
def codePoint (c : Char) : List Char :=
  '\\' :: 'u' :: '\x7b' :: Nat.toDigits 16 c.toNat ++ ['\x7d']

/-- A character as it stands between quotes. -/
def escape (c : Char) : List Char :=
  if c = '\x00' then ['\\', '0']
  else if c = '\t' then ['\\', 't']
  else if c = '\r' then ['\\', 'r']
  else if c = '\n' then ['\\', 'n']
  else if c = '\\' then ['\\', '\\']
  else if c = '"' then ['\\', '"']
  else if isPrintable c then [c]
  else codePoint c

/-- The text between double quotes, escaped character by character. -/
def quote (s : String) : String :=
  String.ofList ('"' :: s.toList.flatMap escape ++ ['"'])

end GoTree.Text
