/-
  Quoted text: how error messages show a text that comes from outside.

  The text stands between double quotes; a quote, a backslash and the four common controls are
  written as two-character escapes, every other character that would not show is written by its code
  point (`\u`, then the hexadecimal digits in braces), and all else stands for itself.
-/
import ShaderWeave.Text
import ShaderWeave.Text.Printable

namespace ShaderWeave.Text

/-- A character as it stands between the quotes. -/
def escape (c : Char) : Text :=
  if c = '"' then ['\\', '"']
  else if c = '\\' then ['\\', '\\']
  else if c = '\x00' then ['\\', '0']
  else if c = '\t' then ['\\', 't']
  else if c = '\r' then ['\\', 'r']
  else if c = '\n' then ['\\', 'n']
  else if isPrintable c then [c]
  else "\\u\x7b".toList ++ Nat.toDigits 16 c.toNat ++ "\x7d".toList

/-- The text between double quotes, with escapes. -/
def quote (t : Text) : Text := '"' :: (t.flatMap escape ++ ['"'])

example : quote "a\"\tb".toList = "\"a\\\"\\tb\"".toList := by decide
example : quote [Char.ofNat 0x301] = "\"\\u\x7b301\x7d\"".toList := by decide +kernel

end ShaderWeave.Text
