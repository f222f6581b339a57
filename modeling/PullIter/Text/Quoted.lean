import PullIter.Text.Unprintable

/-!
# Quoted names

Inside a report of the code generator a name stands between double quotes, so that
blanks and invisible characters can be seen.

## Main definitions

* `escape` — one character as it stands between the quotes.
* `quote` — a quoted text.
-/

namespace PullIter.Text

/-- The hexadecimal digits of a number, without leading zeros. -/
def hexDigits (n : Nat) : String := String.ofList (Nat.toDigits 16 n)

/-- A character by its code point. -/
def escapeCode (c : Char) : String := "\\u\x7b" ++ hexDigits c.toNat ++ "\x7d"

/-- A character between quotes.  Quotes and backslashes are escaped, a few controls have
letters, and whatever shows nothing of its own is given by its code point. -/
def escape (c : Char) : String :=
  if c = '"' then "\\\""
  else if c = '\\' then "\\\\"
  else if c = '\n' then "\\n"
  else if c = '\r' then "\\r"
  else if c = '\t' then "\\t"
  else if c.toNat = 0 then "\\0"
  else if c.toNat < 0x20 || c.toNat = 0x7f then escapeCode c
  -- the other ASCII characters stand for themselves
  else if c.toNat < 0x7f then c.toString
  else if Unprintable.isUnprintable c.toNat then escapeCode c
  else c.toString

/-- A text between double quotes. -/
def quote (text : String) : String := "\"" ++ String.join (text.toList.map escape) ++ "\""

end PullIter.Text
