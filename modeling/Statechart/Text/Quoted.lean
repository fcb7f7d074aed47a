import Statechart.Text.Printable

/-! Quoted text: names shown between double quotes on one line. -/
namespace Statechart.Text

/-- A quote, a backslash and the common controls are escaped by a letter, every other character
without a glyph by its code point. -/
def escape (c : Char) : List Char :=
  if c = '\"' then ['\\', '\"']
  else if c = '\\' then ['\\', '\\']
  else if c = '\n' then ['\\', 'n']
  else if c = '\r' then ['\\', 'r']
  else if c = '\t' then ['\\', 't']
  else if c = '\x00' then ['\\', '0']
  else if isPrintable c then [c]
  else ['\\', 'u', '\x7b'] ++ Nat.toDigits 16 c.toNat ++ ['\x7d']

def quote (s : String) : String :=
  String.ofList ('\"' :: s.toList.flatMap escape ++ ['\"'])

def quoteAll (names : List String) : String :=
  "[" ++ ", ".intercalate (names.map quote) ++ "]"

end Statechart.Text
