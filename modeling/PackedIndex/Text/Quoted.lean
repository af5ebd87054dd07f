import PackedIndex.Text.Hexadecimal
import PackedIndex.Text.Printable
/-! # Quoted text

Keys, paths and lines appear in messages between double quotes. A quotation mark and a backslash are
escaped by a backslash, four control characters have a letter of their own, and every other
character that is not printable is written by its scalar value.
-/
namespace PackedIndex.Quoted

def escape (c : Char) : String :=
  if c = '\x00' then "\\0"
  else if c = '\t' then "\\t"
  else if c = '\r' then "\\r"
  else if c = '\n' then "\\n"
  else if c = '"' then "\\\""
  else if c = '\\' then "\\\\"
  else if Text.isPrintable c then c.toString
  else "\\u\x7b" ++ Hexadecimal.ofNat c.toNat ++ "\x7d"

def quote (text : String) : String :=
  "\"" ++ String.join (text.toList.map escape) ++ "\""

end PackedIndex.Quoted
