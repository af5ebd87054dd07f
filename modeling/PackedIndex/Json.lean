/-! # JSON text

JSON values without fractions, and their text on several lines: two spaces for each level, one item a
line, and the shortest escapes that the format has.
-/
namespace PackedIndex

mutual

inductive Json where
  | null
  | number (n : Nat)
  | string (text : String)
  | array (items : Json.Items)
  | object (members : Json.Members)

inductive Json.Items where
  | nil
  | cons (item : Json) (items : Json.Items)

inductive Json.Members where
  | nil
  | cons (name : String) (value : Json) (members : Json.Members)

end

namespace Json

def Items.ofList : List Json → Items
  | [] => .nil
  | item :: items => .cons item (ofList items)

def Members.ofList : List (String × Json) → Members
  | [] => .nil
  | (name, value) :: members => .cons name value (ofList members)

def list (items : List Json) : Json :=
  .array (.ofList items)

def fields (members : List (String × Json)) : Json :=
  .object (.ofList members)

/-- One character of a string. Control characters without a letter are written by four hexadecimal
digits. -/
def escape (c : Char) : List Char :=
  if c = '"' then ['\\', '"']
  else if c = '\\' then ['\\', '\\']
  else if c = '\x08' then ['\\', 'b']
  else if c = '\x0c' then ['\\', 'f']
  else if c = '\n' then ['\\', 'n']
  else if c = '\r' then ['\\', 'r']
  else if c = '\t' then ['\\', 't']
  else if c.toNat < 32 then
    ['\\', 'u', '0', '0', Nat.digitChar (c.toNat / 16), Nat.digitChar (c.toNat % 16)]
  else [c]

def quote (text : String) : List Char :=
  '"' :: text.toList.flatMap escape ++ ['"']

def lineBreak (depth : Nat) : List Char :=
  '\n' :: List.replicate (2 * depth) ' '

mutual

/-- The text of a value whose first line is already indented to a depth. -/
def render (depth : Nat) : Json → List Char
  | .null => ['n', 'u', 'l', 'l']
  | .number n => Nat.toDigits 10 n
  | .string text => quote text
  | .array .nil => ['[', ']']
  | .array (.cons item items) =>
    '[' :: lineBreak (depth + 1) ++ item.render (depth + 1) ++
      items.renderRest (depth + 1) ++ lineBreak depth ++ [']']
  | .object .nil => ['\x7b', '\x7d']
  | .object (.cons name value members) =>
    '\x7b' :: lineBreak (depth + 1) ++ quote name ++ [':', ' '] ++ value.render (depth + 1) ++
      members.renderRest (depth + 1) ++ lineBreak depth ++ ['\x7d']

def Items.renderRest (depth : Nat) : Items → List Char
  | .nil => []
  | .cons item items =>
    ',' :: lineBreak depth ++ item.render depth ++ items.renderRest depth

def Members.renderRest (depth : Nat) : Members → List Char
  | .nil => []
  | .cons name value members =>
    ',' :: lineBreak depth ++ quote name ++ [':', ' '] ++ value.render depth ++
      members.renderRest depth

end

def toText (json : Json) : String :=
  String.ofList (json.render 0)

end PackedIndex.Json
