/-!
# JSON text

A JSON value whose numbers are kept as their text, and two ways of writing it: `compact`, with
no blanks, and `pretty`, with one member per line indented by two spaces. In strings a quote and
a backslash are escaped, the usual control characters by their short escapes and every other
character below U+0020 as `\u00XX` with lower-case digits; all else is written as it is.
-/

set_option autoImplicit false

namespace Fiff.Json

/-- A JSON value; a number is its text. -/
inductive Value where
  | null
  | bool (b : Bool)
  | number (text : String)
  | string (s : String)
  | array (items : List Value)
  | object (members : List (String × Value))
  deriving Inhabited

def escapeChar (c : Char) : String :=
  if c = '"' then "\\\""
  else if c = '\\' then "\\\\"
  else if c = '\n' then "\\n"
  else if c = '\r' then "\\r"
  else if c = '\t' then "\\t"
  else if c = '\x08' then "\\b"
  else if c = '\x0c' then "\\f"
  else if c.toNat < 0x20 then
    let hex := fun (n : Nat) => if n < 10 then Char.ofNat (48 + n) else Char.ofNat (87 + n)
    String.ofList ['\\', 'u', '0', '0', hex (c.toNat / 16), hex (c.toNat % 16)]
  else c.toString

def quote (s : String) : String :=
  "\"" ++ String.join (s.toList.map escapeChar) ++ "\""

mutual

/-- The value with no blanks. -/
def Value.compact : Value → String
  | .null => "null"
  | .bool b => if b then "true" else "false"
  | .number t => t
  | .string s => quote s
  | .array items => "[" ++ ",".intercalate (compactItems items) ++ "]"
  | .object members => "\x7b" ++ ",".intercalate (compactMembers members) ++ "\x7d"

def compactItems : List Value → List String
  | [] => []
  | v :: rest => v.compact :: compactItems rest

def compactMembers : List (String × Value) → List String
  | [] => []
  | (k, v) :: rest => (quote k ++ ":" ++ v.compact) :: compactMembers rest

end

def indentOf (level : Nat) : String := String.ofList (List.replicate (2 * level) ' ')

mutual

def Value.prettyAt (level : Nat) : Value → String
  | .array [] => "[]"
  | .object [] => "\x7b\x7d"
  | .array items =>
    "[\n" ++ ",\n".intercalate (prettyItems (level + 1) items) ++ "\n" ++ indentOf level ++ "]"
  | .object members =>
    "\x7b\n" ++ ",\n".intercalate (prettyMembers (level + 1) members) ++ "\n" ++
      indentOf level ++ "\x7d"
  | v => v.compact

def prettyItems (level : Nat) : List Value → List String
  | [] => []
  | v :: rest => (indentOf level ++ v.prettyAt level) :: prettyItems level rest

def prettyMembers (level : Nat) : List (String × Value) → List String
  | [] => []
  | (k, v) :: rest =>
    (indentOf level ++ quote k ++ ": " ++ v.prettyAt level) :: prettyMembers level rest

end

/-- The value with one item or member per line. -/
def Value.pretty (v : Value) : String := v.prettyAt 0

end Fiff.Json
