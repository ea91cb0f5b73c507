import Fiff.Float.Binary

/-!
# TOML documents

A TOML document is a table of keys and values, in the order they were written. Every value
remembers the span of its text (character offsets), so that an error about it can point at it.

A document is assembled line by line by a `Builder`. Key-value lines go to the current table,
which is the root until the first header; a header puts the current table in its place and opens
the next one. The rules on what may be extended:

* a dotted key walks through tables it made itself, or that a header made as the parent of
  another, and through the last table of a list of tables; a table opened by a header of its own
  is closed to it, and so is any value, inline tables included;
* a header walks through any table, and may open a table that only a header made as a parent;
* inside braces, a dotted key walks only through tables that dotted keys made in those braces.

A table made on the way by a header or a dotted key has no text of its own: it carries the span
of the key that made it, which is where an error about it points.
-/

set_option autoImplicit false

namespace Fiff.Toml

/-- A stretch of the text, by character offsets. -/
structure Span where
  start : Nat
  stop : Nat
  deriving DecidableEq, Inhabited

/-- How a table came to be: opened by a header (each table of a list of tables too), made as the
parent of a header, made by a dotted key, written in braces, or made by a dotted key in braces. -/
inductive Form where
  | header
  | implicit
  | dotted
  | inline
  | inlineDotted
  deriving DecidableEq, Inhabited

namespace Form

def isImplicit : Form → Bool
  | implicit | dotted | inlineDotted => true
  | _ => false

def isDotted : Form → Bool
  | dotted | inlineDotted => true
  | _ => false

def isInline : Form → Bool
  | inline | inlineDotted => true
  | _ => false

end Form

/-- A TOML value with the span of its text. -/
inductive Value where
  | string (span : Span) (s : String)
  | integer (span : Span) (i : Int)
  | float (span : Span) (x : Binary64)
  | bool (span : Span) (b : Bool)
  | datetime (span : Span) (text : String)
  | array (span : Span) (items : List Value) (ofTables : Bool)
  | table (span : Span) (form : Form) (entries : List (String × Value))
  deriving Inhabited

namespace Value

def span : Value → Span
  | string s _ | integer s _ | float s _ | bool s _ | datetime s _ => s
  | array s _ _ | table s _ _ => s

def typeName : Value → String
  | string .. => "string"
  | integer .. => "integer"
  | float .. => "float"
  | bool .. => "boolean"
  | datetime .. => "datetime"
  | array .. => "array"
  | table _ form _ => if form.isInline then "inline table" else "table"

end Value

abbrev Entries := List (String × Value)

/-- A part of a dotted key: its text and the span where it is written. -/
structure Key where
  name : String
  span : Span
  deriving Inhabited

def isBare (c : Char) : Bool := c.isAlphanum || c == '-' || c == '_'

def hex4 (n : Nat) : String :=
  String.ofList ((List.range 4).reverse.map fun i =>
    let d := n / Nat.pow 16 i % 16
    Char.ofNat (if d < 10 then 48 + d else 55 + d))

def escapeChar (c : Char) : String :=
  match c with
  | '\x08' => "\\b"
  | '\t' => "\\t"
  | '\n' => "\\n"
  | '\x0c' => "\\f"
  | '\r' => "\\r"
  | '"' => "\\\""
  | '\\' => "\\\\"
  | c => if c.toNat ≤ 0x1f ∨ c.toNat = 0x7f then "\\u" ++ hex4 c.toNat else c.toString

/-- Whether a key is best written between apostrophes: it has a backslash, no control character
but tabs and line breaks, no run of three apostrophes, and does not end in one. -/
def preferLiteral (cs : List Char) : Bool :=
  cs.contains '\\' &&
    cs.all (fun c => c = '\t' || c = '\n' || (0x1f < c.toNat && c.toNat ≠ 0x7f)) &&
    !(cs.contains '\'' && cs.getLast? = some '\'') &&
    !((List.range cs.length).any fun i =>
      i + 3 ≤ cs.length && ((cs.drop i).take 3).all (· == '\''))

def Key.shown (name : String) : String :=
  let cs := name.toList
  if !cs.isEmpty && cs.all isBare then name
  else if preferLiteral cs then "'" ++ name ++ "'"
  else "\"" ++ String.join (cs.map escapeChar) ++ "\""

/-- Why a value cannot be placed. -/
inductive Clash where
  | duplicate (key : String) (table : Option (List String))
  | wrongType (path : List String) (found : String)
  deriving Inhabited

def Clash.text : Clash → String
  | .duplicate k none => "duplicate key `" ++ k ++ "`"
  | .duplicate k (some []) => "duplicate key `" ++ k ++ "` in document root"
  | .duplicate k (some t) => "duplicate key `" ++ k ++ "` in table `" ++ ".".intercalate t ++ "`"
  | .wrongType p t =>
    "dotted key `" ++ ".".intercalate p ++ "` attempted to extend non-table type (" ++ t ++ ")"

def lookup (entries : Entries) (key : String) : Option Value :=
  (entries.find? (·.1 == key)).map (·.2)

def replace (entries : Entries) (key : String) (v : Value) : Entries :=
  entries.map fun (k, w) => if k == key then (k, v) else (k, w)

def remove (entries : Entries) (key : String) : Entries :=
  entries.filter (·.1 != key)

/-- Walks a path of keys down from a table with `entries` and applies `f` to the table at its
end, which also learns whether that table was made by a dotted key (`dotted` tells it of the
table the walk starts from). Missing tables are made with form `made`, carrying the span of
their key; through a list of tables the walk takes its last table. With `strict`, as for dotted
keys, the walk passes only tables made on the way. `seen` is the path walked so far, for
messages. -/
def descend {α : Type} (made : Form) (strict : Bool)
    (f : Bool → Entries → Except Clash (Entries × α)) :
    List String → Entries → Bool → List Key → Except Clash (Entries × α)
  | _, entries, dotted, [] => f dotted entries
  | seen, entries, _, k :: rest =>
    let seen := seen ++ [k.name]
    match lookup entries k.name with
    | none => do
      let (inner, a) ← descend made strict f seen [] made.isDotted rest
      pure (entries ++ [(k.name, .table k.span made inner)], a)
    | some (.array s items true) =>
      match items.getLast? with
      | some (.table ts form inner) => do
        let (inner, a) ← descend made strict f seen inner form.isDotted rest
        pure (replace entries k.name (.array s (items.dropLast ++ [.table ts form inner]) true), a)
      | _ => .error (.wrongType seen "array")
    | some (.table s form inner) =>
      if form.isInline != made.isInline then .error (.wrongType seen "inline table")
      else if strict && !form.isImplicit then .error (.duplicate k.name none)
      else do
        let (inner, a) ← descend made strict f seen inner form.isDotted rest
        pure (replace entries k.name (.table s form inner), a)
    | some v => .error (.wrongType seen v.typeName)

/-- Places `v` under a dotted key (`path`, then `k`) in a table, as a key-value line or an entry
in braces does: the path's missing tables are made with form `made`, the table reached must be
one a dotted key made exactly when the path is not empty, and the key must be new there (a key
given twice names the table `table`). -/
def place (made : Form) (table : Option (List String)) (entries : Entries) (path : List Key)
    (k : Key) (v : Value) : Except Clash Entries :=
  Prod.fst <$> descend made true (fun dotted inner =>
    if dotted == path.isEmpty then .error (.duplicate k.name none)
    else match lookup inner k.name with
      | some _ => .error (.duplicate k.name table)
      | none => .ok (inner ++ [(k.name, v)], ())) [] entries false path

def inlineEntries : List (List Key × Key × Value) → Entries → Except Clash Entries
  | [], entries => .ok entries
  | (path, k, v) :: rest, entries => do
    inlineEntries rest (← place .inlineDotted none entries path k v)

/-- A document being assembled: the root table so far and the current table, which key-value
lines go to, with its span, its path and whether it belongs to a list of tables. Until the first
header the current table is the root itself, with an empty path and no span. -/
structure Builder where
  root : Entries
  current : Entries
  span : Option Span
  path : List Key
  isList : Bool
  deriving Inhabited

namespace Builder

def listSpan (items : List Value) : Span :=
  match items.head?, items.getLast? with
  | some a, some b => ⟨a.span.start, b.span.stop⟩
  | _, _ => ⟨0, 0⟩

/-- The root with the current table put in its place: appended to its list of tables, or as a
new table of its parent (taking the place of a table made only as a parent). -/
def close (b : Builder) : Except Clash Entries :=
  match b.path.reverse with
  | [] => .ok b.current
  | k :: revParent =>
    let parent := revParent.reverse
    let table : Value := .table (b.span.getD ⟨0, 0⟩) .header b.current
    let taken := Clash.duplicate (Key.shown k.name) (some (parent.map (·.name)))
    Prod.fst <$> descend .implicit false (fun _ inner =>
      match lookup inner k.name, b.isList with
      | some (.array _ items true), true =>
        let items := items ++ [table]
        .ok (replace inner k.name (.array (listSpan items) items true), ())
      | none, true => .ok (inner ++ [(k.name, .array table.span [table] true)], ())
      | none, false => .ok (inner ++ [(k.name, table)], ())
      | some (.table _ form _), false =>
        if form.isImplicit then .ok (replace inner k.name table, ()) else .error taken
      | _, _ => .error taken) [] b.root false parent

/-- Opens the table of a header `[path]` at `span`: a table that only a header made as a
parent is taken out of its parent and becomes the current table; any other entry there is a
clash. -/
def openTable (b : Builder) (path : List Key) (span : Span) : Except Clash Builder := do
  let root ← b.close
  match path.reverse with
  | [] => pure { b with root, current := [], span := none, path := [] }
  | k :: revParent =>
    let parent := revParent.reverse
    let (root, current) ← descend .implicit false (fun _ inner =>
      match lookup inner k.name with
      | none => .ok (inner, [])
      | some (.table _ .implicit e) => .ok (remove inner k.name, e)
      | some _ => .error (.duplicate (Key.shown k.name) (some (parent.map (·.name)))))
      [] root false parent
    pure ⟨root, current, some span, path, false⟩

/-- Opens a new table of the list of tables of a header `[[path]]` at `span`; the list is made
when it is missing, and any other entry there is a clash. -/
def openList (b : Builder) (path : List Key) (span : Span) : Except Clash Builder := do
  let root ← b.close
  match path.reverse with
  | [] => pure { b with root, current := [], span := none, path := [] }
  | k :: revParent =>
    let parent := revParent.reverse
    let (root, ()) ← descend .implicit false (fun _ inner =>
      match lookup inner k.name with
      | none => .ok (inner ++ [(k.name, .array span [] true)], ())
      | some (.array _ _ true) => .ok (inner, ())
      | some _ => .error (.duplicate (Key.shown k.name) (some (parent.map (·.name)))))
      [] root false parent
    pure ⟨root, [], some span, path, true⟩

/-- Places the value of a key-value line in the current table, whose span then reaches to the
end of the value. -/
def keyval (b : Builder) (path : List Key) (k : Key) (v : Value) : Except Clash Builder := do
  let current ← place .dotted (some (b.path.map (·.name))) b.current path k v
  pure { b with current, span := b.span.map fun s => ⟨s.start, v.span.stop⟩ }

end Builder

end Fiff.Toml
