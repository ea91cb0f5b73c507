import Fiff.Toml.Document

/-!
# Reading TOML text

A reader for TOML 1.0 documents: comments, bare, quoted and dotted keys, table and array-of-tables
headers, the four kinds of string, integers in four bases, floats with `inf` and `nan`,
booleans, dates and times, arrays and inline tables. A fault names the construct being read and
what was expected there, and points at the character where reading stopped. A soft fault is one
that an enclosing list or alternative may still recover from: an array then reports that it
expected its closing bracket.
-/

set_option autoImplicit false

namespace Fiff.Toml

/-- A fault: its text, where it points, and whether an enclosing alternative may recover. -/
structure Fault where
  message : String
  span : Option Span
  soft : Bool
  deriving Inhabited

abbrev Parse := ReaderT (Array Char) (EStateM Fault Nat)

def peekAt (k : Nat) : Parse (Option Char) := do return (← read)[(← get) + k]?

def peek : Parse (Option Char) := peekAt 0

def bump : Parse Unit := modify (· + 1)

def faultAt {α : Type} (soft : Bool) (message : String) : Parse α := do
  let i ← get
  throw ⟨message, some ⟨i, i⟩, soft⟩

def failHere {α : Type} (message : String) : Parse α := faultAt false message

def softHere {α : Type} (message : String) : Parse α := faultAt true message

def failAt {α : Type} (i : Nat) (message : String) : Parse α :=
  throw ⟨message, some ⟨i, i⟩, false⟩

def commit {α : Type} (p : Parse α) : Parse α := fun text s =>
  match p text s with
  | .error f s' => .error { f with soft := false } s'
  | ok => ok

def attempt {α : Type} (p : Parse α) : Parse (Except Fault α) := fun text s =>
  match p text s with
  | .ok a s' => .ok (.ok a) s'
  | .error f s' => if f.soft then .ok (.error f) s else .error f s'

def expecting (label : String) (expected : List String) : String :=
  let head := if label.isEmpty then [] else ["invalid " ++ label]
  let tail := if expected.isEmpty then [] else ["expected " ++ ", ".intercalate expected]
  "\n".intercalate (head ++ tail)

def notAValue : String := expecting "string" ["`\"`", "`'`"]

def notLineEnd : String := expecting "" ["newline", "`#`"]

def isDigit (c : Char) : Bool := '0' ≤ c ∧ c ≤ '9'

def isHex (c : Char) : Bool := isDigit c || ('a' ≤ c ∧ c ≤ 'f') || ('A' ≤ c ∧ c ≤ 'F')

def isCommentChar (c : Char) : Bool := c = '\t' || (' ' ≤ c ∧ c.toNat ≤ 0x7e) || 0x80 ≤ c.toNat

/-- The offset of the first character from `i` on that fails `p`, looking at `fuel` characters
at most. -/
def scanWhile (text : Array Char) (p : Char → Bool) (i : Nat) : Nat → Nat
  | 0 => i
  | fuel + 1 =>
    match text[i]? with
    | some c => if p c then scanWhile text p (i + 1) fuel else i
    | none => i

def takeWhile (p : Char → Bool) : Parse (List Char) := do
  let text ← read
  let start ← get
  let stop := scanWhile text p start (text.size - start)
  set stop
  pure (text.extract start stop).toList

def ws : Parse Unit := discard (takeWhile fun c => c = ' ' || c = '\t')

def comment : Parse Unit := do
  if (← peek) = some '#' then
    bump
    discard (takeWhile isCommentChar)

def newline? : Parse Bool := do
  match ← peek with
  | some '\n' => bump; pure true
  | some '\r' =>
    if (← peekAt 1) = some '\n' then
      bump; bump; pure true
    else pure false
  | _ => pure false

def wsCommentNewline : Parse Unit := do
  for _ in [0:(← read).size + 1] do
    ws
    if (← peek) = some '#' then comment
    else if !(← newline?) then return

def lineTrailing (message : String) : Parse Unit := do
  ws
  comment
  if (← peek).isNone then return
  if !(← newline?) then failHere message

def hexValue (cs : List Char) : Nat :=
  cs.foldl (fun acc c =>
    acc * 16 + (if isDigit c then c.toNat - 48
      else if 'a' ≤ c ∧ c ≤ 'f' then c.toNat - 87 else c.toNat - 55)) 0

def unicodeEscape (width : Nat) (label : String) : Parse Char := do
  let start ← get
  let text ← read
  let cs := (text.extract start (scanWhile text isHex start width)).toList
  if cs.length < width then failAt start (expecting label [])
  let v := hexValue cs
  if v ≥ 0x110000 ∨ (0xD800 ≤ v ∧ v < 0xE000) then
    failAt start (expecting label [] ++ "\nvalue is out of range")
  set (start + width)
  pure (Char.ofNat v)

def escape : Parse Char := do
  let c ← peek
  bump
  match c with
  | some 'b' => pure '\x08'
  | some 'f' => pure '\x0c'
  | some 'n' => pure '\n'
  | some 'r' => pure '\r'
  | some 't' => pure '\t'
  | some '\\' => pure '\\'
  | some '"' => pure '"'
  | some 'u' => unicodeEscape 4 "unicode 4-digit hex code"
  | some 'U' => unicodeEscape 8 "unicode 8-digit hex code"
  | _ => failHere (expecting "escape sequence"
      ["`b`", "`f`", "`n`", "`r`", "`t`", "`u`", "`U`", "`\\`", "`\"`"])

def isBasicChar (c : Char) : Bool :=
  c = '\t' || (' ' ≤ c ∧ c.toNat ≤ 0x7e ∧ c ≠ '"' ∧ c ≠ '\\') || 0x80 ≤ c.toNat

def isLiteralChar (c : Char) : Bool :=
  c = '\t' || (' ' ≤ c ∧ c.toNat ≤ 0x7e ∧ c ≠ '\'') || 0x80 ≤ c.toNat

def basicString : Parse String := do
  bump
  let mut out : Array Char := #[]
  for _ in [0:(← read).size + 1] do
    match ← peek with
    | some '"' => bump; return String.ofList out.toList
    | some '\\' =>
      -- a backslash that ends the text escapes nothing: the string is unclosed there
      if (← peekAt 1).isNone then failHere (expecting "basic string" [])
      bump
      out := out.push (← escape)
    | some c =>
      if isBasicChar c then
        bump
        out := out.push c
      else failHere (expecting "basic string" [])
    | none => failHere (expecting "basic string" [])
  failHere (expecting "basic string" [])

def literalString : Parse String := do
  bump
  let cs ← takeWhile isLiteralChar
  if (← peek) = some '\'' then
    bump
    pure (String.ofList cs)
  else failHere (expecting "literal string" [])

/-- Reads a multi-line string at its opening delimiter of three `quote` characters; `basic`
strings know escapes. -/
def multilineString (quote : Char) (basic : Bool) : Parse String := do
  let label := if basic then "multiline basic string" else "multiline literal string"
  bump; bump; bump
  discard newline?
  let mut out : Array Char := #[]
  for _ in [0:(← read).size + 1] do
    match ← peek with
    | none => failHere (expecting label [])
    | some c =>
      if c = quote ∧ (← peekAt 1) = some quote ∧ (← peekAt 2) = some quote then
        -- up to two more quotes belong to the content
        let q3 := (← peekAt 3) = some quote
        let q4 := (← peekAt 4) = some quote
        let extra := if q3 then (if q4 then 2 else 1) else 0
        for _ in [0:extra] do
          out := out.push quote
          bump
        bump; bump; bump
        return String.ofList out.toList
      else if c = '\\' ∧ basic then
        bump
        -- a backslash at the end of a line joins the next non-blank character
        let save ← get
        ws
        if (← newline?) then
          discard (takeWhile fun c => c = ' ' || c = '\t' || c = '\n' || c = '\r')
        else
          set save
          out := out.push (← escape)
      else if c = '\n' then
        bump
        out := out.push '\n'
      else if c = '\r' ∧ (← peekAt 1) = some '\n' then
        bump; bump
        out := out.push '\n'
      else if (if basic then isBasicChar c || c = '"' else isLiteralChar c || c = '\'') then
        bump
        out := out.push c
      else failHere (expecting label [])
  failHere (expecting label [])

def string : Parse String := do
  let c ← peek
  let triple := (← peekAt 1) = c ∧ (← peekAt 2) = c
  match c with
  | some '"' => if triple then multilineString '"' true else basicString
  | _ => if triple then multilineString '\'' false else literalString

def simpleKey : Parse Key := do
  let start ← get
  let name ← match ← peek with
    | some '"' => basicString
    | some '\'' => literalString
    | _ =>
      let cs ← takeWhile isBare
      if cs.isEmpty then softHere (expecting "key" []) else pure (String.ofList cs)
  pure ⟨name, ⟨start, ← get⟩⟩

def recursionLimit : Nat := 128

def key : Parse (List Key) := do
  let start ← get
  let mut parts : Array Key := #[]
  for _ in [0:(← read).size + 1] do
    ws
    parts := parts.push (← simpleKey)
    ws
    if (← peek) = some '.' then
      let save ← get
      bump
      ws
      let more := match ← peek with
        | some c => c = '"' || c = '\'' || isBare c
        | none => false
      if !more then
        set save
        break
    else break
  -- a key too deep is refused as if it were no key: braces may still close before it
  if parts.size ≥ recursionLimit then throw ⟨"recursion limit exceeded", some ⟨start, start⟩, true⟩
  pure parts.toList

/-- Reads digits where single underscores may stand between two digits; `label` names the
number for a fault. -/
def digitGroups (first : Bool → Char → Bool) (more : Char → Bool) (label : String) :
    Parse (List Char) := do
  let mut out : Array Char := #[]
  match ← peek with
  | some c =>
    if first true c then
      bump
      out := out.push c
    else return []
  | none => return []
  for _ in [0:(← read).size + 1] do
    match ← peek with
    | some '_' =>
      bump
      match ← peek with
      | some c =>
        if more c then
          bump
          out := out.push c
        else failHere (expecting label ["digit"])
      | none => failHere (expecting label ["digit"])
    | some c =>
      if more c then
        bump
        out := out.push c
      else return out.toList
    | none => return out.toList
  pure out.toList

def exactDigits (n : Nat) : Parse (Option Nat) := do
  let save ← get
  let cs ← takeWhile isDigit
  if cs.length < n then
    set save
    return none
  set (save + n)
  pure (some ((cs.take n).foldl (fun acc c => acc * 10 + (c.toNat - 48)) 0))

def timeRest (start : Nat) : Parse Unit := do
  let some m ← exactDigits 2 | failHere ""
  if m > 59 then failAt (start + 3) "value is out of range"
  if (← peek) ≠ some ':' then failHere ""
  bump
  let some s ← exactDigits 2 | failHere ""
  if s > 60 then failAt (start + 6) "value is out of range"
  if (← peek) = some '.' then
    bump
    let fr ← takeWhile isDigit
    if fr.isEmpty then failHere (expecting "" ["digit"])

def datetime? : Parse (Option String) := do
  let start ← get
  let text ← read
  let lexeme : Parse String := do
    return String.ofList (text.extract start (← get)).toList
  match ← exactDigits 4 with
  | some _ =>
    if (← peek) = some '-' then
      bump
      let some mo ← exactDigits 2 | failHere ""
      if mo < 1 ∨ 12 < mo then failAt (start + 5) "value is out of range"
      if (← peek) ≠ some '-' then failHere ""
      bump
      let some d ← exactDigits 2 | failHere ""
      if d < 1 ∨ 31 < d then failAt (start + 8) "value is out of range"
      -- an optional time, after `T`, `t` or a space
      let sep ← peek
      if sep = some 'T' ∨ sep = some 't' ∨ sep = some ' ' then
        let save ← get
        bump
        let timeStart ← get
        match ← exactDigits 2 with
        | some h =>
          if (← peek) = some ':' then
            bump
            if h > 23 then failAt timeStart "value is out of range"
            timeRest timeStart
            -- an optional offset
            match ← peek with
            | some 'Z' | some 'z' => bump
            | some '+' | some '-' =>
              bump
              let some _ ← exactDigits 2 | failHere (expecting "time offset" [])
              if (← peek) ≠ some ':' then failHere (expecting "time offset" [])
              bump
              let some _ ← exactDigits 2 | failHere (expecting "time offset" [])
            | _ => pure ()
          else set save
        | none => set save
      return some (← lexeme)
    else
      set start
      return none
  | none =>
    match ← exactDigits 2 with
    | some h =>
      if (← peek) = some ':' then
        bump
        if h > 23 then failAt start "value is out of range"
        timeRest start
        return some (← lexeme)
      else
        set start
        return none
    | none => return none

def decimalValue (cs : List Char) : Nat := cs.foldl (fun acc c => acc * 10 + (c.toNat - 48)) 0

def numberLike : Parse Value := do
  let start ← get
  let span : Parse Span := do return ⟨start, ← get⟩
  if let some text ← datetime? then
    return .datetime (← span) text
  -- special floats
  let signChar ← peek
  let signed := signChar = some '+' ∨ signChar = some '-'
  let neg := signChar = some '-'
  let off := if signed then 1 else 0
  let word := [← peekAt off, ← peekAt (off + 1), ← peekAt (off + 2)]
  if word = [some 'i', some 'n', some 'f'] then
    set (start + off + 3)
    return .float (← span) (if neg then Binary64.infinity.neg else Binary64.infinity)
  if word = [some 'n', some 'a', some 'n'] then
    set (start + off + 3)
    return .float (← span) (if neg then Binary64.nan.neg else Binary64.nan)
  -- integers in other bases
  if !signed ∧ (← peek) = some '0' then
    let radix : Option (Nat × String × (Char → Bool)) := match ← peekAt 1 with
      | some 'x' => some (16, "hexadecimal integer", isHex)
      | some 'o' => some (8, "octal integer", fun c => '0' ≤ c ∧ c ≤ '7')
      | some 'b' => some (2, "binary integer", fun c => c = '0' ∨ c = '1')
      | _ => none
    if let some (base, label, ok) := radix then
      bump; bump
      let ds ← digitGroups (fun _ c => ok c) ok label
      if ds.isEmpty then failHere (expecting label [])
      let v := ds.foldl (fun acc c => acc * base + (hexValue [c])) 0
      if v ≥ Nat.pow 2 63 then failAt start "number too large to fit in target type"
      return .integer (← span) v
  -- decimal integer part
  if signed then bump
  let intDigits ← match ← peek with
    | some '0' => do bump; pure ['0']
    | _ => digitGroups (fun _ c => '1' ≤ c ∧ c ≤ '9') isDigit "integer"
  if intDigits.isEmpty then softHere (expecting "integer" [])
  let mut frac : List Char := []
  let mut isFloat := false
  if (← peek) = some '.' then
    bump
    isFloat := true
    frac ← digitGroups (fun _ c => isDigit c) isDigit "floating-point number"
    if frac.isEmpty then failHere (expecting "floating-point number" ["digit"])
  let mut exp : Int := 0
  if (← peek) = some 'e' ∨ (← peek) = some 'E' then
    bump
    isFloat := true
    let mut expNeg := false
    match ← peek with
    | some '+' => bump
    | some '-' => bump; expNeg := true
    | _ => pure ()
    let ds ← digitGroups (fun _ c => isDigit c) isDigit "floating-point number"
    if ds.isEmpty then failHere (expecting "floating-point number" [])
    exp := if expNeg then -(decimalValue ds : Int) else decimalValue ds
  let whole := decimalValue intDigits
  if isFloat then
    let x := Binary64.ofDecimal neg (decimalValue (intDigits ++ frac)) (exp - frac.length)
    if x = Binary64.infinity then failAt start (expecting "floating-point number" [])
    return .float (← span) x
  if neg then
    if whole > Nat.pow 2 63 then failAt start "number too small to fit in target type"
    return .integer (← span) (-(whole : Int))
  if whole ≥ Nat.pow 2 63 then failAt start "number too large to fit in target type"
  return .integer (← span) whole

def word (w : String) : Parse Bool := do
  let cs := w.toList
  let here ← get
  let text ← read
  if (text.extract here (here + cs.length)).toList = cs then
    set (here + cs.length)
    pure true
  else pure false

mutual

/-- Reads a value; a soft fault when no value starts here. `depth` counts the levels of arrays
and inline tables around it, each counted twice: at its opening bracket and inside it. -/
def value (depth : Nat) : Nat → Parse Value
  | 0 => failHere "recursion limit exceeded"
  | fuel + 1 => do
    let start ← get
    let span : Parse Span := do return ⟨start, ← get⟩
    match ← peek with
    | some '"' | some '\'' =>
      let text ← string
      return .string (← span) text
    | some '[' =>
      if depth + 1 ≥ recursionLimit then failHere "recursion limit exceeded"
      array (depth + 1) fuel
    | some '\x7b' =>
      if depth + 1 ≥ recursionLimit then failHere "recursion limit exceeded"
      inlineTable (depth + 1) fuel
    | some 't' => if ← word "true" then return .bool (← span) true else softHere notAValue
    | some 'f' => if ← word "false" then return .bool (← span) false else softHere notAValue
    | some 'i' => if ← word "inf" then return .float (← span) Binary64.infinity else softHere notAValue
    | some 'n' => if ← word "nan" then return .float (← span) Binary64.nan else softHere notAValue
    | some '_' => softHere (expecting "integer" ["leading digit"])
    | some '.' => softHere (expecting "floating-point number" ["leading digit"])
    | some c => if c = '+' ∨ c = '-' ∨ isDigit c then numberLike else softHere notAValue
    | none => softHere ""

def array (depth : Nat) : Nat → Parse Value
  | 0 => failHere "recursion limit exceeded"
  | fuel + 1 => do
    let start ← get
    bump
    if depth + 1 ≥ recursionLimit then failHere "recursion limit exceeded"
    let close := expecting "array" ["`]`"]
    let mut items : Array Value := #[]
    for _ in [0:(← read).size + 1] do
      wsCommentNewline
      if (← peek) = some ']' then
        bump
        return .array ⟨start, ← get⟩ items.toList false
      match ← attempt (value (depth + 1) fuel) with
      | .error _ => failHere close
      | .ok v => items := items.push v
      wsCommentNewline
      match ← peek with
      | some ',' => bump
      | some ']' =>
        bump
        return .array ⟨start, ← get⟩ items.toList false
      | _ => failHere close
    failHere close

/-- Reads an inline table at its opening brace. Its entries are read first; the table is then
made from them, a clash pointing just inside the brace, and the closing brace comes last. -/
def inlineTable (depth : Nat) : Nat → Parse Value
  | 0 => failHere "recursion limit exceeded"
  | fuel + 1 => do
    let start ← get
    bump
    if depth + 1 ≥ recursionLimit then failHere "recursion limit exceeded"
    let mut pairs : Array (List Key × Key × Value) := #[]
    let mut first := true
    for _ in [0:(← read).size + 1] do
      let save ← get
      if !first then
        if (← peek) = some ',' then bump else break
      match ← attempt key with
      | .error _ =>
        set save
        break
      | .ok path =>
        first := false
        if (← peek) ≠ some '=' then failHere (expecting "" ["`.`", "`=`"])
        bump
        ws
        let v ← commit (value (depth + 1) fuel)
        ws
        match path.reverse with
        | [] => pure ()
        | k :: revPath => pairs := pairs.push (revPath.reverse, k, v)
    let entries ← match inlineEntries pairs.toList [] with
      | .ok e => pure e
      | .error c => failAt (start + 1) c.text
    ws
    if (← peek) = some '\x7d' then
      bump
      return .table ⟨start, ← get⟩ .inline entries
    failHere (expecting "inline table" ["`\x7d`"])

end

def keyval (b : Builder) (fuel : Nat) : Parse Builder := do
  let start ← get
  let path ← commit key
  if (← peek) ≠ some '=' then failHere (expecting "" ["`.`", "`=`"])
  bump
  ws
  let v ← commit (value 0 fuel)
  lineTrailing notLineEnd
  match path.reverse with
  | [] => pure b
  | k :: revPath =>
    match b.keyval revPath.reverse k v with
    | .ok b => pure b
    | .error c => failAt start c.text

def header (b : Builder) : Parse Builder := do
  let start ← get
  bump
  let isList := (← peek) = some '['
  if isList then bump
  let path ← commit key
  if isList then
    if (← peek) = some ']' ∧ (← peekAt 1) = some ']' then
      bump; bump
    else failHere (expecting "table" ["`.`", "`]]`"])
  else if (← peek) = some ']' then bump
  else failHere (expecting "table" ["`.`", "`]`"])
  let span : Span := ⟨start, ← get⟩
  lineTrailing (expecting "table" ["newline", "`#`"])
  match (if isList then b.openList path span else b.openTable path span) with
  | .ok b => pure b
  | .error c => failAt start (expecting "table" [] ++ "\n" ++ c.text)

/-- Reads a whole document; the table open at its end is put in place last, and a clash there
points nowhere. -/
def document : Parse Entries := do
  if (← peek) = some '\uFEFF' then bump
  let fuel := (← read).size + 2
  let mut b : Builder := default
  for _ in [0:(← read).size + 1] do
    ws
    match ← peek with
    | none => break
    | some '#' =>
      -- a comment line ends with a line ending or the end of the text
      comment
      if (← peek).isSome && !(← newline?) then failHere ""
    | some '[' => b ← header b
    | some '\n' => bump
    | some '\r' =>
      if (← peekAt 1) = some '\n' then
        bump; bump
      else failHere ""
    | some _ => b ← keyval b fuel
  match b.close with
  | .ok root => pure root
  | .error c => throw ⟨c.text, none, false⟩

def parse (text : String) : Except Fault Entries :=
  match (document text.toList.toArray).run 0 with
  | .ok root _ => .ok root
  | .error f _ => .error f

end Fiff.Toml
