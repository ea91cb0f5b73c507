import Fiff.Schema

/-!
# Reading records from JSON text

The text is read front to back against a record shape, and the first fault met stops the read,
whether it is a fault of the syntax or of the data: a data error early in the text wins over a
syntax error later. A record may be written as an object, whose members may come in any order
and whose unknown members are skipped, or as an array of its fields in order. A fault is
reported with the line and column where it was found; the column counts bytes.
-/

set_option autoImplicit false

namespace Fiff.Json

/-- The kind of a fault. -/
inductive Category where
  | grammar
  | eof
  | data
  deriving DecidableEq, Inhabited

/-- A fault and where it stands, once it is placed: after `index` characters and `extra` bytes
more (a fault may point into the encoding of a character). -/
structure Fault where
  category : Category
  message : String
  index : Option Nat
  extra : Nat
  deriving Inhabited

/-- Syntax faults. -/
inductive TextFlaw where
  | eofList | eofObject | eofString | eofValue
  | expectedColon | expectedListCommaOrEnd | expectedObjectCommaOrEnd | expectedIdent
  | expectedValue | invalidEscape | invalidNumber | numberOutOfRange | controlCharacter
  | keyMustBeString | loneSurrogate | unexpectedEndOfHexEscape | trailingComma
  | trailingCharacters
  | recursionLimit

def TextFlaw.text : TextFlaw → String
  | .eofList => "EOF while parsing a list"
  | .eofObject => "EOF while parsing an object"
  | .eofString => "EOF while parsing a string"
  | .eofValue => "EOF while parsing a value"
  | .expectedColon => "expected `:`"
  | .expectedListCommaOrEnd => "expected `,` or `]`"
  | .expectedObjectCommaOrEnd => "expected `,` or `\x7d`"
  | .expectedIdent => "expected ident"
  | .expectedValue => "expected value"
  | .invalidEscape => "invalid escape"
  | .invalidNumber => "invalid number"
  | .numberOutOfRange => "number out of range"
  | .controlCharacter => "control character (\\u0000-\\u001F) found while parsing a string"
  | .keyMustBeString => "key must be a string"
  | .loneSurrogate => "lone leading surrogate in hex escape"
  | .unexpectedEndOfHexEscape => "unexpected end of hex escape"
  | .trailingComma => "trailing comma"
  | .trailingCharacters => "trailing characters"
  | .recursionLimit => "recursion limit exceeded"

def TextFlaw.category : TextFlaw → Category
  | .eofList | .eofObject | .eofString | .eofValue => .eof
  | _ => .grammar

abbrev Scan := ReaderT (Array Char) (EStateM Fault Nat)

def peek : Scan (Option Char) := do return (← read)[← get]?

def bump : Scan Unit := modify (· + 1)

def fail {α : Type} (code : TextFlaw) : Scan α := do
  throw ⟨code.category, code.text, some (← get), 0⟩

def failAhead {α : Type} (code : TextFlaw) : Scan α := do
  let size := (← read).size
  throw ⟨code.category, code.text, some (← get), if (← get) < size then 1 else 0⟩

def failPast {α : Type} (bytes : Nat) (code : TextFlaw) : Scan α := do
  throw ⟨code.category, code.text, some (← get), bytes⟩

def jsonFloat (x : Binary64) : String := (x.interchange?).getD "null"

def failData {α : Type} (e : DataError) : Scan α :=
  throw ⟨.data, e.message jsonFloat, none, 0⟩

def place {α : Type} (m : Scan α) : Scan α := fun text => do
  let start ← EStateM.get
  match (m text).run start with
  | .ok a s => EStateM.set s *> pure a
  | .error f s =>
    EStateM.set s
    throw (if f.index.isNone then { f with index := some s } else f)

/-- The offset of the first character from `i` on that fails `p`, looking at `fuel` characters
at most. -/
def scanWhile (text : Array Char) (p : Char → Bool) (i : Nat) : Nat → Nat
  | 0 => i
  | fuel + 1 =>
    match text[i]? with
    | some c => if p c then scanWhile text p (i + 1) fuel else i
    | none => i

def skipBlank : Scan (Option Char) := do
  let text ← read
  let start ← get
  set (scanWhile text (fun c => c = ' ' ∨ c = '\n' ∨ c = '\t' ∨ c = '\r') start (text.size - start))
  peek

def next : Scan (Option Char) := do
  let c ← peek
  if c.isSome then bump
  pure c

def keyword (rest : List Char) : Scan Unit :=
  rest.forM fun expected => do
    match ← next with
    | none => fail .eofValue
    | some c => if c ≠ expected then fail .expectedIdent else pure ()

def isDigit (c : Char) : Bool := '0' ≤ c ∧ c ≤ '9'

def digitRun : Scan (List Char) := do
  let text ← read
  let start ← get
  let stop := scanWhile text isDigit start (text.size - start)
  set stop
  pure (text.extract start stop).toList

def digitsValue (ds : List Char) : Nat := ds.foldl (fun acc c => acc * 10 + (c.toNat - 48)) 0

def hexDigit (c : Char) : Option Nat :=
  if isDigit c then some (c.toNat - 48)
  else if 'a' ≤ c ∧ c ≤ 'f' then some (c.toNat - 87)
  else if 'A' ≤ c ∧ c ≤ 'F' then some (c.toNat - 55)
  else none

/-- Reads the four hexadecimal digits of a `\u` escape: four bytes must remain, and they are
taken together before they are judged, so a bad digit is reported after all four. -/
def hexEscape : Scan Nat := do
  let text ← read
  let start ← get
  let rest := (text.extract start (start + 4)).toList
  if (String.ofList rest).utf8ByteSize < 4 then
    set text.size
    fail .eofString
  match (rest.take 4).mapM hexDigit with
  | some ds =>
    set (start + 4)
    pure (ds.foldl (fun v d => v * 16 + d) 0)
  | none => failPast 4 .invalidEscape

def stringBody : Scan String := do
  let text ← read
  let mut out : List Char := []
  for _ in [0:text.size + 1] do
    match ← next with
    | none => fail .eofString
    | some '"' => return String.ofList out.reverse
    | some '\\' =>
      match ← next with
      | none => fail .eofString
      | some '"' => out := '"' :: out
      | some '\\' => out := '\\' :: out
      | some '/' => out := '/' :: out
      | some 'b' => out := '\x08' :: out
      | some 'f' => out := '\x0c' :: out
      | some 'n' => out := '\n' :: out
      | some 'r' => out := '\r' :: out
      | some 't' => out := '\t' :: out
      | some 'u' =>
        let hi ← hexEscape
        if 0xDC00 ≤ hi ∧ hi < 0xE000 then fail .loneSurrogate
        else if 0xD800 ≤ hi ∧ hi < 0xDC00 then
          -- a leading surrogate must be followed at once by an escaped trailing one; a byte
          -- that is not part of that escape is taken before the fault
          for c in ['\\', 'u'] do
            match ← peek with
            | none => fail .eofString
            | some d => if d = c then bump else failPast 1 .unexpectedEndOfHexEscape
          let lo ← hexEscape
          if lo < 0xDC00 ∨ 0xE000 ≤ lo then fail .loneSurrogate
          out := Char.ofNat (0x10000 + (hi - 0xD800) * 0x400 + (lo - 0xDC00)) :: out
        else out := Char.ofNat hi :: out
      | some _ =>
        -- only the first byte of the character after the backslash is taken
        set ((← get) - 1)
        failPast 1 .invalidEscape
    | some c =>
      if c.toNat < 0x20 then fail .controlCharacter
      out := c :: out
  fail .eofString

def u64Max : Nat := Nat.pow 2 64 - 1

/-- Reads the whole part of a number: a lone `0`, or a run of digits that does not start with
`0`. -/
def wholePart : Scan (List Char) := do
  match ← next with
  | none => fail .eofValue
  | some '0' =>
    match ← peek with
    | some c => if isDigit c then failAhead .invalidNumber
    | none => pure ()
    pure ['0']
  | some c =>
    if isDigit c then return c :: (← digitRun) else fail .invalidNumber

def fractionPart : Scan (Option (List Char)) := do
  if (← peek) = some '.' then
    bump
    let digits ← digitRun
    if digits.isEmpty then
      match ← peek with
      | some _ => failAhead .invalidNumber
      | none => failAhead .eofValue
    return some digits
  else return none

def exponentPart : Scan (Option Int) := do
  if (← peek) = some 'e' ∨ (← peek) = some 'E' then
    bump
    let mut expNeg := false
    match ← peek with
    | some '+' => bump
    | some '-' => bump; expNeg := true
    | _ => pure ()
    match ← next with
    | none => fail .eofValue
    | some c =>
      if !isDigit c then fail .invalidNumber
      let e := digitsValue (c :: (← digitRun))
      return some (if expNeg then -(e : Int) else e)
  else return none

/-- Reads a number after its sign; a fraction or an exponent makes it a decimal, and so does an
integer beyond the machine words. -/
def numberBody (neg : Bool) : Scan Number := do
  let intDigits ← wholePart
  let fraction ← fractionPart
  let exponent ← exponentPart
  let fracDigits := fraction.getD []
  let whole := digitsValue intDigits
  let digits := digitsValue (intDigits ++ fracDigits)
  let scale := exponent.getD 0 - fracDigits.length
  if fraction.isSome || exponent.isSome then
    let n := Number.decimal neg digits scale
    match n.toBinary64.classify with
    | .infinite _ => fail .numberOutOfRange
    | _ => pure n
  else if neg then
    if whole = 0 ∨ Nat.pow 2 63 < whole then pure (Number.decimal true whole 0)
    else pure (Number.integer (-(whole : Int)))
  else if whole ≤ u64Max then pure (Number.integer whole)
  else pure (Number.decimal false whole 0)

def number : Scan Number := do
  if (← peek) = some '-' then
    bump
    numberBody true
  else numberBody false

/-- A single-precision value from an exact decimal: the nearest one, and an error beyond the
largest finite value. -/
def singleOfDecimal (neg : Bool) (d : Nat) (e : Int) : Scan Binary32 := do
  let x : Binary32 := ⟨(Float.binary32.ofDecimal neg d e).toUInt32⟩
  match x.classify with
  | .infinite _ => fail .numberOutOfRange
  | _ => pure x

def unexpectedHere {α : Type} (expected : String) : Scan α := place do
  let mut u : Unexpected := .map
  match ← peek with
  | some 'n' => bump; keyword ['u', 'l', 'l']; u := .null
  | some 't' => bump; keyword ['r', 'u', 'e']; u := .bool true
  | some 'f' => bump; keyword ['a', 'l', 's', 'e']; u := .bool false
  | some '"' => bump; u := .str (← stringBody)
  | some '[' => u := .seq
  | some '\x7b' => u := .map
  | some c =>
    if c = '-' ∨ isDigit c then u := (← number).unexpected else failAhead .expectedValue
  | none => failAhead .expectedValue
  throw ⟨.data, (DataError.invalidType u expected).message jsonFloat, some (← get), 0⟩

def skipValue : Nat → Scan Unit
  | 0 => fail .recursionLimit
  | fuel + 1 => do
    match ← skipBlank with
    | none => failAhead .eofValue
    | some 'n' => bump; keyword ['u', 'l', 'l']
    | some 't' => bump; keyword ['r', 'u', 'e']
    | some 'f' => bump; keyword ['a', 'l', 's', 'e']
    | some '"' => bump; discard stringBody
    | some '[' =>
      bump
      if (← skipBlank) = some ']' then bump; return
      for _ in [0:(← read).size + 1] do
        skipValue fuel
        match ← skipBlank with
        | some ',' => bump
        | some ']' => bump; return
        | some _ => failAhead .expectedListCommaOrEnd
        | none => failAhead .eofList
    | some '\x7b' =>
      bump
      if (← skipBlank) = some '\x7d' then bump; return
      for _ in [0:(← read).size + 1] do
        match ← skipBlank with
        | some '"' => bump; discard stringBody
        | some _ => failAhead .keyMustBeString
        | none => failAhead .eofObject
        match ← skipBlank with
        | some ':' => bump
        | some _ => failAhead .expectedColon
        | none => failAhead .eofObject
        skipValue fuel
        match ← skipBlank with
        | some ',' => bump
        | some '\x7d' => bump; return
        | some _ => failAhead .expectedObjectCommaOrEnd
        | none => failAhead .eofObject
    | some c =>
      if c = '-' ∨ isDigit c then discard number else failAhead .expectedValue

def nextItem {α : Type} (first : Bool) (item : Scan α) : Scan (Option α) := do
  let mut c ← skipBlank
  match c with
  | some ']' => return none
  | some ',' =>
    if !first then
      bump
      c ← skipBlank
  | some _ => if !first then failAhead .expectedListCommaOrEnd
  | none => failAhead .eofList
  match c with
  | some ']' => failAhead .trailingComma
  | some _ => return some (← item)
  | none => failAhead .eofValue

def endList : Scan Unit := do
  match ← skipBlank with
  | some ']' => bump
  | some ',' =>
    bump
    match ← skipBlank with
    | some ']' => failAhead .trailingComma
    | _ => failAhead .trailingCharacters
  | some _ => failAhead .trailingCharacters
  | none => failAhead .eofList

def endObject : Scan Unit := do
  match ← skipBlank with
  | some '\x7d' => bump
  | some ',' => failAhead .trailingComma
  | some _ => failAhead .trailingCharacters
  | none => failAhead .eofObject

/-- Runs the body of a list or object and then its closing step; a fault of the body wins, and
is placed after the closing step has run. -/
def closing {α : Type} (body : Scan α) (close : Scan Unit) : Scan α := fun text => do
  let start ← EStateM.get
  match (body text).run start with
  | .ok a s =>
    match (close text).run s with
    | .ok _ s' => EStateM.set s' *> pure a
    | .error f s' => EStateM.set s' *> throw f
  | .error f s =>
    let s' := match (close text).run s with
      | .ok _ s' => s'
      | .error _ s' => s'
    EStateM.set s'
    throw (if f.index.isNone then { f with index := some s' } else f)

def list {α : Type} (item : Scan α) : Scan (List α) := do
  match ← skipBlank with
  | none => failAhead .eofValue
  | some '[' =>
    bump
    closing (do
      let mut out : Array α := #[]
      for _ in [0:(← read).size + 1] do
        match ← nextItem out.isEmpty item with
        | some x => out := out.push x
        | none => return out.toList
      return out.toList) endList
  | some _ => unexpectedHere "a sequence"

def shaped : Nat → Shape → Scan Datum
  | 0, _ => fail .recursionLimit
  | fuel + 1, s => place do
    match s with
    | .bool =>
      match ← skipBlank with
      | some 't' => bump; keyword ['r', 'u', 'e']; pure (.bool true)
      | some 'f' => bump; keyword ['a', 'l', 's', 'e']; pure (.bool false)
      | some _ => unexpectedHere s.expecting
      | none => failAhead .eofValue
    | .string =>
      match ← skipBlank with
      | some '"' => bump; pure (.string (← stringBody))
      | some _ => unexpectedHere s.expecting
      | none => failAhead .eofValue
    | .usize | .int32 | .single =>
      match ← skipBlank with
      | some c =>
        if c = '-' ∨ isDigit c then
          let n ← number
          match s, n with
          | .single, .decimal neg d e => pure (.single (← singleOfDecimal neg d e))
          | _, _ =>
            match n.toDatum (fun _ _ _ => .ok default) s with
            | .ok d => pure d
            | .error e => throw ⟨.data, e.message jsonFloat, some (← get), 0⟩
        else unexpectedHere s.expecting
      | none => failAhead .eofValue
    | .option inner =>
      match ← skipBlank with
      | some 'n' => bump; keyword ['u', 'l', 'l']; pure .none
      | _ => pure (.some (← shaped fuel inner))
    | .seq inner => pure (.list (← list (shaped fuel inner)))
    | .rows =>
      let rows ← list (shaped fuel (.seq .single))
      match Datum.toMatrix rows with
      | .ok m => pure (.matrix m)
      | .error e => failData e

def fieldIndex (r : Record) (name : String) : Option Nat :=
  r.fields.findIdx? (·.name == name)

def complete (r : Record) (values : List (Option Datum)) : Scan (List Datum) :=
  (r.fields.zip values).mapM fun (f, v) => match v, f.fallback with
    | some d, _ => pure d
    | none, some d => pure d
    | none, none => failData (.missingField f.name)

def memberKey : Option Char → Scan String
  | some '"' => do bump; stringBody
  | some '\x7d' => failAhead .trailingComma
  | some _ => failAhead .keyMustBeString
  | none => failAhead .eofValue

def memberColon : Scan Unit := do
  match ← skipBlank with
  | some ':' => bump
  | some _ => failAhead .expectedColon
  | none => failAhead .eofObject

/-- Reads the value of a member into the slot of the field its key names; a member whose key
names no field is skipped. -/
def memberValue (fuel : Nat) (r : Record) (values : List (Option Datum)) (key : String) :
    Scan (List (Option Datum)) :=
  match fieldIndex r key with
  | some i => do
    if (values.getD i none).isSome then failData (.duplicateField key)
    memberColon
    let v ← shaped fuel (r.fields.getD i ⟨"", .bool, none⟩).shape
    pure (values.set i (some v))
  | none => do
    memberColon
    skipValue fuel
    pure values

def members (fuel : Nat) (r : Record) : Scan (List Datum) := do
  let mut values : List (Option Datum) := r.fields.map fun _ => none
  let mut first := true
  for _ in [0:(← read).size + 1] do
    let mut c ← skipBlank
    match c with
    | some '\x7d' => return ← complete r values
    | some ',' =>
      if !first then
        bump
        c ← skipBlank
    | some _ => if !first then failAhead .expectedObjectCommaOrEnd
    | none => failAhead .eofObject
    first := false
    values ← memberValue fuel r values (← memberKey c)
  complete r values

def items (fuel : Nat) (r : Record) : Scan (List Datum) := do
  let mut out : List Datum := []
  let mut index := 0
  for f in r.fields do
    match ← nextItem (index == 0) (shaped fuel f.shape) with
    | some v => out := out ++ [v]
    | none => match f.fallback with
      | some d => out := out ++ [d]
      | none => failData (.invalidLength index r.expectingItems)
    index := index + 1
  pure out

def record (fuel : Nat) (r : Record) : Scan (List Datum) := place do
  match ← skipBlank with
  | none => failAhead .eofValue
  | some '[' => bump; closing (items fuel r) endList
  | some '\x7b' => bump; closing (members fuel r) endObject
  | some _ => unexpectedHere r.expecting

/-- A fault with its line and column; the column counts bytes. -/
structure Located where
  category : Category
  message : String
  line : Nat
  column : Nat

/-- The line and column of a byte offset in an encoded text: lines count from one, columns are
the bytes since the line began. -/
def position (bytes : List UInt8) (offset : Nat) : Nat × Nat :=
  let before := bytes.take offset
  ((before.filter (· == 10)).length + 1, (before.reverse.takeWhile (· != 10)).length)

def Located.text (f : Located) : String :=
  s!"{f.message} at line {f.line} column {f.column}"

def readRecord (r : Record) (s : String) : Except Located (List Datum) :=
  let text := s.toList.toArray
  let whole : Scan (List Datum) := do
    let v ← record (text.size + 2) r
    match ← skipBlank with
    | some _ => failAhead .trailingCharacters
    | none => pure v
  match (whole text).run 0 with
  | .ok v _ => .ok v
  | .error f s =>
    let bytes := (String.ofList text.toList).toUTF8.toList
    let offset := (String.ofList (text.toList.take (f.index.getD s))).utf8ByteSize + f.extra
    let (line, column) := position bytes (min offset bytes.length)
    .error ⟨f.category, f.message, line, column⟩

end Fiff.Json
