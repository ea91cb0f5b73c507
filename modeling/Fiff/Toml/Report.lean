import Fiff.Toml.Parse

/-!
# Reports of TOML errors

An error about a TOML text is reported with the line it points at: a heading with the line and
column (both counted from one), the line itself under a gutter of its number, and carets under
the span, then the message. The column counts characters before the offset on its line; when a
character of several bytes starts at the offset, it counts bytes instead, and an offset at the
end of the text stands one column after the last byte. An error with no span is its message
alone.
-/

set_option autoImplicit false

namespace Fiff.Toml

/-- An error about a TOML text: its message and, when it has one, the span it points at. -/
structure Error where
  message : String
  span : Option Span
  deriving Inhabited

def byteLength (cs : List Char) : Nat := (String.ofList cs).utf8ByteSize

def lineStart (bytes : List UInt8) (index : Nat) : Nat :=
  match ((bytes.take index).reverse.findIdx? (· == 10)) with
  | some back => index - back
  | none => 0

def position (bytes : List UInt8) (index : Nat) : Nat × Nat :=
  if bytes.isEmpty then (0, index) else
  let safe := min index (bytes.length - 1)
  let start := lineStart bytes safe
  let line := ((bytes.take start).filter (· == 10)).length
  let piece := (bytes.drop start).take (safe - start + 1)
  let column := match String.fromUTF8? ⟨piece.toArray⟩ with
    | some s => s.length - 1
    | none => safe - start
  (line, column + (index - safe))

def spaces (n : Nat) : String := String.ofList (List.replicate n ' ')

def Error.render (text : String) (e : Error) : String :=
  match e.span with
  | none => e.message ++ "\n"
  | some span =>
    let cs := text.toList
    let startByte := byteLength (cs.take span.start)
    let stopByte := byteLength (cs.take span.stop)
    let (line, column) := position text.toUTF8.toList startByte
    let number := toString (line + 1)
    let content := ((text.splitOn "\n")[line]?).getD ""
    let width := min (stopByte - startByte) (content.utf8ByteSize - column)
    let gutter := spaces (number.length + 1)
    s!"TOML parse error at line {line + 1}, column {column + 1}\n" ++
      gutter ++ "|\n" ++
      number ++ " | " ++ content ++ "\n" ++
      gutter ++ "|" ++ spaces (column + 1) ++ String.ofList (List.replicate (max width 1) '^') ++
      "\n" ++ e.message ++ "\n"

def Fault.toError (f : Fault) : Error := ⟨f.message, f.span⟩

end Fiff.Toml
