import ShiftReduce.Json.Value
import ShiftReduce.Text.Escaped

/-!
JSON values as text.

Only what has to be escaped is: quotes, backslashes and controls. The compact form has no white
space. The indented form gives every element and entry a line of its own, two blanks deeper than
what it belongs to, and leaves empty arrays and objects on one line.
-/

namespace ShiftReduce
namespace Json

/-- A number padded with zeros to the given length. -/
def padded (length : Nat) (digits : String) : String :=
  String.ofList (List.replicate (length - digits.length) '0') ++ digits

/-- A character inside a string. -/
def escapeChar (c : Char) : String :=
  if c = '"' then "\\\""
  else if c = '\\' then "\\\\"
  else if c = '\x08' then "\\b"
  else if c = '\x0C' then "\\f"
  else if c = '\n' then "\\n"
  else if c = '\r' then "\\r"
  else if c = '\t' then "\\t"
  else if c.toNat < 0x20 then "\\u" ++ padded 4 (Text.hexadecimal c.toNat)
  else c.toString

/-- A text as a string. -/
def quote (text : String) : String :=
  "\"" ++ String.join (text.toList.map escapeChar) ++ "\""

/-- A number. -/
def displayNumber (number : JsonNumber) : String :=
  (if number.negative then "-" else "") ++ toString number.whole ++
    (match number.fraction with
      | some digits => "." ++ String.ofList digits
      | none => "") ++
    match number.exponent with
    | some exponent => "e" ++ toString exponent
    | none => ""

/-- A value that is not made of others. -/
def displayScalar : Json -> String
  | .null => "null"
  | .bool value => if value then "true" else "false"
  | .number written => displayNumber written
  | .string text => quote (text.getD "")
  | .array _ => "[]"
  | .object _ => "\x7b\x7d"

mutual

/-- A value in the compact form. -/
def compact : Json -> String
  | .array elements => "[" ++ ",".intercalate (compactElements elements) ++ "]"
  | .object entries => "\x7b" ++ ",".intercalate (compactEntries entries) ++ "\x7d"
  | other => displayScalar other

/-- Several values in the compact form. -/
def compactElements : List Json -> List String
  | [] => []
  | value :: rest => value.compact :: compactElements rest

/-- Entries in the compact form. -/
def compactEntries : List (Option String × Json) -> List String
  | [] => []
  | (key, value) :: rest =>
    (quote (key.getD "") ++ ":" ++ value.compact) :: compactEntries rest

end

/-- The beginning of a line at some depth. -/
def lineStart (depth : Nat) : String :=
  "\n" ++ String.ofList (List.replicate (2 * depth) ' ')

/-- Parts between brackets, each on a line of its own. -/
def block (left right : String) (depth : Nat) (parts : List String) : String :=
  if parts.isEmpty then left ++ right
  else
    left ++ lineStart (depth + 1) ++ ("," ++ lineStart (depth + 1)).intercalate parts ++
      lineStart depth ++ right

mutual

/-- A value in the indented form, for a place at some depth. -/
def indented (depth : Nat) : Json -> String
  | .array elements => block "[" "]" depth (indentedElements (depth + 1) elements)
  | .object entries => block "\x7b" "\x7d" depth (indentedEntries (depth + 1) entries)
  | other => displayScalar other

/-- Several values in the indented form. -/
def indentedElements (depth : Nat) : List Json -> List String
  | [] => []
  | value :: rest => value.indented depth :: indentedElements depth rest

/-- Entries in the indented form. -/
def indentedEntries (depth : Nat) : List (Option String × Json) -> List String
  | [] => []
  | (key, value) :: rest =>
    (quote (key.getD "") ++ ": " ++ value.indented depth) :: indentedEntries depth rest

end

end Json
end ShiftReduce
