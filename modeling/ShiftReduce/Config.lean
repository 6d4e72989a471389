import ShiftReduce.Json.Printer
import ShiftReduce.Json.Reader

/-!
Settings of a parser that can be kept in a file.
-/

namespace ShiftReduce

/-- What a parser does besides following its grammar. -/
structure Config where
  /-- Whether tokens match in both cases. -/
  insensitive : Bool := false
  /-- The names of the tokens that are dropped before they reach the parser. -/
  skip : List String := []
deriving DecidableEq, Repr, Inhabited

namespace Config

/-- Settings as JSON. -/
def toJson (config : Config) : Json :=
  .record
    [("case_insensitive", .bool config.insensitive), ("skip", .array (config.skip.map Json.text))]

/-- The settings that a value writes. Each of them may be missing. -/
def ofJson? (value : Json) : Option Config := do
  match ← value.fields? ["case_insensitive", "skip"] with
  | [insensitive, skip] =>
    return {
      insensitive := ← (insensitive.getD (.bool false)).asBool?
      skip := ← (skip.getD (.array [])).asTexts? }
  | _ => none

/-- The settings that a text writes. -/
def ofText? (text : String) : Option Config :=
  (Json.ofText? text).bind ofJson?

end Config
end ShiftReduce
