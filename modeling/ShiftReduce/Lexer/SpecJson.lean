import ShiftReduce.Json.Printer
import ShiftReduce.Json.Reader
import ShiftReduce.Lexer.Spec

/-!
Token declarations as JSON.
-/

namespace ShiftReduce

namespace TokenPattern

/-- What a token looks like, as JSON. -/
def toJson : TokenPattern -> Json
  | .regex source => .record [("Regex", .text source)]
  | .keyword => .text "Keyword"

/-- What a value says that a token looks like. -/
def ofJson? (value : Json) : Option TokenPattern :=
  match value.asText?, value.entries? with
  | some "Keyword", _ => some .keyword
  | none, some [("Keyword", .null)] => some .keyword
  | none, some [("Regex", source)] => source.asText?.map .regex
  | _, _ => none

end TokenPattern

namespace TokenDef

/-- A declaration as JSON. -/
def toJson (tokenDef : TokenDef) : Json :=
  .record [("name", .text tokenDef.name), ("pattern", tokenDef.pattern.toJson)]

/-- The declaration that a value writes. -/
def ofJson? (value : Json) : Option TokenDef := do
  match ← value.fields? ["name", "pattern"] with
  | [some name, some pattern] => return ⟨← name.asText?, ← TokenPattern.ofJson? pattern⟩
  | _ => none

end TokenDef

namespace TokenSpec

/-- Declarations as JSON. -/
def toJson (spec : TokenSpec) : Json :=
  .record [("defs", .array (spec.defs.map TokenDef.toJson))]

/-- The declarations that a value writes. -/
def ofJson? (value : Json) : Option TokenSpec := do
  match ← value.fields? ["defs"] with
  | [some defs] => return ⟨← (← defs.asArray?).mapM TokenDef.ofJson?⟩
  | _ => none

/-- The declarations that a text writes. -/
def ofText? (text : String) : Option TokenSpec :=
  (Json.ofText? text).bind ofJson?

end TokenSpec
end ShiftReduce
