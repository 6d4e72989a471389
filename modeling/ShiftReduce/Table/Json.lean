import ShiftReduce.Json.Printer
import ShiftReduce.Json.Reader
import ShiftReduce.Table.Stored

/-!
Stored tables as JSON.

A table is written as an object with its fields in a fixed order, and read from an object with
fields in any order or from the array of its fields. An effect names its kind in the field `kind`.
Inside another effect the kind can also be given by its number.
-/

namespace ShiftReduce

namespace StoredEmit

/-- An effect as JSON. -/
def toJson : StoredEmit -> Json
  | .none => .record [("kind", .text "none")]
  | .report => .record [("kind", .text "report")]
  | .repetition collector max group =>
    .record
      [("kind", .text "repetition"), ("collector", .text collector), ("max", .nat max),
        ("group", .nat group)]
  | .choice collector => .record [("kind", .text "choice"), ("collector", .text collector)]
  | .merge inner => .record [("kind", .text "merge"), ("inner", inner.toJson)]

/-- The kinds of effects, in order of their numbers. -/
def kinds : List String := ["none", "report", "repetition", "choice", "merge"]

/-- The kind that a value gives, by name or, if `numbered`, by number. -/
def kindOf? (numbered : Bool) (value : Json) : Option String :=
  match value.asText?, value.asNat? with
  | some name, _ => if name ∈ kinds then some name else Option.none
  | Option.none, some number => if numbered then kinds[number]? else Option.none
  | Option.none, Option.none => Option.none

/-- The kind of an effect, and what else there is of it: the other entries of its object, or the
other elements of its array. -/
def tagged? (numbered : Bool) : Json -> Option (String × Json)
  | .array (tag :: rest) => do
    let kind ← kindOf? numbered tag
    return (kind, .array rest)
  | .array [] => Option.none
  | value => do
    let entries ← value.entries?
    match Json.valuesOf "kind" entries with
    | [tag] =>
      let kind ← kindOf? numbered tag
      return (kind, .record (entries.filter (·.1 != "kind")))
    | _ => Option.none

/-- Whether nothing is left of an effect without fields. Other entries of an object do not count. -/
def isBare : Json -> Bool
  | .array elements => elements.isEmpty
  | _ => true

/-- The effect that a value writes, nested at most `bound` deep. -/
def ofJsonWithin : Nat -> (numbered : Bool) -> Json -> Option StoredEmit
  | 0, _, _ => Option.none
  | bound + 1, numbered, value => do
    let (kind, rest) ← tagged? numbered value
    match kind with
    | "none" => if isBare rest then some .none else Option.none
    | "report" => if isBare rest then some .report else Option.none
    | "repetition" =>
      match ← rest.fields? ["collector", "max", "group"] with
      | [some collector, some max, some group] =>
        return .repetition (← collector.asText?) (← max.asNat?) (← group.asNat?)
      | _ => Option.none
    | "choice" =>
      match ← rest.fields? ["collector"] with
      | [some collector] => return .choice (← collector.asText?)
      | _ => Option.none
    | "merge" =>
      match ← rest.fields? ["inner"] with
      | [some inner] => return .merge (← ofJsonWithin bound true inner)
      | _ => Option.none
    | _ => Option.none

/-- How deep arrays and objects can be nested in a stored table. -/
def depthLimit : Nat := 127

/-- How many of them are around an effect. -/
def depthAround : Nat := 5

/-- The effect that a value writes. Nothing in the value may be unsound or too deep, even where it
has no meaning. -/
def ofJson? (value : Json) : Option StoredEmit :=
  if value.isSound ∧ depthAround + value.depth ≤ depthLimit then
    ofJsonWithin (value.depth + 1) false value
  else Option.none

end StoredEmit

namespace NameMap

/-- A map as JSON. -/
def toJson (map : NameMap) : Json :=
  .record (map.map fun (name, value) => (name, .nat value))

/-- The map that an object writes. The last value of a name counts. -/
def ofJson? (value : Json) : Option NameMap := do
  let entries ← value.entries?
  let pairs ← entries.mapM fun (name, value) => value.asNat?.map fun value => (name, value)
  return ofList pairs

end NameMap

namespace StoredRule

/-- A rule as JSON. -/
def toJson (rule : StoredRule) : Json :=
  .record
    ([("nonterminal", .text rule.nonterminal), ("symbols", .array (rule.symbols.map Json.text)),
        ("emit", rule.emit.toJson)] ++
      (rule.label.map fun label => ("alias", Json.text label)).toList ++
      [("helper", .bool rule.helper)])

/-- A label that may be missing or null. -/
def labelOf? : Option Json -> Option (Option String)
  | none => some none
  | some .null => some none
  | some value => value.asText?.map some

/-- The rule that a value writes. -/
def ofJson? (value : Json) : Option StoredRule := do
  match ← value.fields? ["nonterminal", "symbols", "emit", "alias", "helper"] with
  | [some nonterminal, some symbols, some emit, label, helper] =>
    return {
      nonterminal := ← nonterminal.asText?
      symbols := ← symbols.asTexts?
      emit := ← StoredEmit.ofJson? emit
      label := ← labelOf? label
      helper := ← (helper.getD (.bool false)).asBool? }
  | _ => none

end StoredRule

namespace StoredState

/-- A state as JSON. -/
def toJson (state : StoredState) : Json :=
  .record
    [("rules", .array (state.rules.map StoredRule.toJson)), ("reduce", state.reduce.toJson),
      ("shift", state.shift.toJson)]

/-- The state that a value writes. -/
def ofJson? (value : Json) : Option StoredState := do
  match ← value.fields? ["rules", "reduce", "shift"] with
  | [some rules, some reduce, some shift] =>
    return {
      rules := ← (← rules.asArray?).mapM StoredRule.ofJson?
      reduce := ← NameMap.ofJson? reduce
      shift := ← NameMap.ofJson? shift }
  | _ => none

end StoredState

namespace StoredTable

/-- A stored table as JSON. -/
def toJson (stored : StoredTable) : Json :=
  .record
    [("root", .text stored.root), ("skip", .array (stored.skip.map Json.text)),
      ("states", .array (stored.states.map StoredState.toJson))]

/-- The stored table that a value writes. -/
def ofJson? (value : Json) : Option StoredTable := do
  match ← value.fields? ["root", "skip", "states"] with
  | [some root, skip, some states] =>
    return {
      root := ← root.asText?
      skip := ← (skip.getD (.array [])).asTexts?
      states := ← (← states.asArray?).mapM StoredState.ofJson? }
  | _ => none

/-- A stored table as text. -/
def toText (stored : StoredTable) : String :=
  stored.toJson.indented 0

/-- The stored table that a text writes. -/
def ofText (text : String) : Except TableError StoredTable :=
  match (Json.ofText? text).bind ofJson? with
  | some stored => .ok stored
  | none => .error .json

end StoredTable
end ShiftReduce
