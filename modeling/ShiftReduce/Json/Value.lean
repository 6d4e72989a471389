/-!
JSON values.

Objects keep their entries in order, with repetitions, and numbers keep the form in which they were
written, because both decide later what a value can be decoded as. A string that has half of a
surrogate pair in it is no text; it can be skipped but not used, so strings are optional texts.
-/

namespace ShiftReduce

/-- A number as it is written: its sign, the digits before and after the point, and the exponent. -/
structure JsonNumber where
  negative : Bool := false
  whole : Nat
  /-- The digits after the point, if there is a point. -/
  fraction : Option (List Char) := none
  exponent : Option Int := none
deriving DecidableEq, Repr, Inhabited

/-- A JSON value. -/
inductive Json where
  | null
  | bool (value : Bool)
  | number (number : JsonNumber)
  | string (text : Option String)
  | array (elements : List Json)
  | object (entries : List (Option String × Json))
deriving Repr, Inhabited

namespace Json

/-- A string that is a text. -/
def text (text : String) : Json := .string (some text)

/-- A natural number. -/
def nat (value : Nat) : Json := .number { whole := value }

/-- An object with the given entries. -/
def record (entries : List (String × Json)) : Json :=
  .object (entries.map fun (key, value) => (some key, value))

/-- The largest number that a value is decoded as. -/
def natLimit : Nat := Nat.pow 2 64 - 1

/-- The text of a string. -/
def asText? : Json -> Option String
  | .string text => text
  | _ => none

/-- The value of a number without sign, point and exponent, unless it is too large. -/
def asNat? : Json -> Option Nat
  | .number ⟨false, whole, none, none⟩ => if whole ≤ natLimit then some whole else none
  | _ => none

/-- The value of a truth value. -/
def asBool? : Json -> Option Bool
  | .bool value => some value
  | _ => none

/-- The elements of an array. -/
def asArray? : Json -> Option (List Json)
  | .array elements => some elements
  | _ => none

/-- The texts of an array of strings. -/
def asTexts? (value : Json) : Option (List String) :=
  value.asArray?.bind fun elements => elements.mapM asText?

/-- The entries of an object, all of whose keys have to be texts. -/
def entries? : Json -> Option (List (String × Json))
  | .object entries => entries.mapM fun (key, value) => key.map fun key => (key, value)
  | _ => none

/-- The values of a key. -/
def valuesOf (key : String) (entries : List (String × Json)) : List Json :=
  (entries.filter (·.1 == key)).map (·.2)

/-- The value of a key that stands at most once among the entries: `none` if it stands there more
often, `some none` if it does not stand there at all. -/
def uniqueValue? (entries : List (String × Json)) (key : String) : Option (Option Json) :=
  match valuesOf key entries with
  | [] => some none
  | [value] => some (some value)
  | _ => none

/-- The fields of a record, in the order of `names`. A record is written as an object, where other
keys do not count and none of `names` stands twice, or as the array of its first fields. -/
def fields? (names : List String) : Json -> Option (List (Option Json))
  | .array elements =>
    if names.length < elements.length then none
    else
      some (elements.map some ++ List.replicate (names.length - elements.length) none)
  | value => value.entries?.bind fun entries => names.mapM (uniqueValue? entries)

mutual

/-- How deep arrays and objects are nested. -/
def depth : Json -> Nat
  | .array elements => depthOfElements elements + 1
  | .object entries => depthOfEntries entries + 1
  | _ => 0

/-- The depth of the deepest of several values. -/
def depthOfElements : List Json -> Nat
  | [] => 0
  | value :: rest => max value.depth (depthOfElements rest)

/-- The depth of the deepest value among entries. -/
def depthOfEntries : List (Option String × Json) -> Nat
  | [] => 0
  | (_, value) :: rest => max value.depth (depthOfEntries rest)

end

end Json

namespace JsonNumber

/-- The largest scale that is told apart when numbers are compared with the range of double
precision. -/
def scaleLimit : Nat := 10000

/-- Whether the number is in the range of double precision. -/
def isFinite (number : JsonNumber) : Bool :=
  let digits := number.fraction.getD []
  let mantissa := digits.foldl (fun value c => value * 10 + (c.toNat - '0'.toNat)) number.whole
  let exponent := number.exponent.getD 0 - digits.length
  let limit := Nat.pow 2 1024 - Nat.pow 2 970
  if mantissa = 0 then true
  else if exponent ≤ 0 then mantissa < limit * Nat.pow 10 (min exponent.natAbs scaleLimit)
  else if 400 < exponent then false
  else mantissa * Nat.pow 10 exponent.natAbs < limit

end JsonNumber

namespace Json

mutual

/-- Whether every string inside is a text and every number is in the range of double precision. -/
def isSound : Json -> Bool
  | .number written => written.isFinite
  | .string text => text.isSome
  | .array elements => areSound elements
  | .object entries => haveSound entries
  | _ => true

/-- Whether all of several values are sound. -/
def areSound : List Json -> Bool
  | [] => true
  | value :: rest => value.isSound && areSound rest

/-- Whether all keys and values of some entries are sound. -/
def haveSound : List (Option String × Json) -> Bool
  | [] => true
  | (key, value) :: rest => key.isSome && value.isSound && haveSound rest

end

end Json
end ShiftReduce
