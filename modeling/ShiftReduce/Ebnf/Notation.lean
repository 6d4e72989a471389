import ShiftReduce.Table.Compact

/-!
The grammar of the grammar notation.

The notation is described by a grammar like any other, and read by the table of that grammar.
-/

namespace ShiftReduce
namespace Ebnf

/-- A production whose symbols are plain names. -/
def words (names : List String) (label : Option String := none) : Production :=
  { symbols := names.map .name, label }

/-- The rules of the notation. A grammar is a list of rules; a rule is a name with alternatives; an
alternative is a sequence of items, perhaps with a label; and an item is a name or a group, perhaps
with a suffix. -/
def rules : List Rule :=
  [⟨"grammar", [{ symbols := [.repeat0 [.name "rule"]], label := some "Grammar" }]⟩,
    ⟨"rule", [words ["ident", "=", "alts", ";"]]⟩,
    ⟨"alts", [{ symbols := [.name "seq", .repeat0 [.name "|", .name "seq"]] }]⟩,
    ⟨"seq",
      [{ symbols := [.repeat0 [.name "item"], .optional [.name "@", .name "ident"]] }]⟩,
    ⟨"item", [{ symbols := [.name "atom", .optional [.name "suffix"]] }]⟩,
    ⟨"atom",
      [words ["ident"] (some "Name"),
        words ["quoted"] (some "Name"),
        words ["(", "alts", ")"] (some "Group"),
        words ["[", "alts", "]"] (some "Option")]⟩,
    ⟨"suffix",
      [words ["*"] (some "Star"),
        words ["+"] (some "Plus"),
        words ["?"] (some "Question"),
        words ["\x7b", "number", "\x7d"] (some "Exact"),
        words ["\x7b", "number", ",", "\x7d"] (some "AtLeast"),
        words ["\x7b", "number", ",", "number", "\x7d"] (some "Between"),
        words ["\x7b", ",", "number", "\x7d"] (some "AtMost")]⟩]

/-- The grammar of the notation. -/
def grammar : Grammar := ⟨rules, by decide⟩

/-- The table that the notation is read by. -/
def table : Table :=
  match grammar.compile with
  | .ok table => table
  | .error _ => ⟨#[], "grammar", []⟩

end Ebnf
end ShiftReduce
