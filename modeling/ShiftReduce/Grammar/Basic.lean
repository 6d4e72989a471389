import ShiftReduce.Grammar.Emit
import ShiftReduce.Grammar.Symbol

/-!
Grammars.

A grammar is an ordered list of rules with distinct names, the first of which is the root. Adding
productions to a name that is there already extends its rule where it stands, so the list keeps the
order in which rules were first mentioned.
-/

namespace ShiftReduce

/-- One way to expand a rule. -/
structure Production where
  symbols : List Symbol
  emit : Emit := .report
  /-- The name a reduction is reported under, in place of the rule's own. -/
  label : Option String := none
deriving DecidableEq, Repr, Inhabited

/-- A name with the ways to expand it. -/
structure Rule where
  name : String
  productions : List Production
deriving DecidableEq, Repr, Inhabited

/-- An ordered set of rules. -/
structure Grammar where
  rules : List Rule
  /-- No two rules have the same name. -/
  distinct : (rules.map Rule.name).Nodup
deriving DecidableEq, Repr

namespace Grammar

/-- The grammar without rules. -/
def empty : Grammar := ⟨[], List.nodup_nil⟩

instance : Inhabited Grammar := ⟨empty⟩

/-- Appends productions to the first rule of that name, or a rule of that name to the rules. -/
def extend (name : String) (productions : List Production) : List Rule -> List Rule
  | [] => [⟨name, productions⟩]
  | rule :: rules =>
    if rule.name = name then { rule with productions := rule.productions ++ productions } :: rules
    else rule :: extend name productions rules

theorem mem_names_extend (name : String) (productions : List Production) (rules : List Rule)
    (other : String) :
    other ∈ (extend name productions rules).map Rule.name ↔
      other = name ∨ other ∈ rules.map Rule.name := by
  induction rules with
  | nil => simp [extend]
  | cons rule rules inductionHypothesis =>
      simp only [extend]
      by_cases same : rule.name = name
      · rw [if_pos same]
        simp only [List.map_cons, List.mem_cons, same]
        exact ⟨Or.inr, fun found => found.elim Or.inl id⟩
      · rw [if_neg same]
        simp only [List.map_cons, List.mem_cons, inductionHypothesis]
        exact or_left_comm

theorem nodup_names_extend (name : String) (productions : List Production) (rules : List Rule)
    (distinct : (rules.map Rule.name).Nodup) :
    ((extend name productions rules).map Rule.name).Nodup := by
  induction rules with
  | nil => simp [extend]
  | cons rule rules inductionHypothesis =>
      have parts := List.nodup_cons.mp distinct
      simp only [extend]
      by_cases same : rule.name = name
      · rw [if_pos same]
        exact distinct
      · rw [if_neg same]
        refine List.nodup_cons.mpr ⟨?_, inductionHypothesis parts.2⟩
        rw [mem_names_extend]
        exact fun found => found.elim same parts.1

/-- Adds productions to the rule `name`, creating it at the end if there is none. -/
def addRule (grammar : Grammar) (name : String) (productions : List Production) : Grammar :=
  ⟨extend name productions grammar.rules,
    nodup_names_extend name productions grammar.rules grammar.distinct⟩

/-- The grammar of a list of rules, in which a name may occur more than once. -/
def ofRules (rules : List Rule) : Grammar :=
  rules.foldl (fun grammar rule => grammar.addRule rule.name rule.productions) empty

/-- The name of the root, which is the first rule. -/
def root? (grammar : Grammar) : Option String :=
  grammar.rules.head?.map (·.name)

/-- The rule of that name. -/
def get? (grammar : Grammar) (name : String) : Option Rule :=
  grammar.rules.find? (·.name == name)

/-- Whether there is a rule of that name. -/
def contains (grammar : Grammar) (name : String) : Bool :=
  (grammar.get? name).isSome

/-- Whether there is no rule at all. -/
def isEmpty (grammar : Grammar) : Bool :=
  grammar.rules.isEmpty

/-- The names a rule mentions, in the order of its productions and symbols. -/
def namesOfRule (rule : Rule) : List String :=
  rule.productions.flatMap fun production => production.symbols.flatMap Symbol.names

/-- Keeps the first pair for each second component. -/
def firstMentions : List (String × String) -> List String -> List (String × String)
  | [], _ => []
  | (rule, name) :: rest, seen =>
    if name ∈ seen then firstMentions rest seen
    else (rule, name) :: firstMentions rest (name :: seen)

/-- The names that are mentioned but are not rules, each with the first rule that mentions it. They
are the tokens of the grammar. -/
def danglingReferences (grammar : Grammar) : List (String × String) :=
  let mentions := grammar.rules.flatMap fun rule => (namesOfRule rule).map fun name => (rule.name, name)
  firstMentions (mentions.filter fun mention => !grammar.contains mention.2) []

end Grammar
end ShiftReduce
