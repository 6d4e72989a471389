import ShiftReduce.Proofs.Grammar.Drafts

namespace ShiftReduce

/-!
# The language of a grammar

A grammar is understood without helpers, tables or collections.  An operator stands for one of the
sequences that it unfolds to, a rule for one of its productions, and every other name for itself.  A
sentence is a string of names that the root derives in this way.

A repetition unfolds to copies of its body.  How many there may be is written out for each operator,
so that the definition can be read next to the notation; the bounds that helpers work with are
related to it afterwards.
-/

namespace Symbol

/-- The sequences that an operator stands for. -/
inductive Unfolds : Symbol -> List Symbol -> Prop where
  | repeat0 (body : List Symbol) (count : Nat) :
      Unfolds (.repeat0 body) (List.replicate count body).flatten
  | repeat1 (body : List Symbol) (count : Nat) (positive : 1 ≤ count) :
      Unfolds (.repeat1 body) (List.replicate count body).flatten
  | absent (body : List Symbol) : Unfolds (.optional body) []
  | present (body : List Symbol) : Unfolds (.optional body) body
  | branch (branches : List (List Symbol)) (branch : List Symbol) (member : branch ∈ branches) :
      Unfolds (.alternation branches) branch
  | bounded (least most : Nat) (body : List Symbol) (count : Nat) (enough : least ≤ count)
      (limited : most ≠ 0 -> count ≤ most) :
      Unfolds (.bounded least most body) (List.replicate count body).flatten

open Draft

theorem Unfolds.of_within {symbol : Symbol} {least most : Nat} {body : List Symbol}
    (repeats : repetition? symbol = some (least, most, body)) {count : Nat}
    (within : Within least most count) : symbol.Unfolds (repeated count body) := by
  rcases within with ⟨enough, limited⟩
  cases symbol with
  | name word => cases repeats
  | repeat0 inner =>
      cases repeats
      exact .repeat0 body count
  | repeat1 inner =>
      cases repeats
      exact .repeat1 body count enough
  | optional inner =>
      cases repeats
      have few : count = 0 ∨ count = 1 := by omega
      rcases few with rfl | rfl
      · exact .absent body
      · rw [repeated_one]
        exact .present body
  | alternation branches => cases repeats
  | bounded fewest greatest inner =>
      cases repeats
      refine .bounded least most body count enough ?_
      exact fun limit => limited.resolve_left limit

/-- An operator unfolds to copies of its body within its bounds, or to a branch. -/
theorem Unfolds.cases {symbol : Symbol} {unfolded : List Symbol}
    (unfolds : symbol.Unfolds unfolded) :
    (Exists fun least => Exists fun most => Exists fun body => Exists fun count =>
      repetition? symbol = some (least, most, body) ∧ Within least most count ∧
        unfolded = repeated count body) ∨
      Exists fun branches => symbol = .alternation branches ∧ unfolded ∈ branches := by
  cases unfolds with
  | repeat0 body count => exact Or.inl ⟨0, 0, body, count, rfl, ⟨Nat.zero_le _, Or.inl rfl⟩, rfl⟩
  | repeat1 body count positive =>
      exact Or.inl ⟨1, 0, body, count, rfl, ⟨positive, Or.inl rfl⟩, rfl⟩
  | absent body =>
      exact Or.inl ⟨0, 1, body, 0, rfl, ⟨Nat.le_refl _, Or.inr (Nat.zero_le _)⟩, rfl⟩
  | present body =>
      refine Or.inl ⟨0, 1, unfolded, 1, rfl, ⟨Nat.zero_le _, Or.inr (Nat.le_refl _)⟩, ?_⟩
      exact (repeated_one unfolded).symm
  | branch branches branch member => exact Or.inr ⟨branches, rfl, member⟩
  | bounded least most body count enough limited =>
      refine Or.inl ⟨least, most, body, count, rfl, ⟨enough, ?_⟩, rfl⟩
      exact (Nat.eq_zero_or_pos most).imp_right fun limit => limited (Nat.ne_of_gt limit)

theorem asName?_of_unfolds {symbol : Symbol} {unfolded : List Symbol}
    (unfolds : symbol.Unfolds unfolded) : symbol.asName? = none := by
  cases unfolds <;> rfl

end Symbol

namespace Grammar

/-- The names of the rules. -/
def ruleNames (grammar : Grammar) : List String := grammar.rules.map Rule.name

/-- The strings of names that a sequence stands for. -/
inductive Derives (grammar : Grammar) : List Symbol -> List String -> Prop where
  | nil : Derives grammar [] []
  | token (name : String) (rest : List Symbol) (back : List String)
      (terminal : name ∉ grammar.ruleNames) (later : Derives grammar rest back) :
      Derives grammar (.name name :: rest) (name :: back)
  | rule (rule : Rule) (production : Production) (rest : List Symbol) (front back : List String)
      (listed : rule ∈ grammar.rules) (chosen : production ∈ rule.productions)
      (body : Derives grammar production.symbols front) (later : Derives grammar rest back) :
      Derives grammar (.name rule.name :: rest) (front ++ back)
  | operator (symbol : Symbol) (unfolded rest : List Symbol) (front back : List String)
      (unfolds : symbol.Unfolds unfolded) (body : Derives grammar unfolded front)
      (later : Derives grammar rest back) : Derives grammar (symbol :: rest) (front ++ back)

/-- The strings that the root stands for. -/
def Sentence (grammar : Grammar) (word : List String) : Prop :=
  Exists fun root => grammar.root? = some root ∧ grammar.Derives [.name root] word

variable {grammar : Grammar}

theorem Derives.append {left right : List Symbol} {front back : List String}
    (first : grammar.Derives left front) (second : grammar.Derives right back) :
    grammar.Derives (left ++ right) (front ++ back) := by
  induction first with
  | nil => exact second
  | token name rest middle terminal _ inductionHypothesis =>
      exact .token name (rest ++ right) (middle ++ back) terminal inductionHypothesis
  | rule rule production rest inner middle listed chosen body _ _ inductionHypothesis =>
      rw [List.append_assoc]
      exact .rule rule production (rest ++ right) inner (middle ++ back) listed chosen body
        inductionHypothesis
  | operator symbol unfolded rest inner middle unfolds body _ _ inductionHypothesis =>
      rw [List.append_assoc]
      exact .operator symbol unfolded (rest ++ right) inner (middle ++ back) unfolds body
        inductionHypothesis

/-- Copies of symbols derive copies of a string. -/
theorem Derives.copies {body : List Symbol} {word : List String}
    (derives : grammar.Derives body word) (count : Nat) :
    grammar.Derives (List.replicate count body).flatten (List.replicate count word).flatten := by
  induction count with
  | zero => exact .nil
  | succ count inductionHypothesis =>
      rw [List.replicate_succ, List.replicate_succ, List.flatten_cons, List.flatten_cons]
      exact derives.append inductionHypothesis

theorem root_mem_ruleNames {root : String} (isRoot : grammar.root? = some root) :
    root ∈ grammar.ruleNames := by
  rcases Option.map_eq_some_iff.mp isRoot with ⟨rule, first, name⟩
  rw [← name]
  exact List.mem_map_of_mem (List.mem_of_mem_head? first)

/-- A sentence is derived by a production of the root. -/
theorem Sentence.production {word : List String} (sentence : grammar.Sentence word) :
    Exists fun rule => Exists fun production => rule ∈ grammar.rules ∧
      grammar.root? = some rule.name ∧ production ∈ rule.productions ∧
      grammar.Derives production.symbols word := by
  rcases sentence with ⟨root, isRoot, derives⟩
  cases derives with
  | token _ _ back terminal _ => exact (terminal (root_mem_ruleNames isRoot)).elim
  | rule rule production _ front back listed chosen body later =>
      cases later
      rw [List.append_nil]
      exact ⟨rule, production, listed, isRoot, chosen, body⟩
  | operator _ unfolded _ front back unfolds => cases unfolds

end Grammar

end ShiftReduce
