import Mathlib.Computability.Language
import Mathlib.Order.CompletePartialOrder
import ShiftReduce.Proofs.Grammar.Forests
import ShiftReduce.Proofs.Grammar.Normal
import ShiftReduce.Proofs.Parse.Reports

namespace ShiftReduce

/-!
# What right-hand sides denote

Read as a regular expression, a right-hand side denotes a language over names.  A sequence is a product
of languages, a choice is a sum, and a repetition is a power or a sum of powers.  The strings of this
language are those that match the right-hand side.

Simplification keeps the language, and this is algebra.  A choice between one branch is a sum of one
language, a choice that is a whole branch is a sum in a sum, and a choice without branches is zero.  The
body of a repetition keeps its language when a group in it is inlined, however long it gets.
-/

namespace Symbol

open Computability

mutual

/-- The strings of names that a symbol denotes. -/
def language : Symbol -> Language String
  | .name word => {[word]}
  | .repeat0 body => (languageOfSequence body)∗
  | .repeat1 body => languageOfSequence body * (languageOfSequence body)∗
  | .optional body => 1 + languageOfSequence body
  | .alternation branches => languageOfBranches branches
  | .bounded least most body =>
    ⨆ (count : Nat) (_within : least ≤ count ∧ (most ≠ 0 -> count ≤ most)),
      languageOfSequence body ^ count

/-- The strings of names that a sequence denotes. -/
def languageOfSequence : List Symbol -> Language String
  | [] => 1
  | symbol :: rest => symbol.language * languageOfSequence rest

/-- The strings of names that one of several sequences denotes. -/
def languageOfBranches : List (List Symbol) -> Language String
  | [] => 0
  | branch :: rest => languageOfSequence branch + languageOfBranches rest

end

/-! ## Sums and products -/

theorem languageOfSequence_append (left right : List Symbol) :
    languageOfSequence (left ++ right) = languageOfSequence left * languageOfSequence right := by
  induction left with
  | nil => rw [List.nil_append, languageOfSequence, one_mul]
  | cons symbol rest inductionHypothesis =>
      rw [List.cons_append, languageOfSequence, languageOfSequence, inductionHypothesis, mul_assoc]

theorem languageOfSequence_replicate (count : Nat) (body : List Symbol) :
    languageOfSequence (List.replicate count body).flatten = languageOfSequence body ^ count := by
  induction count with
  | zero => rw [List.replicate_zero, List.flatten_nil, languageOfSequence, pow_zero]
  | succ count inductionHypothesis =>
      rw [List.replicate_succ, List.flatten_cons, languageOfSequence_append, inductionHypothesis,
        pow_succ']

theorem languageOfBranches_append (left right : List (List Symbol)) :
    languageOfBranches (left ++ right) = languageOfBranches left + languageOfBranches right := by
  induction left with
  | nil => rw [List.nil_append, languageOfBranches, zero_add]
  | cons branch rest inductionHypothesis =>
      rw [List.cons_append, languageOfBranches, languageOfBranches, inductionHypothesis, add_assoc]

theorem mem_languageOfBranches {branches : List (List Symbol)} {word : List String} :
    word ∈ languageOfBranches branches ↔
      Exists fun branch => branch ∈ branches ∧ word ∈ languageOfSequence branch := by
  induction branches with
  | nil => simp [languageOfBranches]
  | cons branch rest inductionHypothesis =>
      rw [languageOfBranches, Language.mem_add, inductionHypothesis]
      simp

/-! ## Strings that match -/

/-- A repetition denotes the powers of its body that are counts of it. -/
theorem mem_language_repeat0 {body : List Symbol} {word : List String} :
    word ∈ (repeat0 body).language ↔
      Exists fun count => word ∈ languageOfSequence body ^ count := by
  rw [language, Language.kstar_eq_iSup_pow, Language.mem_iSup]

theorem mem_language_repeat1 {body : List Symbol} {word : List String} :
    word ∈ (repeat1 body).language ↔
      Exists fun count => 1 ≤ count ∧ word ∈ languageOfSequence body ^ count := by
  rw [language, Language.kstar_eq_iSup_pow, Language.mul_iSup, Language.mem_iSup]
  constructor
  · rintro ⟨count, member⟩
    exact ⟨count + 1, Nat.succ_pos count, by rwa [pow_succ']⟩
  · rintro ⟨count, positive, member⟩
    rcases Nat.exists_eq_add_of_le' positive with ⟨fewer, rfl⟩
    exact ⟨fewer, by rwa [← pow_succ']⟩

theorem mem_language_bounded {least most : Nat} {body : List Symbol} {word : List String} :
    word ∈ (bounded least most body).language ↔
      Exists fun count => (least ≤ count ∧ (most ≠ 0 -> count ≤ most)) ∧
        word ∈ languageOfSequence body ^ count := by
  simp only [language, Language.mem_iSup, exists_prop]

/-- What an operator stands for denotes a part of what the operator denotes. -/
theorem Unfolds.language_le {symbol : Symbol} {unfolded : List Symbol}
    (unfolds : symbol.Unfolds unfolded) {word : List String}
    (member : word ∈ languageOfSequence unfolded) : word ∈ symbol.language := by
  cases unfolds with
  | repeat0 body count =>
      rw [languageOfSequence_replicate] at member
      exact mem_language_repeat0.mpr ⟨count, member⟩
  | repeat1 body count positive =>
      rw [languageOfSequence_replicate] at member
      exact mem_language_repeat1.mpr ⟨count, positive, member⟩
  | absent body => exact Or.inl member
  | present body => exact Or.inr member
  | branch branches branch listed => exact mem_languageOfBranches.mpr ⟨unfolded, listed, member⟩
  | bounded least most body count enough limited =>
      rw [languageOfSequence_replicate] at member
      exact mem_language_bounded.mpr ⟨count, ⟨enough, limited⟩, member⟩

/-- Every string that an operator denotes is denoted by a sequence that it stands for. -/
theorem unfolds_of_mem_language {symbol : Symbol} (operator : symbol.asName? = none)
    {word : List String} (member : word ∈ symbol.language) :
    Exists fun unfolded => symbol.Unfolds unfolded ∧ word ∈ languageOfSequence unfolded := by
  cases symbol with
  | name word => cases operator
  | repeat0 body =>
      rcases mem_language_repeat0.mp member with ⟨count, copies⟩
      exact ⟨_, .repeat0 body count, by rwa [languageOfSequence_replicate]⟩
  | repeat1 body =>
      rcases mem_language_repeat1.mp member with ⟨count, positive, copies⟩
      exact ⟨_, .repeat1 body count positive, by rwa [languageOfSequence_replicate]⟩
  | optional body =>
      rw [language, Language.mem_add] at member
      rcases member with absent | present
      · exact ⟨[], .absent body, absent⟩
      · exact ⟨body, .present body, present⟩
  | alternation branches =>
      rw [language] at member
      rcases mem_languageOfBranches.mp member with ⟨branch, listed, inBranch⟩
      exact ⟨branch, .branch branches branch listed, inBranch⟩
  | bounded least most body =>
      rcases mem_language_bounded.mp member with ⟨count, ⟨enough, limited⟩, copies⟩
      exact ⟨_, .bounded least most body count enough limited, by rwa [languageOfSequence_replicate]⟩

/-- A sequence matches what it denotes if each of its symbols does. -/
private theorem matches_sequence {symbols : List Symbol}
    (each : forall symbol, symbol ∈ symbols -> forall word, word ∈ symbol.language ->
      Matches [symbol] word) {word : List String} (member : word ∈ languageOfSequence symbols) :
    Matches symbols word := by
  induction symbols generalizing word with
  | nil =>
      rw [languageOfSequence, Language.mem_one] at member
      rw [member]
      exact .nil
  | cons symbol rest inductionHypothesis =>
      rw [languageOfSequence, Language.mem_mul] at member
      rcases member with ⟨front, inFirst, back, inRest, rfl⟩
      have later := inductionHypothesis
        (fun other listed => each other (List.mem_cons_of_mem _ listed)) inRest
      exact (each symbol List.mem_cons_self front inFirst).append later

theorem matches_symbol (symbol : Symbol) {word : List String} (member : word ∈ symbol.language) :
    Matches [symbol] word := by
  induction symbol using induction_on_children generalizing word with
  | step symbol inductionHypothesis =>
      cases isName : symbol.asName? with
      | some name =>
          have same := Draft.eq_name_of_asName? isName
          subst same
          rw [language] at member
          rw [Set.mem_singleton_iff.mp member]
          exact .name name [] [] .nil
      | none =>
          rcases unfolds_of_mem_language isName member with ⟨unfolded, unfolds, inUnfolded⟩
          have body := matches_sequence (fun child listed word inChild =>
            inductionHypothesis child (unfolds.admits.mem_children listed) inChild) inUnfolded
          have whole := Matches.operator symbol unfolded [] word [] unfolds body .nil
          rwa [List.append_nil] at whole

/-- The strings that match a sequence are those that it denotes. -/
theorem matches_iff_mem_language {symbols : List Symbol} {word : List String} :
    Matches symbols word ↔ word ∈ languageOfSequence symbols := by
  refine ⟨fun fits => ?_, matches_sequence fun symbol _ _ => matches_symbol symbol⟩
  induction fits with
  | nil => exact Language.nil_mem_one
  | name word rest back _ inductionHypothesis =>
      exact Language.append_mem_mul (Set.mem_singleton [word]) inductionHypothesis
  | operator symbol unfolded rest front back unfolds _ _ bodyHypothesis laterHypothesis =>
      exact Language.append_mem_mul (unfolds.language_le bodyHypothesis) laterHypothesis

/-! ## Simplification -/

theorem languageOfSequence_inlineGroups (sequence : List Symbol) :
    languageOfSequence (inlineGroups sequence) = languageOfSequence sequence := by
  induction sequence with
  | nil => rfl
  | cons symbol rest inductionHypothesis =>
      unfold inlineGroups at inductionHypothesis ⊢
      rw [List.flatMap_cons, languageOfSequence_append, inductionHypothesis, languageOfSequence]
      split
      next branch => rw [language, languageOfBranches, languageOfBranches, add_zero]
      next other => rw [languageOfSequence, languageOfSequence, mul_one]

theorem languageOfBranches_flattenChoices (branches : List (List Symbol)) :
    languageOfBranches (flattenChoices branches) = languageOfBranches branches := by
  induction branches with
  | nil => rfl
  | cons branch rest inductionHypothesis =>
      unfold flattenChoices at inductionHypothesis ⊢
      rw [List.flatMap_cons, languageOfBranches_append, inductionHypothesis, languageOfBranches,
        ← languageOfSequence_inlineGroups branch]
      dsimp only
      split
      next inner sole =>
        rw [(eq_of_soleChoice sole).1, languageOfSequence, languageOfSequence, language, mul_one]
      next => rw [languageOfBranches, languageOfBranches, add_zero]

/-- What keeps the language of each symbol keeps that of a sequence. -/
theorem languageOfSequence_simplifyEach {symbols : List Symbol}
    (each : forall symbol, symbol ∈ symbols -> symbol.simplify.language = symbol.language) :
    languageOfSequence (simplifyEach symbols) = languageOfSequence symbols := by
  induction symbols with
  | nil => rfl
  | cons symbol rest inductionHypothesis =>
      rw [simplifyEach, languageOfSequence, languageOfSequence, each symbol List.mem_cons_self,
        inductionHypothesis fun other listed => each other (List.mem_cons_of_mem _ listed)]

theorem languageOfBranches_simplifyBranches {branches : List (List Symbol)}
    (each : forall symbol, symbol ∈ branches.flatten -> symbol.simplify.language = symbol.language) :
    languageOfBranches (simplifyBranches branches) = languageOfBranches branches := by
  induction branches with
  | nil => rfl
  | cons branch rest inductionHypothesis =>
      rw [simplifyBranches, languageOfBranches, languageOfBranches,
        languageOfSequence_simplifyEach fun symbol listed =>
          each symbol (List.mem_append_left _ listed),
        inductionHypothesis fun symbol listed => each symbol (List.mem_append_right _ listed)]

theorem language_simplify (symbol : Symbol) : symbol.simplify.language = symbol.language := by
  induction symbol using induction_on_children with
  | step symbol inductionHypothesis =>
      have body : forall body : List Symbol, (forall child, child ∈ body -> child ∈ symbol.children) ->
          languageOfSequence (inlineGroups (simplifyEach body)) = languageOfSequence body := by
        intro body among
        rw [languageOfSequence_inlineGroups, languageOfSequence_simplifyEach fun child listed =>
          inductionHypothesis child (among child listed)]
      cases symbol with
      | name word => rfl
      | repeat0 inner => rw [simplify, language, language, body inner fun _ => id]
      | repeat1 inner => rw [simplify, language, language, body inner fun _ => id]
      | optional inner => rw [simplify, language, language, body inner fun _ => id]
      | bounded least most inner => rw [simplify, language, language, body inner fun _ => id]
      | alternation branches =>
          rw [simplify, language, language, languageOfBranches_flattenChoices,
            languageOfBranches_simplifyBranches inductionHypothesis]

theorem languageOfSequence_simplifySequence (symbols : List Symbol) :
    languageOfSequence (simplifySequence symbols) = languageOfSequence symbols := by
  rw [simplifySequence, languageOfSequence_inlineGroups,
    languageOfSequence_simplifyEach fun symbol _ => symbol.language_simplify]

end Symbol

/-- A simplified production matches the strings that it matched before, and its effect and its label are
what they were. -/
theorem Production.simplify_faithful (production : Production) :
    (forall word, Symbol.Matches production.simplify.symbols word ↔
      Symbol.Matches production.symbols word) ∧
    production.simplify.emit = production.emit ∧ production.simplify.label = production.label := by
  refine ⟨fun word => ?_, rfl, rfl⟩
  have same : Symbol.languageOfSequence production.simplify.symbols =
      Symbol.languageOfSequence production.symbols :=
    Symbol.languageOfSequence_simplifySequence production.symbols
  rw [Symbol.matches_iff_mem_language, same, Symbol.matches_iff_mem_language]

end ShiftReduce
