import Mathlib.Data.List.Forall2
import ShiftReduce.Proofs.Grammar.Admissible

namespace ShiftReduce

/-!
# Grammars that are refused

A grammar has no plain grammar if it has no rule, or if one of its operators is malformed: there is
nothing that it could repeat or choose from, or it asks for more repetitions than it allows.  Operators
are looked at when the helper that carries them is rewritten, so a malformed one could go unnoticed if
the helper of the operator around it had no production with that body.  It always has one.  A body that
is left out of a repetition's first production stands in the one that grows.

A refused grammar therefore has a draft with a malformed operator directly in it, and in a grammar that
is not refused every operator, however deep it is nested, stands in some draft and has a helper.
-/

namespace Symbol

/-- The operator has nothing to go over. -/
def Hollow : Symbol -> Prop
  | .name _ => False
  | .repeat0 body => body = []
  | .repeat1 body => body = []
  | .optional body => body = []
  | .alternation branches => branches = []
  | .bounded _ _ body => body = []

/-- The operator is limited to fewer repetitions than it needs. -/
def Inverted : Symbol -> Prop
  | .bounded least most _ => most ≠ 0 ∧ most < least
  | _ => False

/-- The operator cannot be rewritten. -/
def Malformed (symbol : Symbol) : Prop :=
  symbol.Hollow ∨ symbol.Inverted

instance : DecidablePred Hollow
  | .name _ => inferInstanceAs (Decidable False)
  | .repeat0 body => inferInstanceAs (Decidable (body = []))
  | .repeat1 body => inferInstanceAs (Decidable (body = []))
  | .optional body => inferInstanceAs (Decidable (body = []))
  | .alternation branches => inferInstanceAs (Decidable (branches = []))
  | .bounded _ _ body => inferInstanceAs (Decidable (body = []))

instance : DecidablePred Inverted
  | .bounded least most _ => inferInstanceAs (Decidable (most ≠ 0 ∧ most < least))
  | .name _ | .repeat0 _ | .repeat1 _ | .optional _ | .alternation _ =>
    inferInstanceAs (Decidable False)

instance : DecidablePred Malformed := fun symbol =>
  inferInstanceAs (Decidable (symbol.Hollow ∨ symbol.Inverted))

/-- How a malformed operator in the rule `owner` is complained about. -/
inductive Fault (owner : String) : Symbol -> GrammarError -> Prop where
  | hollow (symbol : Symbol) (hollow : symbol.Hollow) :
      Fault owner symbol (.emptyBody owner symbol.kind)
  | inverted (least most : Nat) (body : List Symbol) (solid : body ≠ []) (limited : most ≠ 0)
      (less : most < least) : Fault owner (.bounded least most body) (.invalidBounds owner least most)

/-- Every malformed operator is complained about, and no other. -/
theorem malformed_iff_fault (owner : String) (symbol : Symbol) :
    symbol.Malformed ↔ Exists fun failure => symbol.Fault owner failure := by
  constructor
  · intro malformed
    by_cases hollow : symbol.Hollow
    · exact ⟨_, .hollow symbol hollow⟩
    · cases symbol with
      | bounded least most body =>
          have inverted := malformed.resolve_left hollow
          exact ⟨_, .inverted least most body hollow inverted.1 inverted.2⟩
      | name word => exact (malformed.resolve_left hollow).elim
      | repeat0 body => exact (malformed.resolve_left hollow).elim
      | repeat1 body => exact (malformed.resolve_left hollow).elim
      | optional body => exact (malformed.resolve_left hollow).elim
      | alternation branches => exact (malformed.resolve_left hollow).elim
  · rintro ⟨failure, fault⟩
    cases fault with
    | hollow _ hollow => exact Or.inl hollow
    | inverted least most body _ limited less => exact Or.inr ⟨limited, less⟩

theorem Fault.operator {owner : String} {symbol : Symbol} {failure : GrammarError}
    (fault : symbol.Fault owner failure) : symbol.asName? = none := by
  cases fault with
  | inverted least most body _ _ _ => rfl
  | hollow _ hollow =>
      cases symbol with
      | name word => exact hollow.elim
      | repeat0 body => rfl
      | repeat1 body => rfl
      | optional body => rfl
      | alternation branches => rfl
      | bounded least most body => rfl

end Symbol

namespace Draft

/-! ## One operator -/

theorem expand_of_fault {owner : String} (helper : String) {symbol : Symbol} {failure : GrammarError}
    (fault : symbol.Fault owner failure) : expand owner helper symbol = .error failure := by
  cases fault with
  | inverted least most body solid limited less =>
      have bodied : ¬ body.isEmpty = true := fun empty => solid (List.isEmpty_iff.mp empty)
      unfold expand
      dsimp only
      rw [if_neg bodied, if_pos ⟨limited, less⟩]
  | hollow _ hollow =>
      cases symbol with
      | name word => exact hollow.elim
      | repeat0 body => exact if_pos (List.isEmpty_iff.mpr hollow)
      | repeat1 body => exact if_pos (List.isEmpty_iff.mpr hollow)
      | optional body => exact if_pos (List.isEmpty_iff.mpr hollow)
      | alternation branches => exact if_pos (List.isEmpty_iff.mpr hollow)
      | bounded least most body => exact if_pos (List.isEmpty_iff.mpr hollow)

theorem expand_of_not_malformed (owner helper : String) {symbol : Symbol}
    (sound : ¬ symbol.Malformed) :
    Exists fun productions => expand owner helper symbol = .ok productions := by
  have solid : ¬ symbol.Hollow := fun hollow => sound (Or.inl hollow)
  cases symbol with
  | name word => exact ⟨_, rfl⟩
  | repeat0 body => exact ⟨_, if_neg fun empty => solid (List.isEmpty_iff.mp empty)⟩
  | repeat1 body => exact ⟨_, if_neg fun empty => solid (List.isEmpty_iff.mp empty)⟩
  | optional body => exact ⟨_, if_neg fun empty => solid (List.isEmpty_iff.mp empty)⟩
  | alternation branches => exact ⟨_, if_neg fun empty => solid (List.isEmpty_iff.mp empty)⟩
  | bounded least most body =>
      have bodied : ¬ body.isEmpty = true := fun empty => solid (List.isEmpty_iff.mp empty)
      have ordered : ¬ (most ≠ 0 ∧ most < least) := fun inverted => sound (Or.inr inverted)
      unfold expand
      dsimp only
      rw [if_neg bodied, if_neg ordered]
      split <;> exact ⟨_, rfl⟩

/-- An operator is refused for its fault and for nothing else. -/
theorem expand_eq_error_iff {owner helper : String} {symbol : Symbol} {failure : GrammarError} :
    expand owner helper symbol = .error failure ↔ symbol.Fault owner failure := by
  refine ⟨fun refused => ?_, expand_of_fault helper⟩
  by_cases malformed : symbol.Malformed
  · rcases (Symbol.malformed_iff_fault owner symbol).mp malformed with ⟨other, fault⟩
    cases refused.symm.trans (expand_of_fault helper fault)
    exact fault
  · rcases expand_of_not_malformed owner helper malformed with ⟨productions, expanded⟩
    cases refused.symm.trans expanded

theorem not_malformed_of_expand {owner helper : String} {symbol : Symbol}
    {productions : List Production} (expanded : expand owner helper symbol = .ok productions) :
    ¬ symbol.Malformed := by
  intro malformed
  rcases (Symbol.malformed_iff_fault owner symbol).mp malformed with ⟨failure, fault⟩
  cases expanded.symm.trans (expand_of_fault helper fault)

/-- What is repeated at least once stands in a production: the first one, or if that has no copy the
one that grows. -/
private theorem Suffices.production_of_body {helper : String} {symbol inner : Symbol}
    {productions : List Production} (suffice : Suffices helper symbol productions)
    (fits : FloorFits symbol) {least most count : Nat} {body : List Symbol}
    (repeats : repetition? symbol = some (least, most, body)) (enough : least ≤ count)
    (positive : 0 < count) (allowed : Within least most count ∨ CanGrow symbol)
    (inside : inner ∈ body) :
    Exists fun production => production ∈ productions ∧ inner ∈ production.symbols := by
  rcases suffice.counts fits least most body repeats count enough allowed with
    ⟨first, _, _, start, grow⟩
  cases first with
  | zero => exact ⟨_, grow positive, List.mem_cons_of_mem _ inside⟩
  | succ others =>
      refine ⟨_, start, ?_⟩
      rw [repeated_succ]
      exact List.mem_append_right _ inside

/-- Whatever stands in an operator stands in a production of its helper, if the copies fit. -/
theorem exists_production_of_child {owner helper : String} {symbol inner : Symbol}
    {productions : List Production} (expanded : expand owner helper symbol = .ok productions)
    (fits : FloorFits symbol) (inside : inner ∈ symbol.children) :
    Exists fun production => production ∈ productions ∧ inner ∈ production.symbols := by
  have sound := not_malformed_of_expand expanded
  cases symbol with
  | name word => cases inside
  | repeat0 body =>
      exact (expand_spec rfl expanded).2.production_of_body fits rfl (Nat.zero_le 1) Nat.one_pos
        (Or.inr trivial) inside
  | repeat1 body =>
      exact (expand_spec rfl expanded).2.production_of_body fits rfl (Nat.le_refl 1) Nat.one_pos
        (Or.inr trivial) inside
  | optional body =>
      exact (expand_spec rfl expanded).2.production_of_body fits rfl (Nat.zero_le 1) Nat.one_pos
        (Or.inl ⟨Nat.zero_le 1, Or.inr (Nat.le_refl 1)⟩) inside
  | alternation branches =>
      rcases List.mem_flatten.mp inside with ⟨branch, listed, inBranch⟩
      exact ⟨_, (expand_spec rfl expanded).2.branches branches rfl branch listed, inBranch⟩
  | bounded least most body =>
      have ordered : most = 0 ∨ least ≤ most := by
        by_contra inverted
        exact sound (Or.inr ⟨fun none => inverted (Or.inl none), by omega⟩)
      have within : Within least most (max least 1) := ⟨Nat.le_max_left _ _, by omega⟩
      exact (expand_spec rfl expanded).2.production_of_body fits rfl (Nat.le_max_left least 1)
        (Nat.le_max_right least 1) (Or.inl within) inside

/-! ## All drafts -/

/-- Some operator stands directly in the draft and is refused in its name. -/
def Refused (draft : Draft) (failure : GrammarError) : Prop :=
  Exists fun production => Exists fun symbol => production ∈ draft.productions ∧
    symbol ∈ production.symbols ∧ symbol.Fault draft.name failure

private theorem rewriteSymbols_eq_error {owner : String} {production start : Nat}
    {symbols : List Symbol} {failure : GrammarError}
    (failed : rewriteSymbols owner production start symbols = .error failure) :
    Exists fun symbol => symbol ∈ symbols ∧ symbol.Fault owner failure := by
  induction symbols generalizing start with
  | nil => cases failed
  | cons symbol rest inductionHypothesis =>
      have later : rewriteSymbols owner production (start + 1) rest = .error failure ->
          Exists fun other => other ∈ symbol :: rest ∧ other.Fault owner failure := by
        intro failed
        rcases inductionHypothesis failed with ⟨other, listed, fault⟩
        exact ⟨other, List.mem_cons_of_mem _ listed, fault⟩
      cases isName : symbol.asName? with
      | some word =>
          rw [eq_name_of_asName? isName, rewriteSymbols] at failed
          rcases of_bind_eq_error failed with failedLater | ⟨_, _, impossible⟩
          · exact later failedLater
          · cases impossible
      | none =>
          rw [rewriteSymbols_operator isName] at failed
          rcases of_bind_eq_error failed with refused | ⟨_, _, remaining⟩
          · exact ⟨symbol, List.mem_cons_self, expand_eq_error_iff.mp refused⟩
          · rcases of_bind_eq_error remaining with failedLater | ⟨_, _, impossible⟩
            · exact later failedLater
            · cases impossible

private theorem rewriteProductions_eq_error {owner : String} {start : Nat}
    {productions : List Production} {failure : GrammarError}
    (failed : rewriteProductions owner start productions = .error failure) :
    Exists fun production => Exists fun symbol => production ∈ productions ∧
      symbol ∈ production.symbols ∧ symbol.Fault owner failure := by
  induction productions generalizing start with
  | nil => cases failed
  | cons production rest inductionHypothesis =>
      rw [rewriteProductions] at failed
      rcases of_bind_eq_error failed with here | ⟨_, _, remaining⟩
      · rw [rewriteProduction] at here
        rcases of_bind_eq_error here with inSymbols | ⟨_, _, impossible⟩
        · rcases rewriteSymbols_eq_error inSymbols with ⟨symbol, inside, fault⟩
          exact ⟨production, symbol, List.mem_cons_self, inside, fault⟩
        · cases impossible
      · rcases of_bind_eq_error remaining with later | ⟨_, _, impossible⟩
        · rcases inductionHypothesis later with ⟨other, symbol, listed, inside, fault⟩
          exact ⟨other, symbol, List.mem_cons_of_mem _ listed, inside, fault⟩
        · cases impossible

theorem rewriteEach_eq_error {drafts : List Draft} {failure : GrammarError}
    (failed : rewriteEach drafts = .error failure) :
    Exists fun draft => draft ∈ drafts ∧ draft.Refused failure := by
  induction drafts with
  | nil => cases failed
  | cons draft rest inductionHypothesis =>
      rw [rewriteEach] at failed
      rcases of_bind_eq_error failed with here | ⟨_, _, remaining⟩
      · rw [rewrite] at here
        rcases of_bind_eq_error here with inProductions | ⟨_, _, impossible⟩
        · exact ⟨draft, List.mem_cons_self, rewriteProductions_eq_error inProductions⟩
        · cases impossible
      · rcases of_bind_eq_error remaining with later | ⟨_, _, impossible⟩
        · rcases inductionHypothesis later with ⟨other, listed, refused⟩
          exact ⟨other, List.mem_cons_of_mem _ listed, refused⟩
        · cases impossible

/-- No operator of a draft is malformed if they all have helpers. -/
theorem Supplied.not_malformed {draft : Draft} (supplied : draft.Supplied) {production : Production}
    (listed : production ∈ draft.productions) {symbol : Symbol} (inside : symbol ∈ production.symbols) :
    ¬ symbol.Malformed := by
  intro malformed
  rcases (Symbol.malformed_iff_fault draft.name symbol).mp malformed with ⟨_, fault⟩
  rcases List.getElem?_of_mem listed with ⟨place, atPlace⟩
  rcases List.getElem?_of_mem inside with ⟨index, atIndex⟩
  rcases supplied place index production symbol atPlace atIndex fault.operator with ⟨_, helperOf⟩
  exact not_malformed_of_expand helperOf.expanded malformed

private theorem rewriteLevels_eq_error {levels : Nat} {drafts : List Draft} {failure : GrammarError}
    (failed : rewriteLevels levels drafts = .error failure) :
    Exists fun draft => Drafted drafts draft ∧ draft.Refused failure := by
  induction levels generalizing drafts with
  | zero => cases failed
  | succ levels inductionHypothesis =>
      rw [rewriteLevels_succ] at failed
      rcases of_bind_eq_error failed with here | ⟨⟨rules, helpers⟩, each, remaining⟩
      · rcases rewriteEach_eq_error here with ⟨draft, listed, refused⟩
        exact ⟨draft, .listed draft listed, refused⟩
      · rcases of_bind_eq_error remaining with deeper | ⟨_, _, impossible⟩
        · rcases inductionHypothesis deeper with ⟨draft, drafted, refused⟩
          exact ⟨draft, drafted_of_helpers (rewriteEach_eq each).2.1 drafted, refused⟩
        · cases impossible

end Draft

namespace Grammar

open Draft

variable {grammar : Grammar} {plain : PlainGrammar}

/-- A grammar is refused for having no rules, or for an operator in one of its drafts. -/
theorem toPlain_eq_error {failure : GrammarError} (failed : grammar.toPlain = .error failure) :
    (grammar.rules = [] ∧ failure = .empty) ∨
      Exists fun draft => Drafted grammar.drafts draft ∧ draft.Refused failure := by
  unfold toPlain at failed
  split at failed
  next none => exact Or.inl ⟨List.isEmpty_iff.mp none, (Except.error.inj failed).symm⟩
  next =>
    rcases of_bind_eq_error failed with refused | ⟨_, _, impossible⟩
    · exact Or.inr (rewriteLevels_eq_error refused)
    · cases impossible


/-- In a grammar that is not refused whatever is written stands directly in some draft, if nothing is
lost in a floor. -/
theorem exists_draft_of_writes (fits : grammar.FloorsFit) (made : grammar.toPlain = .ok plain)
    {symbol : Symbol} (writes : grammar.Writes symbol) :
    Exists fun draft => Exists fun production => Drafted grammar.drafts draft ∧
      production ∈ draft.productions ∧ symbol ∈ production.symbols := by
  rcases writes with ⟨rule, production, outer, ruleListed, listed, topListed, contains⟩
  have top : Exists fun draft => Exists fun production => Drafted grammar.drafts draft ∧
      production ∈ draft.productions ∧ outer ∈ production.symbols :=
    ⟨_, production, .listed _ (mem_drafts_of_rule ruleListed), listed, topListed⟩
  clear ruleListed listed topListed
  induction contains with
  | refl symbol => exact top
  | child outer inner symbol member _ inductionHypothesis =>
      apply inductionHypothesis
      rcases top with ⟨draft, found, drafted, listed, inside⟩
      rcases List.getElem?_of_mem listed with ⟨place, atPlace⟩
      rcases List.getElem?_of_mem inside with ⟨index, atIndex⟩
      rcases (toPlain_eq made).2.1 draft drafted place index found outer atPlace atIndex
        (Symbol.operator_of_child member) with ⟨helper, helperOf⟩
      rcases exists_production_of_child helperOf.expanded (fits _ (writes_operator drafted helperOf))
        member with ⟨next, nextListed, nextInside⟩
      exact ⟨helper, next, .helper draft helper place index outer drafted helperOf, nextListed,
        nextInside⟩

/-- Nothing that is written in a grammar with a plain grammar is malformed. -/
theorem not_malformed_of_writes (fits : grammar.FloorsFit) (made : grammar.toPlain = .ok plain)
    {symbol : Symbol} (writes : grammar.Writes symbol) : ¬ symbol.Malformed := by
  rcases exists_draft_of_writes fits made writes with ⟨draft, production, drafted, listed, inside⟩
  exact ((toPlain_eq made).2.1 draft drafted).not_malformed listed inside

/-- An operator for which a draft is refused is written in the grammar. -/
theorem writes_of_refused {draft : Draft} (drafted : Drafted grammar.drafts draft)
    {failure : GrammarError} (refused : draft.Refused failure) :
    Exists fun symbol => grammar.Writes symbol ∧ symbol.Fault draft.name failure := by
  rcases refused with ⟨production, symbol, listed, inside, fault⟩
  exact ⟨symbol, writes_of_operator drafted listed inside fault.operator, fault⟩

end Grammar

/-! ## What is kept -/

/-- The plain production is the production with a name for each of its symbols, which is the symbol
itself unless it is an operator.  It merges what helpers collect exactly if it has an operator. -/
structure Production.Keeps (production : Production) (plain : PlainProduction) : Prop where
  label : plain.label = production.label
  length : plain.symbols.length = production.symbols.length
  names : forall (index : Nat) (word : String), production.symbols[index]? = some (.name word) ->
    plain.symbols[index]? = some word
  merged : (Exists fun symbol => symbol ∈ production.symbols ∧ symbol.asName? = none) ->
    plain.emit = .merge production.emit
  unmerged : (forall symbol, symbol ∈ production.symbols -> symbol.asName?.isSome = true) ->
    plain.emit = production.emit

/-- The plain rule is the rule with its productions kept one by one. -/
structure Rule.Keeps (rule : Rule) (plain : PlainRule) : Prop where
  name : plain.name = rule.name
  helper : plain.helper = false
  productions : List.Forall₂ Production.Keeps rule.productions plain.productions

namespace Draft

theorem keeps_plainProduction (owner : String) (index : Nat) (production : Production) :
    production.Keeps (plainProduction owner index production) := by
  refine ⟨rfl, length_plainNames owner index 0 production.symbols, ?_, ?_, ?_⟩
  · intro place word inside
    unfold plainProduction
    dsimp only
    rw [getElem?_plainNames, inside]
    rfl
  · rintro ⟨symbol, inside, operator⟩
    refine if_pos (List.any_eq_true.mpr ⟨symbol, inside, ?_⟩)
    rw [operator]
    rfl
  · intro names
    refine if_neg fun has => ?_
    rcases List.any_eq_true.mp has with ⟨symbol, inside, operator⟩
    have isName := names symbol inside
    rw [Option.isNone_iff_eq_none.mp operator] at isName
    cases isName

theorem keeps_plainRule (rule : Rule) :
    rule.Keeps (plainRule ⟨rule.name, rule.productions, false⟩) := by
  refine ⟨rfl, rfl, List.forall₂_iff_get.mpr ⟨by simp [plainRule], ?_⟩⟩
  intro place inside _
  simp only [plainRule, List.get_eq_getElem, List.getElem_mapIdx]
  exact keeps_plainProduction _ _ _

end Draft

namespace Grammar

open Draft

/-- A grammar is refused for having no rules, else only if something in it, however deep it is
nested, is malformed, and always then if nothing is lost in a floor.  If it is not refused its rules
come first and in order, each production keeps its label and the number and names of its symbols, and
all rules behind them, and no others, are helpers. -/
theorem refused_iff_malformed (grammar : Grammar) :
    (grammar.toPlain = .error .empty ↔ grammar.rules = []) ∧
    (grammar.rules ≠ [] -> (Exists fun failure => grammar.toPlain = .error failure) ->
      Exists fun symbol => grammar.Writes symbol ∧ symbol.Malformed) ∧
    (grammar.FloorsFit -> (Exists fun symbol => grammar.Writes symbol ∧ symbol.Malformed) ->
      Exists fun failure => grammar.toPlain = .error failure) ∧
    forall plain, grammar.toPlain = .ok plain -> Exists fun kept => Exists fun added =>
      plain.rules = kept ++ added ∧ List.Forall₂ Rule.Keeps grammar.rules kept ∧
        forall rule, rule ∈ added -> rule.helper = true := by
  refine ⟨⟨fun failed => ?_, fun none => ?_⟩, fun some => ?_, fun fits => ?_, fun plain made => ?_⟩
  · rcases toPlain_eq_error failed with ⟨none, _⟩ | ⟨draft, drafted, refused⟩
    · exact none
    · rcases refused with ⟨_, _, _, _, fault⟩
      cases fault
  · exact if_pos (List.isEmpty_iff.mpr none)
  · rintro ⟨failure, failed⟩
    rcases toPlain_eq_error failed with ⟨none, _⟩ | ⟨draft, drafted, refused⟩
    · exact (some none).elim
    · rcases writes_of_refused drafted refused with ⟨symbol, writes, fault⟩
      exact ⟨symbol, writes, (Symbol.malformed_iff_fault draft.name symbol).mpr ⟨failure, fault⟩⟩
  · rintro ⟨symbol, writes, malformed⟩
    cases result : grammar.toPlain with
    | error failure => exact ⟨failure, rfl⟩
    | ok plain => exact (not_malformed_of_writes fits result writes malformed).elim
  · rcases toPlain_front made with ⟨added, rules, helpers⟩
    refine ⟨_, added, rules, ?_, helpers⟩
    rw [drafts, List.map_map, List.forall₂_map_right_iff]
    exact List.forall₂_same.mpr fun rule _ => keeps_plainRule rule

/-- A bounded repetition inside another repetition: `A = (d{least,most})*`. -/
def boundedInside (least most : Nat) : Grammar :=
  ⟨[⟨"A", [{ symbols := [.repeat0 [.bounded least most [.name "d"]]] }]⟩], List.nodup_singleton _⟩

theorem refused_iff_malformed_boundedInside :
    (Exists fun failure => (boundedInside 4 2).toPlain = .error failure) ∧
    Exists fun plain => (boundedInside 2 4).toPlain = .ok plain ∧
      Exists fun kept => Exists fun added => plain.rules = kept ++ added ∧
        List.Forall₂ Rule.Keeps (boundedInside 2 4).rules kept ∧
        forall rule, rule ∈ added -> rule.helper = true := by
  constructor
  · refine (refused_iff_malformed (boundedInside 4 2)).2.2.1 (by decide)
      ⟨.bounded 4 2 [.name "d"], ?_, by decide⟩
    exact ⟨_, _, _, List.mem_cons_self, List.mem_cons_self, List.mem_cons_self,
      .child _ _ _ List.mem_cons_self (.refl _)⟩
  · have made : (boundedInside 2 4).toPlain = .ok _ := eq_ok_of_isOk (by decide +kernel)
    exact ⟨_, made, (refused_iff_malformed (boundedInside 2 4)).2.2.2 _ made⟩

/-- So many copies of two symbols leave nothing in the floor, and the malformed operator among the two
stands in no draft. -/
theorem escapes_emptyFloor :
    ((repeating halfWord halfWord [.name "a", .repeat0 []]).toPlain.toOption.isSome = true) ∧
    Exists fun symbol => (repeating halfWord halfWord [.name "a", .repeat0 []]).Writes symbol ∧
      symbol.Malformed :=
  ⟨by decide +kernel, .repeat0 [], mem_writtenSymbols.mp (by decide), by decide⟩

end Grammar

end ShiftReduce
