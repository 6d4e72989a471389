import ShiftReduce.Grammar.Plain
import ShiftReduce.Proofs.Fallible
import ShiftReduce.Proofs.Text.Decimal

namespace ShiftReduce

/-!
# Drafts and their helpers

Rewriting turns drafts into plain rules, and the operators of a draft into drafts of their own.  Both
are described without the order in which this happens: a draft has one plain rule, a helper belongs
to the place of an operator in a draft, and the drafts of a grammar are its rules and all helpers of
drafts.  The rules of the plain grammar are then exactly the plain rules of these drafts.  That none
is missing is where the nesting of operators is counted: a helper is nested less deep than the draft
it belongs to.

A helper's name tells the place it stands for, because the two numbers at its end contain no mark.
-/

/-! ## Names of helpers -/

namespace Draft

theorem mark_not_mem (number : Nat) : '#' ∉ (toString number).toList := by
  intro member
  exact absurd (Decimal.isDigit_of_mem member) (by decide)

/-- What stands before the last mark and what stands behind it. -/
private theorem split_at_mark {α : Type} {mark : α} {left right front back : List α}
    (same : front ++ mark :: left = back ++ mark :: right) (leftFree : mark ∉ left)
    (rightFree : mark ∉ right) : front = back ∧ left = right := by
  rcases List.append_eq_append_iff.mp same with ⟨others, backEq, rest⟩ | ⟨others, frontEq, rest⟩
  · cases others with
    | nil =>
        rw [List.nil_append, List.cons.injEq] at rest
        exact ⟨by rw [backEq, List.append_nil], rest.2⟩
    | cons head tail =>
        rw [List.cons_append, List.cons.injEq] at rest
        exact (leftFree (rest.2 ▸ List.mem_append_right _ List.mem_cons_self)).elim
  · cases others with
    | nil =>
        rw [List.nil_append, List.cons.injEq] at rest
        exact ⟨by rw [frontEq, List.append_nil], rest.2.symm⟩
    | cons head tail =>
        rw [List.cons_append, List.cons.injEq] at rest
        exact (rightFree (rest.2 ▸ List.mem_append_right _ List.mem_cons_self)).elim

theorem toList_helperName (owner : String) (production index : Nat) :
    (helperName owner production index).toList =
      (owner.toList ++ '#' :: (toString production).toList) ++ '#' :: (toString index).toList := by
  simp [helperName]

/-- Helpers of different places have different names. -/
theorem helperName_injective {owner other : String} {production otherProduction index otherIndex : Nat}
    (same : helperName owner production index = helperName other otherProduction otherIndex) :
    owner = other ∧ production = otherProduction ∧ index = otherIndex := by
  have letters := congrArg String.toList same
  rw [toList_helperName, toList_helperName] at letters
  have outer := split_at_mark letters (mark_not_mem index) (mark_not_mem otherIndex)
  have inner := split_at_mark outer.1 (mark_not_mem production) (mark_not_mem otherProduction)
  exact ⟨String.toList_injective inner.1, Decimal.toString_injective inner.2,
    Decimal.toString_injective outer.2⟩

/-- The name has the form that names of helpers have. -/
def IsHelperName (name : String) : Prop :=
  Exists fun place : String × Nat × Nat => name = helperName place.1 place.2.1 place.2.2

theorem isHelperName_helperName (owner : String) (production index : Nat) :
    IsHelperName (helperName owner production index) := ⟨(owner, production, index), rfl⟩

theorem mark_mem_helperName (owner : String) (production index : Nat) :
    '#' ∈ (helperName owner production index).toList := by
  rw [toList_helperName]
  exact List.mem_append_right _ List.mem_cons_self

theorem not_isHelperName {name : String} (markless : '#' ∉ name.toList) : ¬ IsHelperName name := by
  rintro ⟨place, rfl⟩
  exact markless (mark_mem_helperName _ _ _)

theorem length_helperName (owner : String) (production index : Nat) :
    owner.length < (helperName owner production index).length := by
  unfold helperName
  simp only [String.length_append]
  have mark : "#".length = 1 := rfl
  omega

/-! ## Plain rules -/

/-- The name that stands for the symbol at a place of the rule `owner`. -/
def plainName (owner : String) (production index : Nat) : Symbol -> String
  | .name word => word
  | _ => helperName owner production index

/-- The names that stand for the symbols of a production, the first of them at `index`. -/
def plainNames (owner : String) (production : Nat) : Nat -> List Symbol -> List String
  | _, [] => []
  | index, symbol :: rest =>
    plainName owner production index symbol :: plainNames owner production (index + 1) rest

/-- Whether some symbol is an operator. -/
def hasOperator (symbols : List Symbol) : Bool :=
  symbols.any fun symbol => symbol.asName?.isNone

theorem hasOperator_cons (symbol : Symbol) (rest : List Symbol) :
    hasOperator (symbol :: rest) = (symbol.asName?.isNone || hasOperator rest) := rfl

/-- A production with names in the place of its operators. -/
def plainProduction (owner : String) (index : Nat) (production : Production) : PlainProduction :=
  ⟨plainNames owner index 0 production.symbols,
    if hasOperator production.symbols then .merge production.emit else production.emit,
    production.label⟩

/-- A draft with names in the place of its operators. -/
def plainRule (draft : Draft) : PlainRule :=
  ⟨draft.name, draft.productions.mapIdx (plainProduction draft.name), draft.helper⟩

/-- The draft of the operator at a place of a draft. -/
structure HelperOf (owner : Draft) (production index : Nat) (symbol : Symbol) (helper : Draft) :
    Prop where
  place : Exists fun found => owner.productions[production]? = some found ∧
    found.symbols[index]? = some symbol
  operator : symbol.asName? = none
  expanded : expand owner.name (helperName owner.name production index) symbol =
    .ok helper.productions
  name : helper.name = helperName owner.name production index
  isHelper : helper.helper = true

/-- An operator has one helper. -/
theorem helper_unique {owner first second : Draft} {production index : Nat} {symbol : Symbol}
    (firstOf : owner.HelperOf production index symbol first)
    (secondOf : owner.HelperOf production index symbol second) : first = second := by
  have productions := Except.ok.inj (firstOf.expanded.symm.trans secondOf.expanded)
  rcases first with ⟨firstName, firstProductions, firstHelper⟩
  rcases second with ⟨secondName, secondProductions, secondHelper⟩
  rw [Draft.mk.injEq]
  exact ⟨firstOf.name.trans secondOf.name.symm, productions,
    firstOf.isHelper.trans secondOf.isHelper.symm⟩

theorem getElem?_plainNames (owner : String) (production start : Nat) (symbols : List Symbol)
    (index : Nat) :
    (plainNames owner production start symbols)[index]? =
      symbols[index]?.map (plainName owner production (start + index)) := by
  induction symbols generalizing start index with
  | nil => rfl
  | cons symbol rest inductionHypothesis =>
      cases index with
      | zero => rfl
      | succ index =>
          simp only [plainNames, List.getElem?_cons_succ, inductionHypothesis]
          rw [Nat.add_right_comm, Nat.add_assoc]

theorem length_plainNames (owner : String) (production start : Nat) (symbols : List Symbol) :
    (plainNames owner production start symbols).length = symbols.length := by
  induction symbols generalizing start with
  | nil => rfl
  | cons symbol rest inductionHypothesis =>
      simp only [plainNames, List.length_cons, inductionHypothesis]

/-! ## What rewriting yields -/

/-- The helpers of a list are those of the operators of `symbols`, the first of which stands at
`start`. -/
structure HelpersOf (owner : String) (production start : Nat) (symbols : List Symbol)
    (helpers : List Draft) : Prop where
  listed : forall helper, helper ∈ helpers -> Exists fun index => Exists fun symbol =>
    symbols[index]? = some symbol ∧ symbol.asName? = none ∧
      expand owner (helperName owner production (start + index)) symbol = .ok helper.productions ∧
      helper.name = helperName owner production (start + index) ∧ helper.helper = true
  found : forall (index : Nat) (symbol : Symbol), symbols[index]? = some symbol ->
    symbol.asName? = none -> Exists fun productions =>
      expand owner (helperName owner production (start + index)) symbol = .ok productions ∧
        ⟨helperName owner production (start + index), productions, true⟩ ∈ helpers

private theorem HelpersOf.skip {owner : String} {production start : Nat} {rest : List Symbol}
    {helpers : List Draft} {symbol : Symbol} {word : String}
    (helpersOf : HelpersOf owner production (start + 1) rest helpers)
    (isName : symbol.asName? = some word) :
    HelpersOf owner production start (symbol :: rest) helpers := by
  constructor
  · intro helper member
    rcases helpersOf.listed helper member with ⟨index, operator, place, others⟩
    rw [Nat.add_right_comm, Nat.add_assoc] at others
    exact ⟨index + 1, operator, place, others⟩
  · intro index operator place isOperator
    cases index with
    | zero =>
        rw [List.getElem?_cons_zero, Option.some.injEq] at place
        rw [place, isOperator] at isName
        cases isName
    | succ index =>
        have later := helpersOf.found index operator place isOperator
        rwa [Nat.add_right_comm, Nat.add_assoc] at later

private theorem HelpersOf.add {owner : String} {production start : Nat} {rest : List Symbol}
    {helpers : List Draft} {symbol : Symbol} {productions : List Production}
    (helpersOf : HelpersOf owner production (start + 1) rest helpers)
    (isOperator : symbol.asName? = none)
    (expanded : expand owner (helperName owner production start) symbol = .ok productions) :
    HelpersOf owner production start (symbol :: rest)
      (⟨helperName owner production start, productions, true⟩ :: helpers) := by
  constructor
  · intro helper member
    rcases List.mem_cons.mp member with rfl | later
    · exact ⟨0, symbol, rfl, isOperator, expanded, rfl, rfl⟩
    · rcases helpersOf.listed helper later with ⟨index, operator, place, others⟩
      rw [Nat.add_right_comm, Nat.add_assoc] at others
      exact ⟨index + 1, operator, place, others⟩
  · intro index operator place otherIsOperator
    cases index with
    | zero =>
        rw [List.getElem?_cons_zero, Option.some.injEq] at place
        rw [← place]
        exact ⟨productions, expanded, List.mem_cons_self⟩
    | succ index =>
        rcases helpersOf.found index operator place otherIsOperator with ⟨others, made, listed⟩
        rw [Nat.add_right_comm, Nat.add_assoc] at made listed
        exact ⟨others, made, List.mem_cons_of_mem _ listed⟩

theorem rewriteSymbols_operator {owner : String} {production start : Nat} {symbol : Symbol}
    {rest : List Symbol} (isOperator : symbol.asName? = none) :
    rewriteSymbols owner production start (symbol :: rest) =
      (expand owner (helperName owner production start) symbol >>= fun productions =>
        rewriteSymbols owner production (start + 1) rest >>= fun result =>
          .ok (helperName owner production start :: result.1,
            ⟨helperName owner production start, productions, true⟩ :: result.2)) := by
  cases symbol with
  | name word => cases isOperator
  | repeat0 body => rfl
  | repeat1 body => rfl
  | optional body => rfl
  | alternation branches => rfl
  | bounded least most body => rfl

theorem plainName_operator {owner : String} {production index : Nat} {symbol : Symbol}
    (isOperator : symbol.asName? = none) :
    plainName owner production index symbol = helperName owner production index := by
  cases symbol with
  | name word => cases isOperator
  | repeat0 body => rfl
  | repeat1 body => rfl
  | optional body => rfl
  | alternation branches => rfl
  | bounded least most body => rfl

theorem eq_name_of_asName? {symbol : Symbol} {word : String}
    (isName : symbol.asName? = some word) : symbol = .name word := by
  cases symbol with
  | name other => exact congrArg Symbol.name (Option.some.inj isName)
  | repeat0 body => cases isName
  | repeat1 body => cases isName
  | optional body => cases isName
  | alternation branches => cases isName
  | bounded least most body => cases isName

theorem rewriteSymbols_eq {owner : String} {production : Nat} {symbols : List Symbol}
    {start : Nat} {names : List String} {helpers : List Draft}
    (rewritten : rewriteSymbols owner production start symbols = .ok (names, helpers)) :
    names = plainNames owner production start symbols ∧
      helpers.isEmpty = !hasOperator symbols ∧
      HelpersOf owner production start symbols helpers := by
  induction symbols generalizing start names helpers with
  | nil =>
      rw [rewriteSymbols, Except.ok.injEq, Prod.mk.injEq] at rewritten
      rw [← rewritten.1, ← rewritten.2]
      exact ⟨rfl, rfl, fun _ impossible => (List.not_mem_nil impossible).elim,
        fun _ _ impossible => by cases impossible⟩
  | cons symbol rest inductionHypothesis =>
      cases isName : symbol.asName? with
      | some word =>
          rw [eq_name_of_asName? isName, rewriteSymbols] at rewritten
          rcases of_bind_eq_ok rewritten with ⟨⟨others, more⟩, later, made⟩
          rcases inductionHypothesis later with ⟨rfl, empty, helpersOf⟩
          cases made
          refine ⟨?_, ?_, helpersOf.skip isName⟩
          · rw [eq_name_of_asName? isName]
            rfl
          · rw [empty, hasOperator_cons, isName]
            rfl
      | none =>
          rw [rewriteSymbols_operator isName] at rewritten
          rcases of_bind_eq_ok rewritten with ⟨productions, expanded, others⟩
          rcases of_bind_eq_ok others with ⟨⟨names, more⟩, later, made⟩
          rcases inductionHypothesis later with ⟨rfl, empty, helpersOf⟩
          cases made
          refine ⟨?_, ?_, helpersOf.add isName expanded⟩
          · rw [plainNames, plainName_operator isName]
          · rw [hasOperator_cons, isName]
            rfl

/-- A rewritten production, and the helpers of its operators. -/
theorem rewriteProduction_eq {owner : String} {index : Nat} {production : Production}
    {plain : PlainProduction} {helpers : List Draft}
    (rewritten : rewriteProduction owner index production = .ok (plain, helpers)) :
    plain = plainProduction owner index production ∧
      HelpersOf owner index 0 production.symbols helpers := by
  unfold rewriteProduction at rewritten
  rcases of_bind_eq_ok rewritten with ⟨⟨names, more⟩, symbols, made⟩
  rcases rewriteSymbols_eq symbols with ⟨rfl, empty, helpersOf⟩
  cases made
  refine ⟨?_, helpersOf⟩
  unfold plainProduction
  rw [empty]
  cases hasOperator production.symbols <;> rfl

/-- Rewritten productions, the first of them numbered `start`, and the helpers of them all. -/
theorem rewriteProductions_eq {owner : String} {start : Nat} {productions : List Production}
    {plain : List PlainProduction} {helpers : List Draft}
    (rewritten : rewriteProductions owner start productions = .ok (plain, helpers)) :
    plain = productions.mapIdx (fun index => plainProduction owner (start + index)) ∧
      (forall helper, helper ∈ helpers -> Exists fun index => Exists fun production =>
        Exists fun own => productions[index]? = some production ∧ helper ∈ own ∧
          HelpersOf owner (start + index) 0 production.symbols own) ∧
      (forall (index : Nat) (production : Production), productions[index]? = some production ->
        Exists fun own => HelpersOf owner (start + index) 0 production.symbols own ∧
          forall helper, helper ∈ own -> helper ∈ helpers) := by
  induction productions generalizing start plain helpers with
  | nil =>
      rw [rewriteProductions, Except.ok.injEq, Prod.mk.injEq] at rewritten
      rw [← rewritten.1, ← rewritten.2]
      exact ⟨rfl, fun _ impossible => (List.not_mem_nil impossible).elim,
        fun _ _ impossible => by cases impossible⟩
  | cons production rest inductionHypothesis =>
      rw [rewriteProductions] at rewritten
      rcases of_bind_eq_ok rewritten with ⟨⟨first, own⟩, here, remaining⟩
      rcases of_bind_eq_ok remaining with ⟨⟨others, more⟩, later, made⟩
      rcases rewriteProduction_eq here with ⟨rfl, helpersOf⟩
      rcases inductionHypothesis later with ⟨rfl, listed, found⟩
      cases made
      have shift : forall index, start + 1 + index = start + (index + 1) := fun index => by omega
      refine ⟨?_, ?_, ?_⟩
      · rw [List.mapIdx_cons]
        simp only [shift, Nat.add_zero]
      · intro helper member
        rcases List.mem_append.mp member with inOwn | inMore
        · exact ⟨0, production, own, rfl, inOwn, helpersOf⟩
        · rcases listed helper inMore with ⟨index, other, others, place, inOthers, othersOf⟩
          exact ⟨index + 1, other, others, place, inOthers, shift index ▸ othersOf⟩
      · intro index other place
        cases index with
        | zero =>
            rw [List.getElem?_cons_zero, Option.some.injEq] at place
            rw [← place]
            exact ⟨own, helpersOf, fun helper member => List.mem_append_left _ member⟩
        | succ index =>
            rcases found index other place with ⟨others, othersOf, inMore⟩
            exact ⟨others, shift index ▸ othersOf,
              fun helper member => List.mem_append_right _ (inMore helper member)⟩

/-- Rewriting a draft yields its plain rule and its helpers. -/
theorem rewrite_eq {draft : Draft} {rule : PlainRule} {helpers : List Draft}
    (rewritten : draft.rewrite = .ok (rule, helpers)) :
    rule = draft.plainRule ∧
      (forall helper, helper ∈ helpers -> Exists fun production => Exists fun index =>
        Exists fun symbol => draft.HelperOf production index symbol helper) ∧
      (forall (production index : Nat) (found : Production) (symbol : Symbol),
        draft.productions[production]? = some found -> found.symbols[index]? = some symbol ->
        symbol.asName? = none -> Exists fun helper => helper ∈ helpers ∧
          draft.HelperOf production index symbol helper) := by
  unfold rewrite at rewritten
  rcases of_bind_eq_ok rewritten with ⟨⟨productions, more⟩, all, made⟩
  rcases rewriteProductions_eq all with ⟨rfl, listed, found⟩
  cases made
  simp only [Nat.zero_add] at listed found ⊢
  refine ⟨rfl, ?_, ?_⟩
  · intro helper member
    rcases listed helper member with ⟨production, at_, own, place, inOwn, helpersOf⟩
    rcases helpersOf.listed helper inOwn with ⟨index, symbol, inside, operator, expanded, name, is⟩
    rw [Nat.zero_add] at expanded name
    exact ⟨production, index, symbol, ⟨at_, place, inside⟩, operator, expanded, name, is⟩
  · intro production index at_ symbol place inside operator
    rcases found production at_ place with ⟨own, helpersOf, inMore⟩
    rcases helpersOf.found index symbol inside operator with ⟨productions, expanded, inOwn⟩
    rw [Nat.zero_add] at expanded inOwn
    exact ⟨_, inMore _ inOwn, ⟨at_, place, inside⟩, operator, expanded, rfl, rfl⟩

/-! ## Depth -/

private theorem le_foldl_max (values : List Nat) (start : Nat) :
    start ≤ values.foldl max start ∧
      forall value, value ∈ values -> value ≤ values.foldl max start := by
  induction values generalizing start with
  | nil => exact ⟨Nat.le_refl _, fun _ impossible => (List.not_mem_nil impossible).elim⟩
  | cons head rest inductionHypothesis =>
      rcases inductionHypothesis (max start head) with ⟨first, others⟩
      refine ⟨Nat.le_trans (Nat.le_max_left _ _) first, ?_⟩
      intro value member
      rcases List.mem_cons.mp member with rfl | later
      · exact Nat.le_trans (Nat.le_max_right _ _) first
      · exact others value later

private theorem foldl_max_le {values : List Nat} {start bound : Nat} (small : start ≤ bound)
    (each : forall value, value ∈ values -> value ≤ bound) : values.foldl max start ≤ bound := by
  induction values generalizing start with
  | nil => exact small
  | cons head rest inductionHypothesis =>
      apply inductionHypothesis (Nat.max_le.mpr ⟨small, each head List.mem_cons_self⟩)
      exact fun value member => each value (List.mem_cons_of_mem _ member)

theorem depth_le_of_mem {symbols : List Symbol} {symbol : Symbol} (member : symbol ∈ symbols) :
    symbol.depth ≤ Symbol.depthOfSequence symbols := by
  induction symbols with
  | nil => cases member
  | cons head rest inductionHypothesis =>
      rw [Symbol.depthOfSequence]
      rcases List.mem_cons.mp member with rfl | later
      · exact Nat.le_max_left _ _
      · exact Nat.le_trans (inductionHypothesis later) (Nat.le_max_right _ _)

private theorem depthOfSequence_le {symbols : List Symbol} {bound : Nat}
    (each : forall symbol, symbol ∈ symbols -> symbol.depth ≤ bound) :
    Symbol.depthOfSequence symbols ≤ bound := by
  induction symbols with
  | nil => exact Nat.zero_le _
  | cons head rest inductionHypothesis =>
      rw [Symbol.depthOfSequence]
      exact Nat.max_le.mpr ⟨each head List.mem_cons_self,
        inductionHypothesis fun symbol member => each symbol (List.mem_cons_of_mem _ member)⟩

theorem depthOfSequence_le_of_branch {branches : List (List Symbol)} {branch : List Symbol}
    (member : branch ∈ branches) :
    Symbol.depthOfSequence branch ≤ Symbol.depthOfBranches branches := by
  induction branches with
  | nil => cases member
  | cons head rest inductionHypothesis =>
      rw [Symbol.depthOfBranches]
      rcases List.mem_cons.mp member with rfl | later
      · exact Nat.le_max_left _ _
      · exact Nat.le_trans (inductionHypothesis later) (Nat.le_max_right _ _)

theorem depthOfSequence_le_depth {draft : Draft} {production : Production}
    (member : production ∈ draft.productions) :
    Symbol.depthOfSequence production.symbols ≤ draft.depth :=
  (le_foldl_max _ 0).2 _ (List.mem_map_of_mem member)

/-! ## The productions of a helper -/

/-- How often an operator repeats its body: the fewest and the most times, where zero sets no
limit. A choice repeats nothing. -/
def repetition? : Symbol -> Option (Nat × Nat × List Symbol)
  | .name _ => none
  | .repeat0 body => some (0, 0, body)
  | .repeat1 body => some (1, 0, body)
  | .optional body => some (0, 1, body)
  | .alternation _ => none
  | .bounded least most body => some (least, most, body)

/-- Whether a number of repetitions lies within two bounds, the second of which sets no limit if it
is zero. -/
def Within (least most count : Nat) : Prop := least ≤ count ∧ (most = 0 ∨ count ≤ most)

/-- Whether the helper of an operator has a production that adds a repetition. -/
def CanGrow : Symbol -> Prop
  | .repeat0 _ => True
  | .repeat1 _ => True
  | .bounded least most _ => most = 0 ∨ most ≠ least
  | _ => False

/-- Whether the copies that the helper of an operator starts with are no longer than a word can
tell. -/
def FloorFits : Symbol -> Prop
  | .bounded least _ body => least * body.length < wordSize
  | _ => True

instance : DecidablePred FloorFits
  | .bounded _ _ _ => inferInstanceAs (Decidable (_ < _))
  | .name _ | .repeat0 _ | .repeat1 _ | .optional _ | .alternation _ =>
    inferInstanceAs (Decidable True)

/-- A production of the helper of an operator. A repetition either starts with a number of copies
of its body, or what is left of them if they are too long, or it grows by one, and a choice offers
a branch. -/
inductive HelperProduction (helper : String) (symbol : Symbol) : Production -> Prop where
  | start (least most count : Nat) (body front : List Symbol)
      (repeats : repetition? symbol = some (least, most, body))
      (inside : forall inner, inner ∈ front -> inner ∈ body)
      (counts : FloorFits symbol -> Within least most count ∧ front = repeated count body) :
      HelperProduction helper symbol
        { symbols := front, emit := .repetition helper most body.length }
  | grow (least most : Nat) (body : List Symbol)
      (repeats : repetition? symbol = some (least, most, body)) (grows : CanGrow symbol) :
      HelperProduction helper symbol
        { symbols := .name helper :: body, emit := .repetition helper most body.length }
  | branch (branches : List (List Symbol)) (branch : List Symbol)
      (choice : symbol = .alternation branches) (member : branch ∈ branches) :
      HelperProduction helper symbol { symbols := branch, emit := .choice helper }

/-- The productions of a helper suffice for every number of repetitions that is allowed, and for
every number that is not too small if they can grow. -/
structure Suffices (helper : String) (symbol : Symbol) (productions : List Production) : Prop where
  notEmpty : forall least most body, repetition? symbol = some (least, most, body) -> body ≠ []
  starts : forall least most body, repetition? symbol = some (least, most, body) ->
    Exists fun front => (forall inner, inner ∈ front -> inner ∈ body) ∧
      { symbols := front, emit := .repetition helper most body.length } ∈ productions
  counts : FloorFits symbol -> forall least most body,
    repetition? symbol = some (least, most, body) -> forall count, least ≤ count ->
      Within least most count ∨ CanGrow symbol -> Exists fun first =>
      Within least most first ∧ first ≤ count ∧
      { symbols := repeated first body, emit := .repetition helper most body.length } ∈ productions ∧
      (first < count ->
        { symbols := .name helper :: body, emit := .repetition helper most body.length } ∈
          productions)
  branches : forall branches, symbol = .alternation branches -> forall branch, branch ∈ branches ->
    { symbols := branch, emit := .choice helper } ∈ productions

theorem repeated_one (body : List Symbol) : repeated 1 body = body := by
  simp [repeated]

/-- One copy more at the end. -/
theorem repeated_succ (count : Nat) (body : List Symbol) :
    repeated (count + 1) body = repeated count body ++ body := by
  unfold repeated
  rw [List.replicate_succ', List.flatten_append, List.flatten_singleton]

/-- The length of copies tells how many they are. -/
theorem length_repeated_div {count : Nat} {body : List Symbol} (notEmpty : body ≠ []) :
    (repeated count body).length / body.length = count := by
  rw [repeated, List.length_flatten, List.map_replicate, List.sum_replicate_nat]
  exact Nat.mul_div_cancel _ (List.length_pos_of_ne_nil notEmpty)

/-- Copies hold nothing but what is copied. -/
theorem mem_of_mem_repeated {count : Nat} {body : List Symbol} {inner : Symbol}
    (inside : inner ∈ repeated count body) : inner ∈ body := by
  rcases List.mem_flatten.mp inside with ⟨copy, listed, inCopy⟩
  exact List.eq_of_mem_replicate listed ▸ inCopy

theorem mem_of_mem_floor {least : Nat} {body : List Symbol} {inner : Symbol}
    (inside : inner ∈ floor least body) : inner ∈ body :=
  (List.mem_append.mp inside).elim mem_of_mem_repeated List.mem_of_mem_take

/-- Copies that a word can tell the length of are all there. -/
theorem floor_of_fits {least : Nat} {body : List Symbol} (notEmpty : body ≠ [])
    (fits : least * body.length < wordSize) : floor least body = repeated least body := by
  unfold floor cycled
  rw [Nat.mod_eq_of_lt fits, Nat.mul_div_cancel _ (List.length_pos_of_ne_nil notEmpty),
    Nat.mul_mod_left, List.take_zero, List.append_nil]

private theorem ne_nil_of_not_isEmpty {α : Type} {values : List α}
    (notEmpty : ¬ values.isEmpty = true) : values ≠ [] :=
  fun empty => notEmpty (List.isEmpty_iff.mpr empty)

/-- A repetition whose productions start with the fewest copies, if these fit, and then grow. -/
private theorem growing_spec {helper : String} {symbol : Symbol} {least most : Nat}
    {body front : List Symbol} (repeats : repetition? symbol = some (least, most, body))
    (notEmpty : ¬ body.isEmpty = true) (valid : Within least most least)
    (unbounded : most = 0 ∨ most ≠ least -> CanGrow symbol)
    (inside : forall inner, inner ∈ front -> inner ∈ body)
    (copies : FloorFits symbol -> front = repeated least body) {productions : List Production}
    (start : { symbols := front, emit := .repetition helper most body.length } ∈ productions)
    (grow : CanGrow symbol ->
      { symbols := .name helper :: body, emit := .repetition helper most body.length } ∈
        productions)
    (only : forall production, production ∈ productions ->
      production = { symbols := front, emit := .repetition helper most body.length } ∨
      CanGrow symbol ∧ production =
        { symbols := .name helper :: body, emit := .repetition helper most body.length }) :
    (forall production, production ∈ productions -> HelperProduction helper symbol production) ∧
      Suffices helper symbol productions := by
  refine ⟨?_, ?_, ?_, ?_, ?_⟩
  · intro production member
    rcases only production member with rfl | ⟨growing, rfl⟩
    · exact .start least most least body front repeats inside fun fits => ⟨valid, copies fits⟩
    · exact .grow least most body repeats growing
  · intro otherLeast otherMost otherBody same
    cases repeats.symm.trans same
    exact ne_nil_of_not_isEmpty notEmpty
  · intro otherLeast otherMost otherBody same
    cases repeats.symm.trans same
    exact ⟨front, inside, start⟩
  · intro fits otherLeast otherMost otherBody same count enough allowed
    cases repeats.symm.trans same
    refine ⟨least, valid, enough, copies fits ▸ start, fun more => grow ?_⟩
    rcases allowed with ⟨_, unlimited | limited⟩ | growing
    · exact unbounded (Or.inl unlimited)
    · exact unbounded (Or.inr (by omega))
    · exact growing
  · intro branches choice
    rw [choice] at repeats
    cases repeats

/-- An optional body is there once or not at all, and never grows. -/
private theorem optional_spec {helper : String} {body : List Symbol}
    (notEmpty : ¬ body.isEmpty = true) {productions : List Production}
    (only : productions =
      [{ symbols := repeated 1 body, emit := .repetition helper 1 body.length },
       { symbols := repeated 0 body, emit := .repetition helper 1 body.length }]) :
    (forall production, production ∈ productions ->
      HelperProduction helper (.optional body) production) ∧
      Suffices helper (.optional body) productions := by
  subst only
  have starts : forall count, Within 0 1 count -> HelperProduction helper (.optional body)
      { symbols := repeated count body, emit := .repetition helper 1 body.length } :=
    fun count within => .start 0 1 count body _ rfl (fun _ => mem_of_mem_repeated)
      fun _ => ⟨within, rfl⟩
  refine ⟨?_, ?_, ?_, ?_, fun _ impossible => by cases impossible⟩
  · intro production member
    rcases List.mem_cons.mp member with rfl | last
    · exact starts 1 ⟨Nat.zero_le _, Or.inr (Nat.le_refl _)⟩
    · rw [List.mem_singleton.mp last]
      exact starts 0 ⟨Nat.le_refl _, Or.inr (Nat.zero_le _)⟩
  · intro least most other repeats
    cases repeats
    exact ne_nil_of_not_isEmpty notEmpty
  · intro least most other repeats
    cases repeats
    exact ⟨_, fun _ => mem_of_mem_repeated, List.mem_cons_self⟩
  · intro _ least most other repeats count _ allowed
    cases repeats
    have within := allowed.resolve_right id
    have small : count = 0 ∨ count = 1 := by
      have limited := within.2.resolve_left Nat.one_ne_zero
      omega
    rcases small with rfl | rfl
    · exact ⟨0, within, Nat.le_refl _, List.mem_cons_of_mem _ List.mem_cons_self,
        fun less => (Nat.lt_irrefl _ less).elim⟩
    · exact ⟨1, within, Nat.le_refl _, List.mem_cons_self,
        fun less => (Nat.lt_irrefl _ less).elim⟩

private theorem branches_spec {helper : String} {branches : List (List Symbol)} :
    let productions : List Production :=
      branches.map fun branch => { symbols := branch, emit := .choice helper }
    (forall production, production ∈ productions ->
      HelperProduction helper (.alternation branches) production) ∧
      Suffices helper (.alternation branches) productions := by
  refine ⟨?_, fun _ _ _ impossible => (by cases impossible),
    fun _ _ _ impossible => (by cases impossible),
    fun _ _ _ _ impossible => (by cases impossible), ?_⟩
  · intro production member
    rcases List.mem_map.mp member with ⟨branch, listed, rfl⟩
    exact .branch branches branch rfl listed
  · intro others same branch listed
    cases same
    exact List.mem_map.mpr ⟨branch, listed, rfl⟩

/-- What the productions of a helper are. -/
theorem expand_spec {owner helper : String} {symbol : Symbol} {productions : List Production}
    (operator : symbol.asName? = none)
    (expanded : expand owner helper symbol = .ok productions) :
    (forall production, production ∈ productions -> HelperProduction helper symbol production) ∧
      Suffices helper symbol productions := by
  unfold expand at expanded
  cases symbol with
  | name word => cases operator
  | repeat0 body =>
      dsimp only at expanded
      split at expanded
      · cases expanded
      next notEmpty =>
        cases expanded
        refine growing_spec rfl notEmpty ⟨Nat.le_refl _, Or.inl rfl⟩ ?_
          (fun _ impossible => (List.not_mem_nil impossible).elim) (fun _ => rfl) ?_ ?_ ?_
        · exact fun _ => trivial
        · exact List.mem_cons_of_mem _ List.mem_cons_self
        · exact fun _ => List.mem_cons_self
        · intro production member
          exact (List.mem_cons.mp member).symm.imp List.mem_singleton.mp fun is => ⟨trivial, is⟩
  | repeat1 body =>
      dsimp only at expanded
      split at expanded
      · cases expanded
      next notEmpty =>
        cases expanded
        refine growing_spec rfl notEmpty ⟨Nat.le_refl _, Or.inl rfl⟩ ?_
          (fun _ => id) (fun _ => (repeated_one body).symm) ?_ ?_ ?_
        · exact fun _ => trivial
        · exact List.mem_cons_of_mem _ List.mem_cons_self
        · exact fun _ => List.mem_cons_self
        · intro production member
          exact (List.mem_cons.mp member).symm.imp List.mem_singleton.mp fun is => ⟨trivial, is⟩
  | optional body =>
      dsimp only at expanded
      split at expanded
      · cases expanded
      next notEmpty =>
        cases expanded
        refine optional_spec notEmpty ?_
        rw [repeated_one]
        rfl
  | alternation branches =>
      dsimp only at expanded
      split at expanded
      · cases expanded
      · cases expanded
        exact branches_spec
  | bounded least most body =>
      dsimp only at expanded
      split at expanded
      · cases expanded
      next notEmpty =>
        split at expanded
        · cases expanded
        next valid =>
          have withinLeast : Within least most least := ⟨Nat.le_refl _, by omega⟩
          have copies : FloorFits (.bounded least most body) ->
              floor least body = repeated least body :=
            floor_of_fits (ne_nil_of_not_isEmpty notEmpty)
          split at expanded
          next grows =>
            cases expanded
            refine growing_spec rfl notEmpty withinLeast id (fun _ => mem_of_mem_floor) copies
              List.mem_cons_self ?_ ?_
            · exact fun _ => List.mem_cons_of_mem _ List.mem_cons_self
            · intro production member
              exact (List.mem_cons.mp member).imp_right fun last => ⟨grows, List.mem_singleton.mp last⟩
          next exactly =>
            cases expanded
            refine growing_spec rfl notEmpty withinLeast id (fun _ => mem_of_mem_floor) copies
              List.mem_cons_self ?_ ?_
            · exact fun grows => (exactly grows).elim
            · exact fun production member => Or.inl (List.mem_singleton.mp member)

/-- The operators of a helper are nested less deep than the one it belongs to. -/
theorem depth_lt_of_helper {owner helper : Draft} {production index : Nat} {symbol : Symbol}
    (helperOf : owner.HelperOf production index symbol helper) : helper.depth < owner.depth := by
  rcases helperOf.place with ⟨found, atProduction, atIndex⟩
  have outer := Nat.le_trans (depth_le_of_mem (List.mem_of_getElem? atIndex))
    (depthOfSequence_le_depth (List.mem_of_getElem? atProduction))
  have each := (expand_spec helperOf.operator helperOf.expanded).1
  have body : forall least most symbols, repetition? symbol = some (least, most, symbols) ->
      Symbol.depthOfSequence symbols < symbol.depth := by
    intro least most symbols repeats
    cases symbol <;> cases repeats <;> exact Nat.lt_succ_self _
  have small : forall production, production ∈ helper.productions ->
      Symbol.depthOfSequence production.symbols < symbol.depth := by
    intro production member
    cases each production member with
    | start least most count symbols front repeats inside _ =>
        refine Nat.lt_of_le_of_lt (depthOfSequence_le ?_) (body _ _ _ repeats)
        exact fun inner innerMember => depth_le_of_mem (inside inner innerMember)
    | grow least most symbols repeats _ =>
        refine Nat.lt_of_le_of_lt (depthOfSequence_le ?_) (body _ _ _ repeats)
        intro inner innerMember
        rcases List.mem_cons.mp innerMember with rfl | inBody
        · exact Nat.zero_le _
        · exact depth_le_of_mem inBody
    | branch branches branch choice listed =>
        rw [choice, Symbol.depth]
        exact Nat.lt_succ_of_le (depthOfSequence_le_of_branch listed)
  have positive : 0 < symbol.depth := by
    cases symbol with
    | name word => cases helperOf.operator
    | repeat0 body => exact Nat.succ_pos _
    | repeat1 body => exact Nat.succ_pos _
    | optional body => exact Nat.succ_pos _
    | alternation branches => exact Nat.succ_pos _
    | bounded least most body => exact Nat.succ_pos _
  have inner : helper.depth ≤ symbol.depth - 1 := by
    apply foldl_max_le (Nat.zero_le _)
    intro value member
    rcases List.mem_map.mp member with ⟨production, listed, rfl⟩
    exact Nat.le_sub_one_of_lt (small production listed)
  omega

/-! ## All drafts -/

/-- The drafts of a list and all helpers of such drafts. -/
inductive Drafted (drafts : List Draft) : Draft -> Prop where
  | listed (draft : Draft) (member : draft ∈ drafts) : Drafted drafts draft
  | helper (owner helper : Draft) (production index : Nat) (symbol : Symbol)
      (drafted : Drafted drafts owner) (helperOf : owner.HelperOf production index symbol helper) :
      Drafted drafts helper

/-- All operators of a draft have helpers. -/
def Supplied (draft : Draft) : Prop :=
  forall (place index : Nat) (production : Production) (symbol : Symbol),
    draft.productions[place]? = some production -> production.symbols[index]? = some symbol ->
    symbol.asName? = none -> Exists fun helper => draft.HelperOf place index symbol helper

theorem rewriteEach_eq {drafts : List Draft} {rules : List PlainRule}
    {helpers : List Draft} (rewritten : rewriteEach drafts = .ok (rules, helpers)) :
    rules = drafts.map plainRule ∧
      (forall helper, helper ∈ helpers -> Exists fun owner => Exists fun production =>
        Exists fun index => Exists fun symbol => owner ∈ drafts ∧
          owner.HelperOf production index symbol helper) ∧
      (forall owner, owner ∈ drafts -> owner.Supplied ∧
        forall (production index : Nat) (symbol : Symbol) (helper : Draft),
          owner.HelperOf production index symbol helper -> helper ∈ helpers) := by
  induction drafts generalizing rules helpers with
  | nil =>
      rw [rewriteEach, Except.ok.injEq, Prod.mk.injEq] at rewritten
      rw [← rewritten.1, ← rewritten.2]
      exact ⟨rfl, fun _ impossible => (List.not_mem_nil impossible).elim,
        fun _ impossible => (List.not_mem_nil impossible).elim⟩
  | cons draft rest inductionHypothesis =>
      rw [rewriteEach] at rewritten
      rcases of_bind_eq_ok rewritten with ⟨⟨rule, own⟩, here, remaining⟩
      rcases of_bind_eq_ok remaining with ⟨⟨others, more⟩, later, made⟩
      rcases rewrite_eq here with ⟨rfl, listed, found⟩
      rcases inductionHypothesis later with ⟨rfl, listedLater, foundLater⟩
      cases made
      refine ⟨rfl, ?_, ?_⟩
      · intro helper member
        rcases List.mem_append.mp member with inOwn | inMore
        · rcases listed helper inOwn with ⟨production, index, symbol, helperOf⟩
          exact ⟨draft, production, index, symbol, List.mem_cons_self, helperOf⟩
        · rcases listedLater helper inMore with ⟨owner, production, index, symbol, after, helperOf⟩
          exact ⟨owner, production, index, symbol, List.mem_cons_of_mem _ after, helperOf⟩
      · intro owner member
        rcases List.mem_cons.mp member with rfl | after
        · refine ⟨?_, ?_⟩
          · intro production index at_ symbol place inside operator
            rcases found production index at_ symbol place inside operator with ⟨helper, _, helperOf⟩
            exact ⟨helper, helperOf⟩
          · intro production index symbol helper helperOf
            rcases helperOf.place with ⟨at_, place, inside⟩
            rcases found production index at_ symbol place inside helperOf.operator with
              ⟨other, inOwn, otherOf⟩
            have same : other = helper := helper_unique otherOf helperOf
            exact List.mem_append_left _ (same ▸ inOwn)
        · rcases foundLater owner after with ⟨supplied, inMore⟩
          refine ⟨supplied, ?_⟩
          intro production index symbol helper helperOf
          exact List.mem_append_right _ (inMore production index symbol helper helperOf)

theorem drafted_of_helpers {drafts helpers : List Draft}
    (listed : forall helper, helper ∈ helpers -> Exists fun owner => Exists fun production =>
      Exists fun index => Exists fun symbol => owner ∈ drafts ∧
        owner.HelperOf production index symbol helper)
    {draft : Draft} (drafted : Drafted helpers draft) : Drafted drafts draft := by
  induction drafted with
  | listed draft member =>
      rcases listed draft member with ⟨owner, production, index, symbol, inDrafts, helperOf⟩
      exact .helper owner draft production index symbol (.listed owner inDrafts) helperOf
  | helper owner helper production index symbol _ helperOf inductionHypothesis =>
      exact .helper owner helper production index symbol inductionHypothesis helperOf

private theorem listed_or_drafted {drafts helpers : List Draft}
    (found : forall owner, owner ∈ drafts -> forall (production index : Nat) (symbol : Symbol)
      (helper : Draft), owner.HelperOf production index symbol helper -> helper ∈ helpers)
    {draft : Draft} (drafted : Drafted drafts draft) : draft ∈ drafts ∨ Drafted helpers draft := by
  induction drafted with
  | listed draft member => exact Or.inl member
  | helper owner helper production index symbol _ helperOf inductionHypothesis =>
      rcases inductionHypothesis with inDrafts | inHelpers
      · exact Or.inr (.listed helper (found owner inDrafts production index symbol helper helperOf))
      · exact Or.inr (.helper owner helper production index symbol inHelpers helperOf)

private theorem not_drafted_of_empty {drafts : List Draft} (empty : forall draft, draft ∉ drafts)
    {draft : Draft} (drafted : Drafted drafts draft) : False := by
  induction drafted with
  | listed draft member => exact empty draft member
  | helper _ _ _ _ _ _ _ inductionHypothesis => exact inductionHypothesis

/-- A level is rewritten together with all levels inside it. -/
theorem rewriteLevels_succ (levels : Nat) (drafts : List Draft) :
    rewriteLevels (levels + 1) drafts = rewriteEach drafts >>= fun result =>
      rewriteLevels levels result.2 >>= fun more => .ok (result.1 ++ more) := by
  have none : rewriteLevels levels [] = .ok [] := by
    cases levels <;> rfl
  rw [rewriteLevels]
  cases drafts with
  | nil =>
      change _ = rewriteLevels levels [] >>= _
      rw [none]
      rfl
  | cons draft rest => rfl

/-- Rewriting by levels yields plain rules of drafts, and those of all drafts that are nested less
deep than there are levels. -/
theorem rewriteLevels_eq {levels : Nat} {drafts : List Draft} {rules : List PlainRule}
    (rewritten : rewriteLevels levels drafts = .ok rules) :
    (forall rule, rule ∈ rules -> Exists fun draft => Drafted drafts draft ∧
      rule = draft.plainRule) ∧
      ((forall draft, draft ∈ drafts -> draft.depth < levels) ->
        forall draft, Drafted drafts draft -> draft.plainRule ∈ rules ∧ draft.Supplied) := by
  induction levels generalizing drafts rules with
  | zero =>
      rw [rewriteLevels, Except.ok.injEq] at rewritten
      rw [← rewritten]
      refine ⟨fun _ impossible => (List.not_mem_nil impossible).elim, ?_⟩
      intro small draft drafted
      exact (not_drafted_of_empty
        (fun draft member => Nat.not_lt_zero _ (small draft member)) drafted).elim
  | succ levels inductionHypothesis =>
      rw [rewriteLevels_succ] at rewritten
      rcases of_bind_eq_ok rewritten with ⟨⟨first, helpers⟩, each, remaining⟩
      rcases of_bind_eq_ok remaining with ⟨more, later, made⟩
      rcases rewriteEach_eq each with ⟨rfl, listed, found⟩
      rcases inductionHypothesis later with ⟨sound, complete⟩
      cases made
      refine ⟨?_, ?_⟩
      · intro rule member
        rcases List.mem_append.mp member with here | deeper
        · rcases List.mem_map.mp here with ⟨draft, inDrafts, rfl⟩
          exact ⟨draft, .listed draft inDrafts, rfl⟩
        · rcases sound rule deeper with ⟨draft, drafted, same⟩
          exact ⟨draft, drafted_of_helpers listed drafted, same⟩
      · intro small draft drafted
        rcases listed_or_drafted (fun owner member => (found owner member).2) drafted with
          inDrafts | inHelpers
        · exact ⟨List.mem_append_left _ (List.mem_map_of_mem inDrafts), (found draft inDrafts).1⟩
        · apply (complete _ draft inHelpers).imp_left (List.mem_append_right _)
          intro helper member
          rcases listed helper member with ⟨owner, production, index, symbol, inDrafts, helperOf⟩
          have deeper := depth_lt_of_helper helperOf
          have bound := small owner inDrafts
          omega

/-- The drafts come first and in order, and behind them are only rules of helpers. -/
theorem rewriteLevels_front {levels : Nat} {drafts : List Draft} {rules : List PlainRule}
    (rewritten : rewriteLevels (levels + 1) drafts = .ok rules) :
    Exists fun added => rules = drafts.map plainRule ++ added ∧
      forall rule, rule ∈ added -> rule.helper = true := by
  rw [rewriteLevels_succ] at rewritten
  rcases of_bind_eq_ok rewritten with ⟨⟨first, helpers⟩, each, remaining⟩
  rcases of_bind_eq_ok remaining with ⟨added, later, made⟩
  rcases rewriteEach_eq each with ⟨rfl, listed, _⟩
  cases made
  refine ⟨added, rfl, fun rule member => ?_⟩
  rcases (rewriteLevels_eq later).1 rule member with ⟨draft, drafted, rfl⟩
  cases drafted with
  | listed _ inHelpers =>
      rcases listed draft inHelpers with ⟨owner, production, index, symbol, _, helperOf⟩
      exact helperOf.isHelper
  | helper owner _ production index symbol _ helperOf => exact helperOf.isHelper

end Draft

namespace Grammar

open Draft

variable {grammar : Grammar} {plain : PlainGrammar}

/-- A plain grammar is that of rules, which are rewritten as deep as they are nested. -/
theorem rewriteLevels_of_toPlain (made : grammar.toPlain = .ok plain) :
    grammar.rules ≠ [] ∧ rewriteLevels (grammar.depth + 1) grammar.drafts = .ok plain.rules := by
  unfold toPlain at made
  split at made
  · cases made
  next notEmpty =>
    rcases of_bind_eq_ok made with ⟨rules, rewritten, same⟩
    cases same
    exact ⟨fun none => notEmpty (List.isEmpty_iff.mpr none), rewritten⟩

/-- The rules that the author wrote come first and in order, and behind them are only those of
helpers. -/
theorem toPlain_front (made : grammar.toPlain = .ok plain) :
    Exists fun added => plain.rules = grammar.drafts.map plainRule ++ added ∧
      forall rule, rule ∈ added -> rule.helper = true :=
  rewriteLevels_front (rewriteLevels_of_toPlain made).2

private theorem root_eq (made : grammar.toPlain = .ok plain) :
    grammar.root? = some plain.root := by
  rcases toPlain_front made with ⟨added, rules, _⟩
  unfold root? PlainGrammar.root
  rw [rules, drafts]
  cases known : grammar.rules with
  | nil => exact ((rewriteLevels_of_toPlain made).1 known).elim
  | cons rule rest => rfl

/-- A grammar is rewritten to one level more than its rules are nested. -/
theorem depth_lt_of_mem_drafts (grammar : Grammar) (draft : Draft)
    (member : draft ∈ grammar.drafts) : draft.depth < grammar.depth + 1 :=
  Nat.lt_succ_of_le ((le_foldl_max _ 0).2 _ (List.mem_map_of_mem member))

/-- The rules of the plain grammar are the plain rules of all drafts, none of which lacks a helper,
and its root is that of the grammar. -/
theorem toPlain_eq (made : grammar.toPlain = .ok plain) :
    (forall rule, rule ∈ plain.rules ↔
      Exists fun draft => Drafted grammar.drafts draft ∧ rule = draft.plainRule) ∧
      (forall draft, Drafted grammar.drafts draft -> draft.Supplied) ∧
      grammar.root? = some plain.root := by
  rcases rewriteLevels_eq (rewriteLevels_of_toPlain made).2 with ⟨sound, complete⟩
  have each := complete grammar.depth_lt_of_mem_drafts
  refine ⟨fun rule => ⟨sound rule, ?_⟩, fun draft drafted => (each draft drafted).2, root_eq made⟩
  rintro ⟨draft, drafted, rfl⟩
  exact (each draft drafted).1

end Grammar

end ShiftReduce
