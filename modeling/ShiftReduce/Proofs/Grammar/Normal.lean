import ShiftReduce.Grammar.Simplify
import ShiftReduce.Proofs.Grammar.Admissible

namespace ShiftReduce

/-!
# The normal form of grammars

Simplification lands in a normal form and leaves a grammar in normal form alone.  The form is described
by what may not stand in a sequence at any depth.  The proofs go by what may not stand directly inside a
symbol, which comes to the same.  The induction is on nesting: the inside of an operator is simplified
before the operator itself, so that a branch that takes the place of a choice brings no choice between
one branch with it.
-/

namespace Symbol

/-! ## What holds everywhere in a symbol -/

/-- The property holds of the symbol and of everything inside it. -/
def Everywhere (property : Symbol -> Prop) (symbol : Symbol) : Prop :=
  forall inner, Contains symbol inner -> property inner

variable {property : Symbol -> Prop} {symbol : Symbol}

theorem everywhere_iff : symbol.Everywhere property ↔
    property symbol ∧ forall child, child ∈ symbol.children -> child.Everywhere property := by
  constructor
  · intro everywhere
    exact ⟨everywhere symbol (.refl symbol), fun child member inner inside =>
      everywhere inner (.child symbol child inner member inside)⟩
  · rintro ⟨own, below⟩ inner contains
    cases contains with
    | refl => exact own
    | child _ child _ member inside => exact below child member inner inside

theorem Everywhere.inside {inner : Symbol} (everywhere : symbol.Everywhere property)
    (contains : Contains symbol inner) : inner.Everywhere property :=
  fun deeper inside => everywhere deeper (contains.trans inside)

/-- What holds of a symbol if it holds of the symbols directly inside holds of every symbol. -/
theorem induction_on_children {motive : Symbol -> Prop}
    (step : forall symbol, (forall child, child ∈ symbol.children -> motive child) -> motive symbol)
    (symbol : Symbol) : motive symbol := by
  induction nesting : symbol.depth using Nat.strongRecOn generalizing symbol with
  | _ nesting inductionHypothesis =>
      subst nesting
      exact step symbol fun child member =>
        inductionHypothesis child.depth (depth_lt_of_child member) child rfl

/-! ## What carries no meaning -/

/-- The symbol is a choice between one branch. -/
def IsGroup (symbol : Symbol) : Prop :=
  Exists fun branch => symbol = .alternation [branch]

/-- No choice between one branch stands directly inside the symbol, and no choice is a whole branch of
it. -/
structure Tidy (symbol : Symbol) : Prop where
  groups : forall child, child ∈ symbol.children -> ¬ child.IsGroup
  choices : forall branches, symbol = .alternation branches ->
    forall branch, branch ∈ branches -> soleChoice? branch = none

theorem eq_of_soleChoice {sequence : List Symbol} {branches : List (List Symbol)}
    (sole : soleChoice? sequence = some branches) :
    sequence = [.alternation branches] ∧ branches ≠ [] := by
  unfold soleChoice? at sole
  split at sole
  · cases sole
    exact ⟨rfl, List.cons_ne_nil _ _⟩
  · cases sole

theorem of_mem_inlineGroups {sequence : List Symbol} (member : symbol ∈ inlineGroups sequence) :
    symbol ∈ sequence ∧ ¬ symbol.IsGroup ∨
      Exists fun branch => .alternation [branch] ∈ sequence ∧ symbol ∈ branch := by
  rcases List.mem_flatMap.mp member with ⟨outer, listed, inside⟩
  split at inside
  next branch => exact Or.inr ⟨branch, listed, inside⟩
  next other =>
    rw [List.mem_singleton.mp inside]
    exact Or.inl ⟨listed, fun ⟨branch, isGroup⟩ => other branch isGroup⟩

theorem inlineGroups_eq_self {sequence : List Symbol}
    (groups : forall symbol, symbol ∈ sequence -> ¬ symbol.IsGroup) :
    inlineGroups sequence = sequence := by
  induction sequence with
  | nil => rfl
  | cons symbol rest inductionHypothesis =>
      have later := inductionHypothesis fun other member =>
        groups other (List.mem_cons_of_mem _ member)
      unfold inlineGroups at later ⊢
      rw [List.flatMap_cons, later]
      split
      next branch => exact (groups _ List.mem_cons_self ⟨branch, rfl⟩).elim
      · rfl

theorem of_mem_flattenChoices {branches : List (List Symbol)} {branch : List Symbol}
    (member : branch ∈ flattenChoices branches) : Exists fun outer => outer ∈ branches ∧
      (branch = inlineGroups outer ∧ soleChoice? branch = none ∨
        Exists fun inner => inlineGroups outer = [.alternation inner] ∧ branch ∈ inner) := by
  rcases List.mem_flatMap.mp member with ⟨outer, listed, inside⟩
  refine ⟨outer, listed, ?_⟩
  dsimp only at inside
  split at inside
  next inner sole => exact Or.inr ⟨inner, (eq_of_soleChoice sole).1, inside⟩
  next notSole =>
    rw [List.mem_singleton.mp inside]
    exact Or.inl ⟨rfl, notSole⟩

theorem flattenChoices_eq_self {branches : List (List Symbol)}
    (groups : forall branch, branch ∈ branches -> forall symbol, symbol ∈ branch -> ¬ symbol.IsGroup)
    (choices : forall branch, branch ∈ branches -> soleChoice? branch = none) :
    flattenChoices branches = branches := by
  induction branches with
  | nil => rfl
  | cons branch rest inductionHypothesis =>
      have later := inductionHypothesis
        (fun other member => groups other (List.mem_cons_of_mem _ member))
        (fun other member => choices other (List.mem_cons_of_mem _ member))
      unfold flattenChoices at later ⊢
      rw [List.flatMap_cons, later, inlineGroups_eq_self (groups branch List.mem_cons_self)]
      dsimp only
      rw [choices branch List.mem_cons_self]
      rfl

/-- A choice does not lose all its branches. -/
theorem flattenChoices_ne_nil {branches : List (List Symbol)} (inhabited : branches ≠ []) :
    flattenChoices branches ≠ [] := by
  intro empty
  rcases List.exists_mem_of_ne_nil branches inhabited with ⟨branch, listed⟩
  have nothing := List.flatMap_eq_nil_iff.mp empty branch listed
  dsimp only at nothing
  split at nothing
  next inner sole => exact (eq_of_soleChoice sole).2 nothing
  · exact List.cons_ne_nil _ _ nothing

/-! ## Symbols -/

theorem simplifyEach_eq_map (symbols : List Symbol) :
    simplifyEach symbols = symbols.map simplify := by
  induction symbols with
  | nil => rfl
  | cons symbol rest inductionHypothesis => rw [simplifyEach, inductionHypothesis, List.map_cons]

theorem simplifyBranches_eq_map (branches : List (List Symbol)) :
    simplifyBranches branches = branches.map (List.map simplify) := by
  induction branches with
  | nil => rfl
  | cons branch rest inductionHypothesis =>
      rw [simplifyBranches, inductionHypothesis, simplifyEach_eq_map, List.map_cons]

/-- What stands in a simplified sequence was there already, or is directly inside a choice that
was. -/
private theorem of_mem_simplifySequence {sequence : List Symbol} {child : Symbol}
    (member : child ∈ inlineGroups (simplifyEach sequence)) :
    Exists fun inner => inner ∈ sequence ∧ Contains inner.simplify child ∧
      (inner.simplify.Tidy -> ¬ child.IsGroup) := by
  rw [simplifyEach_eq_map] at member
  rcases of_mem_inlineGroups member with ⟨listed, notGroup⟩ | ⟨branch, listed, inside⟩
  · rcases List.mem_map.mp listed with ⟨inner, inSequence, rfl⟩
    exact ⟨inner, inSequence, .refl _, fun _ => notGroup⟩
  · rcases List.mem_map.mp listed with ⟨inner, inSequence, same⟩
    have directly : child ∈ inner.simplify.children := by
      rw [same]
      exact List.mem_flatten.mpr ⟨branch, List.mem_singleton_self _, inside⟩
    exact ⟨inner, inSequence, .child _ child child directly (.refl child),
      fun tidy => tidy.groups child directly⟩

/-- A branch of a simplified choice was a branch already, or belongs to a choice that was inside
one. -/
private theorem of_mem_simplifiedChoices {branches : List (List Symbol)} {branch : List Symbol}
    (member : branch ∈ flattenChoices (simplifyBranches branches)) :
    Exists fun original => original ∈ branches ∧
      (branch = inlineGroups (simplifyEach original) ∧ soleChoice? branch = none ∨
        Exists fun source => source ∈ original ∧ Exists fun inner =>
          Contains source.simplify (.alternation inner) ∧ branch ∈ inner) := by
  rw [simplifyBranches_eq_map] at member
  rcases of_mem_flattenChoices member with ⟨outer, inOuter, which⟩
  rcases List.mem_map.mp inOuter with ⟨original, listed, rfl⟩
  rw [← simplifyEach_eq_map] at which
  refine ⟨original, listed, which.imp_right ?_⟩
  rintro ⟨inner, sole, inInner⟩
  have here : .alternation inner ∈ inlineGroups (simplifyEach original) :=
    sole ▸ List.mem_singleton_self _
  rcases of_mem_simplifySequence here with ⟨source, inOriginal, contains, _⟩
  exact ⟨source, inOriginal, inner, contains, inInner⟩

/-- What stands directly inside a simplified symbol is inside the simplification of something that
stood directly inside the symbol. -/
private theorem of_mem_children_simplify {child : Symbol}
    (member : child ∈ symbol.simplify.children) :
    Exists fun inner => inner ∈ symbol.children ∧ Contains inner.simplify child ∧
      (inner.simplify.Everywhere Tidy -> ¬ child.IsGroup) := by
  have sequence : forall body : List Symbol, child ∈ inlineGroups (simplifyEach body) ->
      Exists fun inner => inner ∈ body ∧ Contains inner.simplify child ∧
        (inner.simplify.Everywhere Tidy -> ¬ child.IsGroup) := by
    intro body inside
    rcases of_mem_simplifySequence inside with ⟨inner, listed, contains, notGroup⟩
    exact ⟨inner, listed, contains, fun tidy => notGroup (tidy _ (.refl _))⟩
  cases symbol with
  | name word => cases member
  | repeat0 body => exact sequence body (by rwa [simplify] at member)
  | repeat1 body => exact sequence body (by rwa [simplify] at member)
  | optional body => exact sequence body (by rwa [simplify] at member)
  | bounded least most body => exact sequence body (by rwa [simplify] at member)
  | alternation branches =>
      rw [simplify] at member
      rcases List.mem_flatten.mp member with ⟨branch, inBranches, inBranch⟩
      rcases of_mem_simplifiedChoices inBranches with
        ⟨original, listed, kept | ⟨inner, inOriginal, choice, contains, inChoice⟩⟩
      · rw [kept.1] at inBranch
        rcases sequence original inBranch with ⟨inner, inOriginal, facts⟩
        exact ⟨inner, List.mem_flatten.mpr ⟨original, listed, inOriginal⟩, facts⟩
      · have directly : child ∈ (Symbol.alternation choice).children :=
          List.mem_flatten.mpr ⟨branch, inChoice, inBranch⟩
        refine ⟨inner, List.mem_flatten.mpr ⟨original, listed, inOriginal⟩,
          contains.trans (.child _ child child directly (.refl child)), fun tidy => ?_⟩
        exact (tidy _ contains).groups child directly

/-- What simplification leaves true of a symbol it leaves true everywhere. -/
theorem Everywhere.simplify (keeps : forall symbol, property symbol -> property symbol.simplify)
    (everywhere : symbol.Everywhere property) : symbol.simplify.Everywhere property := by
  induction symbol using induction_on_children with
  | step symbol inductionHypothesis =>
      rcases everywhere_iff.mp everywhere with ⟨own, below⟩
      refine everywhere_iff.mpr ⟨keeps symbol own, fun child member => ?_⟩
      rcases of_mem_children_simplify member with ⟨inner, listed, contains, _⟩
      exact (inductionHypothesis inner listed (below inner listed)).inside contains

/-- Nothing without a meaning of its own is left inside a simplified symbol. -/
theorem tidy_simplify (symbol : Symbol) : symbol.simplify.Everywhere Tidy := by
  induction symbol using induction_on_children with
  | step symbol inductionHypothesis =>
      refine everywhere_iff.mpr ⟨⟨fun child member => ?_, fun choice isChoice branch listed => ?_⟩,
        fun child member => ?_⟩
      · rcases of_mem_children_simplify member with ⟨inner, listed, _, notGroup⟩
        exact notGroup (inductionHypothesis inner listed)
      · cases symbol with
        | alternation branches =>
            rw [simplify, alternation.injEq] at isChoice
            rw [← isChoice] at listed
            rcases of_mem_simplifiedChoices listed with
              ⟨original, inBranches, kept | ⟨source, inOriginal, inner, contains, inInner⟩⟩
            · exact kept.2
            · have inside := inductionHypothesis source
                (List.mem_flatten.mpr ⟨original, inBranches, inOriginal⟩)
              exact (inside _ contains).choices inner rfl branch inInner
        | _ => cases isChoice
      · rcases of_mem_children_simplify member with ⟨inner, listed, contains, _⟩
        exact (inductionHypothesis inner listed).inside contains

/-- A symbol in normal form is left alone. -/
theorem simplify_eq_self (tidy : symbol.Everywhere Tidy) : symbol.simplify = symbol := by
  induction symbol using induction_on_children with
  | step symbol inductionHypothesis =>
      rcases everywhere_iff.mp tidy with ⟨own, below⟩
      have inside : forall sequence : List Symbol,
          (forall child, child ∈ sequence -> child ∈ symbol.children) ->
          simplifyEach sequence = sequence := by
        intro sequence among
        rw [simplifyEach_eq_map]
        exact (List.map_congr_left fun child member =>
          inductionHypothesis child (among child member) (below child (among child member))).trans
            (List.map_id _)
      have whole : forall body : List Symbol,
          (forall child, child ∈ body -> child ∈ symbol.children) ->
          inlineGroups (simplifyEach body) = body := by
        intro body among
        rw [inside body among, inlineGroups_eq_self fun child member =>
          own.groups child (among child member)]
      cases symbol with
      | name word => rfl
      | repeat0 body => rw [simplify, whole body fun _ => id]
      | repeat1 body => rw [simplify, whole body fun _ => id]
      | optional body => rw [simplify, whole body fun _ => id]
      | bounded least most body => rw [simplify, whole body fun _ => id]
      | alternation branches =>
          have among : forall branch, branch ∈ branches -> forall child, child ∈ branch ->
              child ∈ (Symbol.alternation branches).children :=
            fun branch listed child member => List.mem_flatten.mpr ⟨branch, listed, member⟩
          have each : simplifyBranches branches = branches := by
            rw [simplifyBranches_eq_map]
            refine (List.map_congr_left fun branch listed => ?_).trans (List.map_id _)
            rw [← simplifyEach_eq_map]
            exact inside branch (among branch listed)
          rw [simplify, each, flattenChoices_eq_self
            (fun branch listed child member => own.groups child (among branch listed child member))
            (own.choices branches rfl)]

/-! ## Sequences -/

theorem everywhere_simplifySequence
    (keeps : forall symbol, property symbol -> property symbol.simplify) {sequence : List Symbol}
    (everywhere : forall symbol, symbol ∈ sequence -> symbol.Everywhere property) {child : Symbol}
    (member : child ∈ simplifySequence sequence) : child.Everywhere property := by
  rcases of_mem_simplifySequence member with ⟨inner, listed, contains, _⟩
  exact ((everywhere inner listed).simplify keeps).inside contains

/-- None of the symbols is a choice between one branch, and nothing without a meaning of its own is left
inside them. -/
def TidyRow (sequence : List Symbol) : Prop :=
  forall symbol, symbol ∈ sequence -> symbol.Everywhere Tidy ∧ ¬ symbol.IsGroup

theorem tidy_simplifySequence (sequence : List Symbol) : TidyRow (simplifySequence sequence) := by
  intro child member
  rcases of_mem_simplifySequence member with ⟨inner, _, contains, notGroup⟩
  exact ⟨(tidy_simplify inner).inside contains, notGroup (tidy_simplify inner _ (.refl _))⟩

/-- A sequence of such symbols is left alone. -/
theorem simplifySequence_eq_self {sequence : List Symbol} (tidy : TidyRow sequence) :
    simplifySequence sequence = sequence := by
  have same : simplifyEach sequence = sequence := by
    rw [simplifyEach_eq_map]
    exact (List.map_congr_left fun symbol member => simplify_eq_self (tidy symbol member).1).trans
      (List.map_id _)
  rw [simplifySequence, same, inlineGroups_eq_self fun symbol member => (tidy symbol member).2]

/-! ## Sequences at any depth -/

/-- The sequences that an operator is written over: its body, or its branches. -/
def sequences : Symbol -> List (List Symbol)
  | .name _ => []
  | .repeat0 body => [body]
  | .repeat1 body => [body]
  | .optional body => [body]
  | .alternation branches => branches
  | .bounded _ _ body => [body]

/-- A sequence stands in another, at any depth: it is this one, or stands in the body of an operator or
in a branch of a choice in it. -/
inductive Encloses : List Symbol -> List Symbol -> Prop where
  | whole (sequence : List Symbol) : Encloses sequence sequence
  | inside (outer : List Symbol) (symbol : Symbol) (body inner : List Symbol) (member : symbol ∈ outer)
      (operand : body ∈ symbol.sequences) (encloses : Encloses body inner) : Encloses outer inner

/-- In no sequence at any depth is there a choice between one branch, and no branch of a choice is
nothing but a choice between several. -/
structure Normal (sequence : List Symbol) : Prop where
  groups : forall inner, Encloses sequence inner -> forall branch, .alternation [branch] ∉ inner
  choices : forall inner, Encloses sequence inner -> forall branches, .alternation branches ∈ inner ->
    forall nested, 2 ≤ nested.length -> [.alternation nested] ∉ branches

theorem flatten_sequences (symbol : Symbol) : symbol.sequences.flatten = symbol.children := by
  cases symbol <;> simp [sequences, children]

theorem soleChoice?_eq_none_iff {branch : List Symbol} : soleChoice? branch = none ↔
    forall nested, 2 ≤ nested.length -> branch ≠ [.alternation nested] := by
  constructor
  · rintro notSole nested several rfl
    match nested with
    | first :: second :: rest => cases notSole
  · intro different
    cases sole : soleChoice? branch with
    | none => rfl
    | some nested =>
        unfold soleChoice? at sole
        split at sole
        next first second rest => exact (different _ (by simp) rfl).elim
        · cases sole

/-- What is inside a symbol of a sequence is a symbol of a sequence that stands in it. -/
theorem encloses_of_contains {inner : Symbol} (contains : Contains symbol inner) {outer : List Symbol}
    (member : symbol ∈ outer) :
    Exists fun sequence => Encloses outer sequence ∧ inner ∈ sequence := by
  induction contains generalizing outer with
  | refl symbol => exact ⟨outer, .whole outer, member⟩
  | child symbol between inner directly _ inductionHypothesis =>
      rw [← flatten_sequences] at directly
      rcases List.mem_flatten.mp directly with ⟨body, operand, inBody⟩
      rcases inductionHypothesis inBody with ⟨sequence, encloses, listed⟩
      exact ⟨sequence, .inside outer symbol body sequence member operand encloses, listed⟩

theorem tidy_of_encloses {outer inner : List Symbol} (encloses : Encloses outer inner)
    (tidy : TidyRow outer) : TidyRow inner := by
  induction encloses with
  | whole sequence => exact tidy
  | inside outer symbol body inner member operand _ inductionHypothesis =>
      rcases everywhere_iff.mp (tidy symbol member).1 with ⟨own, below⟩
      apply inductionHypothesis
      intro child inBody
      have directly : child ∈ symbol.children := by
        rw [← flatten_sequences]
        exact List.mem_flatten.mpr ⟨body, operand, inBody⟩
      exact ⟨below child directly, own.groups child directly⟩

/-- The normal form of a sequence is what its symbols are, one by one. -/
theorem normal_iff {sequence : List Symbol} : Normal sequence ↔ TidyRow sequence := by
  constructor
  · intro normal symbol member
    have notGroup : forall inner, Contains symbol inner -> ¬ inner.IsGroup := by
      rintro _ contains ⟨branch, rfl⟩
      rcases encloses_of_contains contains member with ⟨body, encloses, listed⟩
      exact normal.groups body encloses branch listed
    refine ⟨fun inner contains => ⟨fun child directly => ?_, ?_⟩, notGroup symbol (.refl symbol)⟩
    · exact notGroup child (contains.trans (.child inner child child directly (.refl child)))
    · rintro branches rfl branch listed
      rcases encloses_of_contains contains member with ⟨body, encloses, inBody⟩
      rw [soleChoice?_eq_none_iff]
      rintro nested several rfl
      exact normal.choices body encloses branches inBody nested several listed
  · intro tidy
    constructor
    · intro inner encloses branch member
      exact (tidy_of_encloses encloses tidy _ member).2 ⟨branch, rfl⟩
    · intro inner encloses branches member nested several listed
      have own := (tidy_of_encloses encloses tidy _ member).1 _ (.refl _)
      exact soleChoice?_eq_none_iff.mp (own.choices branches rfl _ listed) nested several rfl

end Symbol

/-- Grammars with the same rules are the same. -/
theorem Grammar.eq_of_rules {left right : Grammar} (same : left.rules = right.rules) :
    left = right := by
  cases left
  cases right
  cases same
  rfl

namespace Grammar

/-- All right-hand sides are in normal form. -/
def Normal (grammar : Grammar) : Prop :=
  forall rule, rule ∈ grammar.rules -> forall production, production ∈ rule.productions ->
    Symbol.Normal production.symbols

theorem normal_simplify (grammar : Grammar) : grammar.simplify.Normal := by
  intro rule ruleListed production listed
  rcases List.mem_map.mp ruleListed with ⟨source, _, rfl⟩
  rcases List.mem_map.mp listed with ⟨original, _, rfl⟩
  exact Symbol.normal_iff.mpr (Symbol.tidy_simplifySequence original.symbols)

theorem simplify_eq_self {grammar : Grammar} (normal : grammar.Normal) :
    grammar.simplify = grammar := by
  apply eq_of_rules
  refine (List.map_congr_left fun rule ruleListed => ?_).trans (List.map_id _)
  have productions : rule.productions.map Production.simplify = rule.productions := by
    refine (List.map_congr_left fun production listed => ?_).trans (List.map_id _)
    have symbols := Symbol.normal_iff.mp (normal rule ruleListed production listed)
    exact congrArg (fun symbols => { production with symbols })
      (Symbol.simplifySequence_eq_self symbols)
  exact congrArg (Rule.mk rule.name) productions

/-- Simplifying a second time changes nothing. -/
theorem simplify_simplify (grammar : Grammar) : grammar.simplify.simplify = grammar.simplify :=
  simplify_eq_self grammar.normal_simplify

/-- One pass reaches the normal form.  The grammars in normal form are those that simplification leaves
alone, so a second pass changes nothing. -/
theorem normal_after_one_pass (grammar : Grammar) :
    grammar.simplify.Normal ∧ (grammar.Normal ↔ grammar.simplify = grammar) ∧
      grammar.simplify.simplify = grammar.simplify := by
  refine ⟨grammar.normal_simplify, ⟨simplify_eq_self, fun same => ?_⟩, grammar.simplify_simplify⟩
  rw [← same]
  exact grammar.normal_simplify

end Grammar

end ShiftReduce
