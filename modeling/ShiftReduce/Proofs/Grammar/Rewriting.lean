import Mathlib.Logic.Relation
import ShiftReduce.Grammar.Plain

namespace ShiftReduce

/-!
# Rewriting by a plain grammar

A plain grammar rewrites a string of names by putting the right side of a production in the place of
the name of its rule.  Everything that is said about automata refers to this relation, and to no
computed table: a string is nullable if it can be rewritten to the empty string, and a terminal
begins it if it can be rewritten to a string with that terminal in front.  The rest of that string
need not be rewritten to terminals any further, so rules that derive no terminal string count as
well.

A name without productions is a terminal, also if there is a rule of that name.

What begins a string can also be found by going into the first name that does not vanish.  The two
notions differ only for an empty name, which is that of the end of the input: no search finds it.
-/

namespace PlainGrammar

/-- The productions of all rules in order, each with its rule. -/
def productions (grammar : PlainGrammar) : List (PlainRule × PlainProduction) :=
  grammar.rules.flatMap fun rule => rule.productions.map fun production => (rule, production)

theorem mem_productions {grammar : PlainGrammar} {pair : PlainRule × PlainProduction} :
    pair ∈ grammar.productions ↔ pair.1 ∈ grammar.rules ∧ pair.2 ∈ pair.1.productions := by
  rcases pair with ⟨rule, production⟩
  simp only [productions, List.mem_flatMap, List.mem_map, Prod.mk.injEq]
  constructor
  · rintro ⟨found, listed, other, member, rfl, rfl⟩
    exact ⟨listed, member⟩
  · rintro ⟨listed, member⟩
    exact ⟨rule, listed, production, member, rfl, rfl⟩

/-- The symbols of a production's right side from the dot on. -/
def fromDot (grammar : PlainGrammar) (production dot : Nat) : List String :=
  match grammar.productions[production]? with
  | some pair => pair.2.symbols.drop dot
  | none => []

/-- No rule and no symbol has the empty name, which stands for the end of the input. -/
def Named (grammar : PlainGrammar) : Prop :=
  forall rule, rule ∈ grammar.rules -> rule.name ≠ "" ∧
    forall production, production ∈ rule.productions -> "" ∉ production.symbols

instance (grammar : PlainGrammar) : Decidable grammar.Named :=
  inferInstanceAs (Decidable (forall rule, rule ∈ grammar.rules -> rule.name ≠ "" ∧
    forall production, production ∈ rule.productions -> "" ∉ production.symbols))

/-- Some rule of that name has a production. -/
def IsNonterminal (grammar : PlainGrammar) (name : String) : Prop :=
  Exists fun pair => pair ∈ grammar.productions ∧ pair.1.name = name

instance (grammar : PlainGrammar) (name : String) : Decidable (grammar.IsNonterminal name) :=
  inferInstanceAs (Decidable (Exists fun pair => pair ∈ grammar.productions ∧ pair.1.name = name))

/-- One name of a string is replaced by the right side of one of its productions. -/
inductive Rewrites (grammar : PlainGrammar) : List String -> List String -> Prop where
  | replace (before after : List String) (pair : PlainRule × PlainProduction)
      (listed : pair ∈ grammar.productions) :
      Rewrites grammar (before ++ pair.1.name :: after) (before ++ pair.2.symbols ++ after)

/-- Any number of replacements, one after the other. -/
def Derives (grammar : PlainGrammar) : List String -> List String -> Prop :=
  Relation.ReflTransGen grammar.Rewrites

/-- The string can be rewritten to the empty string. -/
def Nullable (grammar : PlainGrammar) (symbols : List String) : Prop :=
  grammar.Derives symbols []

/-- The terminal stands in front of a string that `symbols` can be rewritten to. -/
def Begins (grammar : PlainGrammar) (symbols : List String) (terminal : String) : Prop :=
  ¬ grammar.IsNonterminal terminal ∧
    Exists fun rest => grammar.Derives symbols (terminal :: rest)

/-- The terminal is found by going into the first name of the string that does not vanish. -/
inductive Opens (grammar : PlainGrammar) : List String -> String -> Prop where
  | here (name : String) (rest : List String) (isTerminal : ¬ grammar.IsNonterminal name)
      (present : name ≠ "") : Opens grammar (name :: rest) name
  | expand (pair : PlainRule × PlainProduction) (rest : List String) (terminal : String)
      (listed : pair ∈ grammar.productions) (opens : Opens grammar pair.2.symbols terminal) :
      Opens grammar (pair.1.name :: rest) terminal
  | skip (name : String) (rest : List String) (terminal : String)
      (vanishes : grammar.Nullable [name]) (opens : Opens grammar rest terminal) :
      Opens grammar (name :: rest) terminal

variable {grammar : PlainGrammar}

theorem fromDot_eq {production dot : Nat} {pair : PlainRule × PlainProduction}
    (known : grammar.productions[production]? = some pair) :
    grammar.fromDot production dot = pair.2.symbols.drop dot := by
  unfold PlainGrammar.fromDot
  rw [known]

/-- What has a symbol behind the dot is a production. -/
theorem known_of_dotted {production dot : Nat} {symbol : String} {rest : List String}
    (dotted : grammar.fromDot production dot = symbol :: rest) :
    Exists fun pair => grammar.productions[production]? = some pair := by
  cases known : grammar.productions[production]? with
  | none =>
      unfold PlainGrammar.fromDot at dotted
      rw [known] at dotted
      cases dotted
  | some pair => exact ⟨pair, rfl⟩

/-- Behind a symbol there is the rest of its production. -/
theorem fromDot_succ {production dot : Nat} {symbol : String} {rest : List String}
    (dotted : grammar.fromDot production dot = symbol :: rest) :
    grammar.fromDot production (dot + 1) = rest := by
  cases known : grammar.productions[production]? with
  | none =>
      unfold PlainGrammar.fromDot at dotted
      rw [known] at dotted
      cases dotted
  | some pair =>
      rw [fromDot_eq known] at dotted ⊢
      rw [← List.tail_drop, dotted]
      rfl

theorem Rewrites.append_left {source target : List String}
    (rewrites : grammar.Rewrites source target) (front : List String) :
    grammar.Rewrites (front ++ source) (front ++ target) := by
  rcases rewrites with ⟨before, after, pair, listed⟩
  have step := Rewrites.replace (front ++ before) after pair listed
  simpa only [List.append_assoc] using step

theorem Rewrites.append_right {source target : List String}
    (rewrites : grammar.Rewrites source target) (back : List String) :
    grammar.Rewrites (source ++ back) (target ++ back) := by
  rcases rewrites with ⟨before, after, pair, listed⟩
  have step := Rewrites.replace before (after ++ back) pair listed
  simpa only [List.append_assoc, List.cons_append] using step

theorem Derives.refl (symbols : List String) : grammar.Derives symbols symbols :=
  Relation.ReflTransGen.refl

theorem Derives.trans {first second third : List String} (left : grammar.Derives first second)
    (right : grammar.Derives second third) : grammar.Derives first third :=
  Relation.ReflTransGen.trans left right

theorem Derives.append_left {source target : List String} (derives : grammar.Derives source target)
    (front : List String) : grammar.Derives (front ++ source) (front ++ target) :=
  Relation.ReflTransGen.lift (front ++ ·) (fun _ _ step => step.append_left front) _ _ derives

theorem Derives.append_right {source target : List String}
    (derives : grammar.Derives source target) (back : List String) :
    grammar.Derives (source ++ back) (target ++ back) :=
  Relation.ReflTransGen.lift (· ++ back) (fun _ _ step => step.append_right back) _ _ derives

theorem Derives.append {left right leftTarget rightTarget : List String}
    (first : grammar.Derives left leftTarget) (second : grammar.Derives right rightTarget) :
    grammar.Derives (left ++ right) (leftTarget ++ rightTarget) :=
  (first.append_right right).trans (second.append_left leftTarget)

theorem Derives.production {pair : PlainRule × PlainProduction}
    (listed : pair ∈ grammar.productions) :
    grammar.Derives [pair.1.name] pair.2.symbols := by
  have step := Rewrites.replace [] [] pair listed
  simp only [List.nil_append, List.append_nil] at step
  exact Relation.ReflTransGen.single step

/-- A terminal is rewritten to nothing but itself. -/
theorem Derives.of_terminal {symbol : String} (terminal : ¬ grammar.IsNonterminal symbol)
    {target : List String} (derives : grammar.Derives [symbol] target) : target = [symbol] := by
  induction derives with
  | refl => rfl
  | tail _ step inductionHypothesis =>
      subst inductionHypothesis
      generalize same : [symbol] = source at step
      rcases step with ⟨before, after, pair, listed⟩
      have member : pair.1.name ∈ [symbol] :=
        same ▸ List.mem_append_right _ List.mem_cons_self
      exact (terminal ⟨pair, listed, List.mem_singleton.mp member⟩).elim

theorem Derives.to_nil {symbols : List String}
    (each : forall symbol, symbol ∈ symbols -> grammar.Derives [symbol] []) :
    grammar.Derives symbols [] := by
  induction symbols with
  | nil => exact Derives.refl []
  | cons symbol rest inductionHypothesis =>
      have first := each symbol List.mem_cons_self
      have others := inductionHypothesis fun later member => each later (List.mem_cons_of_mem _ member)
      exact Derives.append first others

theorem Named.fromDot (named : grammar.Named) (production dot : Nat) :
    "" ∉ grammar.fromDot production dot := by
  unfold PlainGrammar.fromDot
  cases known : grammar.productions[production]? with
  | none => exact List.not_mem_nil
  | some pair =>
      have parts := mem_productions.mp (List.mem_of_getElem? known)
      exact fun member => (named pair.1 parts.1).2 pair.2 parts.2 (List.mem_of_mem_drop member)

/-- Rewriting brings no empty name into a string. -/
theorem Derives.named (named : grammar.Named) {source target : List String}
    (derives : grammar.Derives source target) (sourceNamed : "" ∉ source) : "" ∉ target := by
  induction derives with
  | refl => exact sourceNamed
  | tail _ step inductionHypothesis =>
      rcases step with ⟨before, after, pair, listed⟩
      have parts := mem_productions.mp listed
      have right := (named pair.1 parts.1).2 pair.2 parts.2
      simp only [List.mem_append, List.mem_cons] at inductionHypothesis ⊢
      rintro ((found | found) | found)
      · exact inductionHypothesis (Or.inl found)
      · exact right found
      · exact inductionHypothesis (Or.inr (Or.inr found))

/-- In a string that vanishes, every name does. -/
theorem Nullable.each {symbols : List String} (nullable : grammar.Nullable symbols) :
    forall symbol, symbol ∈ symbols -> grammar.Nullable [symbol] := by
  induction nullable using Relation.ReflTransGen.head_induction_on with
  | refl => exact fun _ impossible => (List.not_mem_nil impossible).elim
  | head step _ inductionHypothesis =>
      rcases step with ⟨before, after, pair, listed⟩
      have right : grammar.Nullable pair.2.symbols := Derives.to_nil fun symbol member =>
        inductionHypothesis symbol (List.mem_append_left _ (List.mem_append_right _ member))
      intro symbol member
      rcases List.mem_append.mp member with front | back
      · exact inductionHypothesis symbol (List.mem_append_left _ (List.mem_append_left _ front))
      · rcases List.mem_cons.mp back with same | behind
        · exact same ▸ (Derives.production listed).trans right
        · exact inductionHypothesis symbol (List.mem_append_right _ behind)

/-! ## Going into names -/

theorem opens_append {left right : List String} {terminal : String} :
    grammar.Opens (left ++ right) terminal ↔
      grammar.Opens left terminal ∨
        (forall name, name ∈ left -> grammar.Nullable [name]) ∧ grammar.Opens right terminal := by
  induction left with
  | nil =>
      refine ⟨fun opens => Or.inr ⟨fun _ impossible => (List.not_mem_nil impossible).elim, opens⟩, ?_⟩
      rintro (impossible | ⟨_, opens⟩)
      · cases impossible
      · exact opens
  | cons name rest inductionHypothesis =>
      rw [List.cons_append]
      constructor
      · intro opens
        cases opens with
        | here _ _ isTerminal present => exact Or.inl (.here _ rest isTerminal present)
        | expand pair _ _ listed opens => exact Or.inl (.expand pair rest terminal listed opens)
        | skip _ _ _ vanishes opens =>
            rcases inductionHypothesis.mp opens with inside | ⟨vanish, behind⟩
            · exact Or.inl (.skip name rest terminal vanishes inside)
            · exact Or.inr ⟨List.forall_mem_cons.mpr ⟨vanishes, vanish⟩, behind⟩
      · rintro (opens | ⟨vanish, behind⟩)
        · cases opens with
          | here _ _ isTerminal present => exact .here _ (rest ++ right) isTerminal present
          | expand pair _ _ listed opens => exact .expand pair (rest ++ right) terminal listed opens
          | skip _ _ _ vanishes opens =>
              exact .skip name (rest ++ right) terminal vanishes
                (inductionHypothesis.mpr (Or.inl opens))
        · rcases List.forall_mem_cons.mp vanish with ⟨vanishes, others⟩
          exact .skip name (rest ++ right) terminal vanishes
            (inductionHypothesis.mpr (Or.inr ⟨others, behind⟩))

theorem Opens.ne_empty {symbols : List String} {terminal : String}
    (opens : grammar.Opens symbols terminal) : terminal ≠ "" := by
  induction opens with
  | here _ _ _ present => exact present
  | expand _ _ _ _ _ inductionHypothesis => exact inductionHypothesis
  | skip _ _ _ _ _ inductionHypothesis => exact inductionHypothesis

/-- What is found in front of a string begins it. -/
theorem Opens.begins {symbols : List String} {terminal : String}
    (opens : grammar.Opens symbols terminal) : grammar.Begins symbols terminal := by
  induction opens with
  | here name rest isTerminal _ => exact ⟨isTerminal, rest, Derives.refl _⟩
  | expand pair rest terminal listed _ inductionHypothesis =>
      rcases inductionHypothesis with ⟨isTerminal, others, derives⟩
      exact ⟨isTerminal, others ++ rest,
        ((Derives.production listed).trans derives).append_right rest⟩
  | skip name rest terminal vanishes _ inductionHypothesis =>
      rcases inductionHypothesis with ⟨isTerminal, others, derives⟩
      exact ⟨isTerminal, others, (vanishes.append_right rest).trans derives⟩

/-- Without empty names, what begins a string is found in front of it. -/
theorem opens_iff_begins (named : grammar.Named) {symbols : List String} (present : "" ∉ symbols)
    {terminal : String} : grammar.Opens symbols terminal ↔ grammar.Begins symbols terminal := by
  refine ⟨Opens.begins, ?_⟩
  rintro ⟨isTerminal, rest, derives⟩
  have notEnd : terminal ≠ "" := by
    rintro rfl
    exact derives.named named present List.mem_cons_self
  clear present
  induction derives using Relation.ReflTransGen.head_induction_on with
  | refl => exact .here terminal rest isTerminal notEnd
  | head step _ inductionHypothesis =>
      rcases step with ⟨before, after, pair, listed⟩
      rcases opens_append.mp inductionHypothesis with front | ⟨vanish, behind⟩
      · rcases opens_append.mp front with first | ⟨vanish, right⟩
        · exact opens_append.mpr (Or.inl first)
        · exact opens_append.mpr (Or.inr ⟨vanish, .expand pair after terminal listed right⟩)
      · have vanishes : grammar.Nullable [pair.1.name] :=
          (Derives.production listed).trans (Derives.to_nil fun symbol member =>
            vanish symbol (List.mem_append_right _ member))
        exact opens_append.mpr (Or.inr
          ⟨fun name member => vanish name (List.mem_append_left _ member),
            .skip pair.1.name after terminal vanishes behind⟩)

end PlainGrammar

end ShiftReduce
