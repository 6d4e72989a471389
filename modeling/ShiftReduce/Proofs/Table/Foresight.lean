import ShiftReduce.Proofs.Grammar.DerivationTrees
import ShiftReduce.Proofs.Table.Compaction

namespace ShiftReduce

/-!
# Where a lookahead leads

A table knows no default but the one at the end of the input: where a token can follow, the table has
an entry for the token itself.  So if a core of a state has the token in front of what is behind its
dot, reductions on the token lead to a state that shifts it.  None of them touches what was on the
stack before, since all that is reduced is made of nothing.
-/

/-- A table has an entry wherever one is called for, and never two: what it reduces on a lookahead is
the production that is complete on it, unless the lookahead is shifted. -/
structure Allots (grammar : PlainGrammar) (table : Table) (kernels : Nat -> Core -> Prop) : Prop where
  reached : forall state, state < table.states.size ->
    Exists fun path => grammar.Reaches path (kernels state)
  reduces : forall (state : Nat) (row : TableState) (name : String) (place : Nat),
    table.states[state]? = some row -> row.reduce.get? name = some place ->
    Exists fun production => Exists fun pair =>
      grammar.productions[production]? = some pair ∧
      row.rules[place]? = some (PlainGrammar.reduceRule pair) ∧
      grammar.Carries (kernels state) ⟨production, pair.2.symbols.length⟩ name
  completes : forall (state : Nat) (row : TableState) (production : Nat)
    (pair : PlainRule × PlainProduction) (name : String), table.states[state]? = some row ->
    grammar.productions[production]? = some pair ->
    grammar.Carries (kernels state) ⟨production, pair.2.symbols.length⟩ name ->
    row.shift.get? name = none -> Exists fun place => row.reduce.get? name = some place ∧
      row.rules[place]? = some (PlainGrammar.reduceRule pair)
  sole : forall (state first second : Nat) (left right : PlainRule × PlainProduction)
    (name : String), state < table.states.size ->
    grammar.productions[first]? = some left -> grammar.productions[second]? = some right ->
    grammar.Carries (kernels state) ⟨first, left.2.symbols.length⟩ name ->
    grammar.Carries (kernels state) ⟨second, right.2.symbols.length⟩ name -> first = second

theorem PlainGrammar.allots_toTable {grammar : PlainGrammar} {table : Table}
    (made : (Automaton.ofGrammar grammar).toTable = .ok table) :
    Allots grammar table grammar.kernels := by
  rcases compacts_toTable made with ⟨size, compacts⟩
  have inside : forall {state : Nat} {row : TableState}, table.states[state]? = some row ->
      state < (Automaton.ofGrammar grammar).states.size :=
    fun found => size ▸ (Array.getElem?_eq_some_iff.mp found).1
  have completes : forall {state production : Nat} {pair : PlainRule × PlainProduction}
      {name : String}, state < (Automaton.ofGrammar grammar).states.size ->
      grammar.productions[production]? = some pair ->
      grammar.Carries (grammar.kernels state) ⟨production, pair.2.symbols.length⟩ name ->
      grammar.Completes state production name :=
    fun within known carries =>
      ⟨_, known, (Automaton.hasLookahead_iff_carries _ _ _).mpr ⟨within, carries⟩⟩
  refine ⟨?_, ?_, ?_, ?_⟩
  · intro state within
    exact (Construction.sound_finished grammar (lt_of_lt_of_eq within size)).reached
  · intro state row name place found reduced
    rcases ((compacts state row found).reduce name place).mp reduced with
      ⟨_, production, atPlace, pair, known, has⟩
    exact ⟨production, pair, known, (compacts state row found).ruleAt atPlace known,
      ((Automaton.hasLookahead_iff_carries _ _ _).mp has).2⟩
  · intro state row production pair name found known carries refused
    have complete := completes (inside found) known carries
    rcases List.getElem?_of_mem complete.listed with ⟨place, atPlace⟩
    exact ⟨place, ((compacts state row found).reduce name place).mpr
      ⟨refused, production, atPlace, complete⟩, (compacts state row found).ruleAt atPlace known⟩
  · intro state first second left right name within atFirst atSecond one other
    by_contra different
    exact not_clashes_of_toTable made ⟨state, name, first, second, different,
      completes (lt_of_lt_of_eq within size) atFirst one,
      completes (lt_of_lt_of_eq within size) atSecond other⟩

/-- Reductions on the token lead from these states to one that shifts it, and keep the lowest `height`
of them.  The latest state comes first. -/
inductive Leads (table : Table) (token : String) (height : Nat) : List Nat -> Prop where
  | shifts (states : List Nat) (row : TableState) (target : Nat)
      (found : table.states[states.headD 0]? = some row)
      (shifted : row.shift.get? token = some target) : Leads table token height states
  | reduces (top below : List Nat) (row under : TableState) (place target : Nat) (rule : ReduceRule)
      (found : table.states[(top ++ below).headD 0]? = some row)
      (claimed : row.reduce.get? token = some place) (named : row.rules[place]? = some rule)
      (length : top.length = rule.symbols.length) (kept : height ≤ below.length)
      (foundBelow : table.states[below.headD 0]? = some under)
      (follows : under.shift.get? rule.nonterminal = some target)
      (leads : Leads table token height (target :: below)) :
      Leads table token height (top ++ below)

/-- A state that does not shift the token has a reduction for it. -/
theorem Leads.claimed {table : Table} {token : String} {height : Nat} {states : List Nat}
    (leads : Leads table token height states) {row : TableState}
    (found : table.states[states.headD 0]? = some row) (refused : row.shift.get? token = none) :
    Exists fun place => row.reduce.get? token = some place := by
  cases leads with
  | shifts _ other target otherFound shifted =>
      rw [Option.some.inj (otherFound.symm.trans found), refused] at shifted
      cases shifted
  | reduces top below other under place target rule otherFound claimed =>
      rw [Option.some.inj (otherFound.symm.trans found)] at claimed
      exact ⟨place, claimed⟩

/-- The reduction keeps the lowest states, and leads further. -/
theorem Leads.reduced {table : Table} {token : String} {height : Nat} {top below : List Nat}
    (leads : Leads table token height (top ++ below)) {row : TableState}
    (found : table.states[(top ++ below).headD 0]? = some row)
    (refused : row.shift.get? token = none) {place : Nat}
    (claimed : row.reduce.get? token = some place) {rule : ReduceRule}
    (named : row.rules[place]? = some rule) (length : top.length = rule.symbols.length) :
    height ≤ below.length ∧ Exists fun under => Exists fun target =>
      table.states[below.headD 0]? = some under ∧
      under.shift.get? rule.nonterminal = some target ∧
      Leads table token height (target :: below) := by
  generalize split : top ++ below = states at leads found
  cases leads with
  | shifts _ other target otherFound shifted =>
      rw [Option.some.inj (otherFound.symm.trans found), refused] at shifted
      cases shifted
  | reduces otherTop otherBelow other under otherPlace target otherRule otherFound otherClaimed
      otherNamed otherLength kept foundBelow follows leads =>
      have sameRow := Option.some.inj (otherFound.symm.trans found)
      subst sameRow
      cases Option.some.inj (otherClaimed.symm.trans claimed)
      cases Option.some.inj (otherNamed.symm.trans named)
      rcases List.append_inj split (length.trans otherLength.symm) with ⟨_, rfl⟩
      exact ⟨kept, under, target, foundBelow, follows, leads⟩

section Vanishing

variable {grammar : PlainGrammar} {table : Table} {kernels : Nat -> Core -> Prop}
  {token : String} {height : Nat}

/-- The core is in the state on top, and the token can come behind what is in front of `rest`. -/
structure Awaits (grammar : PlainGrammar) (table : Table) (kernels : Nat -> Core -> Prop)
    (token : String) (states : List Nat) (core : Core) (rest : List String) : Prop where
  inside : states.headD 0 < table.states.size
  listed : grammar.InClosure (kernels (states.headD 0)) core
  comes : grammar.Opens rest token ∨
    grammar.Nullable rest ∧ grammar.Carries (kernels (states.headD 0)) core token

theorem Awaits.row {states : List Nat} {core : Core} {rest : List String}
    (awaits : Awaits grammar table kernels token states core rest) :
    Exists fun row => table.states[states.headD 0]? = some row :=
  ⟨_, Array.getElem?_eq_getElem awaits.inside⟩

/-- The first symbol behind the dot has a target, and the token can still come there. -/
theorem Awaits.move (drives : Drives grammar table kernels) {states : List Nat} {core : Core}
    {rest : List String} (awaits : Awaits grammar table kernels token states core rest)
    {symbol : String} {others : List String}
    (dotted : grammar.fromDot core.production core.dot = symbol :: others) :
    Exists fun row => Exists fun target => table.states[states.headD 0]? = some row ∧
      row.shift.get? symbol = some target ∧
      Awaits grammar table kernels token (target :: states) core.advance rest := by
  rcases awaits.row with ⟨row, found⟩
  rcases drives.shifts _ row core symbol others found awaits.listed dotted with ⟨target, shifted⟩
  rcases drives.shift _ row symbol target found shifted with ⟨inside, moved, _⟩
  refine ⟨row, target, found, shifted, inside, ?_, ?_⟩
  · refine .kernel _ ?_
    rw [List.headD_cons, moved]
    exact ⟨core, others, awaits.listed, dotted, rfl⟩
  · refine awaits.comes.imp_right fun ⟨nullable, carries⟩ => ⟨nullable, ?_⟩
    rw [List.headD_cons, moved]
    exact .move _ core symbol others token carries dotted

/-- Where the token can come behind a name, it can come behind the productions of the name. -/
theorem Awaits.call (allots : Allots grammar table kernels) {states : List Nat} {core : Core}
    {rest : List String} (awaits : Awaits grammar table kernels token states core rest)
    {symbol : String} {others : List String}
    (dotted : grammar.fromDot core.production core.dot = symbol :: (others ++ rest))
    (vanish : grammar.Nullable others) {production : Nat} (expands : grammar.Expands symbol production) :
    Awaits grammar table kernels token states ⟨production, 0⟩ [] := by
  refine ⟨awaits.inside, .called core symbol _ production awaits.listed dotted expands, Or.inr
    ⟨PlainGrammar.Derives.refl [], ?_⟩⟩
  rcases awaits.comes with opens | ⟨nullable, carries⟩
  · exact .first _ core symbol _ production token (allots.reached _ awaits.inside) awaits.listed
      dotted expands (PlainGrammar.opens_append.mpr (Or.inr ⟨vanish.each, opens⟩))
  · exact .pass _ core symbol _ production token carries dotted expands
      (PlainGrammar.Derives.append vanish nullable)

/-- If reductions on the token lead to a state that shifts it once the symbols are on the stack, they
do so before, provided that the symbols can be made of nothing. -/
theorem leads_of_vanishing (drives : Drives grammar table kernels)
    (allots : Allots grammar table kernels) {symbols : List String}
    {trees : List (DerivationTree String)} {word : List String}
    (grows : grammar.Grows id symbols trees word) (empty : word = []) {states : List Nat}
    (low : height ≤ states.length) {core : Core} {rest : List String}
    (dotted : grammar.fromDot core.production core.dot = symbols ++ rest)
    (awaits : Awaits grammar table kernels token states core rest)
    (later : forall pushed : List Nat, pushed.length = symbols.length ->
      Awaits grammar table kernels token (pushed ++ states)
        ⟨core.production, core.dot + symbols.length⟩ rest ->
      Leads table token height (pushed ++ states)) :
    Leads table token height states := by
  -- By induction on the trees: the children of a tree come first, then its reduction, then the trees
  -- beside it.
  induction grows generalizing states core rest with
  | nil => exact later [] rfl awaits
  | leaf => cases empty
  | node production pair children inner symbols trees word known below beside belowHypothesis
      besideHypothesis =>
      rcases List.append_eq_nil_iff.mp empty with ⟨rfl, rfl⟩
      have vanish : grammar.Nullable symbols := beside.derives
      have expands : grammar.Expands pair.1.name production := ⟨pair, known, rfl⟩
      have right : grammar.fromDot production 0 = pair.2.symbols ++ [] := by
        rw [PlainGrammar.fromDot_eq known, List.drop_zero, List.append_nil]
      refine belowHypothesis rfl low right (awaits.call allots dotted vanish expands)
        fun top length complete => ?_
      rcases complete.row with ⟨row, found⟩
      cases shifted : row.shift.get? token with
      | some target => exact .shifts _ row target found shifted
      | none =>
          have carries := (complete.comes.resolve_left fun opens => nomatch opens).2
          rw [Nat.zero_add] at carries
          rcases allots.completes _ _ production pair token found known carries shifted with
            ⟨place, claimed, named⟩
          rcases awaits.move drives dotted with ⟨under, target, foundBelow, follows, moved⟩
          refine .reduces top states row under place target _ found claimed named length low
            foundBelow follows ?_
          refine besideHypothesis rfl (Nat.le_succ_of_le low) (PlainGrammar.fromDot_succ dotted)
            moved fun pushed pushedLength after => ?_
          have joined : pushed ++ target :: states = (pushed ++ [target]) ++ states := by
            rw [List.append_assoc]
            rfl
          rw [joined] at after ⊢
          refine later _ (by simp [pushedLength]) ?_
          have dots : core.dot + (symbols.length + 1) = core.dot + 1 + symbols.length := by omega
          rw [List.length_cons, dots]
          exact after

/-- Where the token is in front of what is behind a dot, reductions on it lead to a state that shifts
it. -/
theorem leads_of_opens (drives : Drives grammar table kernels)
    (allots : Allots grammar table kernels) {symbols : List String}
    (opens : grammar.Opens symbols token) {states : List Nat} (low : height ≤ states.length)
    (inside : states.headD 0 < table.states.size) {core : Core}
    (listed : grammar.InClosure (kernels (states.headD 0)) core)
    (dotted : grammar.fromDot core.production core.dot = symbols) :
    Leads table token height states := by
  induction opens generalizing states core with
  | here name rest =>
      have found := Array.getElem?_eq_getElem inside
      rcases drives.shifts _ _ core name rest found listed dotted with ⟨target, shifted⟩
      exact .shifts _ _ target found shifted
  | expand pair rest terminal member _ inductionHypothesis =>
      rcases List.getElem?_of_mem member with ⟨production, known⟩
      refine inductionHypothesis low inside
        (.called core _ rest production listed dotted ⟨pair, known, rfl⟩) ?_
      exact PlainGrammar.fromDot_eq known
  | skip name rest terminal vanishes opens inductionHypothesis =>
      rcases vanishes.grows with ⟨trees, grows⟩
      refine leads_of_vanishing drives allots grows rfl low dotted ⟨inside, listed, Or.inl opens⟩
        fun pushed length after => inductionHypothesis ?_ after.inside after.listed ?_
      · rw [List.length_append]
        exact Nat.le_add_left_of_le low
      · exact PlainGrammar.fromDot_succ dotted

end Vanishing

end ShiftReduce
