import ShiftReduce.Proofs.Automaton.Lalr
import ShiftReduce.Proofs.Table.NameMaps
import ShiftReduce.Table.Compact

namespace ShiftReduce

/-!
# What a compiled table says

A row is read off the closed kernel of its state.  Its shifts are the transitions; its reductions are
claimed by completed productions, and a name that is shifted is not reduced.  The statements about a
table mention the grammar, sets of cores and canonical lookaheads, so that the parser need not know
how automata are built.

What a row says of its shifts and which productions it reduces holds for every table, and so does
that every production that can be begun is a rule of some row.  That every lookahead of a completed
production has its reduction holds if no conflict was resolved: a resolved conflict is a reduction
that was dropped.
-/

namespace PlainGrammar

/-- A production as a parse sees it. -/
def reduceRule (pair : PlainRule × PlainProduction) : ReduceRule :=
  ⟨pair.1.name, pair.2.symbols, pair.2.emit, pair.2.label, pair.1.helper⟩

end PlainGrammar

namespace Automaton

open Analysis

/-! ## Claims -/

/-- Every lookahead is claimed once. -/
def Functional (claims : List (Nat × Nat × Nat)) : Prop :=
  forall lookahead first second, (lookahead, first) ∈ claims -> (lookahead, second) ∈ claims ->
    first = second

private theorem lookup_eq_none {claims : List (Nat × Nat × Nat)} {lookahead : Nat}
    (missing : claims.lookup lookahead = none) (claim : Nat × Nat) :
    (lookahead, claim) ∉ claims := by
  intro listed
  have different := List.lookup_eq_none_iff.mp missing _ listed
  simp at different

/-- What has become of the claims after a production claimed lookaheads. -/
structure Claims (index place : Nat) (lookaheads : List Nat) (old new : List (Nat × Nat × Nat)) :
    Prop where
  kept : forall claim, claim ∈ old -> claim ∈ new
  added : forall lookahead other position, (lookahead, other, position) ∈ new ->
    (lookahead, other, position) ∈ old ∨ lookahead ∈ lookaheads ∧ other = index ∧ position = place
  claimed : forall lookahead, lookahead ∈ lookaheads ->
    Exists fun position => (lookahead, index, position) ∈ new
  functional : Functional old -> Functional new

theorem claims_claim (automaton : Automaton) (index place : Nat) {lookaheads : List Nat}
    {old new : List (Nat × Nat × Nat)}
    (claimed : automaton.claim index place lookaheads old = .ok new) :
    Claims index place lookaheads old new := by
  induction lookaheads generalizing old with
  | nil =>
      rw [claim, Except.ok.injEq] at claimed
      rw [claimed]
      exact ⟨fun _ member => member, fun _ _ _ member => Or.inl member,
        fun _ impossible => (List.not_mem_nil impossible).elim, fun functional => functional⟩
  | cons lookahead rest inductionHypothesis =>
      rw [claim] at claimed
      cases known : old.lookup lookahead with
      | some other =>
          rcases other with ⟨other, position⟩
          rw [known] at claimed
          dsimp only at claimed
          split at claimed
          next same =>
            have later := inductionHypothesis claimed
            refine ⟨later.kept, ?_, ?_, later.functional⟩
            · intro added others position member
              exact (later.added added others position member).imp_right fun found =>
                ⟨List.mem_cons_of_mem _ found.1, found.2⟩
            · intro added listed
              rcases List.mem_cons.mp listed with here | after
              · rw [here, ← same]
                exact ⟨_, later.kept _ (mem_of_lookup known)⟩
              · exact later.claimed added after
          · cases claimed
      | none =>
          rw [known] at claimed
          have later := inductionHypothesis claimed
          refine ⟨?_, ?_, ?_, ?_⟩
          · exact fun claim member => later.kept claim (List.mem_cons_of_mem _ member)
          · intro added other position member
            rcases later.added added other position member with before | found
            · rcases List.mem_cons.mp before with here | old
              · rw [Prod.mk.injEq, Prod.mk.injEq] at here
                exact Or.inr ⟨here.1 ▸ List.mem_cons_self, here.2⟩
              · exact Or.inl old
            · exact Or.inr ⟨List.mem_cons_of_mem _ found.1, found.2⟩
          · intro added listed
            rcases List.mem_cons.mp listed with here | after
            · rw [here]
              exact ⟨place, later.kept _ List.mem_cons_self⟩
            · exact later.claimed added after
          · intro functional
            apply later.functional
            intro added first second firstListed secondListed
            rcases List.mem_cons.mp firstListed with firstHere | firstOld
            · rcases List.mem_cons.mp secondListed with secondHere | secondOld
              · rw [Prod.mk.injEq] at firstHere secondHere
                exact firstHere.2.trans secondHere.2.symm
              · rw [Prod.mk.injEq] at firstHere
                exact (lookup_eq_none known second (firstHere.1 ▸ secondOld)).elim
            · rcases List.mem_cons.mp secondListed with secondHere | secondOld
              · rw [Prod.mk.injEq] at secondHere
                exact (lookup_eq_none known first (secondHere.1 ▸ firstOld)).elim
              · exact functional added first second firstOld secondOld

/-! ## Completed productions -/

/-- The completed productions among the items, in the order of the items. -/
def completedIn (automaton : Automaton) (items : ItemSet) : List (Nat × NumberedProduction) :=
  items.filterMap fun item =>
    if automaton.analysis.isComplete item.1 = true then
      (automaton.analysis.vocabulary.productions[item.1.production]?).map (item.1.production, ·)
    else none

/-- The rules of a row are the completed productions among the items, and its claims are theirs. -/
structure Reads (automaton : Automaton) (items : ItemSet) (row : Row) : Prop where
  order : row.rules.toList =
    (completedIn automaton items).map fun completed => automaton.reduceRule completed.2
  places : forall lookahead index place, (lookahead, index, place) ∈ row.claims ->
    Exists fun numbered => (completedIn automaton items)[place]? = some (index, numbered)
  rules : forall rule, rule ∈ row.rules -> Exists fun index : Nat => Exists fun numbered =>
    automaton.analysis.vocabulary.productions[index]? = some numbered ∧
      rule = automaton.reduceRule numbered
  completed : forall core set numbered, (core, set) ∈ items ->
    automaton.analysis.isComplete core = true ->
    automaton.analysis.vocabulary.productions[core.production]? = some numbered ->
    automaton.reduceRule numbered ∈ row.rules
  claims : forall lookahead index place, (lookahead, index, place) ∈ row.claims ->
    Exists fun core => Exists fun set => Exists fun numbered => (core, set) ∈ items ∧
      lookahead ∈ set ∧ core.production = index ∧ automaton.analysis.isComplete core = true ∧
      automaton.analysis.vocabulary.productions[index]? = some numbered ∧
      row.rules[place]? = some (automaton.reduceRule numbered)
  claimed : forall core set numbered lookahead, (core, set) ∈ items ->
    automaton.analysis.isComplete core = true ->
    automaton.analysis.vocabulary.productions[core.production]? = some numbered ->
    lookahead ∈ set -> Exists fun place => (lookahead, core.production, place) ∈ row.claims
  functional : Functional row.claims

theorem reads_skip {automaton : Automaton} {items : ItemSet} {row : Row}
    (reads : Reads automaton items row) {item : Core × IdSet}
    (skipped : forall numbered, automaton.analysis.isComplete item.1 = true ->
      automaton.analysis.vocabulary.productions[item.1.production]? = some numbered -> False) :
    Reads automaton (items ++ [item]) row := by
  have none : completedIn automaton [item] = [] := by
    rw [completedIn, List.filterMap_cons_none, List.filterMap_nil]
    split
    next complete =>
      rw [Option.map_eq_none_iff]
      exact Option.eq_none_iff_forall_ne_some.mpr fun numbered found =>
        skipped numbered complete found
    · rfl
  have same : completedIn automaton (items ++ [item]) = completedIn automaton items := by
    rw [completedIn, List.filterMap_append]
    exact (congrArg _ none).trans (List.append_nil _)
  refine ⟨same ▸ reads.order, same ▸ reads.places, reads.rules, ?_, ?_, ?_, reads.functional⟩
  · intro core set numbered listed complete found
    rcases List.mem_append.mp listed with before | last
    · exact reads.completed core set numbered before complete found
    · have same := List.mem_singleton.mp last
      rw [← same] at skipped
      exact (skipped numbered complete found).elim
  · intro lookahead index place member
    rcases reads.claims lookahead index place member with ⟨core, set, numbered, listed, parts⟩
    exact ⟨core, set, numbered, List.mem_append_left _ listed, parts⟩
  · intro core set numbered lookahead listed complete found member
    rcases List.mem_append.mp listed with before | last
    · exact reads.claimed core set numbered lookahead before complete found member
    · have same := List.mem_singleton.mp last
      rw [← same] at skipped
      exact (skipped numbered complete found).elim

theorem reads_push {automaton : Automaton} {items : ItemSet} {row : Row}
    (reads : Reads automaton items row) {core : Core} {set : IdSet}
    {numbered : NumberedProduction} (complete : automaton.analysis.isComplete core = true)
    (found : automaton.analysis.vocabulary.productions[core.production]? = some numbered)
    {claims : List (Nat × Nat × Nat)}
    (made : Claims core.production row.rules.size set row.claims claims) :
    Reads automaton (items ++ [(core, set)])
      ⟨row.rules.push (automaton.reduceRule numbered), claims⟩ := by
  have last : completedIn automaton (items ++ [(core, set)]) =
      completedIn automaton items ++ [(core.production, numbered)] := by
    rw [completedIn, List.filterMap_append, List.filterMap_cons_some, List.filterMap_nil]
    · rfl
    · rw [if_pos complete, found]
      rfl
  have length : (completedIn automaton items).length = row.rules.size := by
    rw [← Array.length_toList, reads.order, List.length_map]
  refine ⟨?_, ?_, ?_, ?_, ?_, ?_, made.functional reads.functional⟩
  · rw [last, Array.toList_push, reads.order, List.map_append]
    rfl
  · intro lookahead index place member
    rw [last]
    rcases made.added lookahead index place member with old | ⟨_, rfl, rfl⟩
    · rcases reads.places lookahead index place old with ⟨known, atPlace⟩
      exact ⟨known, (List.getElem?_append_left (List.getElem?_eq_some_iff.mp atPlace).1).trans
        atPlace⟩
    · exact ⟨numbered, by rw [← length, List.getElem?_concat_length]⟩
  · intro rule member
    rcases Array.mem_push.mp member with before | same
    · exact reads.rules rule before
    · exact ⟨core.production, numbered, found, same⟩
  · intro other others known listed otherComplete otherFound
    apply Array.mem_push.mpr
    rcases List.mem_append.mp listed with before | last
    · exact Or.inl (reads.completed other others known before otherComplete otherFound)
    · have same := List.mem_singleton.mp last
      rw [Prod.mk.injEq] at same
      rw [same.1, found] at otherFound
      rw [Option.some.inj otherFound]
      exact Or.inr rfl
  · intro lookahead index place member
    rcases made.added lookahead index place member with old | ⟨inSet, rfl, rfl⟩
    · rcases reads.claims lookahead index place old with
        ⟨other, others, known, listed, inOthers, same, otherComplete, otherFound, rule⟩
      refine ⟨other, others, known, List.mem_append_left _ listed, inOthers, same, otherComplete,
        otherFound, ?_⟩
      have inside := (Array.getElem?_eq_some_iff.mp rule).1
      dsimp only
      rw [Array.getElem?_push_lt inside, ← rule]
      exact (Array.getElem?_eq_getElem inside).symm
    · exact ⟨core, set, numbered, List.mem_append_right _ List.mem_cons_self, inSet, rfl, complete,
        found, Array.getElem?_push_size⟩
  · intro other others known lookahead listed otherComplete otherFound member
    rcases List.mem_append.mp listed with before | last
    · rcases reads.claimed other others known lookahead before otherComplete otherFound member with
        ⟨place, claim⟩
      exact ⟨place, made.kept _ claim⟩
    · have same := List.mem_singleton.mp last
      rw [Prod.mk.injEq] at same
      rw [same.1]
      exact made.claimed lookahead (same.2 ▸ member)

private theorem reads_addCompleted {automaton : Automaton} (items : ItemSet) {done : ItemSet}
    {row result : Row} (reads : Reads automaton done row)
    (added : automaton.addCompleted items row = .ok result) :
    Reads automaton (done ++ items) result := by
  induction items generalizing done row with
  | nil =>
      rw [addCompleted, Except.ok.injEq] at added
      rw [List.append_nil, ← added]
      exact reads
  | cons item rest inductionHypothesis =>
      rcases item with ⟨core, set⟩
      have regroup : done ++ (core, set) :: rest = done ++ [(core, set)] ++ rest := by simp
      rw [regroup]
      rw [addCompleted] at added
      split at added
      next numbered complete found =>
        cases made : automaton.claim core.production row.rules.size set row.claims with
        | error failure =>
            rw [made] at added
            cases added
        | ok claims =>
            rw [made] at added
            exact inductionHypothesis
              (reads_push reads complete found (claims_claim automaton _ _ made)) added
      next notBoth =>
        exact inductionHypothesis (reads_skip reads notBoth) added

/-- Before anything is read. -/
theorem reads_empty {automaton : Automaton} : Reads automaton [] ⟨#[], []⟩ :=
  ⟨rfl, fun _ _ _ impossible => (List.not_mem_nil impossible).elim,
    fun _ impossible => (Array.not_mem_empty _ impossible).elim,
    fun _ _ _ impossible => (List.not_mem_nil impossible).elim,
    fun _ _ _ impossible => (List.not_mem_nil impossible).elim,
    fun _ _ _ _ impossible => (List.not_mem_nil impossible).elim,
    fun _ _ _ impossible => (List.not_mem_nil impossible).elim⟩

/-- The row of a set of items. -/
theorem reads_of_addCompleted {automaton : Automaton} {items : ItemSet} {row : Row}
    (added : automaton.addCompleted items ⟨#[], []⟩ = .ok row) : Reads automaton items row :=
  reads_addCompleted items reads_empty added

/-! ## Rows -/

/-- How a row of a table comes about from the claims on its lookaheads. -/
structure MadeOf (automaton : Automaton) (state : State) (claims : List (Nat × Nat × Nat))
    (row : TableState) (conflicts : List ResolvedConflict) : Prop where
  reads : Reads automaton (automaton.items state) ⟨row.rules, claims⟩
  shift : row.shift = automaton.shifts state
  reduce : forall name, row.reduce.get? name =
    if row.shift.contains name = true then none
    else (automaton.reductions ⟨row.rules, claims⟩).get? name
  increasing : NameMap.Increasing row.shift ∧ NameMap.Increasing row.reduce
  resolved : conflicts = [] -> forall name place,
    (automaton.reductions ⟨row.rules, claims⟩).get? name = some place -> row.shift.get? name = none

/-- What a state's row and its resolved conflicts are read off: the claims on its lookaheads. -/
theorem row_eq_ok {automaton : Automaton} {index : Nat} {state : State} {row : TableState}
    {conflicts : List ResolvedConflict} (made : automaton.row index state = .ok (row, conflicts)) :
    Exists fun claims => Reads automaton (automaton.items state) ⟨row.rules, claims⟩ ∧
      row.shift = automaton.shifts state ∧
      row.reduce = (automaton.reductions ⟨row.rules, claims⟩).filter (fun entry =>
        !(automaton.shifts state).contains entry.1) ∧
      conflicts = ((automaton.reductions ⟨row.rules, claims⟩).filter fun entry =>
        (automaton.shifts state).contains entry.1).map fun entry =>
          dropped index row.rules entry.1 entry.2 := by
  unfold Automaton.row at made
  cases added : automaton.addCompleted (automaton.items state) ⟨#[], []⟩ with
  | error failure =>
      rw [added] at made
      cases made
  | ok read =>
      rw [added] at made
      simp only [List.partition_eq_filter_filter] at made
      have parts := Except.ok.inj made
      rw [Prod.mk.injEq] at parts
      rcases parts with ⟨rfl, rfl⟩
      exact ⟨read.claims, reads_of_addCompleted added, rfl, rfl, rfl⟩

theorem madeOf_row {automaton : Automaton} {index : Nat} {state : State} {row : TableState}
    {conflicts : List ResolvedConflict} (made : automaton.row index state = .ok (row, conflicts)) :
    Exists fun claims => MadeOf automaton state claims row conflicts := by
  rcases row_eq_ok made with ⟨claims, reads, shift, reduce, resolved⟩
  refine ⟨claims, reads, shift, ?_, ?_, ?_⟩
  · intro name
    have kept := NameMap.get?_filter (fun name => !(automaton.shifts state).contains name)
      (automaton.reductions ⟨row.rules, claims⟩) name
    rw [reduce, shift]
    refine kept.trans ?_
    cases (automaton.shifts state).contains name <;> rfl
  · rw [reduce, shift]
    exact ⟨NameMap.increasing_ofList _, (NameMap.increasing_ofList _).filter _⟩
  · intro none name place found
    rw [none, eq_comm, List.map_eq_nil_iff] at resolved
    have lost := NameMap.get?_filter (fun name => (automaton.shifts state).contains name)
      (automaton.reductions ⟨row.rules, claims⟩) name
    rw [resolved] at lost
    rw [shift]
    by_contra shifted
    have contained : (automaton.shifts state).contains name = true :=
      Option.isSome_iff_ne_none.mpr shifted
    rw [if_pos contained, found] at lost
    cases lost

/-- The rows of states are made one by one, and their resolved conflicts follow each other. -/
theorem rows_eq_ok {automaton : Automaton} {states : List State} {index : Nat}
    {rows : List TableState} {conflicts : List ResolvedConflict}
    (made : automaton.rows index states = .ok (rows, conflicts)) :
    Exists fun parts : List (TableState × List ResolvedConflict) =>
      List.Forall₂ (fun numbered part => automaton.row numbered.2 numbered.1 = .ok part)
        (states.zipIdx index) parts ∧
      rows = parts.map (·.1) ∧ conflicts = parts.flatMap (·.2) := by
  induction states generalizing index rows conflicts with
  | nil =>
      rw [Automaton.rows, Except.ok.injEq, Prod.mk.injEq] at made
      rw [← made.1, ← made.2]
      exact ⟨[], List.Forall₂.nil, rfl, rfl⟩
  | cons state rest inductionHypothesis =>
      rw [Automaton.rows] at made
      cases first : automaton.row index state with
      | error failure =>
          rw [first] at made
          cases made
      | ok head =>
          cases others : automaton.rows (index + 1) rest with
          | error failure =>
              rw [first] at made
              simp only [others] at made
              cases made
          | ok tail =>
              rw [first] at made
              simp only [others] at made
              have both := Prod.mk.inj (Except.ok.inj made)
              rcases inductionHypothesis others with ⟨parts, each, rows, conflicts⟩
              rw [← both.1, ← both.2]
              refine ⟨head :: parts, List.Forall₂.cons first each, ?_, ?_⟩
              · rw [List.map_cons, rows]
              · rw [List.flatMap_cons, conflicts]

private theorem rows_at (automaton : Automaton) (states : List State) {index : Nat}
    {rows : List TableState} {conflicts : List ResolvedConflict}
    (made : automaton.rows index states = .ok (rows, conflicts)) :
    rows.length = states.length ∧
      forall (place : Nat) (state : State), states[place]? = some state ->
        Exists fun row => Exists fun claims => Exists fun resolved => rows[place]? = some row ∧
          MadeOf automaton state claims row resolved ∧ (conflicts = [] -> resolved = []) := by
  rcases rows_eq_ok made with ⟨parts, each, rfl, rfl⟩
  have length := each.length_eq
  rw [List.length_zipIdx] at length
  refine ⟨by rw [List.length_map, length], ?_⟩
  intro place state found
  have inside := (List.getElem?_eq_some_iff.mp found).1
  have inParts := length ▸ inside
  have here := List.Forall₂.get each (by rwa [List.length_zipIdx]) inParts
  simp only [List.get_eq_getElem, List.getElem_zipIdx,
    (List.getElem?_eq_some_iff.mp found).2] at here
  rcases madeOf_row here with ⟨claims, madeOf⟩
  refine ⟨parts[place].1, claims, parts[place].2, ?_, madeOf, ?_⟩
  · rw [List.getElem?_map, List.getElem?_eq_getElem inParts]
    rfl
  · intro none
    exact List.flatMap_eq_nil_iff.mp none _ (List.getElem_mem inParts)

/-- The rows of a table are made of the states, one by one. -/
theorem row_of_toTable {automaton : Automaton} {table : Table}
    (made : automaton.toTable = .ok table) :
    table.root = automaton.grammar.root ∧ table.states.size = automaton.states.size ∧
      forall (index : Nat) (row : TableState), table.states[index]? = some row ->
        Exists fun state : State => Exists fun claims => Exists fun resolved =>
          automaton.states[index]? = some state ∧ MadeOf automaton state claims row resolved ∧
            (table.conflicts = [] -> resolved = []) := by
  unfold toTable at made
  cases all : automaton.rows 0 automaton.states.toList with
  | error failure =>
      rw [all] at made
      cases made
  | ok result =>
      rw [all] at made
      rcases result with ⟨rows, conflicts⟩
      rw [← Except.ok.inj made]
      rcases rows_at automaton automaton.states.toList all with ⟨length, each⟩
      have size : rows.length = automaton.states.size := length.trans Array.length_toList
      refine ⟨rfl, size, ?_⟩
      intro index row found
      have inRows : rows[index]? = some row := by
        rw [← List.getElem?_toArray]
        exact found
      have inside := (List.getElem?_eq_some_iff.mp inRows).1
      rw [size] at inside
      have known := Array.getElem?_eq_getElem inside
      rcases each index automaton.states[index] (by rw [Array.getElem?_toList, known]) with
        ⟨other, claims, resolved, atRow, madeOf, none⟩
      have same : other = row := Option.some.inj (atRow.symm.trans inRows)
      exact ⟨automaton.states[index], claims, resolved, known, same ▸ madeOf, none⟩

end Automaton

/-! ## Tables of grammars -/

/-- The table follows the sets of cores: its shifts are moves, and it reduces only productions that
are complete. -/
structure Drives (grammar : PlainGrammar) (table : Table) (kernels : Nat -> Core -> Prop) :
    Prop where
  root : table.root = grammar.root
  start : kernels 0 = grammar.StartCore
  startInside : 0 < table.states.size
  shift : forall (state : Nat) (row : TableState) (symbol : String) (target : Nat),
    table.states[state]? = some row -> row.shift.get? symbol = some target ->
    target < table.states.size ∧ kernels target = grammar.Moved (kernels state) symbol ∧
      Exists fun core => Exists fun rest => grammar.InClosure (kernels state) core ∧
        grammar.fromDot core.production core.dot = symbol :: rest
  shifts : forall (state : Nat) (row : TableState) (core : Core) (symbol : String)
    (rest : List String), table.states[state]? = some row ->
    grammar.InClosure (kernels state) core ->
    grammar.fromDot core.production core.dot = symbol :: rest ->
    Exists fun target => row.shift.get? symbol = some target
  reduce : forall (state : Nat) (row : TableState) (name : String) (place : Nat),
    table.states[state]? = some row -> row.reduce.get? name = some place ->
    Exists fun production => Exists fun pair =>
      grammar.productions[production]? = some pair ∧
      row.rules[place]? = some (PlainGrammar.reduceRule pair) ∧
      grammar.InClosure (kernels state) ⟨production, pair.2.symbols.length⟩

/-- A string and a lookahead leave no choice: at most one production is complete on the lookahead,
and then no item has the lookahead behind its dot. -/
structure PlainGrammar.Resolute (grammar : PlainGrammar) : Prop where
  reduction : forall (path : List String) (first second : Nat)
    (left right : PlainRule × PlainProduction) (lookahead : String),
    grammar.productions[first]? = some left -> grammar.productions[second]? = some right ->
    grammar.Attaches path ⟨first, left.2.symbols.length⟩ lookahead ->
    grammar.Attaches path ⟨second, right.2.symbols.length⟩ lookahead -> first = second
  shift : forall (path : List String) (production : Nat) (pair : PlainRule × PlainProduction)
    (lookahead : String) (kernel : Core -> Prop) (core : Core) (rest : List String),
    grammar.productions[production]? = some pair ->
    grammar.Attaches path ⟨production, pair.2.symbols.length⟩ lookahead ->
    grammar.Reaches path kernel -> grammar.InClosure kernel core ->
    grammar.fromDot core.production core.dot ≠ lookahead :: rest

/-- Every canonical lookahead of a complete production has its reduction and no shift. -/
def Decides (grammar : PlainGrammar) (table : Table) (kernels : Nat -> Core -> Prop) : Prop :=
  forall (state : Nat) (row : TableState) (path : List String) (production : Nat)
    (pair : PlainRule × PlainProduction) (name : String),
    table.states[state]? = some row -> grammar.Reaches path (kernels state) ->
    grammar.productions[production]? = some pair ->
    grammar.Attaches path ⟨production, pair.2.symbols.length⟩ name ->
    row.shift.get? name = none ∧ Exists fun place => row.reduce.get? name = some place ∧
      row.rules[place]? = some (PlainGrammar.reduceRule pair)

namespace PlainGrammar

open Analysis Construction

variable (grammar : PlainGrammar)

/-- The cores of the kernel of a state. -/
def kernels (state : Nat) : Core -> Prop := coresOf ((finished grammar).kernelOf state)

theorem reduceRule_eq {index : Nat} {numbered : NumberedProduction}
    (found : (Vocabulary.ofGrammar grammar).productions[index]? = some numbered) :
    Exists fun pair => grammar.productions[index]? = some pair ∧
      (Automaton.ofGrammar grammar).reduceRule numbered = reduceRule pair := by
  rcases Vocabulary.production_at grammar found with ⟨pair, known, rule, _, _, source⟩
  refine ⟨pair, known, ?_⟩
  have same : (Automaton.ofGrammar grammar).grammar.rules.getD numbered.rule default = pair.1 := by
    rw [List.getD_eq_getElem?_getD]
    change (grammar.rules[numbered.rule]?).getD default = pair.1
    rw [rule]
    rfl
  unfold Automaton.reduceRule reduceRule
  rw [same, source]

theorem placed_of_closure {index : Nat}
    (inside : index < (finished grammar).states.size) {core : Core}
    (member : grammar.InClosure (kernels grammar index) core) :
    core ∈ possibleCores (ofGrammar grammar) := by
  cases member with
  | kernel core member => exact (sound_finished grammar inside).placed core member
  | called core next rest production above dotted expands =>
      rcases expands with ⟨pair, known, _⟩
      rcases Vocabulary.production_exists grammar known with ⟨numbered, found⟩
      exact mem_possibleCores.mpr ⟨numbered, found, Nat.zero_le _⟩

/-- A complete core of a closure has its dot at the end. -/
theorem dot_of_complete {index : Nat}
    (inside : index < (finished grammar).states.size) {core : Core}
    (member : grammar.InClosure (kernels grammar index) core)
    (complete : (ofGrammar grammar).isComplete core = true)
    {pair : PlainRule × PlainProduction}
    (known : grammar.productions[core.production]? = some pair) :
    core.dot = pair.2.symbols.length := by
  rcases mem_possibleCores.mp (placed_of_closure grammar inside member) with
    ⟨numbered, found, small⟩
  have right := (Vocabulary.right_at grammar found known).1
  have length : numbered.right.length = pair.2.symbols.length := by
    rw [← right, List.length_map]
  unfold isComplete Analysis.fromDot at complete
  rw [found] at complete
  have large := List.drop_eq_nil_iff.mp (List.isEmpty_iff.mp complete)
  omega

theorem complete_of_end {production : Nat} {pair : PlainRule × PlainProduction}
    (known : grammar.productions[production]? = some pair) :
    (ofGrammar grammar).isComplete ⟨production, pair.2.symbols.length⟩ = true := by
  have names := map_fromDot grammar production pair.2.symbols.length
  unfold PlainGrammar.fromDot at names
  rw [known] at names
  dsimp only at names
  rw [List.drop_length, List.map_eq_nil_iff] at names
  unfold isComplete
  rw [names]
  rfl

private theorem state_of_row {table : Table}
    (made : (Automaton.ofGrammar grammar).toTable = .ok table) {index : Nat} {row : TableState}
    (found : table.states[index]? = some row) :
    index < (finished grammar).states.size ∧
      Exists fun state : State => Exists fun claims => Exists fun resolved =>
        (finished grammar).kernelOf index = state.kernel ∧
        (finished grammar).transitionsOf index = state.transitions ∧
        Automaton.MadeOf (Automaton.ofGrammar grammar) state claims row resolved ∧
        (table.conflicts = [] -> resolved = []) := by
  rcases (Automaton.row_of_toTable made).2.2 index row found with
    ⟨state, claims, resolved, known, madeOf, none⟩
  have here : (finished grammar).states[index]? = some state := known
  refine ⟨(Array.getElem?_eq_some_iff.mp here).1, state, claims, resolved,
    kernelOf_of_getElem? here, ?_, madeOf, none⟩
  rw [transitionsOf, here]
  rfl

/-- The claims of a row by the names of the lookaheads. -/
theorem claim_of_reduction {claims : List (Nat × Nat × Nat)} {rules : Array ReduceRule}
    {name : String} {place : Nat}
    (found : ((Automaton.ofGrammar grammar).reductions ⟨rules, claims⟩).get? name = some place) :
    Exists fun lookahead => Exists fun index => (lookahead, index, place) ∈ claims ∧
      symbolName grammar lookahead = name := by
  rcases List.mem_map.mp (NameMap.mem_of_get?_ofList found) with
    ⟨⟨lookahead, index, other⟩, listed, same⟩
  rw [Prod.mk.injEq] at same
  exact ⟨lookahead, index, same.2 ▸ listed, same.1⟩

theorem root_of_toTable {table : Table} (made : (Automaton.ofGrammar grammar).toTable = .ok table) :
    table.root = grammar.root :=
  (Automaton.row_of_toTable made).1

/-- Whatever the names of a grammar are, its table reduces nothing but its productions. -/
theorem rule_of_toTable {table : Table} (made : (Automaton.ofGrammar grammar).toTable = .ok table)
    {index : Nat} {row : TableState} (found : table.states[index]? = some row) {name : String}
    {place : Nat} (reduced : row.reduce.get? name = some place) {rule : ReduceRule}
    (atPlace : row.rules[place]? = some rule) :
    Exists fun number : Nat => Exists fun pair : PlainRule × PlainProduction =>
      grammar.productions[number]? = some pair ∧ rule = reduceRule pair := by
  rcases state_of_row grammar made found with ⟨_, state, claims, resolved, _, _, madeOf, _⟩
  rw [madeOf.reduce] at reduced
  split at reduced
  · cases reduced
  · rcases claim_of_reduction grammar reduced with ⟨lookahead, production, listed, _⟩
    rcases madeOf.reads.claims lookahead production place listed with
      ⟨core, set, numbered, _, _, _, _, known, same⟩
    rcases reduceRule_eq grammar known with ⟨pair, atProduction, isRule⟩
    exact ⟨production, pair, atProduction, Option.some.inj (atPlace.symm.trans (same.trans
      (congrArg some isRule)))⟩

theorem increasing_of_toTable {table : Table}
    (made : (Automaton.ofGrammar grammar).toTable = .ok table) {index : Nat} {row : TableState}
    (found : table.states[index]? = some row) :
    NameMap.Increasing row.shift ∧ NameMap.Increasing row.reduce := by
  rcases state_of_row grammar made found with ⟨_, state, claims, resolved, _, _, madeOf, _⟩
  exact madeOf.increasing

/-- The rules of a row are productions, also those that no reduction uses. -/
theorem rules_of_toTable {table : Table}
    (made : (Automaton.ofGrammar grammar).toTable = .ok table) {index : Nat} {row : TableState}
    (found : table.states[index]? = some row) {rule : ReduceRule} (member : rule ∈ row.rules) :
    Exists fun number : Nat => Exists fun pair : PlainRule × PlainProduction =>
      grammar.productions[number]? = some pair ∧ rule = reduceRule pair := by
  rcases state_of_row grammar made found with ⟨_, state, claims, resolved, _, _, madeOf, _⟩
  rcases madeOf.reads.rules rule member with ⟨number, numbered, known, rfl⟩
  rcases reduceRule_eq grammar known with ⟨pair, atNumber, same⟩
  exact ⟨number, pair, atNumber, same⟩

/-- The table of a grammar follows its sets of cores. -/
theorem drives_toTable {table : Table}
    (made : (Automaton.ofGrammar grammar).toTable = .ok table) :
    Drives grammar table (kernels grammar) := by
  rcases Automaton.row_of_toTable made with ⟨root, size, _⟩
  have states : table.states.size = (finished grammar).states.size := size
  refine ⟨root, startKernel_finished grammar, ?_, ?_, ?_, ?_⟩
  · rw [states]
    exact (settling_finished grammar).1.consistent.startInside
  · intro index row symbol target found shifted
    rcases state_of_row grammar made found with
      ⟨_, state, claims, resolved, _, transitions, madeOf, _⟩
    rw [madeOf.shift] at shifted
    rcases List.mem_map.mp (NameMap.mem_of_get?_ofList shifted) with ⟨⟨id, other⟩, listed, same⟩
    rw [Prod.mk.injEq] at same
    rw [← transitions, same.2] at listed
    rcases transition_finished grammar listed with ⟨_, targetInside, next, cores⟩
    have name : symbolName grammar id = symbol := same.1
    rw [name] at next cores
    exact ⟨states ▸ targetInside, cores, next⟩
  · intro index row core symbol rest found member dotted
    rcases state_of_row grammar made found with
      ⟨inside, state, claims, resolved, _, transitions, madeOf, _⟩
    rcases transition_exists grammar inside member dotted with ⟨id, target, name, _, listed, _⟩
    rw [transitions] at listed
    have entry : (symbol, target) ∈ state.transitions.map fun transition =>
        ((Automaton.ofGrammar grammar).analysis.vocabulary.name transition.1, transition.2) :=
      List.mem_map.mpr ⟨(id, target), listed, Prod.ext name rfl⟩
    rcases NameMap.get?_ofList_of_mem entry with ⟨given, shifted, _⟩
    refine ⟨given, ?_⟩
    rw [madeOf.shift]
    exact shifted
  · intro index row name place found reduced
    rcases state_of_row grammar made found with
      ⟨inside, state, claims, resolved, kernel, _, madeOf, _⟩
    rw [madeOf.reduce] at reduced
    split at reduced
    · cases reduced
    · rcases claim_of_reduction grammar reduced with ⟨lookahead, production, listed, _⟩
      rcases madeOf.reads.claims lookahead production place listed with
        ⟨core, set, numbered, item, _, rfl, complete, known, rule⟩
      rcases reduceRule_eq grammar known with ⟨pair, atProduction, same⟩
      have sound := sound_finished grammar inside
      have member : core ∈ ((ofGrammar grammar).closure
          ((finished grammar).kernelOf index)).cores := by
        rw [kernel]
        exact ItemSet.mem_cores.mpr ⟨set, item⟩
      have closed := (mem_cores_closure grammar sound.proper core).mp member
      have atEnd := dot_of_complete grammar inside closed complete atProduction
      refine ⟨core.production, pair, atProduction, same ▸ rule, ?_⟩
      rw [← atEnd]
      exact closed

/-- Without resolved conflicts, no canonical lookahead of a complete production is lost. -/
theorem decides_toTable (named : grammar.Named) {table : Table}
    (made : (Automaton.ofGrammar grammar).toTable = .ok table) (none : table.conflicts = []) :
    Decides grammar table (kernels grammar) := by
  intro index row path production pair name found reaches known attaches
  rcases state_of_row grammar made found with
    ⟨inside, state, claims, resolved, kernel, _, madeOf, noConflicts⟩
  have sound := sound_finished grammar inside
  rcases path_of_reaches grammar reaches with ⟨other, leads, otherInside, cores⟩
  have here := distinct_finished grammar otherInside inside cores
  rw [here] at leads
  rcases lookahead_of_attaches grammar named attaches leads with ⟨id, idInside, idName, member⟩
  rw [kernel] at member sound
  have item := ItemSet.mem_of_mem_cores (ItemSet.mem_cores_of_mem_lookaheads member)
  rcases Vocabulary.production_exists grammar known with ⟨numbered, numberedFound⟩
  have complete := complete_of_end grammar known
  rcases madeOf.reads.claimed _ _ numbered id item complete numberedFound member with
    ⟨place, claim⟩
  have entry : (name, place) ∈ claims.map fun claim =>
      ((Automaton.ofGrammar grammar).analysis.vocabulary.name claim.1, claim.2.2) :=
    List.mem_map.mpr ⟨_, claim, Prod.ext idName rfl⟩
  rcases NameMap.get?_ofList_of_mem entry with ⟨given, givenFound, _⟩
  have reduced : ((Automaton.ofGrammar grammar).reductions ⟨row.rules, claims⟩).get? name =
      some given := givenFound
  have notShifted := madeOf.resolved (noConflicts none) name given reduced
  refine ⟨notShifted, given, ?_, ?_⟩
  · rw [madeOf.reduce, if_neg]
    · exact reduced
    · unfold NameMap.contains
      rw [notShifted]
      exact Bool.false_ne_true
  · rcases claim_of_reduction grammar reduced with ⟨lookahead, claimed, listed, lookaheadName⟩
    rcases madeOf.reads.claims lookahead claimed given listed with
      ⟨core, set, claimedNumbered, others, inSet, _, _, claimedFound, rule⟩
    have proper := proper_closure grammar sound.proper
    have sets : ((ofGrammar grammar).closure state.kernel).lookaheads core = set :=
      ItemSet.lookaheads_of_mem proper.ordered others
    have lookaheadInside := proper.inside core lookahead (sets ▸ inSet)
    have same := symbolName_injective grammar lookaheadInside idInside
      (lookaheadName.trans idName.symm)
    have equal := madeOf.reads.functional id _ _ (same ▸ listed) claim
    rw [Prod.mk.injEq] at equal
    rcases reduceRule_eq grammar claimedFound with ⟨claimedPair, atClaimed, sameRule⟩
    rw [equal.1] at atClaimed
    have samePair : claimedPair = pair := Option.some.inj (atClaimed.symm.trans known)
    rw [← samePair, ← sameRule]
    exact rule

/-- A string of symbols leads to a row of the table. -/
private theorem row_of_reaches {table : Table}
    (made : (Automaton.ofGrammar grammar).toTable = .ok table) {path : List String}
    {kernel : Core -> Prop} (reaches : grammar.Reaches path kernel) :
    Exists fun index => Exists fun row => table.states[index]? = some row ∧
      kernels grammar index = kernel ∧ (Automaton.ofGrammar grammar).Path path index := by
  rcases path_of_reaches grammar reaches with ⟨index, leads, inside, cores⟩
  have size : table.states.size = (finished grammar).states.size :=
    (Automaton.row_of_toTable made).2.1
  rw [← size] at inside
  exact ⟨index, table.states[index], Array.getElem?_eq_getElem inside, cores, leads⟩

/-- A production that can be begun somewhere is a rule of some row. -/
theorem row_of_attaches {table : Table}
    (made : (Automaton.ofGrammar grammar).toTable = .ok table) {path : List String}
    {production : Nat} {lookahead : String}
    (attaches : grammar.Attaches path ⟨production, 0⟩ lookahead)
    {pair : PlainRule × PlainProduction} (known : grammar.productions[production]? = some pair) :
    Exists fun index : Nat => Exists fun row => table.states[index]? = some row ∧
      reduceRule pair ∈ row.rules := by
  rcases attaches.dot known (Nat.le_refl _) with ⟨longer, atEnd⟩
  rcases atEnd.reaches with ⟨kernel, reaches, listed⟩
  rcases row_of_reaches grammar made reaches with ⟨index, row, found, cores, _⟩
  rcases state_of_row grammar made found with
    ⟨inside, state, claims, resolved, kernelEq, _, madeOf, _⟩
  rw [← cores] at listed
  have member := (mem_cores_closure grammar (sound_finished grammar inside).proper _).mpr listed
  rw [kernelEq] at member
  rcases ItemSet.mem_cores.mp member with ⟨set, item⟩
  rcases Vocabulary.production_exists grammar known with ⟨numbered, numberedFound⟩
  rcases reduceRule_eq grammar numberedFound with ⟨other, atProduction, same⟩
  have samePair : other = pair := Option.some.inj (atProduction.symm.trans known)
  refine ⟨index, row, found, ?_⟩
  rw [← samePair, ← same]
  exact madeOf.reads.completed _ _ numbered item (complete_of_end grammar known) numberedFound

/-- Where no conflict was resolved, there was none. -/
theorem resolute_of_toTable (named : grammar.Named) {table : Table}
    (made : (Automaton.ofGrammar grammar).toTable = .ok table) (none : table.conflicts = []) :
    grammar.Resolute := by
  have drives := drives_toTable grammar made
  have decides := decides_toTable grammar named made none
  constructor
  · intro path first second left right lookahead atFirst atSecond firstAttaches secondAttaches
    rcases firstAttaches.reaches with ⟨kernel, reaches, _⟩
    rcases row_of_reaches grammar made reaches with ⟨index, row, found, _, leads⟩
    rcases state_of_row grammar made found with
      ⟨_, state, claims, resolved, kernelEq, _, madeOf, _⟩
    -- Both productions claim the lookahead in this row, and the claims of a row are a function.
    have claimed : forall (production : Nat) (pair : PlainRule × PlainProduction),
        grammar.productions[production]? = some pair ->
        grammar.Attaches path ⟨production, pair.2.symbols.length⟩ lookahead ->
        Exists fun id => Exists fun place => id < symbolCount grammar ∧
          symbolName grammar id = lookahead ∧ (id, production, place) ∈ claims := by
      intro production pair known attaches
      rcases lookahead_of_attaches grammar named attaches leads with ⟨id, inside, name, member⟩
      rw [kernelEq] at member
      have item := ItemSet.mem_of_mem_cores (ItemSet.mem_cores_of_mem_lookaheads member)
      rcases Vocabulary.production_exists grammar known with ⟨numbered, numberedFound⟩
      rcases madeOf.reads.claimed _ _ numbered id item (complete_of_end grammar known)
        numberedFound member with ⟨place, claim⟩
      exact ⟨id, place, inside, name, claim⟩
    rcases claimed first left atFirst firstAttaches with ⟨id, place, inside, name, claim⟩
    rcases claimed second right atSecond secondAttaches with
      ⟨other, otherPlace, otherInside, otherName, otherClaim⟩
    have same := symbolName_injective grammar inside otherInside (name.trans otherName.symm)
    rw [← same] at otherClaim
    exact congrArg Prod.fst (madeOf.reads.functional id _ _ claim otherClaim)
  · intro path production pair lookahead kernel core rest known attaches reaches inside dotted
    rcases row_of_reaches grammar made reaches with ⟨index, row, found, cores, _⟩
    rw [← cores] at reaches inside
    have notShifted := (decides index row path production pair lookahead found reaches known
      attaches).1
    rcases drives.shifts index row core lookahead rest found inside dotted with ⟨target, shifted⟩
    rw [notShifted] at shifted
    cases shifted

end PlainGrammar

end ShiftReduce
