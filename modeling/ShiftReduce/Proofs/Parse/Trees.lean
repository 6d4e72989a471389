import ShiftReduce.Proofs.Parse.Completeness
import ShiftReduce.Proofs.Parse.Planting
import ShiftReduce.Proofs.Table.Unambiguity

namespace ShiftReduce

/-!
# The trees that are parsed

A run that is accepted in tree mode leaves the parse tree of a derivation tree of the root over the
tokens that have been read.  If no conflict was resolved, there is one such derivation tree, and a run
over the tokens of a parse tree comes back with this very tree.

How many steps that takes is known as well: one for each answer of the source, one for each token that
is shifted, and two for each node but the last, which is reduced and not shifted.
-/

open DerivationTree

variable {σ : Type} {setting : Setting σ} {grammar : Grammar} {plain : PlainGrammar}
  {keep : Token -> Bool}

/-- A derivation tree of the root becomes a single tree, which is what a parse makes of its node. -/
theorem planted_root (admissible : grammar.Admissible) (made : grammar.toPlain = .ok plain)
    {grown : DerivationTree Token} {word : List Token}
    (grows : plain.Grows Token.name [plain.root] [grown] word)
    (terminals : forall token, token ∈ word -> token.name ∉ grammar.allRuleNames) :
    Exists fun tree => planted plain keep grown = [tree] ∧
      PendingNode.finish (grown.pending? plain keep).toList = .ok tree := by
  have isRule := Grammar.root_mem_ruleNames (Grammar.toPlain_eq made).2.2
  generalize names : [plain.root] = symbols at grows
  cases grows with
  | leaf token symbols trees word isTerminal later =>
      rw [List.cons.injEq] at names
      rw [names.1] at isRule
      exact (terminals token List.mem_cons_self
        (Grammar.mem_allRuleNames_of_ruleNames made isRule)).elim
  | node number pair children inner symbols trees word known below later =>
      rw [List.cons.injEq] at names
      have notHelper : pair.1.helper = false := by
        cases isHelper : pair.1.helper with
        | false => rfl
        | true =>
            have listed := (PlainGrammar.mem_productions.mp (List.mem_of_getElem? known)).1
            have written := Grammar.root_mem_names made
            rw [names.1] at written
            exact (admissible.apart plain made pair.1 listed isHelper written).elim
      refine ⟨.node (PlainGrammar.reduceRule pair).reportedAs (plantedOfEach plain keep children), ?_,
        ?_⟩
      · rw [planted, pendingOf, known]
        exact if_neg fun isHelper => Bool.false_ne_true (notHelper.symm.trans isHelper)
      · rw [pending?, pendingOf, known]
        rfl

namespace Setting

/-- An accepted run leaves the parse tree of a derivation tree of the root. -/
theorem grown_of_accepted (prepared : Prepared grammar plain setting.table)
    (keeps : setting.keep = some keep) (state : σ) (limit : Nat)
    (terminals : forall token, .ok (some token) ∈ setting.answers limit (.start state) ->
      token.text.isSome = true ∧ token.name ∉ grammar.allRuleNames)
    (accepted : (setting.run limit (.start state)).1 = .accepted) :
    Exists fun tokens : List Token => Exists fun grown => Exists fun tree =>
      setting.answers limit (.start state) =
        tokens.map (fun token => .ok (some token)) ++ [.ok none] ∧
      plain.Grows Token.name [plain.root] [grown] (setting.unskipped tokens) ∧
      planted plain keep grown = [tree] ∧
      PendingNode.finish (setting.run limit (.start state)).2.nodes = .ok tree ∧
      setting.run (tokens.length + (setting.unskipped tokens).length + 2 * grown.nodeCount)
        (.start state) = setting.run limit (.start state) := by
  have offers : forall token, .ok (some token) ∈ setting.answers limit (.start state) ->
      token.isSynthetic = false ∧ ¬ plain.IsNonterminal token.name := by
    intro token asked
    rcases terminals token asked with ⟨text, outside⟩
    exact ⟨Token.real_of_text text, Grammar.not_nonterminal_of_outside prepared.made outside⟩
  rcases (planted_start state).run prepared.drives limit offers with ⟨taken, _, same, bears⟩
  rw [accepted, List.nil_append, Nat.zero_add] at bears
  generalize (setting.run limit (.start state)).2 = machine at bears ⊢
  cases bears with
  | accepted _ grown word _ grows node answers spent =>
      rcases answers with ⟨tokens, isAnswers, isWord⟩
      rw [if_pos rfl] at isAnswers
      have isWord : setting.unskipped tokens = word := isWord.trans (List.append_nil _)
      subst isWord
      have outside : forall token, token ∈ setting.unskipped tokens ->
          token.name ∉ grammar.allRuleNames := by
        intro token member
        refine (terminals token ?_).2
        rw [isAnswers]
        exact List.mem_append_left _ (List.mem_map_of_mem (List.mem_of_mem_filter member))
      rcases planted_root prepared.admissible prepared.made grows outside with
        ⟨tree, becomes, finishes⟩
      refine ⟨tokens, grown, tree, isAnswers, grows, becomes, ?_, ?_⟩
      · rw [node keep keeps]
        exact finishes
      · rw [isAnswers, List.length_append, List.length_map, List.length_singleton] at spent
        have count : taken = tokens.length + (setting.unskipped tokens).length +
            2 * grown.nodeCount := by omega
        rw [← count]
        exact same

/-- A run over the tokens of a parse tree comes to acceptance and leaves this tree. -/
theorem accepted_of_forest (prepared : Prepared grammar plain setting.table)
    (decides : Decides plain setting.table plain.kernels) (fits : grammar.FloorsFit)
    (resolute : plain.Resolute)
    (acyclic : ¬ Relation.TransGen plain.Rewrites [plain.root] [plain.root])
    (keeps : setting.keep = some keep) {state : σ} {tokens : List Token}
    (yields : setting.source.Yields tokens state)
    (terminals : forall token, token ∈ tokens ->
      token.text.isSome = true ∧ token.name ∉ grammar.allRuleNames) {tree : ParseTree}
    (forest : grammar.Forest Symbol.Unfolds keep [.name plain.root] [tree]
      (setting.unskipped tokens)) :
    Exists fun grown =>
      plain.Grows Token.name [plain.root] [grown] (setting.unskipped tokens) ∧
      forall more, Exists fun machine =>
        setting.run (tokens.length + (setting.unskipped tokens).length + 2 * grown.nodeCount + more)
          (.start state) = (.accepted, machine) ∧ PendingNode.finish machine.nodes = .ok tree := by
  have isRoot := (Grammar.toPlain_eq prepared.made).2.2
  have answers : forall limit, setting.answers limit (.start state) <+:
      tokens.map (fun token => .ok (some token)) ++ [.ok none] := by
    intro limit
    have starts : (Machine.start state).lookahead.waiting ≠ some none := nofun
    have all := answers_prefix limit fun _ : (Machine.start state).lookahead.waiting ≠ some none =>
      yields
    rwa [if_neg starts] at all
  have feeds : setting.Feeds (.start state) (setting.unskipped tokens) :=
    ⟨tokens, fun token member => Token.real_of_text (terminals token member).1, rfl, answers⟩
  rcases accepts_of_sentence prepared decides fits feeds ⟨plain.root, isRoot, forest.derives⟩ with
    ⟨limit, accepts⟩
  have accepted := accepts 0
  rw [Nat.add_zero] at accepted
  have among : forall token, .ok (some token) ∈ setting.answers limit (.start state) ->
      token ∈ tokens := by
    intro token asked
    rcases List.mem_append.mp ((answers limit).subset asked) with member | last
    · rcases List.mem_map.mp member with ⟨other, listed, same⟩
      rw [← Option.some.inj (Except.ok.inj same)]
      exact listed
    · cases Except.ok.inj (List.mem_singleton.mp last)
  rcases grown_of_accepted prepared keeps state limit (fun token asked =>
    terminals token (among token asked)) accepted with
    ⟨read, grown, left, isAnswers, grows, becomes, finishes, sameRun⟩
  -- The run has read all tokens.
  have all : read = tokens := by
    have front := answers limit
    rw [isAnswers] at front
    exact eq_of_answers front
  subst all
  rcases forest.grows fits prepared.admissible.helpersApart prepared.made
    (fun _ _ => Symbol.Unfolds.admits) (Grammar.root_mem_ruleNames isRoot) with
    ⟨other, otherGrows, otherBecomes⟩
  have same := PlainGrammar.unique_of_resolute resolute acyclic otherGrows grows
  subst same
  have sameTree : left = tree := List.head_eq_of_cons_eq (becomes.symm.trans otherBecomes)
  subst sameTree
  refine ⟨other, grows, fun more => ⟨(setting.run limit (.start state)).2, ?_, finishes⟩⟩
  have ended : (setting.run (read.length + (setting.unskipped read).length + 2 * other.nodeCount)
      (.start state)).1 ≠ .unfinished := by
    rw [sameRun, accepted]
    exact Outcome.noConfusion
  rw [run_add ended, sameRun, ← accepted]

/-! ## Parses -/

/-- What a run has asked the source for is what the source gives in some state. -/
theorem next_of_answers {answer : Answer} {limit : Nat} {machine : Machine σ}
    (asked : answer ∈ setting.answers limit machine) :
    Exists fun state => Exists fun preference =>
      (setting.source.next state preference).1 = answer := by
  have anyState : forall (_ : σ) (_ : Preference), True -> True := fun _ _ _ => trivial
  rcases state_of_answers anyState trivial asked with ⟨state, preference, _, gives⟩
  exact ⟨state, preference, gives⟩

/-- A tree of all tokens that a source gives is what the source is parsed into. -/
theorem parseTree_of_forest (prepared : Prepared grammar plain setting.table)
    (decides : Decides plain setting.table plain.kernels) (fits : grammar.FloorsFit)
    (resolute : plain.Resolute)
    (acyclic : ¬ Relation.TransGen plain.Rewrites [plain.root] [plain.root])
    (keeps : setting.keep = some keep) {state : σ} {tokens : List Token}
    (yields : setting.source.Yields tokens state)
    (terminals : forall token, token ∈ tokens ->
      token.text.isSome = true ∧ token.name ∉ grammar.allRuleNames) {tree : ParseTree}
    (forest : grammar.Forest Symbol.Unfolds keep [.name plain.root] [tree]
      (setting.unskipped tokens)) :
    (setting.parseTree state).tree = .ok tree := by
  rcases accepted_of_forest prepared decides fits resolute acyclic keeps yields terminals forest with
    ⟨grown, grows, runs⟩
  rcases runs 0 with ⟨machine, run, finish⟩
  rw [parseTree_of_run (by rw [run]; exact Outcome.noConfusion), run]
  exact TreeResult.tree_ofRun_eq_ok_iff.mpr ⟨rfl, finish⟩

/-- What a source is parsed into is a tree of all tokens that it is asked for. -/
theorem answers_of_parseTree (prepared : Prepared grammar plain setting.table)
    (fits : grammar.FloorsFit) (keeps : setting.keep = some keep)
    (terminals : forall state preference token,
      (setting.source.next state preference).1 = .ok (some token) ->
      token.text.isSome = true ∧ token.name ∉ grammar.allRuleNames) {state : σ} {tree : ParseTree}
    (parsed : (setting.parseTree state).tree = .ok tree) :
    Exists fun tokens : List Token =>
      (Exists fun limit => setting.answers limit (.start state) =
        tokens.map (fun token => .ok (some token)) ++ [.ok none]) ∧
      grammar.Forest Symbol.Admits keep [.name plain.root] [tree] (setting.unskipped tokens) := by
  rcases setting.exists_run_eq_result (.start state) with ⟨limit, run⟩
  rw [parseTree, ← run] at parsed
  rcases TreeResult.tree_ofRun_eq_ok_iff.mp parsed with ⟨accepted, finishes⟩
  have among : forall token, .ok (some token) ∈ setting.answers limit (.start state) ->
      token.text.isSome = true ∧ token.name ∉ grammar.allRuleNames := by
    intro token asked
    rcases next_of_answers asked with ⟨before, preference, gives⟩
    exact terminals before preference token gives
  rcases grown_of_accepted prepared keeps state limit among accepted with
    ⟨tokens, grown, other, answers, grows, becomes, otherFinishes, _⟩
  have same : other = tree := Except.ok.inj (otherFinishes.symm.trans finishes)
  refine ⟨tokens, ⟨limit, answers⟩, ?_⟩
  rw [← same, ← becomes]
  refine grows.forest fits prepared.admissible.helpersApart prepared.made
    (Grammar.root_mem_names prepared.made) fun token member => (among token ?_).2
  rw [answers]
  exact List.mem_append_left _ (List.mem_map_of_mem (List.mem_of_mem_filter member))

/-- What a source is parsed into is a tree of tokens that the source gives. -/
theorem forest_of_parseTree (prepared : Prepared grammar plain setting.table)
    (fits : grammar.FloorsFit) (keeps : setting.keep = some keep)
    (terminals : forall state preference token,
      (setting.source.next state preference).1 = .ok (some token) ->
      token.text.isSome = true ∧ token.name ∉ grammar.allRuleNames) {state : σ} {tree : ParseTree}
    (parsed : (setting.parseTree state).tree = .ok tree) :
    Exists fun tokens : List Token =>
      (forall token, token ∈ tokens -> Exists fun state => Exists fun preference =>
        (setting.source.next state preference).1 = .ok (some token)) ∧
      grammar.Forest Symbol.Admits keep [.name plain.root] [tree] (setting.unskipped tokens) := by
  rcases answers_of_parseTree prepared fits keeps terminals parsed with
    ⟨tokens, ⟨limit, answers⟩, forest⟩
  refine ⟨tokens, fun token member => ?_, forest⟩
  have asked : .ok (some token) ∈ setting.answers limit (.start state) := by
    rw [answers]
    exact List.mem_append_left _ (List.mem_map_of_mem member)
  exact next_of_answers asked

end Setting

end ShiftReduce
