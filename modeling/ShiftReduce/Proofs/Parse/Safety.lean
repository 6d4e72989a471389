import ShiftReduce.Proofs.Parse.Standing

namespace ShiftReduce

/-!
# Parses fail for reasons in their input

A table that is compiled from an admissible grammar never asks for what is not there.  Every pop
finds the symbols of its rule, every repetition that grows finds its collection, every reduction finds
its nodes, and when a run accepts, no collection is left and the nodes have become one tree.  This
holds for every source whose tokens have text, whatever their names are, in particular if a token has
the name of a rule or of a helper.
-/

namespace Setting

variable {σ : Type} {setting : Setting σ} {grammar : Grammar}

/-- No run fails internally or out of range, and acceptance leaves no collection and one tree.  A run
breaks off only where its source does. -/
theorem run_external (admissible : grammar.Admissible)
    (compiled : grammar.compile = .ok setting.table) (state : σ) (limit : Nat)
    (text : forall token, .ok (some token) ∈ setting.answers limit (.start state) ->
      token.text.isSome = true) :
    (forall halt, (setting.run limit (.start state)).1 = .stopped halt ->
      (Exists fun error => halt = .failed error ∧ error.IsExternal) ∨
        (halt = .unclaimed ∧ .error .unclaimed ∈ setting.answers limit (.start state))) ∧
    ((setting.run limit (.start state)).1 = .accepted ->
      (setting.run limit (.start state)).2.collections = [] ∧
      (setting.keep.isSome = true -> Exists fun tree =>
        PendingNode.finish (setting.run limit (.start state)).2.nodes = .ok tree)) := by
  rcases prepared_of_compile admissible compiled with ⟨plain, prepared, _⟩
  have begun : Standing setting grammar plain (fun _ => True) [] (.start state) [] :=
    standing_start state
  have ends := begun.run prepared.grounded (fun _ _ _ _ _ _ _ _ _ => trivial) limit fun token member _ =>
    ⟨Token.real_of_text (text token member), trivial⟩
  generalize setting.run limit (.start state) = result at ends ⊢
  rcases result with ⟨outcome, machine⟩
  cases ends with
  | rejected _ error external =>
      refine ⟨fun halt stopped => Or.inl ⟨error, ?_, external⟩, ?_⟩
      · exact (Outcome.stopped.inj stopped).symm
      · exact fun impossible => by cases impossible
  | brokenOff _ asked =>
      refine ⟨fun halt stopped => Or.inr ⟨?_, asked⟩, ?_⟩
      · exact (Outcome.stopped.inj stopped).symm
      · exact fun impossible => by cases impossible
  | unfinished _ =>
      refine ⟨?_, ?_⟩
      · exact fun _ impossible => by cases impossible
      · exact fun impossible => by cases impossible
  | accepted _ entry position root standing =>
      refine ⟨?_, fun _ => ⟨?_, ?_⟩⟩
      · exact fun _ impossible => by cases impossible
      · have own := Grammar.not_helper_of_mem_names admissible.helpersApart prepared.made
          (Grammar.root_mem_names prepared.made)
        have nothing : entry.collection = none := by
          cases known : entry.collection with
          | none => rfl
          | some collection =>
              have helper := ((standing.fits entry (List.mem_singleton_self _)).mp
                (by rw [known]; rfl)).2
              rw [root] at helper
              exact (own helper).elim
        have collections := standing.collections
        rw [Entry.heldBy_singleton, Entry.held_of_none nothing] at collections
        exact collections
      · intro isKept
        have count := standing.nodes isKept
        rw [List.countP_cons_of_pos (by rw [root]; rfl), List.countP_nil] at count
        rcases List.length_eq_one_iff.mp count with ⟨node, single⟩
        have nodes : machine.nodes = [node] := single
        exact ⟨_, by rw [nodes]; rfl⟩

/-- A parse that comes to an end gives a tree or fails for a reason outside, if its source does not
break off. -/
theorem parseTree_external (admissible : grammar.Admissible)
    (compiled : grammar.compile = .ok setting.table) (keeps : setting.keep.isSome = true) {state : σ}
    {limit : Nat}
    (text : forall token, .ok (some token) ∈ setting.answers limit (.start state) ->
      token.text.isSome = true)
    (goesOn : .error .unclaimed ∉ setting.answers limit (.start state))
    (finished : (setting.run limit (.start state)).1 ≠ .unfinished) :
    (Exists fun tree => (setting.parseTree state).tree = .ok tree) ∨
      Exists fun error => error.IsExternal ∧
        (setting.parseTree state).tree = .error (.stopped (.failed error)) := by
  have external := run_external admissible compiled state limit text
  rw [parseTree_of_run finished]
  generalize setting.run limit (.start state) = result at finished external ⊢
  rcases result with ⟨outcome, machine⟩
  cases outcome with
  | unfinished => exact (finished rfl).elim
  | stopped halt =>
      rcases external.1 halt rfl with ⟨error, rfl, isExternal⟩ | ⟨_, asked⟩
      · exact Or.inr ⟨error, isExternal, rfl⟩
      · exact (goesOn asked).elim
  | accepted =>
      rcases (external.2 rfl).2 keeps with ⟨tree, finishes⟩
      exact Or.inl ⟨tree, TreeResult.tree_ofRun_eq_ok_iff.mpr ⟨rfl, finishes⟩⟩

end Setting

/-! ## One or two items -/

/-- A list of one or two items. -/
def Grammar.oneOrTwo : Grammar :=
  ⟨[⟨"list", [{ symbols := [.bounded 1 2 [.name "item"]] }]⟩], List.nodup_singleton _⟩

theorem Grammar.admissible_oneOrTwo : oneOrTwo.Admissible :=
  admissible_of_reports (by decide) (by decide) (by decide)

/-- A tree parse of such a list, nothing being skipped but blanks. -/
def Setting.oneOrTwo : Setting TokenList :=
  ⟨(Grammar.oneOrTwo.compile.toOption).getD default, TokenList.source, ["blank"], some fun _ => true⟩

theorem Setting.compiled_oneOrTwo : Grammar.oneOrTwo.compile = .ok Setting.oneOrTwo.table :=
  eq_ok_of_isOk (by decide +kernel)

/-- Two items with a blank between them. -/
def TokenList.twoItems : TokenList :=
  ⟨[⟨"item", some "a", default⟩, ⟨"blank", some " ", default⟩, ⟨"item", some "b", default⟩], default,
    none⟩

/-- The tokens of such a run cannot be mistaken for rules. -/
theorem Setting.terminals_oneOrTwo (token : Token)
    (asked : .ok (some token) ∈ Setting.oneOrTwo.answers 20 (.start .twoItems)) :
    token.text.isSome = true ∧ token.name ∉ Grammar.oneOrTwo.allRuleNames := by
  have each : forall answer, answer ∈ Setting.oneOrTwo.answers 20 (.start .twoItems) ->
      forall token, token ∈ answer.toOption.join -> token.text.isSome = true ∧
        token.name ∉ Grammar.oneOrTwo.allRuleNames := by decide +kernel
  exact each (.ok (some token)) asked token rfl

/-- The run over two items is accepted and leaves their tree. -/
theorem Setting.run_external_oneOrTwo :
    (Setting.oneOrTwo.run 20 (.start .twoItems)).1 = .accepted ∧
    (Setting.oneOrTwo.run 20 (.start .twoItems)).2.collections = [] ∧
    Exists fun tree =>
      PendingNode.finish (Setting.oneOrTwo.run 20 (.start .twoItems)).2.nodes = .ok tree := by
  have accepted : (Setting.oneOrTwo.run 20 (.start .twoItems)).1 = .accepted := by decide +kernel
  have text : forall token, .ok (some token) ∈ Setting.oneOrTwo.answers 20 (.start .twoItems) ->
      token.text.isSome = true := fun token asked => (Setting.terminals_oneOrTwo token asked).1
  have safe := Setting.run_external Grammar.admissible_oneOrTwo Setting.compiled_oneOrTwo
    .twoItems 20 text
  exact ⟨accepted, (safe.2 accepted).1, (safe.2 accepted).2 rfl⟩

/-! ## A token named like a helper -/

/-- A parse of the grammar over listed tokens, nothing being skipped. -/
def Setting.ofGrammar (grammar : Grammar) : Setting TokenList :=
  ⟨(grammar.compile.toOption).getD default, TokenList.source, [], none⟩

/-- A repetition, and something else. -/
def Grammar.repetitionFirst : Grammar :=
  ⟨[⟨"S", [{ symbols := [.name "a", .repeat0 [.name "b"]] }, { symbols := [.name "c"] }]⟩],
    List.nodup_singleton _⟩

theorem Grammar.admissible_repetitionFirst : repetitionFirst.Admissible :=
  admissible_of_reports (by decide) (by decide) (by decide)

/-- A run of the grammar. -/
def Setting.repetitionFirst : Setting TokenList := .ofGrammar .repetitionFirst

theorem Setting.compiled_repetitionFirst :
    Grammar.repetitionFirst.compile = .ok repetitionFirst.table :=
  eq_ok_of_isOk (by decide +kernel)

/-- The helper of the repetition is `S#0#1`. -/
def TokenList.helperNamed : TokenList :=
  ⟨[⟨"a", some "a", default⟩, ⟨"S#0#1", some "x", default⟩], default, none⟩

/-! ## Copies that are lost -/

theorem Grammar.admissible_emptyFloor (most : Nat) : (emptyFloor most).Admissible := by
  have markless : forall name, name ∈ ["A", "a", "b"] -> '#' ∉ name.toList := by decide
  refine admissible_of_reports ?_ (by decide : "" ∉ ["A", "a", "b"]) markless
  intro rule listed production chosen
  rw [List.mem_singleton.mp listed] at chosen
  rw [List.mem_singleton.mp chosen]

/-- No tokens at all. -/
def TokenList.nothing : TokenList := ⟨[], default, none⟩

theorem Setting.compiled_emptyFloor :
    (Grammar.emptyFloor 0).compile = .ok (ofGrammar (.emptyFloor 0)).table :=
  eq_ok_of_isOk (by decide +kernel)

end ShiftReduce
