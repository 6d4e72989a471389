import ShiftReduce.Proofs.Grammar.Origins
import ShiftReduce.Proofs.Grammar.Rearranging
import ShiftReduce.Proofs.Parse.Correspondence
import ShiftReduce.Proofs.Parse.Groups

namespace ShiftReduce

/-!
# The order of declarations

The first rule of a grammar is its root.  In which order the other rules are declared, and in which
order the productions of a rule, makes no difference to a parse, as long as the source knows nothing
of the names of helpers.
-/

namespace Draft

/-- A relocation leaves a helper with the rule that it belongs to. -/
theorem ownerOf_relocate (places : String -> Equiv.Perm Nat) (name : String) :
    Collections.ownerOf (relocate places name) = Collections.ownerOf name := by
  by_cases found : IsHelperName name
  · rcases found with ⟨⟨owner, production, index⟩, rfl⟩
    by_cases marked : '#' ∈ owner.toList
    · rw [relocate_nested places marked, ownerOf_helperName, ownerOf_helperName,
        ownerOf_relocate places owner]
    · rw [relocate_placed places marked, ownerOf_helperName, ownerOf_helperName]
  · rw [relocate_of_not places found]
termination_by name.length
decreasing_by
  have same : name = helperName owner production index := by assumption
  rw [same]
  exact length_helperName owner production index

theorem relabels_relocate (places : String -> Equiv.Perm Nat) : Relabels (relocate places) :=
  ⟨(relocation places).injective, relocate_of_not places (not_isHelperName List.not_mem_nil),
    ownerOf_relocate places⟩

end Draft

namespace Grammar

open Draft

variable {left right : Grammar}

/-- The names of helpers have the form that no other name has. -/
theorem Markless.helpersApart {grammar : Grammar} (markless : grammar.Markless) :
    grammar.HelpersApart :=
  helpersApart_of_names markless.names

/-- A table of the one grammar tells of a table of the other, which does the same. -/
theorem Rearranges.compile (rearranges : left.Rearranges right) (markless : left.Markless)
    (outward : left.EmitsOutward) {table : Table} (compiled : left.compile = .ok table) :
    Exists fun other => right.compile = .ok other ∧
      table.conflicts.length = other.conflicts.length ∧
      Exists fun plain => Exists fun places => Exists fun states =>
        Grounded left plain table ∧ table.Corresponds (relocate places) states other := by
  rcases of_bind_eq_ok compiled with ⟨plain, made, tabled⟩
  rcases rearranges.toPlain markless outward made with
    ⟨otherPlain, otherMade, renumbering, places, name⟩
  rcases renumbering.toTable_ok tabled with ⟨other, otherTabled⟩
  have corresponds := renumbering.corresponds_toTable tabled otherTabled
  rw [name] at corresponds
  refine ⟨other, ?_, renumbering.conflicts_eq tabled otherTabled, plain, places, _,
    ⟨markless.helpersApart, outward, made, PlainGrammar.drives_toTable plain tabled⟩, corresponds⟩
  unfold Grammar.compile
  rw [otherMade]
  exact otherTabled

/-- An outcome keeps its names if what it blames is offered by an entry that does. -/
theorem rename_of_blames {name : String -> String} {outcome : Outcome}
    (blames : Blames (Entry.Keeps name) outcome) : outcome.rename name = outcome := by
  unfold Outcome.rename
  split
  next rule most word text position =>
    rcases blames rule most word text position rfl with ⟨entry, token, keeps, offered, rfl⟩
    rw [keeps token offered]
  · rfl

/-- With the table of the other grammar a run does the same. -/
theorem Rearranges.run (rearranges : left.Rearranges right) (markless : left.Markless)
    (outward : left.EmitsOutward) {σ : Type} {setting : Setting σ} {other : Table}
    (compiled : left.compile = .ok setting.table) (otherCompiled : right.compile = .ok other)
    (heeds : setting.source.HeedsOnly fun name => ¬ IsHelperName name) (state : σ) (limit : Nat)
    (offers : forall token, .ok (some token) ∈ setting.answers limit (.start state) ->
      token.name ∉ setting.skip -> token.isSynthetic = false ∧ ¬ IsHelperName token.name) :
    ((setting.over other).run limit (.start state)).1 = (setting.run limit (.start state)).1 ∧
    ((setting.over other).run limit (.start state)).2.calls =
      (setting.run limit (.start state)).2.calls ∧
    List.Forall₂ PendingNode.Alike (setting.run limit (.start state)).2.nodes
      ((setting.over other).run limit (.start state)).2.nodes := by
  rcases rearranges.compile markless outward compiled with
    ⟨found, otherFound, _, plain, places, states, grounded, corresponds⟩
  cases Except.ok.inj (otherCompiled.symm.trans otherFound)
  have authors : forall draft, draft ∈ left.drafts -> relocate places draft.name = draft.name := by
    intro draft listed
    rcases List.mem_map.mp listed with ⟨rule, inRules, rfl⟩
    exact relocate_of_not places (not_isHelperName (markless.rules rule inRules))
  have same := Machine.Alike.run grounded authors (relabels_relocate places) corresponds
    (fun state accepts others same => heeds state accepts others fun name plainName =>
      same name (relocate_of_not places plainName)) limit
    (standing_start state) (alike_start state) fun token asked kept =>
      (offers token asked kept).imp_right (relocate_of_not places)
  have blames := Setting.blames_of_run outward markless.helpersApart compiled
    (explains_keeps authors) state limit fun token asked kept =>
      (offers token asked kept).imp_right fun plainName =>
        Entry.keeps_leaf (relocate_of_not places plainName)
  rwa [rename_of_blames blames] at same

/-- Declaring rules behind the root, or productions, in another order makes no difference.  One
grammar has a table exactly if the other has; their automata have equally many states and their tables
equally many resolved conflicts; and both parse a source with the same reports and the same outcome.
The source must not have to do with names of helpers: it offers no such token, unless it is skipped,
and does not ask for one. -/
theorem Rearranges.agree (rearranges : left.Rearranges right) (markless : left.Markless)
    (otherMarkless : right.Markless) (outward : left.EmitsOutward)
    (otherOutward : right.EmitsOutward) :
    ((Exists fun table => left.compile = .ok table) ↔
      Exists fun table => right.compile = .ok table) ∧
    (forall plain other, left.toPlain = .ok plain -> right.toPlain = .ok other ->
      (Automaton.ofGrammar plain).states.size = (Automaton.ofGrammar other).states.size) ∧
    forall table other, left.compile = .ok table -> right.compile = .ok other ->
      table.conflicts.length = other.conflicts.length ∧
      forall (σ : Type) (setting : Setting σ) (state : σ) (limit : Nat), setting.table = table ->
        setting.source.HeedsOnly (fun name => ¬ IsHelperName name) ->
        (forall token, .ok (some token) ∈ setting.answers limit (.start state) ->
          token.text.isSome = true ∧ (token.name ∉ setting.skip -> ¬ IsHelperName token.name)) ->
        ((setting.over other).run limit (.start state)).1 = (setting.run limit (.start state)).1 ∧
        ((setting.over other).run limit (.start state)).2.calls =
          (setting.run limit (.start state)).2.calls := by
  refine ⟨⟨fun ⟨_, compiled⟩ => ?_, fun ⟨_, compiled⟩ => ?_⟩, fun plain other made otherMade => ?_,
    fun table other compiled otherCompiled => ⟨?_, ?_⟩⟩
  · exact (rearranges.compile markless outward compiled).imp fun _ parts => parts.1
  · exact (rearranges.symm.compile otherMarkless otherOutward compiled).imp fun _ parts => parts.1
  · rcases rearranges.toPlain markless outward made with ⟨found, foundMade, renumbering, _⟩
    cases Except.ok.inj (otherMade.symm.trans foundMade)
    exact renumbering.size_eq
  · rcases rearranges.compile markless outward compiled with ⟨found, foundCompiled, same, _⟩
    cases Except.ok.inj (otherCompiled.symm.trans foundCompiled)
    exact same
  · rintro σ setting state limit rfl heeds offers
    have same := rearranges.run markless outward compiled otherCompiled heeds state limit
      fun token asked kept => ⟨Token.real_of_text (offers token asked).1, (offers token asked).2 kept⟩
    exact ⟨same.1, same.2.1⟩

end Grammar

/-! ## A token named like a helper -/

namespace Grammar

/-- `repetitionFirst` with the productions in the other order. -/
def repetitionLast : Grammar :=
  ⟨[⟨"S", [{ symbols := [.name "c"] }, { symbols := [.name "a", .repeat0 [.name "b"]] }]⟩],
    List.nodup_singleton _⟩

theorem rearranges_repetition : repetitionFirst.Rearranges repetitionLast :=
  ⟨rfl, repetitionLast.rules, .cons ⟨rfl, .swap _ _ _⟩ .nil, .refl _⟩

theorem markless_repetitionFirst : repetitionFirst.Markless := markless_of_names (by decide)

theorem markless_repetitionLast : repetitionLast.Markless := markless_of_names (by decide)

theorem admissible_repetitionLast : repetitionLast.Admissible :=
  admissible_of_reports (by decide) (by decide) (by decide)

end Grammar

/-- One group. -/
def TokenList.oneGroup : TokenList :=
  ⟨[⟨"a", some "a", default⟩, ⟨"b", some "b", default⟩], default, none⟩

namespace Setting

theorem compiled_repetitionLast : Grammar.repetitionLast.compile =
    .ok ((Grammar.repetitionLast.compile.toOption).getD default) :=
  eq_ok_of_isOk (by decide +kernel)

/-- One group is parsed alike. -/
theorem agree_repetition :
    Grammar.repetitionFirst.Rearranges Grammar.repetitionLast ∧
    Exists fun other => Grammar.repetitionLast.compile = .ok other ∧
      ((repetitionFirst.over other).run 20 (.start .oneGroup)).1 =
        (repetitionFirst.run 20 (.start .oneGroup)).1 ∧
      ((repetitionFirst.over other).run 20 (.start .oneGroup)).2.calls =
        (repetitionFirst.run 20 (.start .oneGroup)).2.calls := by
  have each : forall answer, answer ∈ repetitionFirst.answers 20 (.start .oneGroup) ->
      forall token, token ∈ answer.toOption.join ->
        token.text.isSome = true ∧ '#' ∉ token.name.toList := by decide +kernel
  refine ⟨Grammar.rearranges_repetition, _, compiled_repetitionLast, ?_⟩
  have agree := Grammar.rearranges_repetition.agree Grammar.markless_repetitionFirst
    Grammar.markless_repetitionLast Grammar.admissible_repetitionFirst.emitsOutward
    Grammar.admissible_repetitionLast.emitsOutward
  exact (agree.2.2 _ _ compiled_repetitionFirst compiled_repetitionLast).2 _ repetitionFirst
    .oneGroup 20 rfl (fun _ _ _ _ => rfl) fun token asked =>
      ⟨(each _ asked token rfl).1, fun _ => Draft.not_isHelperName (each _ asked token rfl).2⟩

/-- A token that is named like a helper tells the two grammars apart: only the one where it is the
name of the helper takes the token in the helper's place. -/
theorem differ_at_helper_name :
    ¬ forall (left right : Grammar) (setting : Setting TokenList) (other : Table)
        (state : TokenList) (limit : Nat),
      left.Rearranges right -> left.Markless -> right.Markless -> left.EmitsOutward ->
      right.EmitsOutward -> left.compile = .ok setting.table -> right.compile = .ok other ->
      (forall token, .ok (some token) ∈ setting.answers limit (.start state) ->
        token.text.isSome = true) ->
      ((setting.over other).run limit (.start state)).1 = (setting.run limit (.start state)).1 := by
  intro always
  have each : forall answer, answer ∈ repetitionFirst.answers 20 (.start .helperNamed) ->
      forall token, token ∈ answer.toOption.join -> token.text.isSome = true := by decide +kernel
  have same := always _ _ repetitionFirst _ .helperNamed 20 Grammar.rearranges_repetition
    Grammar.markless_repetitionFirst Grammar.markless_repetitionLast
    Grammar.admissible_repetitionFirst.emitsOutward
    Grammar.admissible_repetitionLast.emitsOutward
    compiled_repetitionFirst compiled_repetitionLast fun token asked => each _ asked token rfl
  have first : (repetitionFirst.run 20 (.start .helperNamed)).1 = .accepted := by decide +kernel
  have last : ((repetitionFirst.over ((Grammar.repetitionLast.compile.toOption).getD default)).run 20
      (.start .helperNamed)).1 =
        .stopped (.failed (.unexpectedToken "S#0#1" "x" default)) := by decide +kernel
  rw [first, last] at same
  cases same

end Setting

end ShiftReduce
