import ShiftReduce.Proofs.Parse.Relabeling
import ShiftReduce.Proofs.Parse.Reports

namespace ShiftReduce

/-!
# The same run with another table

Two tables that do the same under other names make the same run of a source.  Each step of one run
corresponds to a step of the other: the stacks hold tokens under the other names in corresponding
states, and so do the collections, while the nodes make the same trees and the reports are the same.

The source has to be one for both runs.  Its tokens keep their names, and what it gives does not
depend on whether it is asked for a name that is exchanged.  What reaches a report is then a token of
the source or a rule of the author's, and neither has another name in the other table.
-/

/-- The lookahead with its rule under another name. -/
def Lookahead.rename (name : String -> String) : Lookahead -> Lookahead
  | .reduced nonterminal waiting => .reduced (nonterminal.rename name) waiting
  | other => other

/-- The outcome in which a token that is one too many has another name. -/
def Outcome.rename (name : String -> String) : Outcome -> Outcome
  | .stopped (.failed (.repetitionLimit rule max token text position)) =>
    .stopped (.failed (.repetitionLimit rule max (name token) text position))
  | other => other

/-- What the source gives depends only on which of these names are wanted. -/
def TokenSource.HeedsOnly {σ : Type} (source : TokenSource σ) (kept : String -> Prop) : Prop :=
  forall (state : σ) (accepts others : String -> Bool),
    (forall name, kept name -> others name = accepts name) ->
    source.next state (.matching others) = source.next state (.matching accepts)

/-- The same setting with another table. -/
def Setting.over {σ : Type} (setting : Setting σ) (table : Table) : Setting σ :=
  { setting with table }

/-- What the entry offers keeps its names. -/
def Entry.Keeps (name : String -> String) (entry : Entry) : Prop :=
  forall token, token ∈ entry.offered -> name token.name = token.name

theorem Entry.keeps_leaf {name : String -> String} {token : Token}
    (kept : name token.name = token.name) : Entry.Keeps name (.leaf token) :=
  fun _ member => List.mem_singleton.mp member ▸ kept

variable {σ : Type} {name : String -> String} {states : Nat -> Nat -> Prop}

/-- The machine stands like the first one under other names. -/
structure Machine.Alike (name : String -> String) (states : Nat -> Nat -> Prop)
    (machine other : Machine σ) : Prop where
  stack : List.Forall₂ (Frame.Alike name states) machine.stack other.stack
  lookahead : other.lookahead = machine.lookahead.rename name
  source : other.source = machine.source
  collections : other.collections = Collections.rename name machine.collections
  nodes : List.Forall₂ PendingNode.Alike machine.nodes other.nodes
  calls : other.calls = machine.calls

/-- Both steps come to machines that stand alike, or end in the same way. -/
inductive Progress.Alike (name : String -> String) (states : Nat -> Nat -> Prop) :
    Progress σ -> Progress σ -> Prop where
  | running (machine other : Machine σ) (alike : machine.Alike name states other) :
      Alike name states (.running machine) (.running other)
  | ended (outcome : Outcome) (machine other : Machine σ) (calls : other.calls = machine.calls)
      (nodes : List.Forall₂ PendingNode.Alike machine.nodes other.nodes) :
      Alike name states (.ended outcome machine) (.ended (outcome.rename name) other)

/-! ## Rows -/

namespace TableState.Corresponds

variable {row other : TableState} {word : String}

/-- Names that stay are accepted alike. -/
theorem accepts (corresponds : row.Corresponds name states other) (kept : name word = word) :
    other.accepts word = row.accepts word := by
  have shifts : (other.shift.get? word).isSome = (row.shift.get? word).isSome := by
    cases shifted : row.shift.get? word with
    | none =>
        have refused := corresponds.refuses word shifted
        rw [kept] at refused
        rw [refused]
    | some target =>
        rcases corresponds.shifts word target shifted with ⟨following, _, found⟩
        rw [kept] at found
        rw [found]
        rfl
  have reduces : (other.reduce.get? word).isSome = (row.reduce.get? word).isSome := by
    cases reduced : row.reduce.get? word with
    | none =>
        have nothing := corresponds.keeps word reduced
        rw [kept] at nothing
        rw [nothing]
    | some place =>
        rcases corresponds.reduces word place reduced with ⟨_, counterpart, _, found, _⟩
        rw [kept] at found
        rw [found]
        rfl
  unfold TableState.accepts NameMap.contains
  rw [shifts, reduces]

/-- In front of a name that stays, the same rule is reduced, or none. -/
theorem claims (corresponds : row.Corresponds name states other) (ends : name "" = "")
    (kept : name word = word) :
    ((row.reduce.get? word).or (row.reduce.get? "") = none ∧
      (other.reduce.get? word).or (other.reduce.get? "") = none) ∨
    Exists fun place => Exists fun counterpart => Exists fun rule =>
      (row.reduce.get? word).or (row.reduce.get? "") = some place ∧
      (other.reduce.get? word).or (other.reduce.get? "") = some counterpart ∧
      row.rules[place]? = some rule ∧ other.rules[counterpart]? = some (rule.rename name) := by
  cases own : row.reduce.get? word with
  | some place =>
      rcases corresponds.reduces word place own with ⟨rule, counterpart, atPlace, found, there⟩
      rw [kept] at found
      exact Or.inr ⟨place, counterpart, rule, rfl, by rw [found]; rfl, atPlace, there⟩
  | none =>
      have nothing := corresponds.keeps word own
      rw [kept] at nothing
      rw [nothing, Option.none_or, Option.none_or]
      cases default : row.reduce.get? "" with
      | some place =>
          rcases corresponds.reduces "" place default with ⟨rule, counterpart, atPlace, found, there⟩
          rw [ends] at found
          exact Or.inr ⟨place, counterpart, rule, rfl, found, atPlace, there⟩
      | none =>
          have nothing := corresponds.keeps "" default
          rw [ends] at nothing
          exact Or.inl ⟨rfl, nothing⟩

end TableState.Corresponds

/-! ## Steps -/

variable {setting : Setting σ} {table : Table} {machine other : Machine σ}

theorem alike_start (state : σ) : (Machine.start state).Alike name states (.start state) :=
  ⟨.nil, rfl, rfl, rfl, .nil, rfl⟩

namespace Machine.Alike

/-- A run that fails without a token too many, or accepts, does so under other names. -/
private theorem ended (alike : machine.Alike name states other) {outcome : Outcome}
    (same : outcome.rename name = outcome) :
    Progress.Alike name states (.ended outcome machine) (.ended outcome other) := by
  have ends : Progress.Alike name states (.ended outcome machine)
      (.ended (outcome.rename name) other) := .ended outcome machine other alike.calls alike.nodes
  rwa [same] at ends

theorem read (alike : machine.Alike name states other) {row counterpart : TableState}
    (corresponds : row.Corresponds name states counterpart)
    (heeds : setting.source.HeedsOnly fun word => name word = word) :
    Progress.Alike name states (setting.read machine row)
      ((setting.over table).read other counterpart) := by
  have sameReply : (setting.over table).source.next other.source (.matching counterpart.accepts) =
      setting.source.next machine.source (.matching row.accepts) := by
    rw [alike.source]
    exact heeds machine.source row.accepts counterpart.accepts fun _ kept => corresponds.accepts kept
  have sameSkip : (setting.over table).skip = setting.skip := rfl
  have lookahead := alike.lookahead
  unfold Setting.read
  rw [sameReply, sameSkip]
  rcases setting.source.next machine.source (.matching row.accepts) with ⟨answer, source⟩
  cases answer with
  | error failure =>
      cases failure with
      | lex error => exact .ended (.stopped (.failed (.lex error))) _ _ alike.calls alike.nodes
      | unclaimed => exact .ended (.stopped .unclaimed) _ _ alike.calls alike.nodes
  | ok result =>
      cases result with
      | none =>
          exact .running _ _
            ⟨alike.stack, rfl, rfl, alike.collections, alike.nodes, alike.calls⟩
      | some token =>
          dsimp only
          split
          · exact .running _ _
              ⟨alike.stack, lookahead, rfl, alike.collections, alike.nodes, alike.calls⟩
          · exact .running _ _
              ⟨alike.stack, rfl, rfl, alike.collections, alike.nodes, alike.calls⟩

theorem push (alike : machine.Alike name states other) (token : Token) {target following : Nat}
    (same : states target following) (lookahead : Lookahead) (fresh : lookahead.made = none) :
    Progress.Alike name states (machine.push token target lookahead)
      (other.push (token.rename name) following lookahead) := by
  have kept : lookahead = lookahead.rename name := by
    cases lookahead with
    | unread | ready => rfl
    | reduced => cases fresh
  exact .running _ _ ⟨.cons ⟨rfl, same⟩ alike.stack, kept, alike.source, alike.collections,
    alike.nodes, alike.calls⟩

theorem placeOf (alike : machine.Alike name states other) (setting : Setting σ) (table : Table)
    (popped : List Token) (waiting : Option Token) :
    (setting.over table).placeOf other (popped.map (Token.rename name)) waiting =
      setting.placeOf machine popped waiting := by
  have position : (setting.over table).source.position other.source =
      setting.source.position machine.source := by
    rw [alike.source]
    rfl
  unfold Setting.placeOf
  rw [List.getLast?_map, position]
  cases popped.getLast? <;> rfl

/-- Where the first run makes nodes, so does the other. -/
private theorem nodesAfter (alike : machine.Alike name states other) (table : Table)
    {rule : ReduceRule}
    (named : rule.helper = false -> name rule.nonterminal = rule.nonterminal) {popped : List Token}
    (real : forall token, token ∈ popped -> token.isSynthetic = false ->
      name token.name = token.name) {made : List PendingNode}
    (makes : setting.nodesAfter rule popped machine.nodes = .ok made) :
    Exists fun after => (setting.over table).nodesAfter (rule.rename name)
        (popped.map (Token.rename name)) other.nodes = .ok after ∧
      List.Forall₂ PendingNode.Alike made after := by
  have sameKeep : (setting.over table).keep = setting.keep := rfl
  unfold Setting.nodesAfter at makes ⊢
  rw [sameKeep]
  cases keeps : setting.keep with
  | none =>
      rw [keeps] at makes
      cases makes
      exact ⟨other.nodes, rfl, alike.nodes⟩
  | some keep =>
      rw [keeps] at makes
      have label : rule.helper = false -> (rule.rename name).reportedAs = rule.reportedAs :=
        fun isRule => congrArg rule.label.getD (named isRule)
      exact PendingNode.reduce_alike keep label real alike.nodes makes

private theorem broken_of_nodesAfter {rule : ReduceRule} {popped : List Token}
    {nodes : List PendingNode} {halt : Halt}
    (fails : setting.nodesAfter rule popped nodes = .error halt) : halt.IsBroken := by
  unfold Setting.nodesAfter at fails
  split at fails
  · exact PendingNode.broken_of_reduce fails
  · cases fails

/-- A reduction does the same under other names, if it does not end by asking for what is missing, and
if what it reports keeps its names. -/
theorem reduce (alike : machine.Alike name states other) (relabels : Relabels name)
    (root : table.root = name setting.table.root) {rule : ReduceRule}
    (named : rule.helper = false -> name rule.nonterminal = rule.nonterminal)
    (real : forall frame, frame ∈ machine.stack -> frame.token.isSynthetic = false ->
      name frame.token.name = frame.token.name)
    (reports : forall popped below collections call,
      Frame.pop rule.symbols machine.stack = .ok (popped, below) ->
      rule.reduce popped machine.collections = .ok (collections, some call) ->
      rule.helper = false ∧ call.label = rule.reportedAs ∧
        forall token, token ∈ call.tokens -> name token.name = token.name)
    {waiting : Option Token}
    (whole : forall halt last, setting.reduce machine rule waiting = .ended (.stopped halt) last ->
      ¬ halt.IsBroken) :
    Progress.Alike name states (setting.reduce machine rule waiting)
      ((setting.over table).reduce other (rule.rename name) waiting) := by
  have symbols : (rule.rename name).symbols = rule.symbols.map name := rfl
  unfold Setting.reduce at whole ⊢
  cases pops : Frame.pop rule.symbols machine.stack with
  | error halt =>
      rw [pops] at whole
      exact (whole halt machine rfl (Frame.broken_of_pop pops)).elim
  | ok parts =>
      rcases parts with ⟨popped, below⟩
      rcases Frame.pop_alike alike.stack pops with ⟨bottom, otherPops, lower⟩
      have realPopped : forall token, token ∈ popped -> token.isSynthetic = false ->
          name token.name = token.name := by
        intro token member isReal
        rcases Frame.of_pop pops with ⟨top, split, tokens, _⟩
        rw [tokens, Frame.tokensOf, List.mem_reverse] at member
        rcases List.mem_map.mp member with ⟨frame, inTop, rfl⟩
        exact real frame (split ▸ List.mem_append_left _ inTop) isReal
      have echoes := rule.reduce_rename relabels popped machine.collections
      rw [pops] at whole
      rw [symbols, otherPops, alike.collections]
      dsimp only at whole ⊢
      cases reduced : rule.reduce popped machine.collections with
      | error halt =>
          rw [reduced] at whole echoes
          generalize (rule.rename name).reduce _ _ = result at echoes ⊢
          cases echoes with
          | exceeded owner most token =>
              exact .ended (.stopped (.failed (.tooMany owner most token))) _ _ alike.calls alike.nodes
          | broken _ _ isBroken => exact (whole halt machine rfl isBroken).elim
      | ok effects =>
          rcases effects with ⟨collections, call⟩
          rw [reduced] at whole echoes
          generalize (rule.rename name).reduce _ _ = result at echoes ⊢
          cases echoes with
          | done _ _ related =>
            subst related
            have kept : call.map (Call.rename name (rule.rename name).reportedAs) = call := by
              cases call with
              | none => rfl
              | some call =>
                  rcases reports popped below collections call pops reduced with
                    ⟨isRule, label, tokens⟩
                  have sameLabel : (rule.rename name).reportedAs = call.label :=
                    (congrArg rule.label.getD (named isRule)).trans label.symm
                  rw [Option.map_some, Call.rename, sameLabel, Token.map_rename_eq tokens]
            dsimp only at whole ⊢
            rw [kept]
            cases makes : setting.nodesAfter rule popped machine.nodes with
            | error halt =>
                rw [makes] at whole
                exact (whole halt _ rfl (broken_of_nodesAfter makes)).elim
            | ok made =>
                rcases alike.nodesAfter table named realPopped makes with
                  ⟨after, otherMakes, nodes⟩
                have calls : call.toList ++ other.calls = call.toList ++ machine.calls := by
                  rw [alike.calls]
                have accepts : (waiting.isNone ∧ bottom.isEmpty ∧
                    (rule.rename name).nonterminal = (setting.over table).table.root) ↔
                    (waiting.isNone ∧ below.isEmpty ∧ rule.nonterminal = setting.table.root) := by
                  have emptied : bottom.isEmpty = below.isEmpty := by
                    cases lower <;> rfl
                  have isRoot : (rule.rename name).nonterminal = (setting.over table).table.root ↔
                      rule.nonterminal = setting.table.root := by
                    have other : (setting.over table).table.root = name setting.table.root := root
                    rw [other]
                    exact relabels.injective.eq_iff
                  rw [emptied, isRoot]
                rw [otherMakes]
                dsimp only
                by_cases isAccepted : waiting.isNone ∧ below.isEmpty ∧
                    rule.nonterminal = setting.table.root
                · rw [if_pos isAccepted, if_pos (accepts.mpr isAccepted)]
                  exact .ended .accepted _ _ calls nodes
                · rw [if_neg isAccepted, if_neg (fun other => isAccepted (accepts.mp other))]
                  refine .running _ _ ⟨lower, ?_, alike.source, rfl, nodes, calls⟩
                  have place := alike.placeOf setting table popped waiting
                  unfold Setting.placeOf at place ⊢
                  dsimp only at place ⊢
                  rw [place]
                  rfl

end Machine.Alike

/-! ## What the first run knows -/

section Known

variable {grammar : Grammar} {plain : PlainGrammar} {heard : List Answer} {entries : List Entry}

/-- Reductions offer what keeps its names, if the rules of the author's do. -/
theorem explains_keeps
    (authors : forall draft, draft ∈ grammar.drafts -> name draft.name = draft.name) :
    Explains grammar (Entry.Keeps name) := by
  intro draft place production children kept position correct keeps leaves token member
  rcases leaves.cases with ⟨listed, rfl⟩ | ⟨_, _, groups, rfl⟩
  · rw [Entry.offered_of_none rfl, List.mem_singleton] at member
    rw [member]
    exact authors draft listed
  · rw [Entry.offered_of_some rfl] at member
    rcases List.mem_flatMap.mp member with ⟨child, inside, offered⟩
    exact keeps child inside token offered

/-- The tokens of the source on the stack keep their names. -/
theorem Standing.keeps_real
    (standing : Standing setting grammar plain (Entry.Keeps name) heard machine entries)
    {frame : Frame} (member : frame ∈ machine.stack) (real : frame.token.isSynthetic = false) :
    name frame.token.name = frame.token.name := by
  have listed : frame.token ∈ entries.map Entry.token := by
    rw [standing.tokens]
    exact List.mem_append_right _ (List.mem_map_of_mem member)
  rcases List.mem_map.mp listed with ⟨entry, inside, same⟩
  have nothing : entry.collection = none := by
    rw [← Option.not_isSome_iff_eq_none]
    intro some
    have synthetic := ((standing.fits entry inside).mp some).1
    rw [same, real] at synthetic
    cases synthetic
  refine standing.meaning entry inside frame.token ?_
  rw [Entry.offered_of_none nothing, same]
  exact List.mem_singleton_self _

/-- What a reduction reports is made for a rule of the author's, and keeps its names. -/
theorem Standing.reports_kept (grounded : Grounded grammar plain setting.table)
    (standing : Standing setting grammar plain (Entry.Keeps name) heard machine entries)
    {waiting : Option Token} (ready : machine.lookahead = .ready waiting) {row : TableState}
    (found : setting.table.states[machine.state]? = some row) {lookahead : String} {index : Nat}
    (claimed : row.reduce.get? lookahead = some index) {rule : ReduceRule}
    (atIndex : row.rules[index]? = some rule) {popped : List Token} {below : List Frame}
    {collections : Collections} {call : Call}
    (pops : Frame.pop rule.symbols machine.stack = .ok (popped, below))
    (reduced : rule.reduce popped machine.collections = .ok (collections, some call)) :
    rule.helper = false ∧ call.label = rule.reportedAs ∧
      forall token, token ∈ call.tokens -> name token.name = token.name := by
  rcases standing.due grounded ready found claimed with
    ⟨draft, place, production, children, rest, bottom, sameIndex, split, poised, results⟩
  rw [Option.some.inj (atIndex.symm.trans sameIndex)] at pops reduced ⊢
  rw [poised.pop, Except.ok.injEq, Prod.mk.injEq] at pops
  rw [standing.collections, split, Entry.heldBy_append, ← pops.1] at reduced
  rcases results with ⟨kept, leaves, comes⟩ | ⟨owner, most, token, _, refused⟩
  · rw [comes, Except.ok.injEq, Prod.mk.injEq] at reduced
    rcases leaves.cases with ⟨listed, _⟩ | ⟨_, silent, _⟩
    · have offered : call.label = production.label.getD draft.name ∧
          call.tokens = children.flatMap Entry.offered := by
        have called := reduced.2
        unfold Draft.callOf at called
        split at called
        · cases called
          exact ⟨rfl, rfl⟩
        · cases called
          exact ⟨rfl, rfl⟩
        · cases called
      refine ⟨(Grammar.helper_of_listed listed).1, offered.1, fun token member => ?_⟩
      rw [offered.2] at member
      rcases List.mem_flatMap.mp member with ⟨child, inside, offers⟩
      exact standing.meaning child
        (split ▸ List.mem_append_left _ (List.mem_reverse.mpr inside)) token offers
    · rw [silent] at reduced
      cases reduced.2
  · rw [refused] at reduced
    cases reduced

/-- A rule that is not a helper keeps its name. -/
theorem Standing.named_kept (grounded : Grounded grammar plain setting.table)
    (authors : forall draft, draft ∈ grammar.drafts -> name draft.name = draft.name)
    (standing : Standing setting grammar plain (Entry.Keeps name) heard machine entries)
    {waiting : Option Token} (ready : machine.lookahead = .ready waiting) {row : TableState}
    (found : setting.table.states[machine.state]? = some row) {lookahead : String} {index : Nat}
    (claimed : row.reduce.get? lookahead = some index) {rule : ReduceRule}
    (atIndex : row.rules[index]? = some rule) (isRule : rule.helper = false) :
    name rule.nonterminal = rule.nonterminal := by
  rcases standing.due grounded ready found claimed with
    ⟨draft, place, production, children, rest, bottom, sameIndex, _, poised, _⟩
  cases Option.some.inj (atIndex.symm.trans sameIndex)
  cases poised.correct.drafted with
  | listed _ listed => exact authors draft listed
  | helper owner _ at_ index symbol _ helperOf =>
      have isHelper : draft.helper = false := isRule
      rw [helperOf.isHelper] at isHelper
      cases isHelper

/-- No reduction asks for what is missing. -/
theorem Standing.not_broken (grounded : Grounded grammar plain setting.table)
    (authors : forall draft, draft ∈ grammar.drafts -> name draft.name = draft.name)
    (standing : Standing setting grammar plain (Entry.Keeps name) heard machine entries)
    {waiting : Option Token} (ready : machine.lookahead = .ready waiting) {row : TableState}
    (found : setting.table.states[machine.state]? = some row) {lookahead : String} {index : Nat}
    (claimed : row.reduce.get? lookahead = some index) {rule : ReduceRule}
    (atIndex : row.rules[index]? = some rule) {halt : Halt} {last : Machine σ}
    (stops : setting.reduce machine rule waiting = .ended (.stopped halt) last) :
    ¬ halt.IsBroken := by
  rcases standing.reduce grounded (explains_keeps authors) ready found claimed with
    ⟨other, sameIndex, advances⟩
  cases Option.some.inj (atIndex.symm.trans sameIndex)
  rw [stops] at advances
  cases advances with
  | ended _ _ ends =>
      cases ends with
      | rejected _ error external =>
          cases error with
          | internal expected found => exact (external expected found rfl).elim
          | lex | unexpectedToken | unexpectedEnd | repetitionLimit => exact id
      | brokenOff => exact id

/-! ## Runs -/

namespace Machine.Alike

variable (grounded : Grounded grammar plain setting.table)
  (authors : forall draft, draft ∈ grammar.drafts -> name draft.name = draft.name)
  (relabels : Relabels name) (same : setting.table.Corresponds name states table)
  (heeds : setting.source.HeedsOnly fun word => name word = word)

include grounded authors relabels same

theorem reduceFor (standing : Standing setting grammar plain (Entry.Keeps name) heard machine entries)
    (alike : machine.Alike name states other) {waiting : Option Token}
    (ready : machine.lookahead = .ready waiting) {row counterpart : TableState}
    (found : setting.table.states[machine.state]? = some row)
    (corresponds : row.Corresponds name states counterpart) :
    Progress.Alike name states (setting.reduceFor machine row waiting)
      ((setting.over table).reduceFor other counterpart waiting) := by
  have kept : name ((waiting.map (·.name)).getD "") = (waiting.map (·.name)).getD "" := by
    cases waiting with
    | none => exact relabels.ends
    | some token =>
        have offered := (standing.waiting token (by rw [ready]; rfl)).2
        exact offered token (List.mem_singleton_self _)
  unfold Setting.reduceFor
  dsimp only
  rcases corresponds.claims relabels.ends kept with
    ⟨nothing, otherNothing⟩ | ⟨place, counterpartPlace, rule, claimed, otherClaimed, named, otherNamed⟩
  · rw [nothing, otherNothing]
    have rejection : (setting.over table).rejection other waiting =
        setting.rejection machine waiting := by
      unfold Setting.rejection
      rw [alike.source]
      rfl
    dsimp only
    rw [rejection]
    refine alike.ended ?_
    cases waiting <;> rfl
  · rw [claimed, otherClaimed]
    dsimp only
    rw [named, otherNamed]
    dsimp only
    have either : Exists fun lookahead => row.reduce.get? lookahead = some place := by
      rcases Option.or_eq_some_iff.mp claimed with own | ⟨_, default⟩
      · exact ⟨_, own⟩
      · exact ⟨_, default⟩
    rcases either with ⟨lookahead, isClaimed⟩
    exact alike.reduce relabels same.root
      (standing.named_kept grounded authors ready found isClaimed named)
      (fun frame member => standing.keeps_real member)
      (fun _ _ _ _ => standing.reports_kept grounded ready found isClaimed named)
      fun _ _ => standing.not_broken grounded authors ready found isClaimed named

include heeds

/-- Both runs take the same step. -/
theorem step (standing : Standing setting grammar plain (Entry.Keeps name) heard machine entries)
    (alike : machine.Alike name states other) :
    Progress.Alike name states (setting.step machine) ((setting.over table).step other) := by
  have related := stateOf_alike same.start alike.stack
  rw [← state_eq, ← state_eq] at related
  rcases same.rows _ _ related with ⟨row, counterpart, found, otherFound, corresponds⟩
  have otherFound : (setting.over table).table.states[other.state]? = some counterpart := otherFound
  have lookahead := alike.lookahead
  unfold Setting.step
  rw [found, otherFound, lookahead]
  dsimp only
  cases ahead : machine.lookahead with
  | unread => exact alike.read corresponds heeds
  | ready waiting =>
      cases waiting with
      | none => exact alike.reduceFor grounded authors relabels same standing ahead found corresponds
      | some token =>
          rcases standing.waiting token (by rw [ahead]; rfl) with ⟨real, offered⟩
          have kept : name token.name = token.name := offered token (List.mem_singleton_self _)
          dsimp only [Lookahead.rename]
          cases shifted : row.shift.get? token.name with
          | some target =>
              rcases corresponds.shifts _ target shifted with ⟨following, after, otherShifted⟩
              rw [kept] at otherShifted
              rw [otherShifted]
              have pushes := alike.push token after .unread rfl
              rwa [Token.rename_eq kept] at pushes
          | none =>
              have refused := corresponds.refuses _ shifted
              rw [kept] at refused
              rw [refused, real, if_neg Bool.false_ne_true, if_neg Bool.false_ne_true]
              exact alike.reduceFor grounded authors relabels same standing ahead found corresponds
  | reduced nonterminal waiting =>
      dsimp only [Lookahead.rename]
      have sameName : (nonterminal.rename name).name = name nonterminal.name := rfl
      rw [sameName]
      cases shifted : row.shift.get? nonterminal.name with
      | some target =>
          rcases corresponds.shifts _ target shifted with ⟨following, after, otherShifted⟩
          rw [otherShifted]
          exact alike.push nonterminal after (.ready waiting) rfl
      | none =>
          rw [corresponds.refuses _ shifted]
          have rejection : (setting.over table).rejection other waiting =
              setting.rejection machine waiting := by
            unfold Setting.rejection
            rw [alike.source]
            rfl
          dsimp only
          rw [rejection]
          refine alike.ended ?_
          cases waiting <;> rfl

/-- So both runs end in the same way, with the same reports, and with nodes that make the same
trees. -/
theorem run (limit : Nat)
    (standing : Standing setting grammar plain (Entry.Keeps name) heard machine entries)
    (alike : machine.Alike name states other)
    (offers : forall token, .ok (some token) ∈ setting.answers limit machine ->
      token.name ∉ setting.skip -> token.isSynthetic = false ∧ name token.name = token.name) :
    ((setting.over table).run limit other).1 = (setting.run limit machine).1.rename name ∧
    ((setting.over table).run limit other).2.calls = (setting.run limit machine).2.calls ∧
    List.Forall₂ PendingNode.Alike (setting.run limit machine).2.nodes
      ((setting.over table).run limit other).2.nodes := by
  induction limit generalizing heard machine other entries with
  | zero => exact ⟨rfl, alike.calls, alike.nodes⟩
  | succ limit inductionHypothesis =>
      rw [Setting.answers] at offers
      have advances := standing.step grounded (explains_keeps authors) fun token asked kept =>
        And.imp_right Entry.keeps_leaf (offers token
          (List.mem_append_left _ (by rw [asked]; exact List.mem_singleton_self _)) kept)
      have steps := alike.step grounded authors relabels same heeds standing
      rw [Setting.run, Setting.run]
      generalize setting.step machine = first at steps advances offers ⊢
      generalize (setting.over table).step other = second at steps ⊢
      cases steps with
      | ended outcome last otherLast calls nodes => exact ⟨rfl, calls, nodes⟩
      | running next otherNext after =>
          cases advances with
          | running _ entries later =>
              exact inductionHypothesis later after fun token asked =>
                offers token (List.mem_append_right _ asked)

end Machine.Alike

end Known

end ShiftReduce
