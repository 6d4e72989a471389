import ShiftReduce.Proofs.Parse.Standing
import ShiftReduce.Proofs.Table.Regrowth

namespace ShiftReduce

/-!
# No group is made of nothing

A repetition never grows by a group that offers no tokens, whatever its body is.  If it did, the state
behind the repetition would be reached a second time with the same lookahead.  But all that has been
pushed since the last token was read is known: it is there because of the lookahead.  It begins with a
production of nothing that is complete on the lookahead, and so something in the state behind the
repetition opens with it.  The table would then have led to a state that shifts the lookahead, and the
repetition would have stayed on the stack.

So when a repetition has a group too many, the token that is blamed is one of the group.
-/

variable {σ : Type} {setting : Setting σ} {grammar : Grammar} {plain : PlainGrammar}
  {means : Entry -> Prop} {heard : List Answer} {machine : Machine σ} {entries : List Entry}
  {waiting : Option Token}

theorem stateOf_eq (frames : List Frame) : stateOf frames = (frames.map Frame.state).headD 0 := by
  cases frames <;> rfl

/-- Where the lookahead leads from these states, it also leads from there with the state on top. -/
def Steers (table : Table) (waiting : Option Token) (below : List Nat) (target : Nat) : Prop :=
  forall token, waiting = some token -> forall height, height ≤ below.length ->
    Leads table token.name height below -> Leads table token.name height (target :: below)

/-- A production of nothing at the front of the helper is complete in the state, on the lookahead or on
the end of the input. -/
def Founded (grammar : Grammar) (plain : PlainGrammar) (waiting : Option Token) (state : Nat)
    (name : String) : Prop :=
  Exists fun silent => Exists fun pair => Exists fun key =>
    plain.productions[silent]? = some pair ∧ pair.2.symbols = [] ∧
    grammar.Fronts name pair.1.name ∧ plain.Carries (plain.kernels state) ⟨silent, 0⟩ key ∧
    (key = (waiting.map (·.name)).getD "" ∨ key = "")

/-- What has been pushed since the last token was shifted, down to the latest entry that stands for
some token of the input. -/
inductive Pushed (grammar : Grammar) (plain : PlainGrammar) (table : Table)
    (waiting : Option Token) : List Frame -> List Entry -> Prop where
  | settled (frames : List Frame) (entries : List Entry)
      (stands : forall entry, entries.head? = some entry -> entry.word ≠ []) :
      Pushed grammar plain table waiting frames entries
  | above (frame : Frame) (frames : List Frame) (entry : Entry) (entries : List Entry)
      (empty : entry.word = [])
      (steers : Steers table waiting (frames.map Frame.state) frame.state)
      (founded : entry.offered = [] ->
        Founded grammar plain waiting (stateOf frames) entry.token.name)
      (below : Pushed grammar plain table waiting frames entries) :
      Pushed grammar plain table waiting (frame :: frames) (entry :: entries)

/-- Entries that stand for nothing have been pushed since then, one because of the other. -/
theorem Pushed.split {table : Table} {popped below : List Frame} {front rest : List Entry}
    (pushed : Pushed grammar plain table waiting (popped ++ below) (front ++ rest))
    (length : popped.length = front.length) (empty : forall entry, entry ∈ front -> entry.word = []) :
    Pushed grammar plain table waiting below rest ∧
    (forall token, waiting = some token -> forall height, height ≤ below.length ->
      Leads table token.name height (below.map Frame.state) ->
      Leads table token.name height ((popped ++ below).map Frame.state)) ∧
    forall entry, front.getLast? = some entry -> entry.offered = [] ->
      Founded grammar plain waiting (stateOf below) entry.token.name := by
  induction front generalizing popped with
  | nil =>
      cases List.eq_nil_of_length_eq_zero length
      exact ⟨pushed, fun _ _ _ _ leads => leads, fun _ impossible => by cases impossible⟩
  | cons entry front inductionHypothesis =>
      cases popped with
      | nil => cases length
      | cons frame popped =>
          cases pushed with
          | settled _ _ stands => exact (stands entry rfl (empty entry List.mem_cons_self)).elim
          | above _ _ _ _ _ steers founded pushed =>
              rcases inductionHypothesis pushed (Nat.succ.inj length)
                (fun other member => empty other (List.mem_cons_of_mem _ member)) with
                ⟨lower, leads, first⟩
              refine ⟨lower, ?_, ?_⟩
              · intro token waits height low comes
                refine steers token waits height ?_ (leads token waits height low comes)
                rw [List.length_map]
                exact low.trans (List.sublist_append_right popped below).length_le
              · intro last isLast silent
                cases front with
                | nil =>
                    cases List.eq_nil_of_length_eq_zero (Nat.succ.inj length)
                    cases isLast
                    exact founded silent
                | cons next more =>
                    rw [List.getLast?_cons_cons] at isLast
                    exact first last isLast silent

/-- What a machine has pushed since it has read a token. -/
structure Fresh (setting : Setting σ) (grammar : Grammar) (plain : PlainGrammar)
    (machine : Machine σ) (entries : List Entry) : Prop where
  unread : machine.lookahead = .unread ->
    forall entry, entries.head? = some entry -> entry.word ≠ []
  ready : forall waiting, machine.lookahead = .ready waiting ->
    Pushed grammar plain setting.table waiting machine.stack entries
  reduced : forall nonterminal waiting, machine.lookahead = .reduced nonterminal waiting ->
    forall entry rest, entries = entry :: rest -> entry.word = [] ->
      Pushed grammar plain setting.table waiting machine.stack rest ∧
      (entry.offered = [] -> Founded grammar plain waiting machine.state entry.token.name) ∧
      forall row target, setting.table.states[machine.state]? = some row ->
        row.shift.get? nonterminal.name = some target ->
        Steers setting.table waiting (machine.stack.map Frame.state) target

/-- An entry that offers nothing stands for nothing. -/
def Entry.Bare (entry : Entry) : Prop := entry.offered = [] -> entry.word = []

/-! ## Reductions -/

/-- The row has the reduction at that index for the lookahead, and does not shift it. -/
structure Elects (setting : Setting σ) (machine : Machine σ) (waiting : Option Token)
    (row : TableState) (key : String) (index : Nat) : Prop where
  found : setting.table.states[machine.state]? = some row
  claimed : row.reduce.get? key = some index
  idle : forall token, waiting = some token -> row.shift.get? token.name = none
  key : key = (waiting.map (·.name)).getD "" ∨
    key = "" ∧ row.reduce.get? ((waiting.map (·.name)).getD "") = none

variable {draft : Draft} {place : Nat} {production : Production} {children rest : List Entry}
  {below : List Frame} {row : TableState} {key : String} {index : Nat}

/-- Where the lookahead leads from the stack, it leads over the reduction. -/
theorem Elects.leads (elects : Elects setting machine waiting row key index) {token : Token}
    (waits : waiting = some token) {rule : ReduceRule} (named : row.rules[index]? = some rule)
    {popped : List Frame} (stack : machine.stack = popped ++ below)
    (length : popped.length = rule.symbols.length) {height : Nat}
    (leads : Leads setting.table token.name height (machine.stack.map Frame.state)) :
    height ≤ below.length ∧ Exists fun under => Exists fun target =>
      setting.table.states[stateOf below]? = some under ∧
      under.shift.get? rule.nonterminal = some target ∧
      Leads setting.table token.name height (target :: below.map Frame.state) := by
  have found := elects.found
  rw [state_eq, stateOf_eq] at found
  have isKey : (waiting.map (·.name)).getD "" = token.name := by
    rw [waits]
    rfl
  rcases leads.claimed found (elects.idle token waits) with ⟨other, otherClaimed⟩
  have same : key = token.name := by
    rcases elects.key with own | ⟨_, nothing⟩
    · exact own.trans isKey
    · rw [isKey, otherClaimed] at nothing
      cases nothing
  rw [stack, List.map_append] at leads found
  have after := leads.reduced found (elects.idle token waits) (same ▸ elects.claimed) named
    ((List.length_map _).trans length)
  rwa [List.length_map, ← stateOf_eq] at after

/-- The reduction is that of a production that is complete on the lookahead, or on the end of the
input. -/
theorem Elects.numbered (allots : Allots plain setting.table plain.kernels)
    (elects : Elects setting machine waiting row key index)
    (named : row.rules[index]? = some (draft.ruleOf place production)) :
    Exists fun number => Exists fun pair => plain.productions[number]? = some pair ∧
      pair.1.name = draft.name ∧
      pair.2.symbols = Draft.plainNames draft.name place 0 production.symbols ∧
      plain.Carries (plain.kernels machine.state) ⟨number, pair.2.symbols.length⟩ key := by
  rcases allots.reduces _ row key index elects.found elects.claimed with
    ⟨number, pair, known, other, carries⟩
  have same := Option.some.inj (other.symm.trans named)
  exact ⟨number, pair, known, congrArg ReduceRule.nonterminal same,
    congrArg ReduceRule.symbols same, carries⟩

/-- What offers nothing is a helper. -/
theorem Draft.Children.isHelper
    (correct : draft.Children grammar place production children) {entry : Entry}
    (member : entry ∈ children) (silent : entry.offered = []) :
    grammar.IsHelper entry.token.name := by
  have some : entry.collection.isSome = true := by
    cases known : entry.collection with
    | none =>
        rw [Entry.offered_of_none known] at silent
        cases silent
    | some collection => rfl
  exact ((correct.fits entry member).mp some).2

/-- The frames of the children are on top of the stack, one for each symbol. -/
theorem Poised.popped
    (poised : Poised setting grammar plain machine draft place production children rest below) :
    Exists fun popped => machine.stack = popped ++ below ∧ popped.length = children.length ∧
      popped.length = (draft.ruleOf place production).symbols.length := by
  rcases poised.stack with ⟨popped, stack, tokens⟩
  have lengths := congrArg List.length tokens
  have names := congrArg List.length poised.correct.names
  rw [Frame.tokensOf, List.length_reverse, List.length_map, List.length_map] at lengths
  rw [List.length_map] at names
  exact ⟨popped, stack, lengths, lengths.trans names⟩

/-- A helper that is made and offers nothing has begun with a production of nothing. -/
theorem founded_of_elects (apart : grammar.HelpersApart) (made : grammar.toPlain = .ok plain)
    (allots : Allots plain setting.table plain.kernels)
    (elects : Elects setting machine waiting row key index)
    (named : row.rules[index]? = some (draft.ruleOf place production))
    (poised : Poised setting grammar plain machine draft place production children rest below)
    (silent : children.flatMap Entry.offered = [])
    (first : forall entry, children.head? = some entry -> entry.offered = [] ->
      Founded grammar plain waiting (stateOf below) entry.token.name) :
    Founded grammar plain waiting (stateOf below) draft.name := by
  have names := poised.correct.names
  cases children with
  | nil =>
      rcases elects.numbered allots named with ⟨number, pair, known, name, symbols, carries⟩
      rcases poised.popped with ⟨popped, stack, length, _⟩
      cases List.eq_nil_of_length_eq_zero length
      have nothing : pair.2.symbols = [] := symbols.trans names.symm
      have state : machine.state = stateOf below := by
        rw [state_eq, stack]
        rfl
      rw [nothing, state] at carries
      refine ⟨number, pair, key, known, nothing, ?_, carries,
        elects.key.imp_right fun default => default.1⟩
      rw [name]
      exact Relation.ReflTransGen.refl
  | cons entry others =>
      rw [List.flatMap_cons, List.append_eq_nil_iff] at silent
      have isHelper := poised.correct.isHelper List.mem_cons_self silent.1
      rcases first entry rfl silent.1 with
        ⟨number, pair, lookahead, known, nothing, fronts, carries, isKey⟩
      refine ⟨number, pair, lookahead, known, nothing, ?_, carries, isKey⟩
      have atFront : (Draft.plainNames draft.name place 0 production.symbols)[0]? =
          some entry.token.name := by
        rw [← names]
        rfl
      rcases Grammar.helper_at apart made poised.correct.drafted poised.correct.found atFront
        isHelper with ⟨_, operator⟩ | ⟨_, own⟩
      · exact Relation.ReflTransGen.head ⟨isHelper, place, operator⟩ fronts
      · exact own ▸ fronts

/-- What a reduction leaves has been pushed because of the lookahead, if it stands for nothing. -/
theorem fresh_of_elects (apart : grammar.HelpersApart) (made : grammar.toPlain = .ok plain)
    (allots : Allots plain setting.table plain.kernels)
    (elects : Elects setting machine waiting row key index)
    (named : row.rules[index]? = some (draft.ruleOf place production))
    (poised : Poised setting grammar plain machine draft place production children rest below)
    (pushed : Pushed grammar plain setting.table waiting machine.stack (children.reverse ++ rest))
    {kept : Option Collection} (leaves : draft.Leaves grammar children production kept)
    {position : Position} {next : Machine σ} (stack : next.stack = below)
    (lookahead : next.lookahead = .reduced (.synthetic draft.name position) waiting) :
    Fresh setting grammar plain next
      (⟨.synthetic draft.name position, children.flatMap Entry.word, kept⟩ :: rest) := by
  refine ⟨?_, ?_, ?_⟩
  · intro impossible
    rw [lookahead] at impossible
    cases impossible
  · intro _ impossible
    rw [lookahead] at impossible
    cases impossible
  intro nonterminal other isReduced entry others split empty
  rw [lookahead] at isReduced
  cases isReduced
  cases split
  rcases poised.popped with ⟨popped, split, length, symbols⟩
  rw [split] at pushed
  have words : forall entry, entry ∈ children.reverse -> entry.word = [] := fun entry member =>
    List.flatMap_eq_nil_iff.mp empty entry (List.mem_reverse.mp member)
  rcases pushed.split (length.trans children.length_reverse.symm) words with ⟨lower, leads, first⟩
  rw [state_eq, stack]
  refine ⟨lower, ?_, ?_⟩
  · intro silent
    have offers : children.flatMap Entry.offered = [] := by
      rcases leaves.cases with ⟨_, rfl⟩ | ⟨_, _, groups, rfl⟩
      · rw [Entry.offered_of_none rfl] at silent
        cases silent
      · rwa [Entry.offered_of_some rfl] at silent
    refine founded_of_elects apart made allots elects named poised offers fun entry isFirst =>
      first entry ?_
    rw [List.getLast?_reverse]
    exact isFirst
  · intro under target found follows token waits height low comes
    rw [List.length_map] at low
    have above := leads token waits height low comes
    rw [← split] at above
    rcases elects.leads waits named split symbols above with
      ⟨_, other, goal, otherFound, otherFollows, after⟩
    rw [Option.some.inj (otherFound.symm.trans found)] at otherFollows
    rw [Option.some.inj (otherFollows.symm.trans follows)] at after
    exact after

/-- Where an operator behind a repetition has begun with a production of nothing, the lookahead leads to
a state that shifts it, and the repetition stays on the stack. -/
theorem leads_of_founded (grounded : Grounded grammar plain setting.table)
    (allots : Allots plain setting.table plain.kernels)
    (regrows : grammar.Regrows draft place production) {frames : List Frame}
    (stacked : Stacked plain setting.table plain.kernels frames)
    (founded : Founded grammar plain waiting (stateOf frames)
      (Draft.helperName draft.name place 1)) :
    Exists fun token => waiting = some token ∧
      Leads setting.table token.name frames.length (frames.map Frame.state) := by
  rcases founded with ⟨number, pair, lookahead, known, nothing, fronts, carries, isKey⟩
  have inside := stacked.inside grounded.drives
  rcases regrows.opens grounded.apart grounded.made allots inside known nothing fronts carries with
    ⟨core, listed, opens⟩
  have isWaiting := isKey.resolve_right opens.ne_empty
  cases waiting with
  | none => exact (opens.ne_empty isWaiting).elim
  | some token =>
      have isToken : lookahead = token.name := isWaiting
      rw [isToken] at opens
      rw [stateOf_eq] at inside listed
      exact ⟨token, rfl, leads_of_opens grounded.drives allots opens (List.length_map _).ge inside
        listed rfl⟩

/-- A repetition does not grow by a group that offers nothing. -/
theorem offers_of_grows (grounded : Grounded grammar plain setting.table)
    (allots : Allots plain setting.table plain.kernels)
    (stacked : Stacked plain setting.table plain.kernels machine.stack)
    (elects : Elects setting machine waiting row key index)
    (named : row.rules[index]? = some (draft.ruleOf place production)) {first : Entry}
    {others : List Entry}
    (poised : Poised setting grammar plain machine draft place production (first :: others) rest below)
    (pushed : Pushed grammar plain setting.table waiting machine.stack
      ((first :: others).reverse ++ rest))
    (bare : forall entry, entry ∈ others -> entry.Bare) (isHelper : draft.helper = true)
    {body : List Symbol} (notEmpty : body ≠ [])
    (grows : production.symbols = .name draft.name :: body) :
    others.flatMap Entry.offered ≠ [] := by
  intro offers
  have silent := List.flatMap_eq_nil_iff.mp offers
  have names := poised.correct.names
  rcases poised.popped with ⟨popped, stack, length, symbols⟩
  cases others with
  | nil =>
      have lengths := congrArg List.length names
      rw [grows, Draft.length_plainNames] at lengths
      exact notEmpty (List.eq_nil_of_length_eq_zero (Nat.succ.inj lengths).symm)
  | cons second more =>
      have inside : second ∈ second :: more := List.mem_cons_self
      have isOperator := poised.correct.isHelper (List.mem_cons_of_mem _ inside) (silent second inside)
      have atOne : (Draft.plainNames draft.name place 0 production.symbols)[1]? =
          some second.token.name := by
        rw [← names]
        rfl
      rcases Grammar.helper_at grounded.apart grounded.made poised.correct.drafted
        poised.correct.found atOne isOperator with ⟨_, operator⟩ | ⟨impossible, _⟩
      · -- The frame of the repetition is below all that has been pushed for the group.
        rcases List.eq_nil_or_concat popped with rfl | ⟨upper, lowest, rfl⟩
        · cases length
        have split : machine.stack = upper ++ lowest :: below := by
          rw [stack, List.concat_append]
        have regroup : (first :: second :: more).reverse ++ rest =
            (second :: more).reverse ++ first :: rest := by
          rw [List.reverse_cons, List.append_assoc]
          rfl
        have upperLength : upper.length = (second :: more).reverse.length := by
          rw [List.length_concat, List.length_cons] at length
          rw [List.length_reverse]
          exact Nat.succ.inj length
        rw [split, regroup] at pushed
        rw [split] at stacked
        rcases pushed.split upperLength (fun entry member => bare entry (List.mem_reverse.mp member)
          (silent entry (List.mem_reverse.mp member))) with ⟨_, leads, founded⟩
        have begun := founded second (List.getLast?_reverse ▸ rfl) (silent second inside)
        rw [operator] at begun isOperator
        have regrows : grammar.Regrows draft place production :=
          ⟨poised.correct.drafted, isHelper, poised.correct.found, by rw [grows]; rfl, isOperator⟩
        rcases leads_of_founded grounded allots regrows stacked.of_append begun with
          ⟨token, waits, comes⟩
        have above := leads token waits _ (Nat.le_refl _) comes
        rw [← split] at above
        have kept := (elects.leads waits named stack symbols above).1
        exact Nat.not_succ_le_self _ kept
      · cases impossible

/-- So a token that is one too many is offered by the group that it is blamed for. -/
theorem offers_of_refuses (grounded : Grounded grammar plain setting.table)
    (allots : Allots plain setting.table plain.kernels)
    (stacked : Stacked plain setting.table plain.kernels machine.stack)
    (elects : Elects setting machine waiting row key index)
    (named : row.rules[index]? = some (draft.ruleOf place production))
    (poised : Poised setting grammar plain machine draft place production children rest below)
    (pushed : Pushed grammar plain setting.table waiting machine.stack (children.reverse ++ rest))
    (bare : forall entry, entry ∈ children -> entry.Bare) {token : Token}
    (refuses : draft.Refuses production children token) :
    Exists fun entry => entry ∈ children ∧ token ∈ entry.offered := by
  rcases refuses.blamed with ⟨first, others, rfl, rfl⟩
  rcases refuses.grows with ⟨body, notEmpty, grows⟩
  have offers := offers_of_grows grounded allots stacked elects named poised pushed
    (fun entry member => bare entry (List.mem_cons_of_mem _ member)) refuses.isHelper notEmpty grows
  cases blamed : others.flatMap Entry.offered with
  | nil => exact (offers blamed).elim
  | cons token more =>
      have member : token ∈ others.flatMap Entry.offered := blamed ▸ List.mem_cons_self
      rcases List.mem_flatMap.mp member with ⟨entry, inside, offered⟩
      exact ⟨entry, List.mem_cons_of_mem _ inside, offered⟩

/-! ## Runs -/

/-- If the run ends with a token that is one too many, the token is one that some entry offers. -/
def Blames (means : Entry -> Prop) (outcome : Outcome) : Prop :=
  forall owner most word text position,
    outcome = .stopped (.failed (.repetitionLimit owner most word text position)) ->
    Exists fun entry => Exists fun token : Token =>
      means entry ∧ token ∈ entry.offered ∧ token.name = word

/-- What one step comes to. -/
inductive Proceeds (setting : Setting σ) (grammar : Grammar) (plain : PlainGrammar)
    (means : Entry -> Prop) (heard : List Answer) : Progress σ -> Prop where
  | running (machine : Machine σ) (entries : List Entry)
      (standing : Standing setting grammar plain means heard machine entries)
      (fresh : Fresh setting grammar plain machine entries) :
      Proceeds setting grammar plain means heard (.running machine)
  | ended (outcome : Outcome) (machine : Machine σ) (blames : Blames means outcome) :
      Proceeds setting grammar plain means heard (.ended outcome machine)

namespace Fresh

theorem start (state : σ) : Fresh setting grammar plain (.start state) [] :=
  ⟨fun _ _ impossible => (by cases impossible), fun _ impossible => (by cases impossible),
    fun _ _ impossible => (by cases impossible)⟩

/-- After a token has been read, nothing has been pushed yet. -/
theorem read (fresh : Fresh setting grammar plain machine entries)
    (unread : machine.lookahead = .unread) (source : σ) (waiting : Option Token) :
    Fresh setting grammar plain { machine with source, lookahead := .ready waiting } entries :=
  ⟨fun impossible => (by cases impossible), fun _ _ => .settled _ _ (fresh.unread unread),
    fun _ _ impossible => (by cases impossible)⟩

theorem skip (fresh : Fresh setting grammar plain machine entries)
    (unread : machine.lookahead = .unread) (source : σ) :
    Fresh setting grammar plain { machine with source } entries := by
  refine ⟨fresh.unread, fun waiting impossible => ?_, fun nonterminal waiting impossible => ?_⟩
  · exact Lookahead.noConfusion (unread.symm.trans impossible)
  · exact Lookahead.noConfusion (unread.symm.trans impossible)

theorem shift (token : Token) (target : Nat) :
    Fresh setting grammar plain
      { machine with stack := ⟨token, target⟩ :: machine.stack, lookahead := .unread }
      (.leaf token :: entries) :=
  ⟨fun _ _ same => Option.some.inj same ▸ List.cons_ne_nil token [],
    fun _ impossible => (by cases impossible), fun _ _ impossible => (by cases impossible)⟩

/-- The rule that was reduced is pushed on what its reduction has left. -/
theorem follow (fresh : Fresh setting grammar plain machine entries)
    (tokens : entries.map Entry.token =
      machine.lookahead.made.toList ++ machine.stack.map Frame.token) {nonterminal : Token}
    (made : machine.lookahead = .reduced nonterminal waiting)
    (found : setting.table.states[machine.state]? = some row) {target : Nat}
    (follows : row.shift.get? nonterminal.name = some target) :
    Fresh setting grammar plain
      { machine with stack := ⟨nonterminal, target⟩ :: machine.stack, lookahead := .ready waiting }
      entries := by
  refine ⟨fun impossible => (by cases impossible), ?_, fun _ _ impossible => (by cases impossible)⟩
  rintro _ ⟨⟩
  rw [made] at tokens
  cases entries with
  | nil => cases tokens
  | cons entry rest =>
      by_cases empty : entry.word = []
      · rcases fresh.reduced nonterminal waiting made entry rest rfl empty with
          ⟨pushed, founded, steers⟩
        rw [state_eq] at founded
        exact .above ⟨nonterminal, target⟩ machine.stack entry rest empty
          (steers row target found follows) founded pushed
      · refine .settled _ _ fun other same => ?_
        cases same
        exact empty

theorem reduce (grounded : Grounded grammar plain setting.table)
    (allots : Allots plain setting.table plain.kernels) (explains : Explains grammar means)
    (bare : forall entry, means entry -> entry.Bare)
    (standing : Standing setting grammar plain means heard machine entries)
    (fresh : Fresh setting grammar plain machine entries)
    (ready : machine.lookahead = .ready waiting)
    (elects : Elects setting machine waiting row key index) {rule : ReduceRule}
    (named : row.rules[index]? = some rule) :
    Proceeds setting grammar plain means heard (setting.reduce machine rule waiting) := by
  rcases standing.due grounded ready elects.found elects.claimed with
    ⟨draft, place, production, children, rest, below, same, rfl, poised, results⟩
  rw [Option.some.inj (named.symm.trans same)]
  have meaning : forall child, child ∈ children -> means child := fun child member =>
    standing.meaning child (List.mem_append_left _ (List.mem_reverse.mpr member))
  have pushed := fresh.ready waiting ready
  rcases results with ⟨kept, leaves, reduced⟩ | ⟨owner, most, token, refuses, refused⟩
  · rcases poised.reduce grounded standing ready leaves reduced (fun position =>
        explains draft place production children kept position poised.correct meaning leaves) with
      ⟨next, position, after, stack, result⟩
    rw [result]
    split
    · exact .ended _ _ fun _ _ _ _ _ impossible => by cases impossible
    · exact .running _ _ after (fresh_of_elects grounded.apart grounded.made allots elects same
        poised pushed leaves stack rfl)
  · have collections := standing.collections
    rw [Entry.heldBy_append] at collections
    unfold Setting.reduce
    rw [poised.pop]
    dsimp only
    rw [collections, refused]
    refine .ended _ _ fun _ _ _ _ _ blamed => ?_
    rcases offers_of_refuses grounded allots standing.stacked elects same poised pushed
      (fun child member => bare child (meaning child member)) refuses with ⟨entry, member, offered⟩
    cases blamed
    exact ⟨entry, token, meaning entry member, offered, rfl⟩

theorem step (grounded : Grounded grammar plain setting.table)
    (allots : Allots plain setting.table plain.kernels) (explains : Explains grammar means)
    (bare : forall entry, means entry -> entry.Bare)
    (standing : Standing setting grammar plain means heard machine entries)
    (fresh : Fresh setting grammar plain machine entries)
    (offers : forall token, setting.answer? machine = some (.ok (some token)) ->
      token.name ∉ setting.skip -> token.isSynthetic = false ∧ means (.leaf token)) :
    Proceeds setting grammar plain means (heard ++ (setting.answer? machine).toList)
      (setting.step machine) := by
  have steps := setting.steps_step machine
  generalize setting.step machine = progress at steps ⊢
  cases steps with
  | lost | interrupted | unnamed =>
      exact .ended _ _ fun _ _ _ _ _ impossible => by cases impossible
  | failed row error =>
      refine .ended _ _ fun _ _ _ _ _ impossible => ?_
      cases error <;> cases impossible
  | rejected waiting waits =>
      refine .ended _ _ fun _ _ _ _ _ impossible => ?_
      cases waiting <;> cases impossible
  | exhausted row source found unread reply =>
      rw [Setting.answer?_of_reply unread found reply]
      exact .running _ entries (standing.exhausted unread source) (fresh.read unread source none)
  | skipped row token source found unread reply skipped =>
      rw [Setting.answer?_of_reply unread found reply]
      exact .running _ entries (standing.skipped unread skipped source) (fresh.skip unread source)
  | received row token source found unread reply kept =>
      have offered := offers token (Setting.answer?_of_reply unread found reply) kept
      rw [Setting.answer?_of_reply unread found reply]
      exact .running _ entries (standing.received unread kept offered source)
        (fresh.read unread source (some token))
  | shifted row token target found ready shifts =>
      rw [answer?_of_ready ready, Option.toList_none, List.append_nil]
      exact .running _ _ (standing.shift grounded ready found shifts) (shift token target)
  | reduced row waiting name index rule found ready claimed named idle key =>
      rw [answer?_of_ready ready, Option.toList_none, List.append_nil]
      exact fresh.reduce grounded allots explains bare standing ready ⟨found, claimed, idle, key⟩
        named
  | followed row nonterminal waiting target found made shifts =>
      rw [answer?_of_reduced made, Option.toList_none, List.append_nil]
      exact .running _ _ (standing.follow grounded made found shifts)
        (fresh.follow standing.tokens made found shifts)

/-- So a whole run blames only a token of a group that is one too many. -/
theorem run (grounded : Grounded grammar plain setting.table)
    (allots : Allots plain setting.table plain.kernels) (explains : Explains grammar means)
    (bare : forall entry, means entry -> entry.Bare) (limit : Nat)
    (standing : Standing setting grammar plain means heard machine entries)
    (fresh : Fresh setting grammar plain machine entries)
    (offers : forall token, .ok (some token) ∈ setting.answers limit machine ->
      token.name ∉ setting.skip -> token.isSynthetic = false ∧ means (.leaf token)) :
    Blames means (setting.run limit machine).1 := by
  induction limit generalizing heard machine entries with
  | zero => exact fun _ _ _ _ _ impossible => by cases impossible
  | succ limit inductionHypothesis =>
      rw [Setting.answers] at offers
      rw [Setting.run]
      have proceeds := step grounded allots explains bare standing fresh fun token asked =>
        offers token (List.mem_append_left _ (by rw [asked]; exact List.mem_singleton_self _))
      generalize setting.step machine = progress at proceeds offers ⊢
      cases proceeds with
      | running next entries standing fresh =>
          exact inductionHypothesis standing fresh fun token member =>
            offers token (List.mem_append_right _ member)
      | ended outcome last blames => exact blames

end Fresh

/-! ## Compiled grammars -/

/-- What an entry offers besides is handed on together with its being bare. -/
theorem explains_bare (explains : Explains grammar means) :
    Explains grammar fun entry => entry.Bare ∧ means entry := by
  intro draft place production children kept position correct meaning leaves
  refine ⟨fun silent => ?_, explains draft place production children kept position correct
    (fun child member => (meaning child member).2) leaves⟩
  rcases leaves.cases with ⟨_, rfl⟩ | ⟨_, _, groups, rfl⟩
  · cases silent
  · have each := List.flatMap_eq_nil_iff.mp silent
    exact List.flatMap_eq_nil_iff.mpr fun child member =>
      (meaning child member).1 (each child member)

namespace Setting

/-- What all entries of a run mean holds of an entry that offers the token the run blames. -/
theorem blames_of_run (outward : grammar.EmitsOutward) (apart : grammar.HelpersApart)
    (compiled : grammar.compile = .ok setting.table) (explains : Explains grammar means) (state : σ)
    (limit : Nat) (offers : forall token, .ok (some token) ∈ setting.answers limit (.start state) ->
      token.name ∉ setting.skip -> token.isSynthetic = false ∧ means (.leaf token)) :
    Blames means (setting.run limit (.start state)).1 := by
  rcases of_bind_eq_ok compiled with ⟨plain, made, tabled⟩
  have grounded : Grounded grammar plain setting.table :=
    ⟨apart, outward, made, PlainGrammar.drives_toTable plain tabled⟩
  have blames := Fresh.run grounded (PlainGrammar.allots_toTable tabled) (explains_bare explains)
    (fun _ => And.left) limit (standing_start state) (Fresh.start state) fun token asked kept =>
      (offers token asked kept).imp_right fun leaf =>
        ⟨fun silent => (List.cons_ne_nil token [] silent).elim, leaf⟩
  intro owner most word text position ended
  rcases blames owner most word text position ended with ⟨entry, token, meaning, others⟩
  exact ⟨entry, token, meaning.2, others⟩

/-- A token that is one too many is one that the source has given or a rule of the author's, and never
a helper. -/
theorem helper_not_blamed (outward : grammar.EmitsOutward) (apart : grammar.HelpersApart)
    (compiled : grammar.compile = .ok setting.table) (state : σ) (limit : Nat)
    (offers : forall token, .ok (some token) ∈ setting.answers limit (.start state) ->
      token.name ∉ setting.skip -> token.isSynthetic = false ∧ ¬ grammar.IsHelper token.name)
    {owner word : String} {most : Nat} {text : String} {position : Position}
    (ended : (setting.run limit (.start state)).1 =
      .stopped (.failed (.repetitionLimit owner most word text position))) :
    ¬ grammar.IsHelper word := by
  rcases of_bind_eq_ok compiled with ⟨plain, made, _⟩
  have explains : Explains grammar fun entry => forall token, token ∈ entry.offered ->
      ¬ grammar.IsHelper token.name := by
    intro draft place production children kept position correct keeps leaves token member
    rcases leaves.cases with ⟨listed, rfl⟩ | ⟨_, _, groups, rfl⟩
    · rw [Entry.offered_of_none rfl, List.mem_singleton] at member
      rw [member]
      exact Grammar.not_helper_of_mem_names apart made (Grammar.helper_of_listed listed).2
    · rw [Entry.offered_of_some rfl] at member
      rcases List.mem_flatMap.mp member with ⟨child, inside, offered⟩
      exact keeps child inside token offered
  have leaf : forall token : Token, ¬ grammar.IsHelper token.name ->
      forall other, other ∈ (Entry.leaf token).offered -> ¬ grammar.IsHelper other.name :=
    fun token outside other member => List.mem_singleton.mp member ▸ outside
  rcases blames_of_run outward apart compiled explains state limit
    (fun token asked kept => (offers token asked kept).imp_right (leaf token)) _ _ _ _ _ ended with
    ⟨entry, token, meaning, offered, rfl⟩
  exact meaning token offered

end Setting

end ShiftReduce
