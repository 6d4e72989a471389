import ShiftReduce.Proofs.Parse.Leaves
import ShiftReduce.Proofs.Parse.Limits

namespace ShiftReduce

/-!
# The places that errors name

An error names a place in the text and says what is found there.  A source counts its places itself
while it reads.  A rule that has been reduced is given a place that is known already: that of its last
token, of the lookahead, or of the end of the input.  The token that an error names can be any of these,
and it can have waited on the stack or in a collection before.

So every step keeps that whatever a machine holds stands in the text where its position says, and an
error takes its place from there.  Nothing is asked of the table, and of the source only that its own
answers are true.
-/

variable {text piece : List Char}

/-! ## What is found at a place -/

/-- The place is where its offset is in the text, and from there on the text begins with the piece. -/
structure Position.Shows (place : Position) (text piece : List Char) : Prop where
  located : place = locate text place.offset
  begins : Exists fun rest => Text.dropBytes? text place.offset = some (piece ++ rest)

namespace Position

/-- A place that is reached over a text shows what comes next. -/
theorem shows_advance {before rest : List Char} (divided : text = before ++ (piece ++ rest)) :
    (start.advance before).Shows text piece := by
  subst divided
  refine ⟨(locate_advance before (piece ++ rest)).symm, rest, ?_⟩
  rw [offset_advance_start]
  exact Text.dropBytes?_eq_some_iff.mpr ⟨before, rfl, rfl⟩

theorem Shows.nothing {place : Position} (here : place.Shows text piece) : place.Shows text [] := by
  rcases here with ⟨located, rest, begins⟩
  exact ⟨located, piece ++ rest, begins⟩

end Position

/-- The text has the token's text at the token's position. A synthetic token has the empty text. -/
def Token.StandsIn (token : Token) (text : List Char) : Prop :=
  token.position.Shows text token.textOrEmpty.toList

theorem Token.standsIn_synthetic {place : Position} (here : place.Shows text []) (name : String) :
    (Token.synthetic name place).StandsIn text :=
  here

/-- What the error says about its place is true: there is that character or text, or the end. -/
def ParseError.TrueOf (text : List Char) : ParseError -> Prop
  | .lex error => error.position.Shows text [error.character]
  | .unexpectedToken _ piece place => place.Shows text piece.toList
  | .unexpectedEnd place => place.Shows text [] ∧ place.offset = Text.byteSize text
  | .repetitionLimit _ _ _ piece place => place.Shows text piece.toList
  | .internal .. => True

/-- The place of such an error is the one that its offset has in the text. -/
theorem ParseError.TrueOf.located {error : ParseError} (isTrue : error.TrueOf text) {place : Position}
    (named : error.position? = some place) : place = Position.locate text place.offset := by
  cases error with
  | lex error | unexpectedToken _ _ place | repetitionLimit _ _ _ _ place =>
      cases named
      exact Position.Shows.located isTrue
  | unexpectedEnd place =>
      cases named
      exact isTrue.1.located
  | internal => cases named

/-- The error that ends a run, if there is one, is true. -/
def Halt.TrueOf (text : List Char) : Halt -> Prop
  | .failed error => error.TrueOf text
  | .outOfRange => True
  | .unclaimed => True

/-- The error that a run has come to, if there is one, is true. -/
def Outcome.TrueOf (text : List Char) : Outcome -> Prop
  | .stopped halt => halt.TrueOf text
  | _ => True

theorem Halt.IsInternal.trueOf {halt : Halt} (internal : halt.IsInternal) : halt.TrueOf text := by
  rcases internal with ⟨_, _, rfl⟩
  exact trivial

/-! ## What collections hold -/

namespace Collections

variable {holds : Token -> Prop} {collections : Collections} {name : String}

/-- Every token that waits in a collection is such. -/
def All (holds : Token -> Prop) (collections : Collections) : Prop :=
  forall entry, entry ∈ collections -> forall token, token ∈ entry.2.tokens -> holds token

theorem all_cons {entry : String × Collection} : All holds (entry :: collections) ↔
    (forall token, token ∈ entry.2.tokens -> holds token) ∧ All holds collections :=
  List.forall_mem_cons

theorem All.of_top? (all : collections.All holds) {collection : Collection}
    (found : collections.top? name = some collection) (token : Token)
    (member : token ∈ collection.tokens) : holds token :=
  all (name, collection) (mem_of_lookup found) token member

theorem All.drop (all : collections.All holds) : (collections.drop name).All holds := by
  induction collections with
  | nil => exact all
  | cons entry rest inductionHypothesis =>
      rcases all_cons.mp all with ⟨first, others⟩
      rw [Collections.drop]
      split
      · exact others
      · exact all_cons.mpr ⟨first, inductionHypothesis others⟩

theorem All.replace (all : collections.All holds) {collection : Collection}
    (each : forall token, token ∈ collection.tokens -> holds token) :
    (collections.replace name collection).All holds := by
  induction collections with
  | nil => exact all
  | cons entry rest inductionHypothesis =>
      rcases all_cons.mp all with ⟨first, others⟩
      rw [Collections.replace]
      split
      · exact all_cons.mpr ⟨each, others⟩
      · exact all_cons.mpr ⟨first, inductionHypothesis others⟩

/-- Splicing moves tokens out of collections and brings in no others. -/
theorem All.splice (all : collections.All holds) {children : List Token}
    (each : forall token, token ∈ children -> holds token) (reducing : String) :
    (forall token, token ∈ (splice reducing children collections).1 -> holds token) ∧
      (splice reducing children collections).2.All holds := by
  induction children generalizing collections with
  | nil => exact ⟨each, all⟩
  | cons child rest inductionHypothesis =>
      rcases List.forall_mem_cons.mp each with ⟨first, others⟩
      rw [Collections.splice]
      split
      next collection taken =>
        have found : collections.top? child.name = some collection := by
          split at taken
          · exact taken
          · cases taken
        rcases inductionHypothesis all.drop others with ⟨merged, left⟩
        exact ⟨List.forall_mem_append.mpr ⟨all.of_top? found, merged⟩, left⟩
      next =>
        rcases inductionHypothesis all others with ⟨merged, left⟩
        exact ⟨List.forall_mem_cons.mpr ⟨first, merged⟩, left⟩

/-- Gathering puts children into a collection and brings in no others. -/
theorem All.gather (all : collections.All holds) {popped children : List Token}
    (each : forall token, token ∈ children -> holds token) {collector : String} {max group : Nat}
    {after : Collections}
    (gathered : gather collector max group popped children collections = .ok after) :
    after.All holds := by
  unfold Collections.gather at gathered
  extract_lets recursive size at gathered
  split at gathered
  · cases gathered
    exact all_cons.mpr ⟨each, all⟩
  · split at gathered
    · cases gathered
    next known found =>
      extract_lets groups at gathered
      split at gathered
      · cases gathered
      next first added =>
        split at gathered
        · cases gathered
        · cases gathered
          refine all.replace (List.forall_mem_append.mpr ⟨all.of_top? found, ?_⟩)
          exact fun token member => each token (List.mem_cons_of_mem _ member)

end Collections

namespace ReduceRule

variable {rule : ReduceRule} {popped children : List Token} {emit : Emit} {collections : Collections}

/-- An effect leaves nothing in the collections that was not there or among the children. -/
theorem all_of_effect {holds : Token -> Prop} (all : collections.All holds)
    (each : forall token, token ∈ children -> holds token) {after : Collections}
    {call : Option Call} (taken : rule.effect popped emit children collections = .ok (after, call)) :
    after.All holds := by
  induction emit generalizing children collections with
  | none | report | callback =>
      cases taken
      exact all
  | choice collector =>
      cases taken
      exact Collections.all_cons.mpr ⟨each, all⟩
  | repetition collector max group =>
      rcases of_bind_eq_ok taken with ⟨gathered, made, same⟩
      cases same
      exact all.gather each made
  | merge inner inductionHypothesis =>
      rw [effect] at taken
      rcases all.splice each rule.nonterminal with ⟨merged, left⟩
      exact inductionHypothesis left merged taken

/-- The token that is one too many is among the children, or has been gathered before. -/
theorem trueOf_of_effect (all : collections.All (·.StandsIn text))
    (each : forall token, token ∈ children -> token.StandsIn text) {halt : Halt}
    (failed : rule.effect popped emit children collections = .error halt) : halt.TrueOf text := by
  induction emit generalizing children collections with
  | none | report | callback | choice => cases failed
  | repetition collector max group =>
      rcases of_bind_eq_error failed with failed | ⟨_, _, impossible⟩
      · cases Collections.gather_eq_error failed with
        | uncollected _ internal => exact internal.trueOf
        | childless => exact trivial
        | exceeding culprit _ among => exact each culprit among
      · cases impossible
  | merge inner inductionHypothesis =>
      rw [effect] at failed
      rcases all.splice each rule.nonterminal with ⟨merged, left⟩
      exact inductionHypothesis left merged failed

end ReduceRule

/-! ## Steps -/

variable {σ : Type} {stands : σ -> Prop}

/-- The source reads the text: as long as it stands somewhere in the text, its place and its answers are
true of the text, and it goes on to stand there. -/
structure TokenSource.Reads (source : TokenSource σ) (text : List Char) (stands : σ -> Prop) :
    Prop where
  place : forall {state}, stands state -> (source.position state).Shows text []
  token : forall {state preference token next}, stands state ->
    source.next state preference = (.ok (some token), next) ->
    stands next ∧ token.isSynthetic = false ∧ token.StandsIn text
  ended : forall {state preference next}, stands state ->
    source.next state preference = (.ok none, next) ->
    stands next ∧ (source.position next).offset = Text.byteSize text
  failed : forall {state preference error next}, stands state ->
    source.next state preference = (.error error, next) ->
    stands next ∧ error.halt.TrueOf text

/-- Whatever the machine holds stands in the text, and so does its source. What waits is a token of the
source, or the source is at the end of the text. -/
structure Machine.StandsIn (source : TokenSource σ) (text : List Char) (stands : σ -> Prop)
    (machine : Machine σ) : Prop where
  reading : stands machine.source
  stack : forall frame, frame ∈ machine.stack -> frame.token.StandsIn text
  collected : machine.collections.All (·.StandsIn text)
  made : forall token, machine.lookahead.made = some token -> token.StandsIn text
  waiting : forall token, machine.lookahead.waiting = some (some token) ->
    token.isSynthetic = false ∧ token.StandsIn text
  ended : machine.lookahead.waiting = some none ->
    (source.position machine.source).offset = Text.byteSize text

/-- What a step comes to. -/
inductive Truthful (source : TokenSource σ) (text : List Char) (stands : σ -> Prop) :
    Progress σ -> Prop where
  | running (machine : Machine σ) (holds : machine.StandsIn source text stands) :
      Truthful source text stands (.running machine)
  | ended (outcome : Outcome) (machine : Machine σ) (isTrue : outcome.TrueOf text) :
      Truthful source text stands (.ended outcome machine)

namespace Machine.StandsIn

variable {setting : Setting σ} {machine : Machine σ}

theorem start {source : TokenSource σ} {state : σ} (begun : stands state) :
    (Machine.start state).StandsIn source text stands where
  reading := begun
  stack _ listed := by cases listed
  collected _ listed := by cases listed
  made _ impossible := by cases impossible
  waiting _ impossible := by cases impossible
  ended impossible := by cases impossible

/-- A rule that is reduced stands at a place that is known already. -/
theorem placeOf (holds : machine.StandsIn setting.source text stands)
    (reads : setting.source.Reads text stands) {popped : List Token} {waiting : Option Token}
    (each : forall token, token ∈ popped -> token.StandsIn text)
    (waits : forall token, waiting = some token -> token.StandsIn text) :
    (setting.placeOf machine popped waiting).Shows text [] := by
  unfold Setting.placeOf
  split
  next _ last found => exact (each last (List.mem_of_getLast? found)).nothing
  next token _ => exact (waits token rfl).nothing
  next => exact reads.place holds.reading

/-- What is popped stands in the text, and so does what is left below. -/
theorem pop (holds : machine.StandsIn setting.source text stands) {symbols : List String}
    {popped : List Token} {below : List Frame}
    (pops : Frame.pop symbols machine.stack = .ok (popped, below)) :
    (forall token, token ∈ popped -> token.StandsIn text) ∧
      forall frame, frame ∈ below -> frame.token.StandsIn text := by
  rcases Frame.of_pop pops with ⟨top, divided, rfl, _⟩
  have onStack := holds.stack
  rw [divided] at onStack
  rcases List.forall_mem_append.mp onStack with ⟨above, under⟩
  refine ⟨fun token member => ?_, under⟩
  rw [Frame.tokensOf, List.mem_reverse] at member
  rcases List.mem_map.mp member with ⟨frame, listed, rfl⟩
  exact above frame listed

theorem reduce (holds : machine.StandsIn setting.source text stands)
    (reads : setting.source.Reads text stands) {waiting : Option Token}
    (ready : machine.lookahead = .ready waiting) (rule : ReduceRule) :
    Truthful setting.source text stands (setting.reduce machine rule waiting) := by
  unfold Setting.reduce
  split
  next halt fails => exact .ended _ _ (Frame.pop_eq_error fails).trueOf
  next popped below pops =>
    rcases holds.pop pops with ⟨each, under⟩
    have same : machine.lookahead.waiting = some waiting := by rw [ready]; rfl
    split
    next halt fails => exact .ended _ _ (ReduceRule.trueOf_of_effect holds.collected each fails)
    next collections call taken =>
      dsimp only
      split
      next halt fails => exact .ended _ _ (Setting.nodesAfter_eq_error fails).trueOf
      next nodes _ =>
        split
        · exact .ended _ _ trivial
        · refine .running _ ⟨holds.reading, under, ReduceRule.all_of_effect holds.collected each taken,
            ?_, ?_, ?_⟩
          · -- The token of the rule that has been reduced has no text, so any known place is right.
            rintro _ ⟨⟩
            exact Token.standsIn_synthetic (holds.placeOf reads each fun token waits =>
              (holds.waiting token (same.trans (congrArg some waits))).2) _
          · exact fun token waits => holds.waiting token (same.trans waits)
          · exact fun ends => holds.ended (same.trans ends)

/-- A run that can do nothing with what waits says truly what that is. -/
theorem rejection (holds : machine.StandsIn setting.source text stands)
    (reads : setting.source.Reads text stands) {waiting : Option Token}
    (waits : machine.lookahead.waiting = some waiting) :
    (setting.rejection machine waiting).TrueOf text := by
  cases waiting with
  | none => exact ⟨reads.place holds.reading, holds.ended waits⟩
  | some token => exact (holds.waiting token waits).2

/-- Each step keeps what the machine holds in its place, or ends with an error that is true. -/
theorem step (holds : machine.StandsIn setting.source text stands)
    (reads : setting.source.Reads text stands) :
    Truthful setting.source text stands (setting.step machine) := by
  have steps := setting.steps_step machine
  generalize setting.step machine = progress at steps ⊢
  cases steps with
  | lost | unnamed => exact .ended _ _ trivial
  | failed row error source found unread reply =>
      exact .ended _ _ (reads.failed holds.reading reply).2
  | exhausted row source found unread reply =>
      rcases reads.ended holds.reading reply with ⟨after, atEnd⟩
      refine .running _ ⟨after, holds.stack, holds.collected, ?_, ?_, fun _ => atEnd⟩
      · exact fun _ impossible => by cases impossible
      · exact fun _ impossible => by cases impossible
  | skipped row token source found unread reply skip =>
      rcases reads.token holds.reading reply with ⟨after, _⟩
      refine .running _ ⟨after, holds.stack, holds.collected, holds.made, holds.waiting, ?_⟩
      rw [unread]
      exact fun impossible => by cases impossible
  | received row token source found unread reply kept =>
      rcases reads.token holds.reading reply with ⟨after, given⟩
      refine .running _ ⟨after, holds.stack, holds.collected, ?_, ?_, ?_⟩
      · exact fun _ impossible => by cases impossible
      · rintro _ ⟨⟩
        exact given
      · exact fun impossible => by cases impossible
  | shifted row token target found ready shifts =>
      have given := (holds.waiting token (by rw [ready]; rfl)).2
      refine .running _ ⟨holds.reading, List.forall_mem_cons.mpr ⟨given, holds.stack⟩, holds.collected,
        ?_, ?_, ?_⟩
      · exact fun _ impossible => by cases impossible
      · exact fun _ impossible => by cases impossible
      · exact fun impossible => by cases impossible
  | interrupted token ready synthetic =>
      -- A source that reads a text gives no synthetic tokens.
      have real := (holds.waiting token (by rw [ready]; rfl)).1
      cases real.symm.trans synthetic
  | rejected waiting waits => exact .ended _ _ (holds.rejection reads waits)
  | reduced row waiting name index rule found ready claimed named =>
      exact holds.reduce reads ready rule
  | followed row nonterminal waiting target found made shifts =>
      have own := holds.made nonterminal (by rw [made]; rfl)
      have same : machine.lookahead.waiting = some waiting := by rw [made]; rfl
      refine .running _ ⟨holds.reading, List.forall_mem_cons.mpr ⟨own, holds.stack⟩, holds.collected,
        ?_, ?_, ?_⟩
      · exact fun _ impossible => by cases impossible
      · exact fun token waits => holds.waiting token (same.trans waits)
      · exact fun ends => holds.ended (same.trans ends)

end Machine.StandsIn

/-! ## Runs -/

namespace Setting

variable {setting : Setting σ}

/-- A run over a text comes to no error that is not true of the text. -/
theorem trueOf_of_run (reads : setting.source.Reads text stands) (limit : Nat) {machine : Machine σ}
    (holds : machine.StandsIn setting.source text stands) :
    (setting.run limit machine).1.TrueOf text := by
  induction limit generalizing machine with
  | zero => exact trivial
  | succ limit inductionHypothesis =>
      have truthful := holds.step reads
      rw [Setting.run]
      generalize setting.step machine = progress at truthful ⊢
      cases truthful with
      | running next holds => exact inductionHypothesis holds
      | ended outcome last isTrue => exact isTrue

theorem trueOf_of_ends (reads : setting.source.Reads text stands) {state : σ} (begun : stands state)
    {outcome : Outcome} (ends : setting.Ends state outcome) : outcome.TrueOf text := by
  rcases ends.of_run with ⟨limit, run⟩ | ⟨halt, rfl, internal⟩
  · rw [← run]
    exact trueOf_of_run reads limit (.start begun)
  · exact internal.trueOf

/-- The leaves of a tree stand in the text that it is a tree of. -/
theorem standsIn_of_parseTree (reads : setting.source.Reads text stands)
    (keeps : setting.keep = some fun _ => true) {state : σ} (begun : stands state)
    {tree : ParseTree} (parsed : (setting.parseTree state).tree = .ok tree) (token : Token)
    (leaf : token ∈ tree.leaves) : token.StandsIn text := by
  have kept : forall state preference, stands state ->
      stands (setting.source.next state preference).2 := by
    intro state preference here
    generalize reply : setting.source.next state preference = answer
    rcases answer with ⟨_ | _ | _, next⟩
    · exact (reads.failed here reply).1
    · exact (reads.ended here reply).1
    · exact (reads.token here reply).1
  have given : forall limit token, .ok (some token) ∈ setting.answers limit (.start state) ->
      token.isSynthetic = false ∧ token.StandsIn text := by
    intro limit token asked
    rcases state_of_answers kept begun asked with ⟨before, preference, here, gives⟩
    exact (reads.token here (Prod.ext gives rfl)).2
  rcases leaves_of_parseTree keeps (fun limit token asked => (given limit token asked).1) parsed with
    ⟨_, tokens, ⟨limit, _, answers⟩, leaves⟩
  refine (given limit token ?_).2
  rw [leaves] at leaf
  rw [answers]
  exact List.mem_append_left _ (List.mem_map_of_mem (List.mem_of_mem_filter leaf))

end Setting

/-! ## Texts -/

namespace TokenStream

theorem StandsAt.position {stream : TokenStream} {before rest : List Char}
    (stands : stream.StandsAt before rest) :
    source.position stream = Position.start.advance before := by
  change stream.position = _
  unfold TokenStream.position
  rw [stands.fresh]
  exact stands.place

/-- The stream stands somewhere in the text. -/
def Within (text : List Char) (stream : TokenStream) : Prop :=
  Exists fun before => Exists fun rest => text = before ++ rest ∧ stream.StandsAt before rest

/-- A stream reads its text. -/
theorem reads (text : List Char) : source.Reads text (Within text) where
  place := by
    rintro stream ⟨before, rest, divided, stands⟩
    rw [stands.position]
    exact Position.shows_advance divided
  token := by
    rintro stream preference token after ⟨before, rest, divided, stands⟩ gives
    have real := (real_of_next stands.fresh preference).2 token (congrArg Prod.fst gives)
    rcases stands.of_token gives with ⟨later, rfl, place, after⟩
    refine ⟨⟨_, later, ?_, after⟩, real, ?_⟩
    · rw [divided, List.append_assoc]
    · unfold Token.StandsIn
      rw [place]
      exact Position.shows_advance divided
  ended := by
    rintro stream preference after ⟨before, rest, divided, stands⟩ ends
    rcases stands.of_end ends with ⟨rfl, rfl⟩
    refine ⟨⟨before, [], divided, stands⟩, ?_⟩
    rw [stands.position, Position.offset_advance_start, divided, List.append_nil]
  failed := by
    rintro stream preference error after ⟨before, rest, divided, stands⟩ fails
    rcases stands.of_error fails with ⟨rfl, shown⟩
    refine ⟨⟨before, _, divided, stands⟩, ?_⟩
    cases error with
    | unclaimed => exact trivial
    | lex error =>
        rcases shown error rfl with ⟨⟨others, rfl⟩, place⟩
        change error.position.Shows text [error.character]
        rw [place]
        exact Position.shows_advance divided

theorem within_stream (matcher : Matcher) (text : String) :
    (matcher.stream text).Within text.toList :=
  ⟨[], text.toList, rfl, standsAt_stream matcher text⟩

end TokenStream

namespace Parser

/-- The parser comes to that error over the text: it parses the text, it builds a tree with some of the
tokens as leaves, or it takes any number of steps. -/
inductive FailsWith (parser : Parser) (text : String) (error : ParseError) : Prop where
  | parse (failed : (parser.parse text).outcome = .stopped (.failed error))
  | tree (keep : Token -> Bool)
      (failed : (parser.treeFiltered text keep).tree = .error (.stopped (.failed error)))
  | steps (keep : Option (Token -> Bool)) (limit : Nat)
      (failed : ((parser.setting TokenStream.source keep).run limit
        (.start (parser.matcher.stream text))).1 = .stopped (.failed error))

/-- No parser says of a text what is not true. -/
theorem FailsWith.trueOf {parser : Parser} {text : String} {error : ParseError}
    (fails : parser.FailsWith text error) : error.TrueOf text.toList := by
  have reads : forall keep, (parser.setting TokenStream.source keep).source.Reads text.toList
      (TokenStream.Within text.toList) := fun _ => TokenStream.reads text.toList
  have begun := TokenStream.within_stream parser.matcher text
  cases fails with
  | parse failed => exact Setting.trueOf_of_ends (reads none) begun (Or.inl failed)
  | tree keep failed => exact Setting.trueOf_of_ends (reads (some keep)) begun (Or.inr failed)
  | steps keep limit failed =>
      have isTrue := Setting.trueOf_of_run (reads keep) limit (.start begun)
      rw [failed] at isTrue
      exact isTrue

end Parser

end ShiftReduce
