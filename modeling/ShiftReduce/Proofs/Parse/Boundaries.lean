import ShiftReduce.Parser
import ShiftReduce.Proofs.Lexer.LongestMatch
import ShiftReduce.Proofs.Parse.Progress

namespace ShiftReduce

/-!
# Preferences do not move the ends of tokens

A preference decides between readings of the same length.  Which patterns the scan meets does not depend
on it, and of two readings the longer one is kept whatever is preferred, so the length of the best
reading is the same under all preferences.  A stream therefore cuts the same pieces from its text
whatever it is asked, and only the names of the tokens differ.

A parse asks with another preference in every state.  What it is answered is one of the readings of its
text, and reading without preferences is another.
-/

namespace Matcher

variable (matcher : Matcher) {text : List Char}

/-! ## Lengths -/

/-- Of two candidates, the one that is kept has the larger size. -/
theorem size_better (preference : Preference) (old candidate : Candidate) :
    (if matcher.better preference old candidate then some candidate else some old).map
      Candidate.size = some (max old.size candidate.size) := by
  by_cases equal : candidate.size = old.size
  · split <;> simp [equal]
  · unfold better
    rw [if_pos equal]
    by_cases longer : old.size < candidate.size
    · rw [if_pos (decide_eq_true longer), Option.map_some, Nat.max_eq_right (Nat.le_of_lt longer)]
    · rw [if_neg (by simpa using longer), Option.map_some, Nat.max_eq_left (Nat.not_lt.mp longer)]

/-- What is kept has the same size under all preferences if this has been so before. -/
theorem size_chosen (first second : Preference) {best other : Option Candidate}
    (same : best.map Candidate.size = other.map Candidate.size) (candidate : Candidate) :
    (matcher.chosen first best candidate).map Candidate.size =
      (matcher.chosen second other candidate).map Candidate.size := by
  unfold chosen
  by_cases empty : candidate.size = 0
  · rw [if_pos empty, if_pos empty, same]
  · rw [if_neg empty, if_neg empty]
    rcases best with _ | old <;> rcases other with _ | otherOld
    · rfl
    · cases same
    · cases same
    · have equal : old.size = otherOld.size := Option.some.inj same
      dsimp only
      rw [size_better, size_better, equal]

/-- The scan meets the same patterns under all preferences, and breaks off under all or none. -/
theorem size_scan (first second : Preference) (index skip : Nat) (entries : List MatcherEntry)
    (unions : List Pattern) {best other : Option Candidate}
    (same : best.map Candidate.size = other.map Candidate.size) :
    (matcher.scan first text index skip entries unions best).map (Option.map Candidate.size) =
      (matcher.scan second text index skip entries unions other).map
        (Option.map Candidate.size) := by
  induction entries generalizing index skip unions best other with
  | nil => cases skip <;> exact congrArg Except.ok same
  | cons entry rest inductionHypothesis =>
      cases unions with
      | nil => cases skip <;> exact congrArg Except.ok same
      | cons union unions =>
          cases skip with
          | succ skip =>
              rw [scan, scan]
              exact inductionHypothesis (index + 1) skip unions same
          | zero =>
              rw [scan, scan]
              split
              · exact congrArg Except.ok same
              next found _ =>
                split
                · rfl
                next place _ =>
                  exact inductionHypothesis (index + 1) place unions
                    (matcher.size_chosen first second same _)

/-- How long the best reading is does not depend on what is preferred. -/
theorem size_longest (text : List Char) (first second : Preference) :
    (matcher.longest text first).map (Option.map Candidate.size) =
      (matcher.longest text second).map (Option.map Candidate.size) :=
  matcher.size_scan first second 0 0 matcher.entries matcher.unions rfl

end Matcher

/-! ## Answers without names -/

/-- The answer, where a token has lost its name. -/
def Answer.nameless (answer : Answer) : Answer :=
  answer.map (Option.map fun token => { token with name := "" })

/-- Where the token of an answer lies in the text. -/
def Answer.outline (answer : Answer) : Except ReadError (Option Span) :=
  answer.map (Option.map Token.span)

theorem outline_nameless (answer : Answer) :
    Answer.outline (Answer.nameless answer) = Answer.outline answer := by
  rcases answer with _ | _ | token <;> rfl

namespace TokenStream

/-- Under all preferences a stream cuts the same piece from its text, or fails in the same way. -/
theorem next_nameless (stream : TokenStream) (first second : Preference) :
    Answer.nameless (stream.next first).1 = Answer.nameless (stream.next second).1 ∧
      (stream.next first).2 = (stream.next second).2 := by
  unfold next
  split
  · exact ⟨rfl, rfl⟩
  · split
    · exact ⟨rfl, rfl⟩
    · exact ⟨rfl, rfl⟩
    next c rest _ =>
      have size := stream.matcher.size_longest (c :: rest) first second
      generalize stream.matcher.longest (c :: rest) first = firstBest at size ⊢
      generalize stream.matcher.longest (c :: rest) second = secondBest at size ⊢
      rcases firstBest with ⟨⟩ | _ | candidate <;> rcases secondBest with ⟨⟩ | _ | other
      · exact ⟨rfl, rfl⟩
      · cases size
      · cases size
      · cases size
      · exact ⟨rfl, rfl⟩
      · cases size
      · cases size
      · cases size
      · have equal : candidate.size = other.size := Option.some.inj (Except.ok.inj size)
        dsimp only [consume, Answer.nameless, Except.map, Option.map_some]
        rw [equal]
        exact ⟨rfl, rfl⟩

/-- What a stream answers to one question after another. -/
def reading (stream : TokenStream) : List Preference -> List Answer
  | [] => []
  | preference :: later => (stream.next preference).1 :: reading (stream.next preference).2 later

theorem length_reading (stream : TokenStream) (preferences : List Preference) :
    (stream.reading preferences).length = preferences.length := by
  induction preferences generalizing stream with
  | nil => rfl
  | cons preference later inductionHypothesis =>
      rw [reading, List.length_cons, List.length_cons, inductionHypothesis]

/-- Whatever is preferred, the same is read but for names, as far as both readings go. -/
theorem nameless_reading (stream : TokenStream) (first second : List Preference) {place : Nat}
    {answer other : Answer} (firstAnswer : (stream.reading first)[place]? = some answer)
    (secondAnswer : (stream.reading second)[place]? = some other) :
    Answer.nameless answer = Answer.nameless other := by
  induction first generalizing stream second place with
  | nil => cases firstAnswer
  | cons preference later inductionHypothesis =>
      cases second with
      | nil => cases secondAnswer
      | cons otherPreference others =>
          rcases stream.next_nameless preference otherPreference with ⟨same, after⟩
          cases place with
          | zero =>
              cases firstAnswer
              cases secondAnswer
              exact same
          | succ place =>
              rw [reading, List.getElem?_cons_succ] at firstAnswer secondAnswer
              rw [← after] at secondAnswer
              exact inductionHypothesis _ others firstAnswer secondAnswer

theorem outline_reading (stream : TokenStream) (first second : List Preference) {place : Nat}
    {answer other : Answer} (firstAnswer : (stream.reading first)[place]? = some answer)
    (secondAnswer : (stream.reading second)[place]? = some other) :
    Answer.outline answer = Answer.outline other := by
  rw [← outline_nameless, stream.nameless_reading first second firstAnswer secondAnswer,
    outline_nameless]

/-- Readings of the same length find tokens in the same places. -/
theorem map_outline_reading (stream : TokenStream) {first second : List Preference}
    (equally : first.length = second.length) :
    (stream.reading first).map Answer.outline = (stream.reading second).map Answer.outline := by
  apply List.ext_getElem
  · rw [List.length_map, List.length_map, length_reading, length_reading, equally]
  · intro place firstInside secondInside
    rw [List.length_map] at firstInside secondInside
    rw [List.getElem_map, List.getElem_map]
    exact stream.outline_reading first second (List.getElem?_eq_getElem firstInside)
      (List.getElem?_eq_getElem secondInside)

/-! ## Reading without preferences -/

theorem failed_next (stream : TokenStream) (preference : Preference) :
    (stream.next preference).2.failed = stream.failed := by
  unfold next
  split
  · rfl
  · split
    · rfl
    · rfl
    · split <;> rfl

/-- Collecting reads without preferences, up to the first failure. -/
theorem reading_of_collect (bound : Nat) (stream : TokenStream) (goes : stream.failed = false) :
    Exists fun tokens : List Token =>
      stream.collect bound = .ok tokens ∧
        stream.reading (List.replicate tokens.length .nothing) =
          tokens.map (fun token => .ok (some token)) ∨
      Exists fun error =>
        collect bound stream = .error error ∧
        stream.reading (List.replicate (tokens.length + 1) .nothing) =
          tokens.map (fun token => .ok (some token)) ++ [.error error] := by
  induction bound generalizing stream with
  | zero => exact ⟨[], Or.inl ⟨rfl, rfl⟩⟩
  | succ bound inductionHypothesis =>
      have later := stream.failed_next .nothing
      rw [collect, advance, goes, if_neg Bool.false_ne_true]
      cases reply : stream.next .nothing with
      | mk answer after =>
          rw [reply] at later
          rcases answer with error | _ | token
          · refine ⟨[], Or.inr ⟨error, by cases error <;> rfl, ?_⟩⟩
            rw [List.length_nil, List.replicate_one, reading, reply]
            rfl
          · exact ⟨[], Or.inl ⟨rfl, rfl⟩⟩
          · dsimp only
            rcases inductionHypothesis after (later.trans goes) with
              ⟨tokens, ⟨collected, read⟩ | ⟨error, collected, read⟩⟩
            · refine ⟨token :: tokens, Or.inl ⟨by rw [collected]; rfl, ?_⟩⟩
              rw [List.length_cons, List.replicate_succ, reading, reply, read, List.map_cons]
            · refine ⟨token :: tokens, Or.inr ⟨error, by rw [collected]; rfl, ?_⟩⟩
              rw [List.length_cons, List.replicate_succ, reading, reply, read, List.map_cons,
                List.cons_append]

end TokenStream

/-! ## What a parse reads -/

/-- The answers that a stream gives are one of the readings of its text. -/
theorem TokenSource.Gives.reading {stream : TokenStream} {answers : List Answer}
    (gives : TokenStream.source.Gives stream answers) :
    Exists fun preferences => stream.reading preferences = answers := by
  induction gives with
  | nil => exact ⟨[], rfl⟩
  | cons state next preference answer answers reply _ inductionHypothesis =>
      rcases inductionHypothesis with ⟨preferences, same⟩
      have given : state.next preference = (answer, next) := reply
      exact ⟨preference :: preferences, by rw [TokenStream.reading, given, same]⟩

/-- A failure is the last answer that a run gets. -/
theorem Setting.length_of_failure {σ : Type} {setting : Setting σ} {limit : Nat}
    {machine : Machine σ} {place : Nat} {error : ReadError}
    (failed : (setting.answers limit machine)[place]? = some (.error error)) :
    (setting.answers limit machine).length = place + 1 := by
  induction limit generalizing machine place with
  | zero => cases failed
  | succ limit inductionHypothesis =>
      rw [answers] at failed ⊢
      by_cases unread : machine.lookahead = .unread
      · cases found : setting.table.states[machine.state]? with
        | none =>
            rcases step_lost found with ⟨goes, silent⟩
            rw [goes, silent] at failed
            cases failed
        | some row =>
            rw [answer?_unread unread found, step_unread unread found, Setting.read] at failed ⊢
            generalize setting.source.next machine.source (.matching row.accepts) = reply at failed ⊢
            rcases reply with ⟨_ | _ | token, source⟩
            · cases place with
              | zero => rfl
              | succ place => cases failed
            · cases place with
              | zero => cases failed
              | succ place => exact congrArg Nat.succ (inductionHypothesis failed)
            · cases place with
              | zero => cases failed
              | succ place =>
                  dsimp only at failed ⊢
                  split at failed
                  · exact congrArg Nat.succ (inductionHypothesis failed)
                  · cases failed
      · rw [answer?_waiting unread, Option.toList_none, List.nil_append] at failed ⊢
        cases goes : setting.step machine with
        | ended outcome last =>
            rw [goes] at failed
            cases failed
        | running next =>
            rw [goes] at failed
            exact inductionHypothesis failed

/-- However a run over a stream goes, its answers lie where those of reading without preferences do. -/
theorem Setting.outline_of_answers {setting : Setting TokenStream}
    (streams : setting.source = TokenStream.source) {stream : TokenStream} {limit place count : Nat}
    {answer other : Answer} (asked : (setting.answers limit (.start stream))[place]? = some answer)
    (read : (stream.reading (List.replicate count .nothing))[place]? = some other) :
    Answer.outline answer = Answer.outline other := by
  have gives := setting.gives_answers limit (.start stream)
  rw [streams] at gives
  rcases gives.reading with ⟨preferences, given⟩
  rw [← given] at asked
  exact stream.outline_reading _ _ asked read

/-- A run gets no further than the first failure of reading without preferences. -/
theorem Setting.outlines_of_failure {setting : Setting TokenStream}
    (streams : setting.source = TokenStream.source) {stream : TokenStream} (limit : Nat)
    {tokens : List Token} {error : ReadError}
    (read : stream.reading (List.replicate (tokens.length + 1) .nothing) =
      tokens.map (fun token => .ok (some token)) ++ [.error error]) :
    (setting.answers limit (.start stream)).map Answer.outline <+:
      tokens.map (fun token => .ok (some token.span)) ++ [.error error] := by
  have others : tokens.map (fun token => .ok (some token.span)) ++ [.error error] =
      (stream.reading (List.replicate (tokens.length + 1) .nothing)).map Answer.outline := by
    rw [read, List.map_append, List.map_map]
    rfl
  have atEnd : (stream.reading (List.replicate (tokens.length + 1) .nothing))[tokens.length]? =
      some (.error error) := by
    rw [read, List.getElem?_append_right (by rw [List.length_map]), List.length_map, Nat.sub_self]
    rfl
  -- A longer run would have got the failure too, and that would have been its last answer.
  have short : (setting.answers limit (.start stream)).length ≤ tokens.length + 1 := by
    by_contra longer
    cases asked : (setting.answers limit (.start stream))[tokens.length]? with
    | none => exact longer (Nat.le_succ_of_le (List.getElem?_eq_none_iff.mp asked))
    | some answer =>
        have same := setting.outline_of_answers streams asked atEnd
        rcases answer with failure | result
        · exact longer (Nat.le_of_eq (length_of_failure asked))
        · cases same
  rw [others, List.prefix_iff_getElem?]
  intro place inside
  rw [List.length_map] at inside
  have within : place < (stream.reading (List.replicate (tokens.length + 1) .nothing)).length := by
    rw [TokenStream.length_reading, List.length_replicate]
    omega
  rw [List.getElem_map, List.getElem?_map, List.getElem?_eq_getElem within, Option.map_some]
  exact congrArg some (setting.outline_of_answers streams (List.getElem?_eq_getElem inside)
    (List.getElem?_eq_getElem within)).symm

namespace Matcher

/-- Two readings of a text find tokens in the same places, and fail in the same way, whatever they
prefer.  What a parse reads, be it skipped or not, lies where the tokens of the text do that are read
without preferences, and where these end with a failure, the parse gets no further. -/
theorem boundaries_unmoved (matcher : Matcher) (text : String) :
    (forall first second : List Preference, first.length = second.length ->
      ((matcher.stream text).reading first).map Answer.outline =
        ((matcher.stream text).reading second).map Answer.outline) ∧
    forall (table : Table) (skip : NameSet) (keep : Option (Token -> Bool)) (limit : Nat)
      (answers : List Answer),
      (Parser.setting ⟨matcher, table, skip⟩ TokenStream.source keep).answers limit
        (.start (matcher.stream text)) = answers ->
      (forall tokens, matcher.tokenize text = .ok tokens ->
        forall (place : Nat) (answer : Answer) (token : Token), answers[place]? = some answer ->
          tokens[place]? = some token -> Answer.outline answer = .ok (some token.span)) ∧
      forall error, matcher.tokenize text = .error error -> Exists fun tokens : List Token =>
        (matcher.stream text).reading (List.replicate (tokens.length + 1) .nothing) =
          tokens.map (fun token => .ok (some token)) ++ [.error error] ∧
        answers.map Answer.outline <+:
          tokens.map (fun token => .ok (some token.span)) ++ [.error error] := by
  have without := TokenStream.reading_of_collect (text.toList.length + 1) (matcher.stream text) rfl
  refine ⟨fun first second => (matcher.stream text).map_outline_reading,
    fun table skip keep limit answers asked => ⟨?_, ?_⟩⟩
  · intro tokens tokenized place answer token given listed
    rcases without with ⟨others, ⟨collected, read⟩ | ⟨error, collected, _⟩⟩
    · cases tokenized.symm.trans collected
      have there : ((matcher.stream text).reading
          (List.replicate tokens.length .nothing))[place]? = some (.ok (some token)) := by
        rw [read, List.getElem?_map, listed]
        rfl
      rw [← asked] at given
      exact Setting.outline_of_answers rfl given there
    · cases tokenized.symm.trans collected
  · intro error tokenized
    rcases without with ⟨tokens, ⟨collected, _⟩ | ⟨failure, collected, read⟩⟩
    · cases tokenized.symm.trans collected
    · cases tokenized.symm.trans collected
      exact ⟨tokens, read, asked ▸ Setting.outlines_of_failure rfl limit read⟩

end Matcher

/-! ## A keyword that is read as a word -/

/-- Two words. -/
def Grammar.twoWords : Grammar :=
  ⟨[⟨"words", [{ symbols := [.name "word", .name "word"] }]⟩], by decide⟩

/-- The parser for two words that are also told from numbers and a keyword. -/
def Parser.twoWords : Parser :=
  ⟨.conditional, Grammar.twoWords.compile.toOption.getD default, ["number"]⟩

namespace Matcher

/-- The answers that the parser for two words gets for a text. -/
def twoWordsAnswers (text : String) : List Answer :=
  (Parser.twoWords.setting TokenStream.source none).answers 20 (.start (conditional.stream text))

/-- Where a word has to come, a parse reads the keyword as a word, in the same place.  A character
that belongs to no token stops the parse where it stops the tokens. -/
theorem boundaries_unmoved_conditional :
    ((conditional.stream "if").reading [.matching (· == "word")]).map Answer.outline =
      ((conditional.stream "if").reading [.nothing]).map Answer.outline ∧
    (Exists fun tokens => conditional.tokenize "if1x" = .ok tokens ∧
      tokens.map Token.name = ["if", "number", "word"] ∧
      (twoWordsAnswers "if1x").map (fun answer => answer.toOption.map (Option.map Token.name)) =
        [some (some "word"), some (some "number"), some (some "word"), some none] ∧
      forall (place : Nat) (answer : Answer) (token : Token),
        (twoWordsAnswers "if1x")[place]? = some answer -> tokens[place]? = some token ->
          Answer.outline answer = .ok (some token.span)) ∧
    Exists fun error => conditional.tokenize "if?" = .error error ∧
      Exists fun tokens : List Token =>
        (conditional.stream "if?").reading (List.replicate (tokens.length + 1) .nothing) =
          tokens.map (fun token => .ok (some token)) ++ [.error error] ∧
        (twoWordsAnswers "if?").map Answer.outline <+:
          tokens.map (fun token => .ok (some token.span)) ++ [.error error] := by
  have tokenized := eq_ok_of_isOk
    (show (conditional.tokenize "if1x").isOk = true by decide +kernel)
  have fails : (conditional.tokenize "if?").isOk = false := by decide +kernel
  have whole := (boundaries_unmoved conditional "if1x").2 Parser.twoWords.table
    Parser.twoWords.skip none 20 (twoWordsAnswers "if1x") rfl
  have broken := (boundaries_unmoved conditional "if?").2 Parser.twoWords.table
    Parser.twoWords.skip none 20 (twoWordsAnswers "if?") rfl
  refine ⟨(boundaries_unmoved conditional "if").1 _ _ rfl,
    ⟨_, tokenized, ?_, ?_, whole.1 _ tokenized⟩, ?_⟩
  · decide +kernel
  · decide +kernel
  · cases failed : conditional.tokenize "if?" with
    | ok tokens =>
        rw [failed] at fails
        cases fails
    | error error => exact ⟨error, rfl, broken.2 error failed⟩

end Matcher

end ShiftReduce
