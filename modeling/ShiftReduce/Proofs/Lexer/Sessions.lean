import ShiftReduce.Lexer.Stream
import ShiftReduce.Proofs.Lexer.LongestMatch
import ShiftReduce.Proofs.Text.Tilings

namespace ShiftReduce

/-!
# Streams lose and repeat no text

A stream is asked for tokens in four ways, and the latest token can be put back.  Whatever is asked,
the reply is one of five: a token that was put back, a token that is cut from the text, nothing, a
failure at the place where the stream stands, or that the matcher breaks off, which leaves the stream
as it was.  What is true of a stream at every moment is shown for these replies and for putting back.

The tokens that are held, and those that were put back behind them, tile the text up to where it has
been read.  A request by name gives up the second part and reads it anew, so it begins where the first
part ends, and this is the position of the stream in either case.

A pattern that breaks out of its group can match somewhere in the text, and its size can then end
inside a character.  Nothing can be cut from the text there, and such a request does not come back.
It is left out below, and there is none if all patterns are anchored.
-/

namespace TokenStream

/-- What a stream can be asked for. -/
inductive Request where
  /-- The next token, with a preference. -/
  | next (preference : Preference)
  /-- The next token of the iteration, which ends at the first failure. -/
  | advance
  /-- A token of that name. -/
  | token (name : String)
  /-- That text. -/
  | literal (text : String)

/-- An answer, and the stream afterwards. -/
abbrev Reply := Answer × TokenStream

/-- The reply to a request. -/
def reply (stream : TokenStream) : Request -> Reply
  | .next preference => stream.next preference
  | .advance => stream.advance
  | .token name => (.ok (stream.expectToken name).1, (stream.expectToken name).2)
  | .literal text => (.ok (stream.expectLiteral text).1, (stream.expectLiteral text).2)

/-- The request finds a match whose size ends inside a character. -/
inductive Cuts (stream : TokenStream) : Request -> Prop where
  | next (preference : Preference) (rest : List Char) (candidate : Matcher.Candidate)
      (fresh : stream.backlog = []) (left : stream.rest? = some rest)
      (longest : stream.matcher.longest rest preference = .ok (some candidate))
      (inside : Text.takeBytes? rest candidate.size = none) : Cuts stream (.next preference)
  | advance (goes : stream.failed = false) (cuts : Cuts stream (.next .nothing)) :
      Cuts stream .advance
  | token (name : String) (entry : MatcherEntry) (rest : List Char) (found : Pattern.Match)
      (declared : stream.matcher.entry? name = some entry)
      (left : stream.rewind.rest? = some rest) (matched : entry.single.find? rest = some found)
      (inside : Text.takeBytes? rest (Text.byteSize found.matched) = none) :
      Cuts stream (.token name)

/-- What a reply is, and when. -/
inductive Replies (stream : TokenStream) (request : Request) : Reply -> Prop where
  | replayed (token : Token) (backlog : List Token) (kept : stream.backlog = token :: backlog) :
      Replies stream request (.ok (some token), { stream with backlog })
  | read (name : String) (piece rest : List Char)
      (left : stream.rewind.rest? = some (piece ++ rest)) (inhabited : piece ≠ []) :
      Replies stream request
        (.ok (some ⟨name, some (String.ofList piece), stream.rewind.place⟩),
          { stream.rewind with place := stream.rewind.place.advance piece })
  | silent (after : TokenStream) (same : after = stream ∨ after = stream.rewind) :
      Replies stream request (.ok none, after)
  | failed (c : Char) (rest : List Char) (failed : Bool) (fresh : stream.backlog = [])
      (left : stream.rest? = some (c :: rest)) :
      Replies stream request (.error (.lex ⟨c, stream.place⟩), { stream with failed })
  | brokenOff : Replies stream request (.error .unclaimed, stream)
  | cut (token : Token) (after : TokenStream) (cuts : stream.Cuts request) :
      Replies stream request (.ok (some token), after)

variable {stream : TokenStream} {request : Request}

theorem rewind_of_fresh (fresh : stream.backlog = []) : stream.rewind = stream := by
  unfold rewind
  rw [fresh]

theorem backlog_rewind : stream.rewind.backlog = [] := by
  unfold rewind
  split
  next fresh => exact fresh
  · rfl

theorem matcher_rewind : stream.rewind.matcher = stream.matcher := by
  unfold rewind
  split <;> rfl

/-- A size that is not zero is read from the text, unless it ends inside a character. -/
private theorem replies_consume {name : String} {rest : List Char} {size : Nat}
    (left : stream.rewind.rest? = some rest) (inhabited : size ≠ 0)
    (cuts : Text.takeBytes? rest size = none -> stream.Cuts request) :
    Replies stream request (.ok (some (stream.rewind.consume rest name size).1),
      (stream.rewind.consume rest name size).2) := by
  cases taken : Text.takeBytes? rest size with
  | none => exact .cut _ _ (cuts taken)
  | some piece =>
      rcases Text.takeBytes?_eq_some_iff.mp taken with ⟨others, rfl, rfl⟩
      unfold consume
      rw [Text.takeWithin_byteSize]
      refine .read name piece others left fun none => inhabited ?_
      rw [none]
      rfl

theorem size_of_longest {matcher : Matcher} {text : List Char} {preference : Preference}
    {candidate : Matcher.Candidate}
    (longest : matcher.longest text preference = .ok (some candidate)) :
    candidate.size ≠ 0 :=
  Matcher.size_of_scan (fun size => size ≠ 0) (fun _ _ _ _ inhabited => inhabited)
    (fun _ impossible => by cases impossible) longest

theorem replies_next (preference : Preference) :
    Replies stream (.next preference) (stream.next preference) := by
  unfold next
  split
  next token backlog kept => exact .replayed token backlog kept
  next fresh =>
    have same := rewind_of_fresh fresh
    split
    · exact .silent stream (Or.inl rfl)
    · exact .silent stream (Or.inl rfl)
    next c rest left =>
      split
      · exact .brokenOff
      · exact .failed c rest stream.failed fresh left
      next candidate longest =>
        have read : Replies stream (.next preference)
            (.ok (some (stream.rewind.consume (c :: rest) candidate.name candidate.size).1),
              (stream.rewind.consume (c :: rest) candidate.name candidate.size).2) :=
          replies_consume (same.symm ▸ left) (size_of_longest longest)
            fun inside => .next preference _ candidate fresh left longest inside
        rwa [same] at read

theorem replies_advance : Replies stream .advance stream.advance := by
  unfold advance
  split
  · exact .silent stream (Or.inl rfl)
  next goes =>
    have next := stream.replies_next .nothing
    generalize stream.next .nothing = reply at next
    cases next with
    | replayed token backlog kept => exact .replayed token backlog kept
    | read name piece rest left inhabited => exact .read name piece rest left inhabited
    | silent after same => exact .silent after same
    | failed c rest failed fresh left => exact .failed c rest true fresh left
    | brokenOff => exact .brokenOff
    | cut token after cuts => exact .cut token after (.advance (Bool.not_eq_true _ ▸ goes) cuts)

theorem replies_token (name : String) : Replies stream (.token name) (stream.reply (.token name)) := by
  unfold reply expectToken
  dsimp only
  rw [matcher_rewind]
  split
  next entry rest declared left =>
    split
    next found matched =>
      split
      · exact .silent _ (Or.inr rfl)
      next inhabited =>
        exact replies_consume left inhabited
          fun inside => .token name entry rest found declared left matched inside
    · exact .silent _ (Or.inr rfl)
  · exact .silent _ (Or.inr rfl)

theorem replies_literal (text : String) :
    Replies stream (.literal text) (stream.reply (.literal text)) := by
  unfold reply expectLiteral
  dsimp only
  split
  · exact .silent _ (Or.inr rfl)
  next rest left =>
    split
    · exact .silent _ (Or.inr rfl)
    next head taken =>
      split
      next agrees =>
        have inhabited : text.utf8ByteSize ≠ 0 := by
          rw [Bool.and_eq_true, Bool.not_eq_true', ← Bool.not_eq_true] at agrees
          exact fun none => agrees.2 (String.isEmpty_iff_utf8ByteSize_eq_zero.mpr none)
        refine replies_consume left inhabited fun impossible => ?_
        rw [taken] at impossible
        cases impossible
      · exact .silent _ (Or.inr rfl)

theorem replies_reply (stream : TokenStream) (request : Request) :
    Replies stream request (stream.reply request) := by
  cases request with
  | next preference => exact replies_next preference
  | advance => exact replies_advance
  | token name => exact replies_token name
  | literal text => exact replies_literal text

/-! ## Sessions -/

/-- A stream with the tokens that it has answered with and that were not put back, latest first. -/
structure Session where
  stream : TokenStream
  held : List Token

/-- The session after a request. -/
def Session.after (session : Session) (request : Request) : Session :=
  match session.stream.reply request with
  | (.ok (some token), stream) => ⟨stream, token :: session.held⟩
  | (_, stream) => ⟨stream, session.held⟩

/-- The session after the latest token that is held has been put back, if there is one. -/
def Session.putBack (session : Session) : Session :=
  match session.held with
  | [] => session
  | token :: held => ⟨session.stream.putBack token, held⟩

/-- The sessions over a text. -/
inductive Reached (matcher : Matcher) (text : String) : Session -> Prop where
  | start : Reached matcher text ⟨matcher.stream text, []⟩
  | request (session : Session) (request : Request) (before : Reached matcher text session)
      (uncut : ¬ session.stream.Cuts request) : Reached matcher text (session.after request)
  | putBack (session : Session) (before : Reached matcher text session) :
      Reached matcher text session.putBack

namespace Session

/-- The text is divided into the part of the tokens that are held, the part of those that were put
back, and the part that has not been read. -/
structure Divides (text : List Char) (session : Session) (held again rest : List Char) : Prop where
  whole : text = held ++ again ++ rest
  source : session.stream.text = text
  first : Tiles .start session.held.reverse held
  second : Tiles (Position.start.advance held) session.stream.backlog again
  place : session.stream.place = Position.start.advance (held ++ again)

variable {text : List Char} {session : Session} {held again rest : List Char}

theorem Divides.rest? (divides : Divides text session held again rest) :
    session.stream.rest? = some rest := by
  unfold TokenStream.rest?
  refine Text.dropBytes?_eq_some_iff.mpr ⟨held ++ again, ?_, ?_⟩
  · rw [divides.source, divides.whole]
  · rw [divides.place, Position.offset_advance_start]

/-- The position is the end of the tokens that are held. -/
theorem Divides.position (divides : Divides text session held again rest) :
    session.stream.position = Position.start.advance held := by
  have tiles := divides.second
  unfold TokenStream.position
  generalize session.stream.backlog = backlog at tiles
  cases tiles with
  | nil => rw [divides.place, List.append_nil]
  | cons _ _ _ _ _ _ _ located _ => exact located

/-- Where the tokens that were put back begin is the earliest of their places. -/
private theorem foldl_earlier {place : Position} {tokens : List Token}
    (behind : forall token, token ∈ tokens -> Exists fun before => token.position = place.advance before) :
    tokens.foldl (fun place other => place.earlier other.position) place = place := by
  induction tokens with
  | nil => rfl
  | cons token others inductionHypothesis =>
      rcases behind token List.mem_cons_self with ⟨before, located⟩
      rw [List.foldl_cons, located, Position.earlier_advance]
      exact inductionHypothesis fun other member => behind other (List.mem_cons_of_mem _ member)

/-- Going back gives up the tokens that were put back. -/
theorem Divides.rewind (divides : Divides text session held again rest) :
    Divides text ⟨session.stream.rewind, session.held⟩ held [] (again ++ rest) := by
  have tiles := divides.second
  have atPlace := divides.place
  refine ⟨?_, ?_, divides.first, ?_, ?_⟩
  · rw [divides.whole, List.append_nil, List.append_assoc]
  · rw [← divides.source]
    change session.stream.rewind.text = session.stream.text
    unfold TokenStream.rewind
    split <;> rfl
  · change Tiles _ session.stream.rewind.backlog []
    rw [TokenStream.backlog_rewind]
    exact .nil _
  · rw [List.append_nil]
    change session.stream.rewind.place = _
    unfold TokenStream.rewind
    split
    next fresh =>
      rw [fresh] at tiles
      cases tiles
      rw [atPlace, List.append_nil]
    next token backlog kept =>
      rw [kept] at tiles
      cases tiles with
      | cons _ _ piece _ others own inhabited located later =>
          dsimp only
          rw [located, foldl_earlier]
          intro other member
          rcases later.of_mem member with ⟨before, _, _, _, _, _, otherLocated⟩
          exact ⟨piece ++ before, by rw [otherLocated, Position.advance_append]⟩

theorem divides_start (matcher : Matcher) (text : String) :
    Divides text.toList ⟨matcher.stream text, []⟩ [] [] text.toList :=
  ⟨rfl, rfl, .nil _, .nil _, rfl⟩

theorem Divides.putBack (divides : Divides text session held again rest) :
    Exists fun held => Exists fun again => Divides text session.putBack held again rest := by
  rcases session with ⟨stream, tokens⟩
  cases tokens with
  | nil => exact ⟨held, again, divides⟩
  | cons token tokens =>
      have tiles := divides.first
      rw [List.reverse_cons] at tiles
      rcases tiles.split with ⟨fewer, piece, rfl, fewerTiles, last⟩
      have place := divides.place
      rw [List.append_assoc] at place
      refine ⟨fewer, piece ++ again, ?_, divides.source, fewerTiles, ?_, place⟩
      · rw [divides.whole]
        simp only [List.append_assoc]
      · have both := divides.second
        rw [Position.advance_append] at both
        exact last.append both

/-- A request keeps the division: it moves a token that was put back to those that are held, or reads
one behind them. -/
theorem Divides.after (divides : Divides text session held again rest) (request : Request)
    (uncut : ¬ session.stream.Cuts request) :
    Exists fun held => Exists fun again => Exists fun rest =>
      Divides text (session.after request) held again rest := by
  have replies := session.stream.replies_reply request
  unfold Session.after
  generalize session.stream.reply request = reply at replies
  cases replies with
  | replayed token backlog kept =>
      have tiles := divides.second
      rw [kept] at tiles
      cases tiles with
      | cons _ _ piece _ others own inhabited located later =>
          refine ⟨held ++ piece, others, rest, ?_, divides.source, ?_, ?_, ?_⟩
          · rw [divides.whole]
            simp only [List.append_assoc]
          · rw [List.reverse_cons]
            exact divides.first.concat own inhabited located
          · rwa [Position.advance_append]
          · rw [List.append_assoc]
            exact divides.place
  | read name piece others left inhabited =>
      have rewound := divides.rewind
      have same : again ++ rest = piece ++ others := by
        have found := rewound.rest?
        exact Option.some.inj (found.symm.trans left)
      refine ⟨held ++ piece, [], others, ?_, rewound.source, ?_, ?_, ?_⟩
      · rw [divides.whole, List.append_assoc, same, List.append_nil, List.append_assoc]
      · rw [List.reverse_cons]
        refine divides.first.concat rfl inhabited ?_
        exact rewound.place.trans (by rw [List.append_nil])
      · change Tiles _ session.stream.rewind.backlog []
        rw [TokenStream.backlog_rewind]
        exact .nil _
      · change session.stream.rewind.place.advance piece = _
        have place : session.stream.rewind.place = Position.start.advance (held ++ []) :=
          rewound.place
        rw [place, List.append_nil, List.append_nil, Position.advance_append]
  | silent after same =>
      rcases same with rfl | rfl
      · exact ⟨held, again, rest, divides⟩
      · exact ⟨held, [], again ++ rest, divides.rewind⟩
  | failed c others failed fresh left =>
      exact ⟨held, again, rest, divides.whole, divides.source, divides.first, divides.second,
        divides.place⟩
  | brokenOff => exact ⟨held, again, rest, divides⟩
  | cut token after cuts => exact (uncut cuts).elim

end Session

theorem Reached.divides {matcher : Matcher} {text : String} {session : Session}
    (reached : Reached matcher text session) :
    Exists fun held => Exists fun again => Exists fun rest =>
      session.Divides text.toList held again rest := by
  induction reached with
  | start => exact ⟨[], [], text.toList, Session.divides_start matcher text⟩
  | request session request _ uncut inductionHypothesis =>
      rcases inductionHypothesis with ⟨held, again, rest, divides⟩
      exact divides.after request uncut
  | putBack session _ inductionHypothesis =>
      rcases inductionHypothesis with ⟨held, again, rest, divides⟩
      rcases divides.putBack with ⟨fewer, more, kept⟩
      exact ⟨fewer, more, rest, kept⟩

/-! ## What is true at every moment -/

namespace Session

variable {text : List Char} {session : Session} {held again rest : List Char}

/-- A reply without a token leaves the position where it was. -/
theorem Divides.position_of_silent (divides : Divides text session held again rest)
    {request : Request} {answer : Answer} {stream : TokenStream}
    (replied : session.stream.reply request = (answer, stream))
    (silent : forall token, answer ≠ .ok (some token)) :
    stream.position = session.stream.position := by
  have replies := session.stream.replies_reply request
  rw [replied] at replies
  cases replies with
  | replayed token | read | cut token => exact (silent _ rfl).elim
  | failed | brokenOff => rfl
  | silent after same =>
      rcases same with rfl | rfl
      · rfl
      · rw [divides.position]
        exact divides.rewind.position

theorem Divides.next_eq_none_iff (divides : Divides text session held again rest)
    (preference : Preference) :
    (session.stream.next preference).1 = .ok none ↔ session.stream.isExhausted = true := by
  have left := divides.rest?
  have tiles := divides.second
  have offset : session.stream.place.offset = Text.byteSize (held ++ again) := by
    rw [divides.place, Position.offset_advance_start]
  have size : Text.byteSize session.stream.text =
      Text.byteSize (held ++ again) + Text.byteSize rest := by
    rw [divides.source, divides.whole, Text.byteSize_append]
  unfold next isExhausted
  rw [offset, size, left]
  cases backlog : session.stream.backlog with
  | cons token tokens => simp
  | nil =>
      cases rest with
      | nil => simp [Text.byteSize]
      | cons c others =>
          have positive := c.utf8Size_pos
          have behind : ¬ Text.byteSize (held ++ again) + Text.byteSize (c :: others) ≤
              Text.byteSize (held ++ again) := by
            rw [Text.byteSize]
            omega
          simp only [behind, decide_false, Bool.and_false, Bool.false_eq_true, iff_false]
          split <;> exact fun impossible => by cases impossible

/-- A failure is at the position, and shows the character there. -/
theorem Divides.of_failure (divides : Divides text session held again rest) {request : Request}
    {error : LexError} (failed : (session.stream.reply request).1 = .error (.lex error)) :
    error.position = session.stream.position ∧
      Exists fun others => Text.dropBytes? text session.stream.position.offset =
        some (error.character :: others) := by
  have replies := session.stream.replies_reply request
  generalize session.stream.reply request = reply at replies failed
  cases replies with
  | replayed | read | silent | brokenOff | cut => cases failed
  | failed c others flag fresh left =>
      cases failed
      have same : session.stream.position = session.stream.place := by
        unfold TokenStream.position
        rw [fresh]
      refine ⟨same.symm, others, ?_⟩
      rw [same, ← divides.source]
      exact left

end Session

/-- At every moment, the tokens that are held have together the text up to the position; each has the
piece of the text at its place, which is not empty, and its place is where its offset is located.
Replies without a token leave the position where it was, nothing comes next exactly if the stream is
exhausted, and a failure is at the position and shows the character there. -/
theorem Reached.lossless {matcher : Matcher} {text : String} {session : Session}
    (reached : Reached matcher text session) :
    Text.takeBytes? text.toList session.stream.position.offset =
      some (session.held.reverse.flatMap fun token => token.textOrEmpty.toList) ∧
    (forall token, token ∈ session.held -> token.textOrEmpty ≠ "" ∧
      (Exists fun rest => Text.dropBytes? text.toList token.position.offset =
        some (token.textOrEmpty.toList ++ rest)) ∧
      token.position = Position.locate text.toList token.position.offset) ∧
    (forall request answer stream, session.stream.reply request = (answer, stream) ->
      (forall token, answer ≠ .ok (some token)) -> stream.position = session.stream.position) ∧
    (forall preference, (session.stream.next preference).1 = .ok none ↔
      session.stream.isExhausted = true) ∧
    forall request error, (session.stream.reply request).1 = .error (.lex error) ->
      error.position = session.stream.position ∧
      Exists fun rest => Text.dropBytes? text.toList session.stream.position.offset =
        some (error.character :: rest) := by
  rcases reached.divides with ⟨held, again, rest, divides⟩
  refine ⟨?_, fun token member => ?_, fun request answer stream => divides.position_of_silent,
    divides.next_eq_none_iff, fun request error => divides.of_failure⟩
  · rw [divides.position, Position.offset_advance_start, divides.first.joined]
    exact Text.takeBytes?_eq_some_iff.mpr ⟨again ++ rest, by rw [divides.whole, List.append_assoc], rfl⟩
  · rcases divides.first.of_mem (List.mem_reverse.mpr member) with
      ⟨before, piece, after, rfl, own, inhabited, located⟩
    have shown : token.textOrEmpty.toList = piece := by
      rw [Token.textOrEmpty, own, Option.getD_some, String.toList_ofList]
    have whole : text.toList = before ++ (piece ++ (after ++ again ++ rest)) := by
      rw [divides.whole]
      simp only [List.append_assoc]
    refine ⟨?_, ⟨after ++ again ++ rest, ?_⟩, ?_⟩
    · intro empty
      rw [empty] at shown
      exact inhabited shown.symm
    · rw [located, Position.offset_advance_start, shown]
      exact Text.dropBytes?_eq_some_iff.mpr ⟨before, whole, rfl⟩
    · rw [located, whole, Position.locate_advance]

end TokenStream

/-! ## Anchored patterns -/

/-- The patterns of a matcher begin with the assertion of the beginning of the text. -/
structure Matcher.Anchored (matcher : Matcher) : Prop where
  entries : forall entry, entry ∈ matcher.entries -> entry.single.expr.isAnchored = true
  unions : forall union, union ∈ matcher.unions -> union.expr.isAnchored = true

/-- An anchored pattern finds a beginning of the text. -/
theorem Pattern.takeBytes?_of_anchored {pattern : Pattern} (anchored : pattern.expr.isAnchored = true)
    {text : List Char} {found : Pattern.Match} (matched : pattern.find? text = some found) :
    Text.takeBytes? text (Text.byteSize found.matched) = some found.matched := by
  have atStart : found.skipped = [] := by
    rw [find?, PatternExpr.search, if_pos anchored, Option.map_map] at matched
    rcases Option.map_eq_some_iff.mp matched with ⟨fin, _, rfl⟩
    rfl
  rcases prefix_of_find? matched atStart with ⟨rest, whole⟩
  exact Text.takeBytes?_eq_some_iff.mpr ⟨rest, whole, rfl⟩

namespace TokenStream

theorem uncut_of_anchored {stream : TokenStream} (anchored : stream.matcher.Anchored)
    (request : Request) : ¬ stream.Cuts request := by
  intro cuts
  induction cuts with
  | next preference rest candidate fresh left longest inside =>
      refine Matcher.size_of_scan (fun size => Text.takeBytes? rest size ≠ none) ?_ ?_ longest inside
      · intro union found member matched _ impossible
        rw [Pattern.takeBytes?_of_anchored (anchored.unions union member) matched] at impossible
        cases impossible
      · intro _ impossible
        cases impossible
  | advance goes cuts inductionHypothesis => exact inductionHypothesis
  | token name entry rest found declared left matched inside =>
      have member : entry ∈ stream.matcher.entries := List.mem_of_find?_eq_some declared
      rw [Pattern.takeBytes?_of_anchored (anchored.entries entry member) matched] at inside
      cases inside

theorem Reached.matcher {matcher : Matcher} {text : String} {session : Session}
    (reached : Reached matcher text session) : session.stream.matcher = matcher := by
  induction reached with
  | start => rfl
  | request session request _ uncut inductionHypothesis =>
      have replies := session.stream.replies_reply request
      unfold Session.after
      generalize session.stream.reply request = reply at replies
      cases replies with
      | replayed | failed | brokenOff => exact inductionHypothesis
      | read => exact matcher_rewind.trans inductionHypothesis
      | silent after same =>
          rcases same with rfl | rfl
          · exact inductionHypothesis
          · exact matcher_rewind.trans inductionHypothesis
      | cut token after cuts => exact (uncut cuts).elim
  | putBack session _ inductionHypothesis =>
      unfold Session.putBack
      split <;> exact inductionHypothesis

/-- Where the patterns are anchored, every request comes back. -/
theorem Reached.request_of_anchored {matcher : Matcher} {text : String} {session : Session}
    (reached : Reached matcher text session) (anchored : matcher.Anchored) (request : Request) :
    Reached matcher text (session.after request) :=
  .request session request reached (uncut_of_anchored (reached.matcher ▸ anchored) request)

/-! ## A word read twice -/

/-- A keyword is read and put back.  Then it is read as a word, and a number and a line feed behind
it. -/
def Session.reread : Session :=
  let first : Session := ⟨Matcher.conditional.stream "if1\nx", []⟩
  ((((first.after (.next .nothing)).putBack).after (.token "word")).after .advance).after
    (.literal "\n")

/-- The word, the number and the line feed have the text up to the second line. -/
theorem Reached.lossless_reread :
    Reached .conditional "if1\nx" .reread ∧ Session.reread.stream.position = ⟨2, 1, 4⟩ ∧
    Session.reread.held = [⟨"\n", some "\n", ⟨1, 4, 3⟩⟩, ⟨"number", some "1", ⟨1, 3, 2⟩⟩,
      ⟨"word", some "if", ⟨1, 1, 0⟩⟩] ∧
    Text.takeBytes? "if1\nx".toList 4 =
      some (Session.reread.held.reverse.flatMap fun token => token.textOrEmpty.toList) := by
  have anchored : Matcher.conditional.Anchored := ⟨by decide +kernel, by decide +kernel⟩
  have keyword : Reached .conditional "if1\nx" _ :=
    Reached.start.request_of_anchored anchored (.next .nothing)
  have word := keyword.putBack.request_of_anchored anchored (.token "word")
  have number := word.request_of_anchored anchored .advance
  have reached : Reached .conditional "if1\nx" .reread :=
    number.request_of_anchored anchored (.literal "\n")
  have position : Session.reread.stream.position = ⟨2, 1, 4⟩ := by decide +kernel
  have kept := reached.lossless.1
  rw [position] at kept
  exact ⟨reached, position, by decide +kernel, kept⟩

end TokenStream

end ShiftReduce
