import ShiftReduce.Parser
import ShiftReduce.Proofs.Ebnf.Acceptance
import ShiftReduce.Proofs.Parse.Places

namespace ShiftReduce

/-!
# The places that errors of the notation name

The source of the notation is of another kind than a stream: it keeps what is left of the text, and a
place that is moved over white space and comments as well.  It reads the text all the same, so errors of
the parser are true here as they are for other parsers.  The reader looks at the tree only, and the
tokens that it blames for a bound are leaves of the tree, which stand in the text.
-/

/-- What the error says about its place, if it has one, is true. -/
def NotationError.TrueOf (text : List Char) : NotationError -> Prop
  | .parse error => error.TrueOf text
  | .invalidBound number place => place.Shows text number.toList
  | _ => True

variable {text : List Char}

/-! ## The source -/

namespace NotationText

/-- The source of the notation reads its text. -/
theorem reads (text : List Char) : source.Reads text (Within text) where
  place := by
    rintro state ⟨before, whole, place⟩
    have own : source.position state = Position.start.advance before := place
    rw [own]
    exact Position.shows_advance whole
  token := by
    intro state preference token later within reply
    have replies := Replies.of_next reply
    refine ⟨within.next replies, ?_⟩
    rcases within.blanks with ⟨before, whole, place⟩
    cases replies with
    | token name lexeme rest here =>
        refine ⟨rfl, ?_⟩
        rw [here] at whole
        unfold Token.StandsIn Token.textOrEmpty
        rw [place, Option.getD_some, String.toList_ofList]
        exact Position.shows_advance whole
  ended := by
    intro state preference later within reply
    have replies := Replies.of_next reply
    refine ⟨within.next replies, ?_⟩
    rcases within.blanks with ⟨before, whole, place⟩
    cases replies with
    | ended blank =>
        rw [blank, List.append_nil] at whole
        have own : source.position
            ⟨[], state.place.advance (skipBlanks false state.rest).1⟩ =
              Position.start.advance before := place
        rw [own, Position.offset_advance_start, whole]
  failed := by
    intro state preference error later within reply
    have replies := Replies.of_next reply
    refine ⟨within.next replies, ?_⟩
    rcases within.blanks with ⟨before, whole, place⟩
    cases replies with
    | failed c rest here =>
        rw [here] at whole
        rw [place]
        exact Position.shows_advance whole

end NotationText

/-! ## The reader -/

namespace ParseTree

/-- All leaves of the tree stand in the text. -/
def StandsIn (tree : ParseTree) (text : List Char) : Prop :=
  forall token, token ∈ tree.leaves -> token.StandsIn text

theorem leaves_of_child {tree child : ParseTree} (member : child ∈ tree.children) :
    child.leaves ⊆ tree.leaves := by
  have among : forall trees : List ParseTree, child ∈ trees -> child.leaves ⊆ leavesOfEach trees := by
    intro trees listed
    induction trees with
    | nil => cases listed
    | cons head rest inductionHypothesis =>
        rw [leavesOfEach]
        rcases List.mem_cons.mp listed with rfl | later
        · exact List.subset_append_left _ _
        · exact List.subset_append_of_subset_right _ (inductionHypothesis later)
  cases tree with
  | node label children => exact among children member
  | leaf token => cases member

variable {tree : ParseTree}

theorem StandsIn.node (stands : tree.StandsIn text) {node : ParseTree} (member : node ∈ tree.nodes) :
    node.StandsIn text :=
  fun token leaf => stands token (leaves_of_child (List.mem_of_mem_filter member) leaf)

theorem StandsIn.token (stands : tree.StandsIn text) {token : Token} (member : token ∈ tree.tokens) :
    token.StandsIn text := by
  rcases List.mem_filterMap.mp member with ⟨child, listed, isLeaf⟩
  cases child with
  | node => cases isLeaf
  | leaf other =>
      cases isLeaf
      exact stands token (leaves_of_child listed List.mem_cons_self)

end ParseTree

namespace Ebnf

/-- If the reader fails here, its error is true. -/
def FailsTruly {α : Type} (text : List Char) (value : Except NotationError α) : Prop :=
  forall failure, value = .error failure -> failure.TrueOf text

section

variable {α β : Type}

theorem failsTruly_ok (result : α) : FailsTruly text (.ok result) :=
  fun _ failed => by cases failed

theorem failsTruly_misshapen (tree : ParseTree) :
    FailsTruly text (misshapen tree : Except NotationError α) := by
  rintro _ ⟨⟩
  exact trivial

theorem FailsTruly.bind {value : Except NotationError α} {next : α -> Except NotationError β}
    (first : FailsTruly text value)
    (later : forall result, value = .ok result -> FailsTruly text (next result)) :
    FailsTruly text (value >>= next) := by
  intro failure failed
  rcases of_bind_eq_error failed with failed | ⟨result, made, failed⟩
  · exact first failure failed
  · exact later result made failure failed

theorem failsTruly_mapM {compute : α -> Except NotationError β} {values : List α}
    (each : forall value, value ∈ values -> FailsTruly text (compute value)) :
    FailsTruly text (values.mapM compute) := by
  intro failure failed
  rcases mapM_eq_error failed with ⟨value, member, failed⟩
  exact each value member failure failed

end

variable {tree : ParseTree}

theorem failsTruly_readNumber {token : Token} (stands : token.StandsIn text) :
    FailsTruly text (readNumber token) := by
  unfold readNumber
  dsimp only
  split
  · rintro _ ⟨⟩
    exact stands
  · exact failsTruly_ok _

private theorem failsTruly_suffixed (values : List Nat) (body : List Symbol) :
    FailsTruly text (match tree.title, values with
      | "Star", [] => pure (Symbol.repeat0 body)
      | "Plus", [] => pure (Symbol.repeat1 body)
      | "Question", [] => pure (Symbol.optional body)
      | "Exact", [count] => pure (Symbol.bounded count count body)
      | "AtLeast", [min] => pure (Symbol.bounded min 0 body)
      | "Between", [min, max] => pure (Symbol.bounded min max body)
      | "AtMost", [max] => pure (Symbol.bounded 0 max body)
      | _, _ => misshapen tree) := by
  split
  iterate 7 exact failsTruly_ok _
  exact failsTruly_misshapen tree

/-- A suffix blames one of its own numbers. -/
theorem failsTruly_applySuffix (stands : tree.StandsIn text) (symbol : Symbol) :
    FailsTruly text (applySuffix tree symbol) := by
  have numbers : forall token, token ∈ tree.tokens.filter (·.name == "number") ->
      token.StandsIn text := fun token member => stands.token (List.mem_of_mem_filter member)
  unfold applySuffix
  dsimp only
  refine (failsTruly_mapM fun token member => failsTruly_readNumber (numbers token member)).bind
    fun values _ => ?_
  split
  next last _ found =>
    split
    · rintro _ ⟨⟩
      exact numbers last (List.mem_of_getLast? found)
    · exact failsTruly_suffixed values _
  · exact failsTruly_suffixed values _

theorem failsTruly_withoutLabels (rule : String) (branches : List Branch) :
    FailsTruly text (withoutLabels rule branches) := by
  induction branches with
  | nil => exact failsTruly_ok _
  | cons branch rest inductionHypothesis =>
      rw [withoutLabels]
      split
      · rintro _ ⟨⟩
        exact trivial
      · exact inductionHypothesis.bind fun _ _ => failsTruly_ok _

theorem failsTruly_onlyNode (tree : ParseTree) : FailsTruly text (onlyNode tree) := by
  unfold onlyNode
  split
  · exact failsTruly_ok _
  · exact failsTruly_misshapen tree

theorem mem_nodes_of_onlyNode {node : ParseTree} (only : onlyNode tree = .ok node) :
    node ∈ tree.nodes := by
  unfold onlyNode at only
  split at only
  next first others nodes =>
    cases only
    rw [nodes]
    exact List.mem_cons_self
  · cases only

/-! ## Alternatives -/

section

variable {rule : String} {bound : Nat}

theorem failsTruly_readItem
    (atoms : forall atom : ParseTree, atom.StandsIn text -> FailsTruly text (readAtom rule bound atom))
    (stands : tree.StandsIn text) : FailsTruly text (readItem rule bound tree) := by
  unfold readItem
  split
  · exact failsTruly_misshapen tree
  next atom suffixes nodes =>
    have inside : forall node, node ∈ atom :: suffixes -> node.StandsIn text := by
      intro node member
      rw [← nodes] at member
      exact stands.node member
    refine (atoms atom (inside atom List.mem_cons_self)).bind fun symbol _ => ?_
    split
    · exact failsTruly_ok _
    next suffix others =>
      exact failsTruly_applySuffix (inside suffix (by simp)) symbol

theorem failsTruly_readAlternatives
    (atoms : forall atom : ParseTree, atom.StandsIn text -> FailsTruly text (readAtom rule bound atom))
    (stands : tree.StandsIn text) : FailsTruly text (readAlternatives rule bound tree) := by
  unfold readAlternatives
  refine failsTruly_mapM fun sequence among => ?_
  unfold readSequence
  refine (failsTruly_mapM fun item within => ?_).bind fun _ _ => failsTruly_ok _
  exact failsTruly_readItem atoms ((stands.node among).node within)

/-- However deep groups are nested, what is said about a bound inside them is true. -/
theorem failsTruly_readAtom (rule : String) (bound : Nat) (stands : tree.StandsIn text) :
    FailsTruly text (readAtom rule bound tree) := by
  induction bound generalizing tree with
  | zero =>
      unfold readAtom
      exact failsTruly_misshapen tree
  | succ bound inductionHypothesis =>
      have group : FailsTruly text (onlyNode tree >>= fun alternatives =>
          readAlternatives rule bound alternatives >>= withoutLabels rule) := by
        refine (failsTruly_onlyNode tree).bind fun alternatives only => ?_
        refine FailsTruly.bind ?_ fun branches _ => failsTruly_withoutLabels rule branches
        exact failsTruly_readAlternatives (fun _ => inductionHypothesis)
          (stands.node (mem_nodes_of_onlyNode only))
      unfold readAtom
      dsimp only
      split
      · exact failsTruly_ok _
      · exact group.bind fun _ _ => failsTruly_ok _
      · exact group.bind fun _ _ => failsTruly_ok _
      · exact failsTruly_misshapen tree

end

theorem failsTruly_readRule (stands : tree.StandsIn text) : FailsTruly text (readRule tree) := by
  unfold readRule
  split
  · exact failsTruly_misshapen tree
  next name _ =>
    refine (failsTruly_onlyNode tree).bind fun alternatives only => ?_
    refine FailsTruly.bind ?_ fun _ _ => failsTruly_ok _
    exact failsTruly_readAlternatives (fun _ => failsTruly_readAtom name _)
      (stands.node (mem_nodes_of_onlyNode only))

/-! ## Whole texts -/

theorem reads_setting (text : List Char) : setting.source.Reads text (NotationText.Within text) :=
  NotationText.reads text

theorem standsIn_of_parseText {text : String} {tree : ParseTree} (parsed : parseText text = .ok tree) :
    tree.StandsIn text.toList :=
  Setting.standsIn_of_parseTree (reads_setting text.toList) rfl (NotationText.within_start text)
    (parseText_eq_ok.mp parsed)

/-- What is reported of a parse that fails is its error, if it has one. -/
theorem treeOrReport_eq_error {result : Except Outcome ParseTree} {failure : NotationError}
    (failed : treeOrReport result = .error failure) :
    (Exists fun error => result = .error (.stopped (.failed error)) ∧ failure = .parse error) ∨
      failure = .misshapenTree "" := by
  unfold treeOrReport at failed
  split at failed
  · cases failed
  next error => exact Or.inl ⟨error, rfl, (Except.error.inj failed).symm⟩
  · exact Or.inr (Except.error.inj failed).symm

theorem failsTruly_parseText (text : String) : FailsTruly text.toList (parseText text) := by
  intro failure failed
  rcases treeOrReport_eq_error failed with ⟨error, stopped, rfl⟩ | rfl
  · exact Setting.trueOf_of_ends (reads_setting text.toList) (NotationText.within_start text)
      (Or.inr stopped)
  · exact trivial

theorem failsTruly_ofText (text : String) : FailsTruly text.toList (Grammar.ofText text) := by
  unfold Grammar.ofText
  refine (failsTruly_parseText text).bind fun tree parsed => ?_
  refine FailsTruly.bind (failsTruly_mapM fun node member => ?_) fun _ _ => failsTruly_ok _
  exact failsTruly_readRule ((standsIn_of_parseText parsed).node member)

end Ebnf

/-- Whatever error a parser comes to over a text, its place is the one at its offset, and the text has
there what the error says: the character that no token begins with, the text of the token that cannot go
on, or its end.  The same is so of the errors that the text is refused with as a grammar, and a bound that
is refused is written at its place. -/
theorem errors_trueOf (text : String) :
    (forall (parser : Parser) (error : ParseError), parser.FailsWith text error ->
      error.TrueOf text.toList ∧ forall place, error.position? = some place ->
        place = Position.locate text.toList place.offset) ∧
    forall failure, Grammar.ofText text = .error failure -> failure.TrueOf text.toList :=
  ⟨fun _ _ fails => ⟨fails.trueOf, fun _ => fails.trueOf.located⟩, Ebnf.failsTruly_ofText text⟩

/-- A second comma is blamed where it stands, and so is a mark that the notation does not have, behind a
comment with a character of two bytes. -/
theorem errors_trueOf_strayMarks :
    (Parser.spaced.parse "x, ,").outcome =
      .stopped (.failed (.unexpectedToken "," "," ⟨1, 4, 3⟩)) ∧
    Position.Shows ⟨1, 4, 3⟩ "x, ,".toList ",".toList ∧
    Grammar.ofText "a // é\n= b % c;" = .error (.parse (.lex ⟨'%', ⟨2, 5, 12⟩⟩)) ∧
    Position.Shows ⟨2, 5, 12⟩ "a // é\n= b % c;".toList ['%'] := by
  have runs : ((Parser.spaced.setting TokenStream.source none).run 40
      (.start (Parser.spaced.matcher.stream "x, ,"))).1 =
      .stopped (.failed (.unexpectedToken "," "," ⟨1, 4, 3⟩)) := by decide +kernel
  have parsed := Setting.outcome_of_run runs Outcome.noConfusion
  have stops : (Ebnf.setting.run 40 (.start (.start "a // é\n= b % c;"))).1 =
      .stopped (.failed (.lex ⟨'%', ⟨2, 5, 12⟩⟩)) := by decide +kernel
  have refused : Grammar.ofText "a // é\n= b % c;" = .error (.parse (.lex ⟨'%', ⟨2, 5, 12⟩⟩)) := by
    have failed : (Ebnf.setting.parseTree (.start "a // é\n= b % c;")).tree =
        .error (.stopped (.failed (.lex ⟨'%', ⟨2, 5, 12⟩⟩))) := by
      rw [Setting.parseTree_of_run (by rw [stops]; exact Outcome.noConfusion),
        TreeResult.tree_ofRun_eq_error_iff]
      exact Or.inl ⟨by rw [stops]; exact Outcome.noConfusion, stops⟩
    unfold Grammar.ofText Ebnf.parseText
    rw [failed]
    rfl
  exact ⟨parsed, ((errors_trueOf _).1 Parser.spaced _ (.parse parsed)).1, refused,
    (errors_trueOf _).2 _ refused⟩

end ShiftReduce
