import Mathlib.Logic.Function.Basic
import ShiftReduce.Proofs.Parse.Stack
import ShiftReduce.Proofs.Table.Renumbering

namespace ShiftReduce

/-!
# Reductions under other names

What a reduction does with the stack, the collections and the nodes depends on names only through
their equality.  So the same rule under other names does the same under other names, if no two names
become one.  Only the messages about a table that is broken hold names in another way; there nothing
is said about the other reduction.

A repetition that grows too long is blamed on the rule that it was written in.  A relabeling does not
change whom a name belongs to, so the blame stays the same too.
-/

/-- Names are exchanged for others, but not the empty one, and not the rule that a helper belongs
to. -/
structure Relabels (name : String -> String) : Prop where
  injective : Function.Injective name
  ends : name "" = ""
  owner : forall collector, Collections.ownerOf (name collector) = Collections.ownerOf collector

/-- The token under another name. -/
def Token.rename (name : String -> String) (token : Token) : Token :=
  { token with name := name token.name }

@[simp] theorem Token.isSynthetic_rename (name : String -> String) (token : Token) :
    (token.rename name).isSynthetic = token.isSynthetic := rfl

theorem Token.rename_eq {name : String -> String} {token : Token}
    (kept : name token.name = token.name) : token.rename name = token := by
  rw [rename, kept]

theorem Token.map_rename_eq {name : String -> String} {tokens : List Token}
    (kept : forall token, token ∈ tokens -> name token.name = token.name) :
    tokens.map (rename name) = tokens :=
  (List.map_congr_left fun token member => rename_eq (kept token member)).trans (List.map_id _)

/-- The collection with its tokens under other names. -/
def Collection.rename (name : String -> String) (collection : Collection) : Collection :=
  ⟨collection.tokens.map (Token.rename name), collection.groups⟩

/-- The report with its tokens under other names, and with another label. -/
def Call.rename (name : String -> String) (label : String) (call : Call) : Call :=
  ⟨call.recipient, label, call.tokens.map (Token.rename name)⟩

/-- The table has asked for what is not there. -/
def Halt.IsBroken : Halt -> Prop
  | .failed (.internal _ _) => True
  | .failed _ => False
  | .outOfRange => True
  | .unclaimed => False

/-- What is done under other names, unless the table is broken. -/
inductive Echoes {α β : Type} (name : String -> String) (relates : α -> β -> Prop) :
    Except Halt α -> Except Halt β -> Prop where
  | done (value : α) (other : β) (related : relates value other) :
      Echoes name relates (.ok value) (.ok other)
  | exceeded (owner : String) (most : Nat) (token : Token) :
      Echoes name relates (.error (.failed (.tooMany owner most token)))
        (.error (.failed (.tooMany owner most (token.rename name))))
  | broken (halt : Halt) (other : Except Halt β) (isBroken : halt.IsBroken) :
      Echoes name relates (.error halt) other

variable {name : String -> String}

/-! ## Collections -/

namespace Collections

/-- The collections under other names, and with their tokens under other names. -/
def rename (name : String -> String) (collections : Collections) : Collections :=
  collections.map fun held => (name held.1, held.2.rename name)

theorem rename_cons (key : String) (collection : Collection) (rest : Collections) :
    rename name ((key, collection) :: rest) =
      (name key, collection.rename name) :: rename name rest := rfl

theorem top?_rename (relabels : Relabels name) (collections : Collections) (key : String) :
    top? (rename name collections) (name key) =
      (top? collections key).map (Collection.rename name) := by
  unfold top?
  induction collections with
  | nil => rfl
  | cons head rest inductionHypothesis =>
      rcases head with ⟨known, collection⟩
      rw [rename_cons, List.lookup_cons, List.lookup_cons]
      by_cases same : key = known
      · rw [same, beq_self_eq_true, beq_self_eq_true]
        rfl
      · rw [beq_eq_false_iff_ne.mpr same,
          beq_eq_false_iff_ne.mpr fun merged => same (relabels.injective merged)]
        exact inductionHypothesis

theorem drop_rename (relabels : Relabels name) (collections : Collections) (key : String) :
    drop (name key) (rename name collections) = rename name (drop key collections) := by
  induction collections with
  | nil => rfl
  | cons head rest inductionHypothesis =>
      rcases head with ⟨known, collection⟩
      rw [rename_cons, drop, drop]
      by_cases same : known = key
      · rw [if_pos same, if_pos (congrArg name same)]
      · rw [if_neg same, if_neg fun merged => same (relabels.injective merged), rename_cons,
          inductionHypothesis]

theorem replace_rename (relabels : Relabels name) (collections : Collections) (key : String)
    (collection : Collection) :
    replace (name key) (collection.rename name) (rename name collections) =
      rename name (replace key collection collections) := by
  induction collections with
  | nil => rfl
  | cons head rest inductionHypothesis =>
      rcases head with ⟨known, before⟩
      rw [rename_cons, replace, replace]
      by_cases same : known = key
      · rw [if_pos same, if_pos (congrArg name same), rename_cons]
      · rw [if_neg same, if_neg fun merged => same (relabels.injective merged), rename_cons,
          inductionHypothesis]

theorem splice_rename (relabels : Relabels name) (reducing : String) (children : List Token)
    (collections : Collections) :
    splice (name reducing) (children.map (Token.rename name)) (rename name collections) =
      ((splice reducing children collections).1.map (Token.rename name),
        rename name (splice reducing children collections).2) := by
  induction children generalizing collections with
  | nil => rfl
  | cons child rest inductionHypothesis =>
      have top : (if (child.rename name).isSynthetic ∧ (child.rename name).name ≠ name reducing then
            top? (rename name collections) (child.rename name).name else none) =
          (if child.isSynthetic ∧ child.name ≠ reducing then top? collections child.name
            else none).map (Collection.rename name) := by
        have taken : ((child.rename name).isSynthetic ∧ (child.rename name).name ≠ name reducing) ↔
            (child.isSynthetic ∧ child.name ≠ reducing) :=
          and_congr_right fun _ => relabels.injective.ne_iff
        have here : top? (rename name collections) (child.rename name).name =
            (top? collections child.name).map (Collection.rename name) :=
          top?_rename relabels collections child.name
        rw [if_congr taken here rfl]
        split <;> rfl
      rw [List.map_cons, splice, splice, top]
      cases (if child.isSynthetic ∧ child.name ≠ reducing then top? collections child.name
          else none) with
      | none =>
          dsimp only [Option.map_none]
          rw [inductionHypothesis, List.map_cons]
      | some collection =>
          have dropped : drop (child.rename name).name (rename name collections) =
              rename name (drop child.name collections) := drop_rename relabels collections child.name
          dsimp only [Option.map_some]
          rw [dropped, inductionHypothesis, List.map_append]
          rfl

theorem gather_rename (relabels : Relabels name) (collector : String) (max group : Nat)
    (popped children : List Token) (collections : Collections) :
    Echoes name (fun value other => other = rename name value)
      (gather collector max group popped children collections)
      (gather (name collector) max group (popped.map (Token.rename name))
        (children.map (Token.rename name)) (rename name collections)) := by
  cases popped with
  | nil => exact .done _ _ rfl
  | cons head rest =>
      have recursive : ((head.rename name).isSynthetic && (head.rename name).name == name collector) =
          (head.isSynthetic && head.name == collector) := by
        congr 1
        rw [Bool.eq_iff_iff, beq_iff_eq, beq_iff_eq]
        exact relabels.injective.eq_iff
      rw [List.map_cons]
      unfold gather
      dsimp only
      have length : (head.rename name :: rest.map (Token.rename name)).length =
          (head :: rest).length := congrArg Nat.succ (List.length_map _)
      rw [recursive, length, top?_rename relabels]
      generalize (if group = 0 then 1 else group) = size
      split
      · exact .done _ _ rfl
      · cases top? collections collector with
        | none => exact .broken _ _ trivial
        | some known =>
            cases children with
            | nil => exact .broken _ _ trivial
            | cons first added =>
                rw [List.map_cons]
                have blamed : (added.map (Token.rename name)).headD (first.rename name) =
                    (added.headD first).rename name := by
                  cases added <;> rfl
                have groups : (known.rename name).groups = known.groups := rfl
                have tokens : (known.rename name).tokens ++ added.map (Token.rename name) =
                    (known.tokens ++ added).map (Token.rename name) := List.map_append.symm
                dsimp only [Option.map_some]
                rw [groups, tokens, relabels.owner, blamed]
                split
                · exact .exceeded _ _ _
                · refine .done _ _ ?_
                  rw [← replace_rename relabels]
                  rfl

end Collections

/-! ## Effects -/

namespace ReduceRule

open Collections

theorem effect_rename (relabels : Relabels name) (rule : ReduceRule) (popped : List Token)
    (emit : Emit) (children : List Token) (collections : Collections) :
    Echoes name (fun value other => other = (Collections.rename name value.1,
        value.2.map (Call.rename name (rule.rename name).reportedAs)))
      (rule.effect popped emit children collections)
      ((rule.rename name).effect (popped.map (Token.rename name)) (emit.rename name)
        (children.map (Token.rename name)) (Collections.rename name collections)) := by
  induction emit generalizing children collections with
  | none | report | callback | choice => exact .done _ _ rfl
  | repetition collector max group =>
      have gathered := gather_rename relabels collector max group popped children collections
      rw [effect, Emit.rename, effect]
      generalize gather collector max group popped children collections = result at gathered ⊢
      generalize gather (name collector) max group _ _ _ = other at gathered ⊢
      cases gathered with
      | done value other related =>
          rw [related]
          exact .done _ _ rfl
      | exceeded owner most token => exact .exceeded owner most token
      | broken halt other isBroken => exact .broken halt _ isBroken
  | merge inner inductionHypothesis =>
      have own : (rule.rename name).nonterminal = name rule.nonterminal := rfl
      rw [effect, Emit.rename, effect, own, splice_rename relabels]
      exact inductionHypothesis _ _

/-- Under other names, a reduction does the same. -/
theorem reduce_rename (relabels : Relabels name) (rule : ReduceRule) (popped : List Token)
    (collections : Collections) :
    Echoes name (fun value other => other = (Collections.rename name value.1,
        value.2.map (Call.rename name (rule.rename name).reportedAs)))
      (rule.reduce popped collections)
      ((rule.rename name).reduce (popped.map (Token.rename name))
        (Collections.rename name collections)) :=
  effect_rename relabels rule popped rule.emit popped collections

end ReduceRule

/-! ## Stacks -/

/-- The frame holds the token under another name, and a corresponding state. -/
structure Frame.Alike (name : String -> String) (states : Nat -> Nat -> Prop)
    (frame other : Frame) : Prop where
  token : other.token = frame.token.rename name
  state : states frame.state other.state

variable {states : Nat -> Nat -> Prop}

theorem stateOf_alike (start : states 0 0) {stack others : List Frame}
    (alike : List.Forall₂ (Frame.Alike name states) stack others) :
    states (stateOf stack) (stateOf others) := by
  cases alike with
  | nil => exact start
  | cons first _ => exact first.state

theorem tokensOf_alike {stack others : List Frame}
    (alike : List.Forall₂ (Frame.Alike name states) stack others) :
    Frame.tokensOf others = (Frame.tokensOf stack).map (Token.rename name) := by
  unfold Frame.tokensOf
  rw [List.map_reverse]
  congr 1
  induction alike with
  | nil => rfl
  | cons first _ inductionHypothesis =>
      rw [List.map_cons, List.map_cons, List.map_cons, inductionHypothesis, first.token]

/-- Where a rule finds its symbols, they are found under other names. -/
theorem Frame.pop_alike {stack others below : List Frame} {symbols : List String}
    {popped : List Token} (alike : List.Forall₂ (Frame.Alike name states) stack others)
    (pops : Frame.pop symbols stack = .ok (popped, below)) :
    Exists fun bottom =>
      Frame.pop (symbols.map name) others = .ok (popped.map (Token.rename name), bottom) ∧
        List.Forall₂ (Frame.Alike name states) below bottom := by
  rcases Frame.of_pop pops with ⟨top, rfl, rfl, rfl⟩
  have upper := List.forall₂_take top.length alike
  have lower := List.forall₂_drop top.length alike
  rw [List.take_left] at upper
  rw [List.drop_left] at lower
  refine ⟨others.drop top.length, ?_, lower⟩
  have tokens := tokensOf_alike upper
  have names : (namesOf (others.take top.length)).reverse = ((Frame.tokensOf top).map Token.name).map name := by
    rw [← Frame.names_tokensOf, tokens, List.map_map, List.map_map]
    rfl
  have length : (others.take top.length).length =
      (((Frame.tokensOf top).map Token.name).map name).length := by
    rw [← upper.length_eq, List.length_map, List.length_map, Frame.tokensOf, List.length_reverse,
      List.length_map]
  rw [← tokens, ← Frame.pop_eq names length, List.take_append_drop]

/-- Popping fails only with a table that is broken. -/
theorem Frame.broken_of_pop {symbols : List String} {stack : List Frame} {halt : Halt}
    (fails : Frame.pop symbols stack = .error halt) : halt.IsBroken := by
  unfold Frame.pop at fails
  split at fails
  · cases fails
    exact trivial
  · dsimp only at fails
    split at fails
    · cases fails
      exact trivial
    · cases fails

/-! ## Nodes -/

namespace PendingNode

/-- The nodes make the same trees.  Nobody sees the label of an operator's node. -/
structure Alike (node other : PendingNode) : Prop where
  children : other.children = node.children
  helper : other.helper = node.helper
  label : node.helper = false -> other.label = node.label

theorem contribution_alike {node other : PendingNode} (alike : Alike node other) :
    other.contribution = node.contribution := by
  unfold contribution
  rw [alike.helper, alike.children]
  split
  · rfl
  next isRule => rw [alike.label (Bool.eq_false_iff.mpr isRule)]

theorem childrenOf_alike (keep : Token -> Bool) {popped : List Token}
    (real : forall token, token ∈ popped -> token.isSynthetic = false ->
      name token.name = token.name) {nodes others : List PendingNode}
    (alike : List.Forall₂ Alike nodes others) :
    childrenOf keep (popped.map (Token.rename name)) others = childrenOf keep popped nodes := by
  induction popped generalizing nodes others with
  | nil => rfl
  | cons token rest inductionHypothesis =>
      have later := fun {front back : List PendingNode} (same : List.Forall₂ Alike front back) =>
        inductionHypothesis (fun other member => real other (List.mem_cons_of_mem _ member)) same
      rw [List.map_cons]
      unfold childrenOf
      rw [Token.isSynthetic_rename]
      cases synthetic : token.isSynthetic with
      | true =>
          rw [if_pos rfl, if_pos rfl]
          cases alike with
          | nil => exact later .nil
          | cons first others =>
              dsimp only
              rw [contribution_alike first, later others]
      | false =>
          rw [if_neg Bool.false_ne_true, if_neg Bool.false_ne_true, later alike,
            Token.rename_eq (real token List.mem_cons_self synthetic)]

/-- Where a reduction makes a node, the reduction under other names makes one like it. -/
theorem reduce_alike (keep : Token -> Bool) {rule : ReduceRule}
    (label : rule.helper = false -> (rule.rename name).reportedAs = rule.reportedAs)
    {popped : List Token} (real : forall token, token ∈ popped -> token.isSynthetic = false ->
      name token.name = token.name) {nodes others made : List PendingNode}
    (alike : List.Forall₂ Alike nodes others) (reduced : reduce keep rule popped nodes = .ok made) :
    Exists fun after =>
      reduce keep (rule.rename name) (popped.map (Token.rename name)) others = .ok after ∧
        List.Forall₂ Alike made after := by
  have wanted : (popped.map (Token.rename name)).countP Token.isSynthetic =
      popped.countP Token.isSynthetic := List.countP_map
  unfold reduce at reduced ⊢
  dsimp only at reduced ⊢
  rw [wanted, ← alike.length_eq]
  split at reduced
  · cases reduced
  next enough =>
    cases reduced
    rw [if_neg enough]
    refine ⟨_, rfl, .cons ⟨?_, rfl, label⟩ (List.forall₂_drop _ alike)⟩
    exact childrenOf_alike keep real (List.forall₂_reverse_iff.mpr (List.forall₂_take _ alike))

theorem broken_of_reduce {keep : Token -> Bool} {rule : ReduceRule} {popped : List Token}
    {nodes : List PendingNode} {halt : Halt}
    (fails : reduce keep rule popped nodes = .error halt) : halt.IsBroken := by
  unfold reduce at fails
  dsimp only at fails
  split at fails
  · cases fails
    exact trivial
  · cases fails

end PendingNode

end ShiftReduce
