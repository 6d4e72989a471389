import ShiftReduce.Parse.Machine
import ShiftReduce.Proofs.Fallible

namespace ShiftReduce

/-!
# How a reduction fails

A reduction pops the tokens of its symbols, gathers and reports, and makes a node if a tree is built.
Popping and making nodes can miss something on a stack, which is an internal error.  An effect fails
only where it gathers, below any number of merges: a repetition that grows may have lost its collection
or its first child, or have a group too many.
-/

/-- The run misses something that it has put aside itself. -/
def Halt.IsInternal (halt : Halt) : Prop :=
  Exists fun expected => Exists fun found => halt = .failed (.internal expected found)

theorem Halt.IsInternal.ne_outOfRange {halt : Halt} (internal : halt.IsInternal) :
    halt ≠ .outOfRange := by
  rcases internal with ⟨_, _, rfl⟩
  exact Halt.noConfusion

variable {halt : Halt}

theorem Frame.pop_eq_error {symbols : List String} {stack : List Frame}
    (failed : Frame.pop symbols stack = .error halt) : halt.IsInternal := by
  unfold Frame.pop at failed
  split at failed
  · cases failed
    exact ⟨_, _, rfl⟩
  · dsimp only at failed
    split at failed
    · cases failed
      exact ⟨_, _, rfl⟩
    · cases failed

namespace PendingNode

theorem reduce_eq_error {keep : Token -> Bool} {rule : ReduceRule} {popped : List Token}
    {nodes : List PendingNode} (failed : PendingNode.reduce keep rule popped nodes = .error halt) :
    halt.IsInternal := by
  unfold PendingNode.reduce at failed
  dsimp only at failed
  split at failed
  · cases failed
    exact ⟨_, _, rfl⟩
  · cases failed

theorem finish_eq_error {nodes : List PendingNode}
    (failed : PendingNode.finish nodes = .error halt) : halt.IsInternal := by
  unfold PendingNode.finish at failed
  split at failed
  · cases failed
  · cases failed
    exact ⟨_, _, rfl⟩

end PendingNode

theorem Setting.nodesAfter_eq_error {σ : Type} {setting : Setting σ} {rule : ReduceRule}
    {popped : List Token} {nodes : List PendingNode}
    (failed : setting.nodesAfter rule popped nodes = .error halt) : halt.IsInternal := by
  unfold nodesAfter at failed
  split at failed
  · exact PendingNode.reduce_eq_error failed
  · cases failed

namespace Collections

/-- The ways in which gathering fails.  In all of them the first of the popped tokens is the repetition
itself. -/
inductive GatherFails (collector : String) (max : Nat) (popped children : List Token) : Halt -> Prop where
  | uncollected (halt : Halt) (internal : halt.IsInternal) : GatherFails collector max popped children halt
  | childless (empty : children = []) (first : (popped.map Token.name).head? = some collector) :
      GatherFails collector max popped children .outOfRange
  | exceeding (culprit : Token) (limited : 0 < max) (among : culprit ∈ children) :
      GatherFails collector max popped children (.failed (.tooMany (ownerOf collector) max culprit))

theorem gather_eq_error {collector : String} {max group : Nat} {popped children : List Token}
    {collections : Collections}
    (failed : gather collector max group popped children collections = .error halt) :
    GatherFails collector max popped children halt := by
  cases popped with
  | nil => cases failed
  | cons first rest =>
      unfold gather at failed
      dsimp only at failed
      cases recursive : first.isSynthetic && first.name == collector with
      | false =>
          rw [recursive] at failed
          cases failed
      | true =>
          have named : first.name = collector := by
            rw [Bool.and_eq_true, beq_iff_eq] at recursive
            exact recursive.2
          rw [recursive, if_neg (by decide)] at failed
          cases known : collections.top? collector with
          | none =>
              rw [known] at failed
              cases failed
              exact .uncollected _ ⟨_, _, rfl⟩
          | some collection =>
              rw [known] at failed
              cases children with
              | nil =>
                  cases failed
                  exact .childless rfl (congrArg some named)
              | cons child added =>
                  dsimp only at failed
                  by_cases exceeds : 0 < max ∧ max < collection.groups +
                      ((first :: rest).length - 1) / (if group = 0 then 1 else group)
                  · rw [if_pos exceeds] at failed
                    cases failed
                    refine .exceeding _ exceeds.1 ?_
                    cases added with
                    | nil => exact List.mem_cons_self
                    | cons next others => exact List.mem_cons_of_mem _ List.mem_cons_self
                  · rw [if_neg exceeds] at failed
                    cases failed

end Collections

/-- An effect fails where it gathers, as gathering does. -/
theorem ReduceRule.effect_eq_error {rule : ReduceRule} {popped children : List Token} {emit : Emit}
    {collections : Collections}
    (failed : rule.effect popped emit children collections = .error halt) :
    Exists fun collector => Exists fun max => Exists fun group => Exists fun merged =>
      emit.innermost = .repetition collector max group ∧
      Collections.GatherFails collector max popped merged halt := by
  induction emit generalizing children collections with
  | none | report | callback | choice => cases failed
  | repetition collector max group =>
      rcases of_bind_eq_error failed with failed | ⟨_, _, impossible⟩
      · exact ⟨collector, max, group, children, rfl, Collections.gather_eq_error failed⟩
      · cases impossible
  | merge inner inductionHypothesis =>
      rw [effect] at failed
      exact inductionHypothesis failed

end ShiftReduce
