import Mathlib.Data.Multiset.DershowitzManna
import Mathlib.Order.WellFounded
import ShiftReduce.Proofs.Grammar.Drafts

namespace ShiftReduce

/-!
# Drafts in a queue

Drafts can be rewritten one by one.  They wait in a queue, the first of them is rewritten, and its
helpers are put at the end.  That this is the same as rewriting by levels of nesting is no accident: the
queue holds what is left of one level and then what has been found of the next.

Neither the queue nor the operators in it become fewer.  A body that has to be there a number of times is
copied as often, and once more into the production that grows, and each copy of an operator in it has a
helper of its own.  What becomes smaller is the multiset of the depths: one depth is taken away, and
those that are put in its place are less.  This has nothing to do with the order of the queue, so the
drafts run out in whatever order they are taken.
-/

namespace Draft

/-! ## Any order -/

/-- One of the drafts that wait is rewritten and its helpers wait in its place.  Which draft it is and in
which order the others are kept is left open. -/
inductive Rewrites : List Draft -> List Draft -> Prop where
  | rewrite (earlier later rest helpers : List Draft) (draft : Draft) (rule : PlainRule)
      (taken : earlier.Perm (draft :: rest)) (rewritten : draft.rewrite = .ok (rule, helpers))
      (kept : later.Perm (rest ++ helpers)) : Rewrites earlier later

/-- The depths of drafts, in no order. -/
def depths (drafts : List Draft) : Multiset Nat := drafts.map depth

theorem depths_eq_of_perm {left right : List Draft} (same : left.Perm right) :
    depths left = depths right :=
  Multiset.coe_eq_coe.mpr (same.map depth)

theorem depths_append (left right : List Draft) :
    depths (left ++ right) = depths left + depths right := by
  rw [depths, List.map_append, ← Multiset.coe_add]
  rfl

/-- The helpers of a draft are nested less deep than the draft. -/
theorem depth_lt_of_rewrite {draft : Draft} {rule : PlainRule} {helpers : List Draft}
    (rewritten : draft.rewrite = .ok (rule, helpers)) {helper : Draft} (member : helper ∈ helpers) :
    helper.depth < draft.depth := by
  rcases (rewrite_eq rewritten).2.1 helper member with ⟨production, index, symbol, helperOf⟩
  exact depth_lt_of_helper helperOf

/-- A draft is taken from the depths, and what comes in its place is less. -/
theorem Rewrites.depths_lt {earlier later : List Draft} (rewrites : Rewrites earlier later) :
    (depths later).IsDershowitzMannaLT (depths earlier) := by
  cases rewrites with
  | rewrite rest helpers draft rule taken rewritten kept =>
      refine ⟨depths rest, depths helpers, {draft.depth}, Multiset.singleton_ne_zero _, ?_, ?_, ?_⟩
      · rw [depths_eq_of_perm kept, depths_append]
      · rw [depths_eq_of_perm taken, add_comm, Multiset.singleton_add]
        rfl
      · intro depth member
        rcases List.mem_map.mp member with ⟨helper, listed, rfl⟩
        exact ⟨draft.depth, Multiset.mem_singleton_self _, depth_lt_of_rewrite rewritten listed⟩

/-- In whatever order drafts are rewritten, they run out. -/
theorem wellFounded_rewrites : WellFounded fun later earlier => Rewrites earlier later :=
  Subrelation.wf Rewrites.depths_lt
    (InvImage.wf depths Multiset.wellFounded_isDershowitzMannaLT)

end Draft

/-! ## First in, first out -/

/-- How far the drafts of a queue have been rewritten: those that wait, and the rules of those that have
been taken. -/
structure Rewriting where
  waiting : List Draft
  rules : List PlainRule

namespace Rewriting

/-- The draft at the front is rewritten, and its helpers are put at the end. -/
def next : Rewriting -> Except GrammarError Rewriting
  | ⟨[], rules⟩ => .ok ⟨[], rules⟩
  | ⟨draft :: waiting, rules⟩ => do
    let (rule, helpers) ← draft.rewrite
    return ⟨waiting ++ helpers, rules ++ [rule]⟩

/-- The queue after a number of steps, unless one of them has failed. -/
def after : Nat -> Rewriting -> Except GrammarError Rewriting
  | 0, rewriting => .ok rewriting
  | count + 1, rewriting => rewriting.next >>= after count

theorem after_add (first second : Nat) (rewriting : Rewriting) :
    rewriting.after (first + second) = rewriting.after first >>= after second := by
  induction first generalizing rewriting with
  | zero =>
      rw [Nat.zero_add]
      rfl
  | succ first inductionHypothesis =>
      rw [Nat.add_right_comm, after, after]
      cases rewriting.next with
      | error failure => rfl
      | ok following => exact inductionHypothesis following

/-- A step rewrites a draft that waits, so the queue is one of the orders in which this can be done. -/
theorem rewrites_of_next {earlier later : Rewriting} (waits : earlier.waiting ≠ [])
    (made : earlier.next = .ok later) : Draft.Rewrites earlier.waiting later.waiting := by
  rcases earlier with ⟨waiting, rules⟩
  cases waiting with
  | nil => exact (waits rfl).elim
  | cons draft waiting =>
      rcases of_bind_eq_ok made with ⟨⟨rule, helpers⟩, rewritten, same⟩
      cases same
      exact .rewrite _ _ waiting helpers draft rule (.refl _) rewritten (.refl _)

/-- The drafts at the front are rewritten as a level, and their helpers stand behind the others. -/
theorem after_level (drafts others : List Draft) (rules : List PlainRule) :
    (⟨drafts ++ others, rules⟩ : Rewriting).after drafts.length =
      Draft.rewriteEach drafts >>= fun result =>
        .ok ⟨others ++ result.2, rules ++ result.1⟩ := by
  induction drafts generalizing others rules with
  | nil =>
      change Except.ok _ = Except.ok _
      rw [List.append_nil, List.append_nil]
      rfl
  | cons draft rest inductionHypothesis =>
      rw [List.length_cons, after, List.cons_append, next, Draft.rewriteEach]
      cases draft.rewrite with
      | error failure => rfl
      | ok result =>
          change (⟨rest ++ others ++ result.2, rules ++ [result.1]⟩ : Rewriting).after _ = _
          rw [List.append_assoc, inductionHypothesis]
          change _ = (Draft.rewriteEach rest >>= _) >>= _
          cases Draft.rewriteEach rest with
          | error failure => rfl
          | ok later =>
              change Except.ok _ = Except.ok _
              rw [List.append_assoc, List.append_assoc]
              rfl

/-- A queue of drafts that are nested less deep than there are levels does what rewriting by levels
does, and runs empty. -/
theorem after_levels {levels : Nat} {drafts : List Draft}
    (small : forall draft, draft ∈ drafts -> draft.depth < levels) (rules : List PlainRule) :
    Exists fun count => (⟨drafts, rules⟩ : Rewriting).after count =
      Draft.rewriteLevels levels drafts >>= fun more => .ok ⟨[], rules ++ more⟩ := by
  induction levels generalizing drafts rules with
  | zero =>
      have none : drafts = [] := List.eq_nil_iff_forall_not_mem.mpr fun draft member =>
        Nat.not_lt_zero _ (small draft member)
      refine ⟨0, ?_⟩
      rw [none]
      change Except.ok _ = Except.ok _
      rw [List.append_nil]
  | succ levels inductionHypothesis =>
      have level := after_level drafts [] rules
      rw [List.append_nil] at level
      rw [Draft.rewriteLevels_succ]
      cases each : Draft.rewriteEach drafts with
      | error failure =>
          rw [each] at level
          exact ⟨drafts.length, level⟩
      | ok result =>
          have deeper : forall helper, helper ∈ result.2 -> helper.depth < levels := by
            intro helper member
            rcases (Draft.rewriteEach_eq each).2.1 helper member with
              ⟨owner, production, index, symbol, listed, helperOf⟩
            have less := Draft.depth_lt_of_helper helperOf
            have bound := small owner listed
            omega
          rcases inductionHypothesis deeper (rules ++ result.1) with ⟨count, rest⟩
          refine ⟨drafts.length + count, ?_⟩
          rw [after_add, level, each]
          change (⟨result.2, rules ++ result.1⟩ : Rewriting).after count = _
          rw [rest]
          change _ = (Draft.rewriteLevels levels result.2 >>= _) >>= _
          cases Draft.rewriteLevels levels result.2 with
          | error failure => rfl
          | ok more =>
              change Except.ok _ = Except.ok _
              rw [List.append_assoc]

end Rewriting

namespace Grammar

/-- The drafts of every grammar run out, in whatever order they are taken.  If they wait in a queue, then
after finitely many steps the queue is empty and what has been taken from it are the rules of the plain
grammar, or a step has failed and there is no plain grammar for the same reason. -/
theorem queue_ends (grammar : Grammar) :
    (¬ Exists fun moments : Nat -> List Draft => moments 0 = grammar.drafts ∧
      forall count, Draft.Rewrites (moments count) (moments (count + 1))) ∧
    Exists fun count =>
      (Exists fun rules =>
        (⟨grammar.drafts, []⟩ : Rewriting).after count = .ok ⟨[], rules⟩ ∧
          (grammar.rules ≠ [] -> grammar.toPlain = .ok ⟨rules⟩)) ∨
      Exists fun failure =>
        (⟨grammar.drafts, []⟩ : Rewriting).after count = .error failure ∧
          grammar.toPlain = .error failure := by
  refine ⟨?_, ?_⟩
  · rintro ⟨moments, start, endless⟩
    exact (acc_iff_isEmpty_descending_chain.mp
      (Draft.wellFounded_rewrites.apply grammar.drafts)).elim ⟨moments, start, endless⟩
  · rcases Rewriting.after_levels grammar.depth_lt_of_mem_drafts [] with ⟨count, ends⟩
    refine ⟨count, ?_⟩
    rw [ends, toPlain]
    cases levels : Draft.rewriteLevels (grammar.depth + 1) grammar.drafts with
    | error failure =>
        -- Without rules there are no levels, and nothing can fail in them.
        have inhabited : ¬ grammar.isEmpty = true := by
          intro empty
          rw [drafts, List.isEmpty_iff.mp empty] at levels
          cases levels
        refine Or.inr ⟨failure, rfl, ?_⟩
        rw [if_neg inhabited]
        rfl
    | ok rules =>
        refine Or.inl ⟨rules, rfl, fun inhabited => ?_⟩
        have notEmpty : ¬ grammar.isEmpty = true := fun empty => inhabited (List.isEmpty_iff.mp empty)
        rw [if_neg notEmpty]
        rfl

end Grammar

end ShiftReduce
