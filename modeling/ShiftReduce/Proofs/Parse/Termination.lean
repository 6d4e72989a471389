import ShiftReduce.Proofs.Parse.Safety
import ShiftReduce.Proofs.Table.Unambiguity

namespace ShiftReduce

/-!
# Parses that do not end

The rule that a state reduces at the end of the input is reduced in front of every token for which
the state has no entry.  As a rule this costs nothing, since the token is refused by a later state.
If a rule can be rewritten to itself, however, no later state need be reached: the reduction of the
rule to itself leaves the stack as it was, and it is made again.
-/

namespace Setting

variable {σ : Type} {setting : Setting σ}

/-- A run that never leaves a set of machines is endless. -/
theorem endless_of_invariant {invariant : Machine σ -> Prop}
    (preserved : forall machine, invariant machine ->
      Exists fun next => setting.step machine = .running next ∧ invariant next)
    {machine : Machine σ} (holds : invariant machine) : setting.Endless machine := by
  intro limit
  induction limit generalizing machine with
  | zero => rfl
  | succ limit inductionHypothesis =>
      rcases preserved machine holds with ⟨next, goes, later⟩
      rw [run, goes]
      exact inductionHypothesis later

end Setting

/-! ## A root that is reduced to itself -/

namespace Grammar

/-- The table of the grammar whose root is a production of itself. Its second state reduces the root
to itself, whatever token is ahead. -/
def selfRootTable : Table :=
  ⟨#[⟨#[], [], [("S", 1), ("a", 2)]⟩,
    ⟨#[⟨"S", ["S"], .report, none, false⟩], [("", 0)], []⟩,
    ⟨#[⟨"S", ["a"], .report, none, false⟩], [("", 0)], []⟩], "S", []⟩

theorem compiled_selfRoot : selfRoot.compile = .ok selfRootTable := by
  decide +kernel

end Grammar

/-- The token of which the grammar allows one. -/
private def letter : Token := ⟨"a", some "a", default⟩

/-- One token more than the grammar allows. -/
def TokenList.twoLetters : TokenList := ⟨[letter, letter], default, none⟩

namespace Setting

/-- What a run over a list of tokens needs that never ends. -/
def selfRoot : Setting TokenList :=
  { table := Grammar.selfRootTable, source := TokenList.source, skip := [], keep := none }

/-- The machines of the run. It reads the first token, shifts it and reads the second; from then on,
a root is on the stack or has just been taken off it, with the second token ahead. -/
private inductive Turning : Machine TokenList -> Prop where
  | begun : Turning (.start .twoLetters)
  | first : Turning ⟨[], .ready (some letter), ⟨[letter], default, none⟩, [], [], []⟩
  | shifted : Turning ⟨[⟨letter, 2⟩], .unread, ⟨[letter], default, none⟩, [], [], []⟩
  | second : Turning ⟨[⟨letter, 2⟩], .ready (some letter), ⟨[], default, none⟩, [], [], []⟩
  | reduced (calls : List Call) : Turning
      ⟨[], .reduced (.synthetic "S" default) (some letter), ⟨[], default, none⟩, [], [], calls⟩
  | root (calls : List Call) : Turning
      ⟨[⟨.synthetic "S" default, 1⟩], .ready (some letter), ⟨[], default, none⟩, [], [], calls⟩

private theorem Turning.step {machine : Machine TokenList} (turning : Turning machine) :
    Exists fun next => selfRoot.step machine = .running next ∧ Turning next := by
  cases turning with
  | begun => exact ⟨_, rfl, .first⟩
  | first => exact ⟨_, rfl, .shifted⟩
  | shifted => exact ⟨_, rfl, .second⟩
  | second => exact ⟨_, rfl, .reduced [⟨.parse, "S", [letter]⟩]⟩
  | reduced calls => exact ⟨_, rfl, .root calls⟩
  | root calls => exact ⟨_, rfl, .reduced (⟨.parse, "S", [.synthetic "S" default]⟩ :: calls)⟩

/-- The grammar is accepted without a resolved conflict, but the run of its table over two tokens
never ends. -/
theorem endless_selfRoot :
    Grammar.selfRoot.compile = .ok selfRoot.table ∧ selfRoot.table.conflicts = [] ∧
      selfRoot.Endless (.start .twoLetters) :=
  ⟨Grammar.compiled_selfRoot, rfl, endless_of_invariant (fun _ => Turning.step) .begun⟩

end Setting

end ShiftReduce
