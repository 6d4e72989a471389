import ShiftReduce.Parse.Machine
import ShiftReduce.Proofs.Table.Rows

namespace ShiftReduce

/-!
# Stacks follow the automaton

Every frame of a stack holds a state whose set of cores is what its token moves the set below to.
From this alone it follows that a reduction finds its symbols.  A core whose dot is not in front
belongs to the kernel of its state, and a kernel is made by moving the dot over the symbol on top of
the stack.  So the symbols before the dot of a core in the top state stand on the stack, and below
them is a state that has the same production with the dot in front.
-/

/-- The state of the latest frame, or the start state below all frames. -/
def stateOf : List Frame -> Nat
  | frame :: _ => frame.state
  | [] => 0

theorem state_eq {σ : Type} (machine : Machine σ) : machine.state = stateOf machine.stack := by
  unfold Machine.state stateOf
  cases machine.stack <;> rfl

/-- The names of the tokens on a stack, latest first. -/
def namesOf (stack : List Frame) : List String :=
  stack.map (·.token.name)

/-- Every frame is one move away from the frames below it. -/
inductive Stacked (grammar : PlainGrammar) (table : Table) (kernels : Nat -> Core -> Prop) :
    List Frame -> Prop where
  | empty : Stacked grammar table kernels []
  | push (frame : Frame) (below : List Frame) (core : Core) (rest : List String)
      (stacked : Stacked grammar table kernels below)
      (inside : frame.state < table.states.size)
      (moves : kernels frame.state = grammar.Moved (kernels (stateOf below)) frame.token.name)
      (member : grammar.InClosure (kernels (stateOf below)) core)
      (dotted : grammar.fromDot core.production core.dot = frame.token.name :: rest) :
      Stacked grammar table kernels (frame :: below)

variable {grammar : PlainGrammar} {table : Table} {kernels : Nat -> Core -> Prop}

theorem Stacked.inside (drives : Drives grammar table kernels) {stack : List Frame}
    (stacked : Stacked grammar table kernels stack) : stateOf stack < table.states.size := by
  cases stacked with
  | empty => exact drives.startInside
  | push frame below core rest stacked inside moves member dotted => exact inside

theorem Stacked.of_append {top below : List Frame}
    (stacked : Stacked grammar table kernels (top ++ below)) :
    Stacked grammar table kernels below := by
  induction top with
  | nil => exact stacked
  | cons frame rest inductionHypothesis =>
      cases stacked with
      | push _ _ _ _ stacked => exact inductionHypothesis stacked

/-- The tokens of a stack lead to the set of cores of its state. -/
theorem Stacked.reaches (drives : Drives grammar table kernels) {stack : List Frame}
    (stacked : Stacked grammar table kernels stack) :
    grammar.Reaches (namesOf stack) (kernels (stateOf stack)) := by
  induction stacked with
  | empty =>
      change grammar.Reaches [] (kernels 0)
      rw [drives.start]
      exact .start
  | push frame below core rest stacked inside moves member dotted inductionHypothesis =>
      change grammar.Reaches (frame.token.name :: namesOf below) (kernels frame.state)
      rw [moves]
      exact .move _ _ core _ rest inductionHypothesis member dotted

/-- A shift puts a frame on the stack that is one move away. -/
theorem Stacked.shift (drives : Drives grammar table kernels) {stack : List Frame}
    (stacked : Stacked grammar table kernels stack) {row : TableState} {token : Token}
    {target : Nat} (found : table.states[stateOf stack]? = some row)
    (shifted : row.shift.get? token.name = some target) :
    Stacked grammar table kernels (⟨token, target⟩ :: stack) := by
  rcases drives.shift _ row token.name target found shifted with
    ⟨inside, moves, core, rest, member, dotted⟩
  exact .push ⟨token, target⟩ stack core rest stacked inside moves member dotted

/-- The symbols before the dot stand on the stack, and below them the dot is in front. -/
theorem Stacked.before_dot (drives : Drives grammar table kernels) {production : Nat}
    {pair : PlainRule × PlainProduction} (known : grammar.productions[production]? = some pair)
    (dot : Nat) {stack : List Frame} (stacked : Stacked grammar table kernels stack)
    (member : grammar.InClosure (kernels (stateOf stack)) ⟨production, dot⟩) :
    Exists fun popped => Exists fun below => stack = popped ++ below ∧
      (namesOf popped).reverse = pair.2.symbols.take dot ∧ popped.length = dot ∧
      Stacked grammar table kernels below ∧
      grammar.InClosure (kernels (stateOf below)) ⟨production, 0⟩ := by
  induction dot generalizing stack with
  | zero => exact ⟨[], stack, rfl, rfl, rfl, stacked, member⟩
  | succ dot inductionHypothesis =>
      -- Only productions with the dot in front are called for, so this core was moved to.
      have inKernel : kernels (stateOf stack) ⟨production, dot + 1⟩ := by
        cases member with
        | kernel core member => exact member
      cases stacked with
      | empty =>
          change kernels 0 ⟨production, dot + 1⟩ at inKernel
          rw [drives.start] at inKernel
          exact (Nat.succ_ne_zero _ inKernel.1).elim
      | push frame below core rest stacked inside moves coreMember dotted =>
          change kernels frame.state ⟨production, dot + 1⟩ at inKernel
          rw [moves] at inKernel
          rcases inKernel with ⟨source, others, sourceMember, sourceDotted, advanced⟩
          have same : (⟨production, dot⟩ : Core) = source := Analysis.advance_injective advanced
          rw [← same] at sourceMember sourceDotted
          rcases inductionHypothesis stacked sourceMember with
            ⟨popped, bottom, split, names, length, bottomStacked, bottomMember⟩
          refine ⟨frame :: popped, bottom, ?_, ?_, ?_, bottomStacked, bottomMember⟩
          · rw [split, List.cons_append]
          · dsimp only at sourceDotted
            rw [PlainGrammar.fromDot_eq known] at sourceDotted
            have here : pair.2.symbols[dot]? = some frame.token.name := by
              rw [← List.head?_drop, sourceDotted]
              rfl
            rw [List.take_add_one, here, ← names]
            unfold namesOf
            rw [List.map_cons, List.reverse_cons]
            rfl
          · rw [List.length_cons, length]

/-- A complete production finds its symbols on the stack, and below them it can start. -/
theorem Stacked.complete (drives : Drives grammar table kernels) {production : Nat}
    {pair : PlainRule × PlainProduction} (known : grammar.productions[production]? = some pair)
    {stack : List Frame} (stacked : Stacked grammar table kernels stack)
    (member : grammar.InClosure (kernels (stateOf stack))
      ⟨production, pair.2.symbols.length⟩) :
    Exists fun popped => Exists fun below => stack = popped ++ below ∧
      (namesOf popped).reverse = pair.2.symbols ∧ popped.length = pair.2.symbols.length ∧
      Stacked grammar table kernels below ∧
      grammar.InClosure (kernels (stateOf below)) ⟨production, 0⟩ := by
  have parts := stacked.before_dot drives known pair.2.symbols.length member
  rwa [List.take_length] at parts

/-! ## Popping -/

namespace Frame

private theorem names_agree (tokens : List Token) {differs : Token × String -> Bool}
    (each : forall token symbol, differs (token, symbol) = (token.name != symbol)) :
    (tokens.zip (tokens.map (·.name))).find? differs = none := by
  induction tokens with
  | nil => rfl
  | cons token rest inductionHypothesis =>
      rw [List.map_cons, List.zip_cons_cons, List.find?_cons_of_neg]
      · exact inductionHypothesis
      · rw [each, bne_self_eq_false]
        exact Bool.false_ne_true

theorem tokensOf_append (top below : List Frame) :
    tokensOf (top ++ below) = tokensOf below ++ tokensOf top := by
  simp [tokensOf]

theorem names_tokensOf (frames : List Frame) :
    (tokensOf frames).map (·.name) = (namesOf frames).reverse := by
  rw [tokensOf, namesOf, List.map_reverse, List.map_map]
  rfl

/-- Popping succeeds where the names are those of the symbols. -/
theorem pop_eq {symbols : List String} {popped below : List Frame}
    (names : (namesOf popped).reverse = symbols) (length : popped.length = symbols.length) :
    Frame.pop symbols (popped ++ below) = .ok (tokensOf popped, below) := by
  unfold Frame.pop
  have enough : ¬ (popped ++ below).length < symbols.length := by
    rw [List.length_append]
    omega
  have front : (popped ++ below).take symbols.length = popped := by
    rw [← length, List.take_left]
  have back : (popped ++ below).drop symbols.length = below := by
    rw [← length, List.drop_left]
  rw [if_neg enough, front, back, ← names, ← names_tokensOf]
  dsimp only
  rw [names_agree]
  exact fun _ _ => rfl

/-- What has been popped was on top of the stack and has the names of the symbols. -/
theorem of_pop {symbols : List String} {stack below : List Frame} {popped : List Token}
    (pops : Frame.pop symbols stack = .ok (popped, below)) :
    Exists fun top => stack = top ++ below ∧ popped = tokensOf top ∧
      popped.map Token.name = symbols := by
  unfold Frame.pop at pops
  split at pops
  · cases pops
  next enough =>
    dsimp only at pops
    split at pops
    · cases pops
    next agree =>
      cases pops
      refine ⟨stack.take symbols.length, (List.take_append_drop _ _).symm, rfl, ?_⟩
      have length : (tokensOf (stack.take symbols.length)).length = symbols.length := by
        simp [tokensOf]
        omega
      have each : List.Forall₂ (fun token symbol => Token.name token = symbol)
          (tokensOf (stack.take symbols.length)) symbols := by
        refine List.forall₂_iff_zip.mpr ⟨length, fun member => ?_⟩
        simpa using List.find?_eq_none.mp agree _ member
      have names := List.forall₂_map_left_iff.mpr each
      rwa [List.forall₂_eq_eq_eq] at names

end Frame

end ShiftReduce
