import ShiftReduce.Proofs.Automaton.Closure

namespace ShiftReduce

/-!
# The canonical items of a grammar

An automaton is judged by rules that mention names, productions and rewriting, and no table.  A set
of cores is a property of cores.  The closure of a set adds, for a name behind a dot, the productions
of that name; moving the dot over a symbol leads to another set.  A string of symbols reaches the set
that these moves lead to from the productions of the root.  The strings are written backwards, the
latest symbol first, as they stand on the stack of a parse.

The lookaheads of a core along a string follow the rules of canonical LR(1) items.  A rule that
gives the terminals that begin the rest of an item asks for the item, and not for a lookahead of it,
because the rest of an item above may derive no string at all.

What the numbered computations of closures and moves yield is then stated in terms of these rules.
-/

namespace PlainGrammar

variable (grammar : PlainGrammar)

/-- The production with that number belongs to a rule of that name. -/
def Expands (name : String) (production : Nat) : Prop :=
  Exists fun pair => grammar.productions[production]? = some pair ∧ pair.1.name = name

/-- A production of the root with the dot in front. -/
def StartCore (core : Core) : Prop :=
  core.dot = 0 ∧ grammar.Expands grammar.root core.production

/-- The set with what the names behind its dots call for. -/
inductive InClosure (kernel : Core -> Prop) : Core -> Prop where
  | kernel (core : Core) (member : kernel core) : InClosure kernel core
  | called (core : Core) (next : String) (rest : List String) (production : Nat)
      (above : InClosure kernel core)
      (dotted : grammar.fromDot core.production core.dot = next :: rest)
      (expands : grammar.Expands next production) : InClosure kernel ⟨production, 0⟩

/-- The cores of the closure that have `symbol` behind the dot, with the dot moved over it. -/
def Moved (kernel : Core -> Prop) (symbol : String) (core : Core) : Prop :=
  Exists fun source => Exists fun rest => grammar.InClosure kernel source ∧
    grammar.fromDot source.production source.dot = symbol :: rest ∧ core = source.advance

/-- The set of cores that a string of symbols leads to. A move is possible where some item has the
symbol behind its dot. -/
inductive Reaches : List String -> (Core -> Prop) -> Prop where
  | start : Reaches [] grammar.StartCore
  | move (path : List String) (kernel : Core -> Prop) (core : Core) (symbol : String)
      (rest : List String) (reaches : Reaches path kernel)
      (inside : grammar.InClosure kernel core)
      (dotted : grammar.fromDot core.production core.dot = symbol :: rest) :
      Reaches (symbol :: path) (grammar.Moved kernel symbol)

/-- The canonical LR(1) rules give the lookahead to the core along the string. The empty name is the
end of the input. -/
inductive Attaches : List String -> Core -> String -> Prop where
  | start (production : Nat) (expands : grammar.Expands grammar.root production) :
      Attaches [] ⟨production, 0⟩ ""
  | first (path : List String) (kernel : Core -> Prop) (core : Core) (next : String)
      (rest : List String) (production : Nat) (lookahead : String)
      (reaches : grammar.Reaches path kernel) (inside : grammar.InClosure kernel core)
      (dotted : grammar.fromDot core.production core.dot = next :: rest)
      (expands : grammar.Expands next production) (begins : grammar.Begins rest lookahead) :
      Attaches path ⟨production, 0⟩ lookahead
  | pass (path : List String) (core : Core) (next : String) (rest : List String) (production : Nat)
      (lookahead : String) (attaches : Attaches path core lookahead)
      (dotted : grammar.fromDot core.production core.dot = next :: rest)
      (expands : grammar.Expands next production) (nullable : grammar.Nullable rest) :
      Attaches path ⟨production, 0⟩ lookahead
  | move (path : List String) (core : Core) (symbol : String) (rest : List String)
      (lookahead : String) (attaches : Attaches path core lookahead)
      (dotted : grammar.fromDot core.production core.dot = symbol :: rest) :
      Attaches (symbol :: path) core.advance lookahead

/-- The lookahead comes to a core in the closure of a set that some string leads to. This says of sets
what the rules above say of strings, and finds the terminals behind a name by going into names, so
that it also holds of grammars with empty names. -/
inductive Carries : (Core -> Prop) -> Core -> String -> Prop where
  | start (production : Nat) (expands : grammar.Expands grammar.root production) :
      Carries grammar.StartCore ⟨production, 0⟩ ""
  | first (kernel : Core -> Prop) (core : Core) (next : String) (rest : List String)
      (production : Nat) (lookahead : String)
      (reached : Exists fun path => grammar.Reaches path kernel)
      (inside : grammar.InClosure kernel core)
      (dotted : grammar.fromDot core.production core.dot = next :: rest)
      (expands : grammar.Expands next production) (opens : grammar.Opens rest lookahead) :
      Carries kernel ⟨production, 0⟩ lookahead
  | pass (kernel : Core -> Prop) (core : Core) (next : String) (rest : List String)
      (production : Nat) (lookahead : String) (carries : Carries kernel core lookahead)
      (dotted : grammar.fromDot core.production core.dot = next :: rest)
      (expands : grammar.Expands next production) (nullable : grammar.Nullable rest) :
      Carries kernel ⟨production, 0⟩ lookahead
  | move (kernel : Core -> Prop) (core : Core) (symbol : String) (rest : List String)
      (lookahead : String) (carries : Carries kernel core lookahead)
      (dotted : grammar.fromDot core.production core.dot = symbol :: rest) :
      Carries (grammar.Moved kernel symbol) core.advance lookahead

variable {grammar}

/-- A string leads to one set. -/
theorem Reaches.unique {path : List String} {left right : Core -> Prop}
    (first : grammar.Reaches path left) (second : grammar.Reaches path right) : left = right := by
  induction first generalizing right with
  | start =>
      cases second with
      | start => rfl
  | move path kernel core symbol rest reaches inside dotted inductionHypothesis =>
      cases second with
      | move _ other _ _ _ otherReaches _ _ =>
          rw [inductionHypothesis otherReaches]

/-- What leads to a set of cores can stand in front of what is behind their dots: the root can be
rewritten to both and something more. -/
theorem Reaches.derives {path : List String} {kernel : Core -> Prop}
    (reaches : grammar.Reaches path kernel) {core : Core} (inside : grammar.InClosure kernel core) :
    Exists fun more => grammar.Derives [grammar.root]
      (path.reverse ++ (grammar.fromDot core.production core.dot ++ more)) := by
  have called : forall (path : List String) (next : String) (rest more : List String)
      (production : Nat),
      grammar.Derives [grammar.root] (path.reverse ++ (next :: rest ++ more)) ->
      grammar.Expands next production -> grammar.Derives [grammar.root]
        (path.reverse ++ (grammar.fromDot production 0 ++ (rest ++ more))) := by
    rintro path next rest more production derives ⟨pair, known, rfl⟩
    rw [fromDot_eq known, List.drop_zero]
    have step := Derives.production (List.mem_of_getElem? known)
    exact derives.trans ((step.append_right (rest ++ more)).append_left path.reverse)
  induction reaches generalizing core with
  | start =>
      induction inside with
      | kernel core member =>
          rcases member with ⟨front, pair, known, name⟩
          have step := Derives.production (List.mem_of_getElem? known)
          rw [name] at step
          refine ⟨[], ?_⟩
          rw [front, fromDot_eq known, List.append_nil]
          exact step
      | called core next rest production _ dotted expands inductionHypothesis =>
          rcases inductionHypothesis with ⟨more, derives⟩
          rw [dotted] at derives
          exact ⟨rest ++ more, called [] next rest more production derives expands⟩
  | move path kernel _ symbol _ _ _ _ inductionHypothesis =>
      induction inside with
      | kernel core member =>
          rcases member with ⟨source, rest, sourceInside, dotted, rfl⟩
          rcases inductionHypothesis sourceInside with ⟨more, derives⟩
          have after : grammar.fromDot source.advance.production source.advance.dot = rest :=
            fromDot_succ dotted
          rw [dotted] at derives
          refine ⟨more, ?_⟩
          rw [after, List.reverse_cons, List.append_assoc]
          exact derives
      | called core next rest production _ dotted expands calledHypothesis =>
          rcases calledHypothesis with ⟨more, derives⟩
          rw [dotted] at derives
          exact ⟨rest ++ more, called (symbol :: path) next rest more production derives expands⟩

/-- A lookahead is attached to a core that the string leads to. -/
theorem Attaches.reaches {path : List String} {core : Core} {lookahead : String}
    (attaches : grammar.Attaches path core lookahead) :
    Exists fun kernel => grammar.Reaches path kernel ∧ grammar.InClosure kernel core := by
  induction attaches with
  | start production expands =>
      exact ⟨_, Reaches.start, InClosure.kernel _ ⟨rfl, expands⟩⟩
  | first path kernel core next rest production lookahead reaches inside dotted expands _ =>
      exact ⟨kernel, reaches, InClosure.called core next rest production inside dotted expands⟩
  | pass path core next rest production lookahead _ dotted expands _ inductionHypothesis =>
      rcases inductionHypothesis with ⟨kernel, reaches, inside⟩
      exact ⟨kernel, reaches, InClosure.called core next rest production inside dotted expands⟩
  | move path core symbol rest lookahead _ dotted inductionHypothesis =>
      rcases inductionHypothesis with ⟨kernel, reaches, inside⟩
      exact ⟨_, Reaches.move path kernel core symbol rest reaches inside dotted,
        InClosure.kernel _ ⟨core, rest, inside, dotted, rfl⟩⟩

/-- A production that is begun with a lookahead can be read up to any place. -/
theorem Attaches.dot {path : List String} {production : Nat} {lookahead : String}
    (attaches : grammar.Attaches path ⟨production, 0⟩ lookahead)
    {pair : PlainRule × PlainProduction} (known : grammar.productions[production]? = some pair)
    {dot : Nat} (inside : dot ≤ pair.2.symbols.length) :
    Exists fun longer => grammar.Attaches longer ⟨production, dot⟩ lookahead := by
  induction dot with
  | zero => exact ⟨path, attaches⟩
  | succ dot inductionHypothesis =>
      rcases inductionHypothesis (Nat.le_of_succ_le inside) with ⟨longer, before⟩
      have dotted : grammar.fromDot production dot =
          pair.2.symbols[dot] :: pair.2.symbols.drop (dot + 1) := by
        rw [fromDot_eq known]
        exact List.drop_eq_getElem_cons inside
      exact ⟨_, Attaches.move longer ⟨production, dot⟩ _ _ lookahead before dotted⟩

/-- What comes to a core along sets comes to it along a string. -/
theorem Carries.attaches {kernel : Core -> Prop} {core : Core} {lookahead : String}
    (carries : grammar.Carries kernel core lookahead) :
    Exists fun path => grammar.Reaches path kernel ∧ grammar.Attaches path core lookahead := by
  induction carries with
  | start production expands => exact ⟨[], .start, .start production expands⟩
  | first kernel core next rest production lookahead reached inside dotted expands opens =>
      rcases reached with ⟨path, reaches⟩
      exact ⟨path, reaches, .first path kernel core next rest production lookahead reaches inside
        dotted expands opens.begins⟩
  | pass kernel core next rest production lookahead _ dotted expands nullable inductionHypothesis =>
      rcases inductionHypothesis with ⟨path, reaches, attaches⟩
      exact ⟨path, reaches,
        .pass path core next rest production lookahead attaches dotted expands nullable⟩
  | move kernel core symbol rest lookahead _ dotted inductionHypothesis =>
      rcases inductionHypothesis with ⟨path, reaches, attaches⟩
      rcases attaches.reaches with ⟨other, otherReaches, inside⟩
      rw [otherReaches.unique reaches] at inside
      exact ⟨symbol :: path, .move path kernel core symbol rest reaches inside dotted,
        .move path core symbol rest lookahead attaches dotted⟩

theorem Carries.inside {kernel : Core -> Prop} {core : Core} {lookahead : String}
    (carries : grammar.Carries kernel core lookahead) :
    (Exists fun path => grammar.Reaches path kernel) ∧ grammar.InClosure kernel core := by
  rcases carries.attaches with ⟨path, reaches, attaches⟩
  rcases attaches.reaches with ⟨other, otherReaches, inside⟩
  exact ⟨⟨path, reaches⟩, otherReaches.unique reaches ▸ inside⟩

/-- Without empty names, it is the other way round as well. -/
theorem Attaches.carries (named : grammar.Named) {path : List String} {core : Core}
    {lookahead : String} (attaches : grammar.Attaches path core lookahead) {kernel : Core -> Prop}
    (reaches : grammar.Reaches path kernel) : grammar.Carries kernel core lookahead := by
  induction attaches generalizing kernel with
  | start production expands =>
      cases reaches with
      | start => exact .start production expands
  | first path other core next rest production lookahead otherReaches inside dotted expands begins =>
      rw [otherReaches.unique reaches] at inside
      have present : "" ∉ rest := fun member =>
        named.fromDot core.production core.dot (dotted ▸ List.mem_cons_of_mem _ member)
      exact .first kernel core next rest production lookahead ⟨path, reaches⟩ inside dotted expands
        ((opens_iff_begins named present).mpr begins)
  | pass path core next rest production lookahead _ dotted expands nullable inductionHypothesis =>
      exact .pass kernel core next rest production lookahead (inductionHypothesis reaches) dotted
        expands nullable
  | move path core symbol rest lookahead _ dotted inductionHypothesis =>
      cases reaches with
      | move _ before _ _ _ beforeReaches _ _ =>
          exact .move before core symbol rest lookahead (inductionHypothesis beforeReaches) dotted

end PlainGrammar

namespace Analysis

variable (grammar : PlainGrammar)

/-- The cores of a set, as a property. -/
def coresOf (items : ItemSet) (core : Core) : Prop := core ∈ items.cores

/-! ## From numbers to names -/

theorem mem_productionsOf_iff {id production : Nat} (inside : id < symbolCount grammar) :
    production ∈ (ofGrammar grammar).productionsOf.getD id [] ↔
      grammar.Expands (symbolName grammar id) production :=
  mem_productionsOf grammar inside

/-- The number of the name behind a dot. -/
theorem numbered_of_dotted {core : Core} {next : String} {rest : List String}
    (dotted : grammar.fromDot core.production core.dot = next :: rest) :
    Exists fun id => Exists fun ids =>
      (ofGrammar grammar).fromDot core.production core.dot = id :: ids ∧
        id < symbolCount grammar ∧ symbolName grammar id = next ∧
        ids.map (symbolName grammar) = rest := by
  rw [← map_fromDot grammar] at dotted
  cases numbered : (ofGrammar grammar).fromDot core.production core.dot with
  | nil =>
      rw [numbered] at dotted
      cases dotted
  | cons id ids =>
      rw [numbered, List.map_cons, List.cons.injEq] at dotted
      exact ⟨id, ids, rfl, next_inside grammar numbered, dotted.1, dotted.2⟩

theorem dotted_of_numbered {core : Core} {id : Nat} {ids : List Nat}
    (numbered : (ofGrammar grammar).fromDot core.production core.dot = id :: ids) :
    grammar.fromDot core.production core.dot =
      symbolName grammar id :: ids.map (symbolName grammar) := by
  rw [← map_fromDot grammar, numbered]
  rfl

theorem nextSymbol?_iff {core : Core} {id : Nat} (inside : id < symbolCount grammar) :
    (ofGrammar grammar).nextSymbol? core = some id ↔
      Exists fun rest => grammar.fromDot core.production core.dot = symbolName grammar id :: rest := by
  rw [nextSymbol?_eq_some]
  constructor
  · rintro ⟨ids, numbered⟩
    exact ⟨_, dotted_of_numbered grammar numbered⟩
  · rintro ⟨rest, dotted⟩
    rcases numbered_of_dotted grammar dotted with ⟨other, ids, numbered, otherInside, same, _⟩
    exact ⟨ids, symbolName_injective grammar otherInside inside same ▸ numbered⟩

theorem nextSymbol?_inside {core : Core} {id : Nat}
    (next : (ofGrammar grammar).nextSymbol? core = some id) : id < symbolCount grammar := by
  rcases nextSymbol?_eq_some.mp next with ⟨ids, numbered⟩
  exact next_inside grammar numbered

/-- What is computed to follow the symbol behind a dot. -/
theorem mem_firstOf_rest {core : Core} {next : Nat} {rest : List Nat}
    (numbered : (ofGrammar grammar).fromDot core.production core.dot = next :: rest)
    (lookaheads : IdSet) (value : Nat) :
    value ∈ (ofGrammar grammar).firstOfSequence rest lookaheads ↔
      (value < symbolCount grammar ∧
        grammar.Opens (rest.map (symbolName grammar)) (symbolName grammar value)) ∨
      grammar.Nullable (rest.map (symbolName grammar)) ∧ value ∈ lookaheads := by
  apply mem_firstOfSequence
  intro id member
  exact lt_of_mem_fromDot grammar (numbered ▸ List.mem_cons_of_mem _ member)

/-! ## The computed sets -/

/-- The cores of a closure are those of the canonical closure of the kernel's cores. -/
theorem mem_cores_closure {kernel : ItemSet} (proper : Proper grammar kernel) (core : Core) :
    core ∈ ((ofGrammar grammar).closure kernel).cores ↔
      grammar.InClosure (coresOf kernel) core := by
  constructor
  · have inherited : (ofGrammar grammar).Inherited (grammar.InClosure (coresOf kernel))
        (fun _ _ => True) := by
      constructor
      · intro core next rest production above numbered listed
        have expands := (mem_productionsOf_iff grammar (next_inside grammar numbered)).mp listed
        exact .called core _ _ production above (dotted_of_numbered grammar numbered) expands
      · exact fun _ _ _ _ _ _ _ _ _ _ _ => trivial
    have within := within_closure grammar proper inherited
      ⟨fun core member => .kernel core member, fun _ _ _ => trivial⟩
    exact within.cores core
  · intro inside
    induction inside with
    | kernel core member => exact (covers_closure grammar proper).cores core member
    | called core next rest production _ dotted expands inductionHypothesis =>
        rcases numbered_of_dotted grammar dotted with ⟨id, ids, numbered, idInside, rfl, _⟩
        have listed := (mem_productionsOf_iff grammar idInside).mpr expands
        have expanded := closed_closure grammar proper core inductionHypothesis
        exact (expanded id ids numbered production listed).1

/-- The cores that a closure leads to are those that the canonical closure leads to. -/
theorem mem_cores_goto_closure {kernel : ItemSet} (proper : Proper grammar kernel) {id : Nat}
    (inside : id < symbolCount grammar) (core : Core) :
    core ∈ ((ofGrammar grammar).goto ((ofGrammar grammar).closure kernel) id).cores ↔
      grammar.Moved (coresOf kernel) (symbolName grammar id) core := by
  rw [mem_cores_goto]
  constructor
  · rintro ⟨source, member, next, same⟩
    rcases (nextSymbol?_iff grammar inside).mp next with ⟨rest, dotted⟩
    exact ⟨source, rest, (mem_cores_closure grammar proper source).mp member, dotted, same⟩
  · rintro ⟨source, rest, member, dotted, same⟩
    exact ⟨source, (mem_cores_closure grammar proper source).mpr member,
      (nextSymbol?_iff grammar inside).mpr ⟨rest, dotted⟩, same⟩

end Analysis

end ShiftReduce
