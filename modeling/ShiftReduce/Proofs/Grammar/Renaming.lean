import ShiftReduce.Proofs.Grammar.Drafts

namespace ShiftReduce

/-!
# Drafts under other names

A draft can be written with other names: its own name, the names in its productions and the
collectors of their effects are replaced, but nothing inside of operators, which holds only what the
grammar's author has written.  Rewriting does not see the difference.  If the places of a production
have helpers of the new names, the rewritten production and the drafts of its helpers are those under
the new names.
-/

namespace Emit

/-- The effect under other names. -/
def rename (name : String -> String) : Emit -> Emit
  | .none => .none
  | .report => .report
  | .callback identity => .callback identity
  | .repetition collector max group => .repetition (name collector) max group
  | .choice collector => .choice (name collector)
  | .merge inner => .merge (inner.rename name)

theorem rename_rename (emit : Emit) (first second : String -> String) :
    (emit.rename first).rename second = emit.rename (second ∘ first) := by
  induction emit with
  | none | report | callback | repetition | choice => rfl
  | merge inner inductionHypothesis => exact congrArg Emit.merge inductionHypothesis

theorem rename_id (emit : Emit) : emit.rename id = emit := by
  induction emit with
  | none | report | callback | repetition | choice => rfl
  | merge inner inductionHypothesis => exact congrArg Emit.merge inductionHypothesis

end Emit

namespace PlainProduction

/-- The production under other names. -/
def rename (name : String -> String) (production : PlainProduction) : PlainProduction :=
  ⟨production.symbols.map name, production.emit.rename name, production.label⟩

theorem rename_rename (production : PlainProduction) (first second : String -> String) :
    (production.rename first).rename second = production.rename (second ∘ first) := by
  unfold rename
  rw [List.map_map, Emit.rename_rename]

theorem rename_id (production : PlainProduction) : production.rename id = production := by
  unfold rename
  rw [List.map_id, Emit.rename_id]

end PlainProduction

/-- The name under another name; an operator stays as it is. -/
def Symbol.rename (name : String -> String) : Symbol -> Symbol
  | .name word => .name (name word)
  | symbol => symbol

/-- The production under other names. -/
def Production.rename (name : String -> String) (production : Production) : Production :=
  ⟨production.symbols.map (Symbol.rename name), production.emit.rename name, production.label⟩

namespace Draft

/-- The draft under other names. -/
def rename (name : String -> String) (draft : Draft) : Draft :=
  ⟨name draft.name, draft.productions.map (Production.rename name), draft.helper⟩

variable {name : String -> String}

theorem rename_operator {symbol : Symbol} (operator : symbol.asName? = none) :
    symbol.rename name = symbol := by
  cases symbol with
  | name word => cases operator
  | repeat0 | repeat1 | optional | alternation | bounded => rfl

private theorem map_rename_eq {symbols : List Symbol}
    (fixed : forall symbol, symbol ∈ symbols -> symbol.rename name = symbol) :
    symbols.map (Symbol.rename name) = symbols := by
  refine (List.map_congr_left fixed).trans (List.map_id _)

/-- The productions of a helper under another name, where the names inside the operator stay. -/
theorem expand_rename {owner helper : String} {symbol : Symbol} {productions : List Production}
    (other : String) (operator : symbol.asName? = none)
    (fixed : forall inner, inner ∈ symbol.children -> inner.rename name = inner)
    (expanded : expand owner helper symbol = .ok productions) :
    expand other (name helper) symbol = .ok (productions.map (Production.rename name)) := by
  unfold expand at expanded ⊢
  cases symbol with
  | name word => cases operator
  | repeat0 body | repeat1 body | optional body =>
      have same := map_rename_eq fixed
      dsimp only [Symbol.children] at expanded same ⊢
      split at expanded
      · cases expanded
      next notEmpty =>
        cases expanded
        rw [if_neg notEmpty]
        simp only [List.map_cons, List.map_nil, Production.rename, Emit.rename, Symbol.rename, same]
  | alternation branches =>
      dsimp only at expanded ⊢
      split at expanded
      · cases expanded
      next notEmpty =>
        cases expanded
        rw [if_neg notEmpty, List.map_map]
        refine congrArg Except.ok (List.map_congr_left fun branch member => ?_)
        have same := map_rename_eq fun inner inside =>
          fixed inner (List.mem_flatten.mpr ⟨branch, member, inside⟩)
        simp only [Function.comp_apply, Production.rename, Emit.rename, same]
  | bounded least most body =>
      have same := map_rename_eq fixed
      have copies : (floor least body).map (Symbol.rename name) = floor least body :=
        map_rename_eq fun inner inside => fixed inner (mem_of_mem_floor inside)
      dsimp only [Symbol.children] at expanded same ⊢
      split at expanded
      · cases expanded
      next notEmpty =>
        rw [if_neg notEmpty]
        split at expanded
        · cases expanded
        next valid =>
          rw [if_neg valid]
          split at expanded
          next grows =>
            cases expanded
            rw [if_pos grows]
            simp only [List.map_cons, List.map_nil, Production.rename, Emit.rename, Symbol.rename,
              same, copies]
          next exactly =>
            cases expanded
            rw [if_neg exactly]
            simp only [List.map_cons, List.map_nil, Production.rename, Emit.rename, copies]

/-- The names inside the operators of a sequence stay. -/
def Settles (name : String -> String) (symbols : List Symbol) : Prop :=
  forall symbol, symbol ∈ symbols -> symbol.asName? = none ->
    forall inner, inner ∈ symbol.children -> inner.rename name = inner

theorem rewriteSymbols_rename {owner other : String} {production place : Nat}
    (helpers : forall index,
      helperName other place index = name (helperName owner production index))
    {symbols : List Symbol} (settles : Settles name symbols) {start : Nat} {names : List String}
    {drafts : List Draft}
    (rewritten : rewriteSymbols owner production start symbols = .ok (names, drafts)) :
    rewriteSymbols other place start (symbols.map (Symbol.rename name)) =
      .ok (names.map name, drafts.map (rename name)) := by
  induction symbols generalizing start names drafts with
  | nil =>
      cases rewritten
      rfl
  | cons symbol rest inductionHypothesis =>
      have later := fun {start names drafts} => @inductionHypothesis
        (fun symbol member => settles symbol (List.mem_cons_of_mem _ member)) start names drafts
      cases isName : symbol.asName? with
      | some word =>
          rw [eq_name_of_asName? isName] at rewritten ⊢
          rw [rewriteSymbols] at rewritten
          rcases of_bind_eq_ok rewritten with ⟨⟨others, more⟩, found, made⟩
          cases made
          rw [List.map_cons, Symbol.rename, rewriteSymbols, later found]
          rfl
      | none =>
          rw [rewriteSymbols_operator isName] at rewritten
          rcases of_bind_eq_ok rewritten with ⟨productions, expanded, remaining⟩
          rcases of_bind_eq_ok remaining with ⟨⟨others, more⟩, found, made⟩
          cases made
          have there := expand_rename other isName (settles symbol List.mem_cons_self isName) expanded
          rw [List.map_cons, rename_operator isName, rewriteSymbols_operator isName, helpers, there]
          change (rewriteSymbols other place (start + 1) (rest.map (Symbol.rename name)) >>= _) = _
          rw [later found]
          rfl

theorem rewriteProduction_rename {owner other : String} {index place : Nat}
    (helpers : forall position, helperName other place position = name (helperName owner index position))
    {production : Production} (settles : Settles name production.symbols)
    {plain : PlainProduction} {drafts : List Draft}
    (rewritten : rewriteProduction owner index production = .ok (plain, drafts)) :
    rewriteProduction other place (production.rename name) =
      .ok (plain.rename name, drafts.map (rename name)) := by
  unfold rewriteProduction at rewritten ⊢
  rcases of_bind_eq_ok rewritten with ⟨⟨names, more⟩, symbols, made⟩
  cases made
  have there := rewriteSymbols_rename helpers settles symbols
  change (rewriteSymbols other place 0 (production.symbols.map (Symbol.rename name)) >>= _) = _
  rw [there]
  change Except.ok _ = Except.ok _
  refine congrArg Except.ok (Prod.ext ?_ rfl)
  unfold PlainProduction.rename Production.rename
  cases drafts with
  | nil => rfl
  | cons => rfl

end Draft

end ShiftReduce
