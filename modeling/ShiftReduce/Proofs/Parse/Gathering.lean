import ShiftReduce.Proofs.Grammar.Admissible
import ShiftReduce.Proofs.Parse.Stack

namespace ShiftReduce

/-!
# What waits in the collections

A parse keeps one collection for each reduced helper on its stack, and nothing else.  To say so, a
token on the stack is paired with the tokens of the input that it stands for and with its collection,
if it is a reduced helper.  The collections of a parse are then those of the tokens on its stack, in
the same order.

A reduction takes the latest collection of each helper among its children.  The names of helpers are
distinct within a production, so the latest one of a name is that of the child itself, however many
collections of that name wait below.  What a reduction leaves behind is therefore known from the
production alone: nothing, or one collection with a number of groups.
-/

/-- A token on the stack, the tokens of the input that it stands for, and its collection. -/
structure Entry where
  token : Token
  word : List Token
  collection : Option Collection

namespace Entry

/-- The collection of an entry under its name. -/
def held (entry : Entry) : Collections :=
  (entry.collection.map fun collection => (entry.token.name, collection)).toList

/-- What an entry offers to the rule around it: its collection, or itself if it has none. -/
def offered (entry : Entry) : List Token :=
  match entry.collection with
  | some collection => collection.tokens
  | none => [entry.token]

/-- What an entry becomes in a reduction of `reducing`, which leaves its own name as it is. -/
def offeredTo (reducing : String) (entry : Entry) : List Token :=
  if entry.token.name = reducing then [entry.token] else entry.offered

/-- The collections of entries in their order. -/
def heldBy (entries : List Entry) : Collections := entries.flatMap held

/-- Reduced helpers have a collection, and no other tokens do. -/
def Fits (isHelper : String -> Prop) (entry : Entry) : Prop :=
  entry.collection.isSome = true ↔
    entry.token.isSynthetic = true ∧ isHelper entry.token.name

theorem held_of_none {entry : Entry} (none : entry.collection = none) : entry.held = [] := by
  rw [held, none]
  rfl

theorem held_of_some {entry : Entry} {collection : Collection}
    (some : entry.collection = some collection) : entry.held = [(entry.token.name, collection)] := by
  rw [held, some]
  rfl

theorem offered_of_none {entry : Entry} (none : entry.collection = none) :
    entry.offered = [entry.token] := by
  rw [offered, none]

theorem offered_of_some {entry : Entry} {collection : Collection}
    (some : entry.collection = some collection) : entry.offered = collection.tokens := by
  rw [offered, some]

theorem offeredTo_of_ne {reducing : String} {entry : Entry} (other : entry.token.name ≠ reducing) :
    entry.offeredTo reducing = entry.offered :=
  if_neg other

theorem offeredTo_of_none {entry : Entry} (none : entry.collection = none) (reducing : String) :
    entry.offeredTo reducing = [entry.token] := by
  unfold offeredTo
  split
  · rfl
  · exact offered_of_none none

theorem heldBy_append (left right : List Entry) :
    heldBy (left ++ right) = heldBy left ++ heldBy right :=
  List.flatMap_append

theorem heldBy_singleton (entry : Entry) : heldBy [entry] = entry.held :=
  List.append_nil _

theorem mem_heldBy {entries : List Entry} {pair : String × Collection} :
    pair ∈ heldBy entries ↔ Exists fun entry => entry ∈ entries ∧
      entry.collection = some pair.2 ∧ pair.1 = entry.token.name := by
  rw [heldBy, List.mem_flatMap]
  constructor
  · rintro ⟨entry, listed, member⟩
    rw [held, Option.mem_toList, Option.map_eq_some_iff] at member
    rcases member with ⟨collection, some, rfl⟩
    exact ⟨entry, listed, some, rfl⟩
  · rintro ⟨entry, listed, some, name⟩
    refine ⟨entry, listed, ?_⟩
    rw [held_of_some some, ← name]
    exact List.mem_singleton_self _

variable {isHelper : String -> Prop}

/-- Only helpers have collections. -/
theorem helper_of_mem_heldBy {entries : List Entry}
    (fits : forall entry, entry ∈ entries -> Fits isHelper entry) {pair : String × Collection}
    (member : pair ∈ heldBy entries) : isHelper pair.1 := by
  rcases mem_heldBy.mp member with ⟨entry, listed, some, name⟩
  rw [name]
  exact ((fits entry listed).mp (by rw [some]; rfl)).2

end Entry

namespace Collections

open Entry

theorem top?_append {front : Collections} {name : String}
    (apart : forall pair, pair ∈ front -> pair.1 ≠ name) (below : Collections) :
    top? (front ++ below) name = top? below name := by
  induction front with
  | nil => rfl
  | cons head rest inductionHypothesis =>
      have different := apart head List.mem_cons_self
      have others := inductionHypothesis fun pair member => apart pair (List.mem_cons_of_mem _ member)
      rcases head with ⟨known, collection⟩
      unfold top? at others ⊢
      rw [List.cons_append, List.lookup_cons, beq_eq_false_iff_ne.mpr (Ne.symm different)]
      exact others

theorem drop_append {front : Collections} {name : String}
    (apart : forall pair, pair ∈ front -> pair.1 ≠ name) (below : Collections) :
    drop name (front ++ below) = front ++ drop name below := by
  induction front with
  | nil => rfl
  | cons head rest inductionHypothesis =>
      have different := apart head List.mem_cons_self
      have others := inductionHypothesis fun pair member => apart pair (List.mem_cons_of_mem _ member)
      rw [List.cons_append, drop, if_neg different, others, List.cons_append]

theorem top?_eq_none {collections : Collections} {name : String}
    (apart : forall pair, pair ∈ collections -> pair.1 ≠ name) : top? collections name = none := by
  have nothing := top?_append apart []
  rwa [List.append_nil] at nothing

/-! ## Splicing -/

/-- A child without a collection to put in its place stays. -/
theorem splice_kept {reducing : String} {child : Token} {collections : Collections}
    (missing : child.isSynthetic = true -> child.name ≠ reducing ->
      top? collections child.name = none) (rest : List Token) :
    splice reducing (child :: rest) collections =
      (child :: (splice reducing rest collections).1, (splice reducing rest collections).2) := by
  have nothing : (if child.isSynthetic ∧ child.name ≠ reducing then top? collections child.name
      else none) = none := by
    split
    next spliced => exact missing spliced.1 spliced.2
    · rfl
  rw [splice, nothing]

theorem splice_taken {reducing : String} {child : Token} {collection : Collection}
    {collections : Collections} (synthetic : child.isSynthetic = true)
    (other : child.name ≠ reducing) (top : top? collections child.name = some collection)
    (rest : List Token) :
    splice reducing (child :: rest) collections =
      (collection.tokens ++ (splice reducing rest (collections.drop child.name)).1,
        (splice reducing rest (collections.drop child.name)).2) := by
  rw [splice, if_pos ⟨synthetic, other⟩, top]

variable {isHelper : String -> Prop}

/-- Splicing puts the collections of all children in their places, but for those with the rule's own
name. -/
theorem splice_eq (reducing : String) (children : List Entry) {below : Collections}
    (fits : forall child, child ∈ children -> Fits isHelper child)
    (belowHelpers : forall pair, pair ∈ below -> isHelper pair.1)
    (distinct : children.Pairwise fun left right =>
      isHelper left.token.name -> left.token.name ≠ right.token.name) :
    splice reducing (children.map Entry.token) (heldBy children.reverse ++ below) =
      (children.flatMap (offeredTo reducing),
        heldBy (children.filter fun child => child.token.name = reducing).reverse ++ below) := by
  induction children generalizing below with
  | nil => rfl
  | cons child rest inductionHypothesis =>
      have childFits := fits child List.mem_cons_self
      have restFits := fun later member => fits later (List.mem_cons_of_mem _ member)
      rcases List.pairwise_cons.mp distinct with ⟨apart, restDistinct⟩
      -- A child that stays leaves its collection below those of the children after it.
      have later := fun (under : Collections) helpers =>
        @inductionHypothesis under restFits helpers restDistinct
      have regroup : heldBy (child :: rest).reverse ++ below =
          heldBy rest.reverse ++ (child.held ++ below) := by
        rw [List.reverse_cons, heldBy_append, heldBy_singleton, List.append_assoc]
      have restHelpers : forall pair, pair ∈ heldBy rest.reverse -> isHelper pair.1 := fun pair =>
        helper_of_mem_heldBy fun entry listed => restFits entry (List.mem_reverse.mp listed)
      rw [regroup, List.map_cons, List.filter_cons, List.flatMap_cons]
      by_cases own : child.token.name = reducing
      · rw [splice_kept fun _ other => (other own).elim, if_pos (by simpa using own),
          List.reverse_cons, heldBy_append, heldBy_singleton, List.append_assoc, later, offeredTo,
          if_pos own]
        · rfl
        intro pair member
        rcases List.mem_append.mp member with held | under
        · rw [← heldBy_singleton] at held
          refine helper_of_mem_heldBy (fun entry single => ?_) held
          rw [List.mem_singleton.mp single]
          exact childFits
        · exact belowHelpers pair under
      · rw [if_neg (by simpa using own)]
        cases known : child.collection with
        | none =>
            have missing : child.token.isSynthetic = true -> child.token.name ≠ reducing ->
                top? (heldBy rest.reverse ++ below) child.token.name = none := by
              intro synthetic _
              apply top?_eq_none
              intro pair member same
              have helper : isHelper child.token.name := by
                rw [← same]
                exact (List.mem_append.mp member).elim (restHelpers pair) (belowHelpers pair)
              have some := childFits.mpr ⟨synthetic, helper⟩
              rw [known] at some
              cases some
            rw [held_of_none known, List.nil_append, splice_kept missing, later below belowHelpers,
              offeredTo_of_none known]
            rfl
        | some collection =>
            have parts := childFits.mp (by rw [known]; rfl)
            have frontApart : forall pair, pair ∈ heldBy rest.reverse ->
                pair.1 ≠ child.token.name := by
              intro pair member
              rcases mem_heldBy.mp member with ⟨entry, listed, _, name⟩
              rw [name]
              exact (apart entry (List.mem_reverse.mp listed) parts.2).symm
            have top : top? (heldBy rest.reverse ++ (child.held ++ below)) child.token.name =
                some collection := by
              rw [top?_append frontApart, held_of_some known]
              exact List.lookup_cons_self
            have dropped : drop child.token.name (heldBy rest.reverse ++ (child.held ++ below)) =
                heldBy rest.reverse ++ below := by
              rw [drop_append frontApart, held_of_some known, List.singleton_append, drop, if_pos rfl]
            rw [splice_taken parts.1 own top, dropped, later below belowHelpers,
              offeredTo_of_ne own, offered_of_some known]

end Collections

/-! ## What a reduction leaves behind -/

namespace Draft

open Entry Collections Grammar

variable {grammar : Grammar} {plain : PlainGrammar}

/-- The rule that a table has for a production of a draft. -/
def ruleOf (draft : Draft) (place : Nat) (production : Production) : ReduceRule :=
  PlainGrammar.reduceRule (draft.plainRule, plainProduction draft.name place production)

/-- What the reduction of a production reports, if its effect is a report. -/
def callOf (draft : Draft) (production : Production) (children : List Entry) : Option Call :=
  match production.emit with
  | .report =>
    some ⟨.parse, production.label.getD draft.name, children.flatMap offered⟩
  | .callback identity =>
    some ⟨.callback identity, production.label.getD draft.name, children.flatMap offered⟩
  | _ => none

/-- The children of a production: one for each symbol, in order. -/
structure Children (grammar : Grammar) (draft : Draft) (place : Nat) (production : Production)
    (children : List Entry) : Prop where
  drafted : Drafted grammar.drafts draft
  found : draft.productions[place]? = some production
  names : children.map (fun child => child.token.name) =
    plainNames draft.name place 0 production.symbols
  fits : forall child, child ∈ children -> Fits grammar.IsHelper child

theorem Children.distinct (apart : grammar.HelpersApart) (made : grammar.toPlain = .ok plain)
    {draft : Draft} {place : Nat} {production : Production} {children : List Entry}
    (correct : Children grammar draft place production children) :
    children.Pairwise fun left right =>
      grammar.IsHelper left.token.name -> left.token.name ≠ right.token.name := by
  have names := helpers_distinct apart made correct.drafted correct.found
  rw [← correct.names] at names
  exact List.pairwise_map.mp names

/-- What relates each symbol to what its child comes to relates all symbols to what all children come
to. -/
theorem relates_children {α : Type} (relates : List Symbol -> List α -> Prop)
    (nil : relates [] [])
    (cons : forall symbol rest front back, relates [symbol] front -> relates rest back ->
      relates (symbol :: rest) (front ++ back)) (draft : Draft) (place start : Nat)
    (production : Production) (of : Entry -> List α) {symbols : List Symbol}
    {children : List Entry} (inside : production.symbols.drop start = symbols)
    (names : children.map (fun child => child.token.name) =
      plainNames draft.name place start symbols)
    (each : forall index symbol child, production.symbols[index]? = some symbol ->
      symbol ∈ symbols -> child ∈ children ->
      child.token.name = plainName draft.name place index symbol -> relates [symbol] (of child)) :
    relates symbols (children.flatMap of) := by
  induction symbols generalizing start children with
  | nil =>
      cases children with
      | nil => exact nil
      | cons child others => cases names
  | cons symbol rest inductionHypothesis =>
      cases children with
      | nil => cases names
      | cons child others =>
          rw [List.map_cons, plainNames, List.cons.injEq] at names
          have atStart : production.symbols[start]? = some symbol := by
            rw [← List.head?_drop, inside]
            rfl
          have after : production.symbols.drop (start + 1) = rest := by
            rw [← List.tail_drop, inside]
            rfl
          have here := each start symbol child atStart List.mem_cons_self List.mem_cons_self names.1
          have later := inductionHypothesis (start + 1) after names.2
            fun index symbol child found listed member =>
              each index symbol child found (List.mem_cons_of_mem _ listed)
                (List.mem_cons_of_mem _ member)
          exact cons symbol rest _ _ here later

private theorem held_filter (own : Entry -> Bool) (children : List Entry)
    (others : forall child, child ∈ children -> own child = false -> child.collection = none) :
    heldBy children.reverse = heldBy (children.filter own).reverse := by
  induction children with
  | nil => rfl
  | cons child rest inductionHypothesis =>
      have later := inductionHypothesis fun entry member =>
        others entry (List.mem_cons_of_mem _ member)
      rw [List.reverse_cons, heldBy_append, heldBy_singleton, later, List.filter_cons]
      cases isOwn : own child with
      | true =>
          rw [if_pos rfl, List.reverse_cons, heldBy_append, heldBy_singleton]
      | false =>
          rw [if_neg Bool.false_ne_true, held_of_none (others child List.mem_cons_self isOwn),
            List.append_nil]

/-- Without operators no child has a collection, unless it has the rule's own name. -/
private theorem none_of_plain (apart : grammar.HelpersApart) (made : grammar.toPlain = .ok plain)
    {draft : Draft} {place : Nat} {production : Production} {children : List Entry}
    (correct : Children grammar draft place production children)
    (operators : hasOperator production.symbols = false) {child : Entry} (member : child ∈ children)
    (other : child.token.name ≠ draft.name) : child.collection = none := by
  cases known : child.collection with
  | none => rfl
  | some collection =>
      have isHelper := ((correct.fits child member).mp (by rw [known]; rfl)).2
      rcases List.getElem?_of_mem member with ⟨index, atIndex⟩
      have name : (plainNames draft.name place 0 production.symbols)[index]? =
          some child.token.name := by
        rw [← correct.names, List.getElem?_map, atIndex]
        rfl
      rcases helper_at apart made correct.drafted correct.found name isHelper with
        ⟨some, _⟩ | ⟨_, own⟩
      · rw [operators] at some
        cases some
      · exact (other own).elim

/-- Whatever the effect of a production is, it starts from what the children offer and from the
collections of the children that have the rule's own name. -/
private theorem reduce_merged (apart : grammar.HelpersApart) (made : grammar.toPlain = .ok plain)
    {draft : Draft} {place : Nat} {production : Production} {children : List Entry}
    (correct : Children grammar draft place production children) {below : Collections}
    (belowHelpers : forall pair, pair ∈ below -> grammar.IsHelper pair.1) :
    (draft.ruleOf place production).reduce (children.map Entry.token)
        (heldBy children.reverse ++ below) =
      (draft.ruleOf place production).effect (children.map Entry.token) production.emit
        (children.flatMap (offeredTo draft.name))
        (heldBy (children.filter fun child => child.token.name = draft.name).reverse ++ below) := by
  unfold ReduceRule.reduce
  have emit : (draft.ruleOf place production).emit =
      if hasOperator production.symbols then .merge production.emit else production.emit := rfl
  have reducing : (draft.ruleOf place production).nonterminal = draft.name := rfl
  rw [emit]
  cases operators : hasOperator production.symbols with
  | true =>
      rw [if_pos rfl, ReduceRule.effect, reducing, splice_eq draft.name children
        correct.fits belowHelpers (correct.distinct apart made)]
  | false =>
      have plainChild : forall child, child ∈ children -> child.token.name ≠ draft.name ->
          child.collection = none := fun child member other =>
        none_of_plain apart made correct operators member other
      have same : children.flatMap (offeredTo draft.name) = children.map Entry.token := by
        rw [List.map_eq_flatMap]
        apply List.flatMap_congr
        intro child member
        unfold offeredTo
        split
        · rfl
        next other => exact offered_of_none (plainChild child member other)
      rw [if_neg Bool.false_ne_true, same,
        held_filter (fun child => child.token.name = draft.name) children]
      intro child member notOwn
      exact plainChild child member (by simpa using notOwn)

private theorem own_nil {draft : Draft} {children : List Entry} (below : Collections)
    (apart : forall child, child ∈ children -> child.token.name = draft.name ->
      child.collection = none) :
    heldBy (children.filter fun child => child.token.name = draft.name).reverse ++ below = below := by
  have nothing : heldBy (children.filter fun child => child.token.name = draft.name).reverse = [] := by
    rw [heldBy, List.flatMap_eq_nil_iff]
    intro child member
    have parts := List.mem_filter.mp (List.mem_reverse.mp member)
    exact held_of_none (apart child parts.1 (by simpa using parts.2))
  rw [nothing, List.nil_append]

private theorem offeredTo_eq {draft : Draft} {children : List Entry}
    (apart : forall child, child ∈ children -> child.token.name = draft.name ->
      child.collection = none) :
    children.flatMap (offeredTo draft.name) = children.flatMap offered := by
  apply List.flatMap_congr
  intro child member
  by_cases own : child.token.name = draft.name
  · rw [offered_of_none (apart child member own), offeredTo_of_none (apart child member own)]
  · exact offeredTo_of_ne own

/-- A rule of the author's takes all collections of its children and leaves none. -/
theorem reduce_outward (apart : grammar.HelpersApart) (outward : grammar.EmitsOutward)
    (made : grammar.toPlain = .ok plain)
    {draft : Draft} {place : Nat} {production : Production} {children : List Entry}
    (correct : Children grammar draft place production children) (listed : draft ∈ grammar.drafts)
    {below : Collections} (belowHelpers : forall pair, pair ∈ below -> grammar.IsHelper pair.1) :
    (draft.ruleOf place production).reduce (children.map Entry.token)
      (heldBy children.reverse ++ below) = .ok (below, draft.callOf production children) := by
  have bare : forall child, child ∈ children -> child.token.name = draft.name ->
      child.collection = none := by
    intro child member own
    cases known : child.collection with
    | none => rfl
    | some collection =>
        have isHelper := ((correct.fits child member).mp (by rw [known]; rfl)).2
        rw [own] at isHelper
        exact (not_helper_of_mem_names apart made (helper_of_listed listed).2 isHelper).elim
  rw [reduce_merged apart made correct belowHelpers, own_nil below bare, offeredTo_eq bare,
    callOf]
  rcases List.mem_map.mp listed with ⟨rule, ruleListed, rfl⟩
  have emits := outward rule ruleListed production (List.mem_of_getElem? correct.found)
  rcases emits with none | report | ⟨identity, callback⟩
  · rw [none]
    rfl
  · rw [report]
    rfl
  · rw [callback]
    rfl

/-! ## Helpers -/

private theorem length_children {draft : Draft} {place : Nat} {production : Production}
    {children : List Entry} (correct : Children grammar draft place production children) :
    children.length = production.symbols.length := by
  have lengths := congrArg List.length correct.names
  rwa [List.length_map, length_plainNames] at lengths

/-- The symbols of a production that does not grow a helper are written in the grammar, so no child
has the helper's own name. -/
private theorem own_absent (apart : grammar.HelpersApart) (made : grammar.toPlain = .ok plain)
    {draft : Draft} {place : Nat} {production : Production} {children : List Entry}
    (correct : Children grammar draft place production children) (isHelper : draft.helper = true)
    (writes : forall symbol, symbol ∈ production.symbols -> grammar.Writes symbol) :
    forall child, child ∈ children -> child.token.name ≠ draft.name := by
  intro child member own
  have listed : child.token.name ∈ children.map fun child => child.token.name :=
    List.mem_map_of_mem member
  rw [correct.names, own] at listed
  exact own_not_mem apart made correct.drafted isHelper place 0 writes listed

private theorem gather_new {collector : String} {max group : Nat} (positive : group ≠ 0)
    {popped children : List Token} {collections : Collections}
    (first : forall token rest, popped = token :: rest -> token.isSynthetic = true ->
      token.name ≠ collector) :
    gather collector max group popped children collections =
      .ok ((collector, ⟨children, popped.length / group⟩) :: collections) := by
  unfold gather
  rw [if_neg positive]
  cases popped with
  | nil => rfl
  | cons token rest =>
      have notRecursive : (token.isSynthetic && token.name == collector) = false := by
        cases synthetic : token.isSynthetic with
        | false => rfl
        | true => exact beq_eq_false_iff_ne.mpr (first token rest rfl synthetic)
      dsimp only
      rw [notRecursive]
      rfl

private theorem gather_grow {collector : String} {max group : Nat} (positive : group ≠ 0)
    {first : Token} {others added : List Token} (synthetic : first.isSynthetic = true)
    (own : first.name = collector) (length : others.length = group) (collection : Collection)
    (below : Collections) :
    gather collector max group (first :: others) (first :: added)
        ((collector, collection) :: below) =
      if 0 < max ∧ max < collection.groups + 1 then
        .error (.failed (.tooMany (ownerOf collector) max (added.headD first)))
      else .ok ((collector, ⟨collection.tokens ++ added, collection.groups + 1⟩) :: below) := by
  have recursive : (first.isSynthetic && first.name == collector) = true := by
    rw [synthetic, own, beq_self_eq_true]
    rfl
  have top : top? ((collector, collection) :: below) collector = some collection :=
    List.lookup_cons_self
  have count : ((first :: others).length - 1) / group = 1 := by
    rw [List.length_cons, Nat.add_sub_cancel, length]
    exact Nat.div_self (Nat.pos_of_ne_zero positive)
  unfold gather
  rw [if_neg positive]
  dsimp only
  rw [recursive, top, count]
  dsimp only
  rw [if_neg (by simp)]
  split
  · rfl
  · rw [replace, if_pos rfl]

/-- A repetition that starts leaves a collection of as many groups as there are whole copies of its
body. -/
theorem reduce_start (apart : grammar.HelpersApart) (made : grammar.toPlain = .ok plain)
    {draft : Draft} {place : Nat} {children : List Entry} {most : Nat} {body front : List Symbol}
    (correct : Children grammar draft place
      { symbols := front, emit := .repetition draft.name most body.length } children)
    (isHelper : draft.helper = true) (notEmpty : body ≠ [])
    (writes : forall symbol, symbol ∈ front -> grammar.Writes symbol)
    {below : Collections} (belowHelpers : forall pair, pair ∈ below -> grammar.IsHelper pair.1) :
    (draft.ruleOf place
        { symbols := front, emit := .repetition draft.name most body.length }).reduce
          (children.map Entry.token) (heldBy children.reverse ++ below) =
      .ok ((draft.name, ⟨children.flatMap offered, front.length / body.length⟩) :: below, none) := by
  have absent := own_absent apart made correct isHelper writes
  have positive : body.length ≠ 0 := fun zero => notEmpty (List.eq_nil_of_length_eq_zero zero)
  rw [reduce_merged apart made correct belowHelpers,
    own_nil below fun child member own => (absent child member own).elim,
    offeredTo_eq fun child member own => (absent child member own).elim]
  dsimp only
  rw [ReduceRule.effect, gather_new positive]
  · rw [List.length_map, length_children correct]
    rfl
  · intro token rest split _
    cases children with
    | nil => cases split
    | cons child others =>
        rw [List.map_cons, List.cons.injEq] at split
        rw [← split.1]
        exact absent child List.mem_cons_self

/-- A choice leaves a collection of one group. -/
theorem reduce_branch (apart : grammar.HelpersApart) (made : grammar.toPlain = .ok plain)
    {draft : Draft} {place : Nat} {children : List Entry} {branch : List Symbol}
    (correct : Children grammar draft place
      { symbols := branch, emit := .choice draft.name } children)
    (isHelper : draft.helper = true)
    (writes : forall symbol, symbol ∈ branch -> grammar.Writes symbol)
    {below : Collections} (belowHelpers : forall pair, pair ∈ below -> grammar.IsHelper pair.1) :
    (draft.ruleOf place { symbols := branch, emit := .choice draft.name }).reduce
        (children.map Entry.token) (heldBy children.reverse ++ below) =
      .ok ((draft.name, ⟨children.flatMap offered, 1⟩) :: below, none) := by
  have absent := own_absent apart made correct isHelper writes
  rw [reduce_merged apart made correct belowHelpers,
    own_nil below fun child member own => (absent child member own).elim,
    offeredTo_eq fun child member own => (absent child member own).elim]
  rfl

/-- What becomes of a repetition that grows by one group.  If its first child has no collection, it is
a token of the source, and the repetition starts with it. -/
inductive Grown (draft : Draft) (most : Nat) (below : Collections) (first : Entry)
    (added : List Token) : Except Halt (Collections × Option Call) -> Prop where
  | more (collection : Collection) (held : first.collection = some collection)
      (within : most = 0 ∨ collection.groups + 1 ≤ most) :
      Grown draft most below first added
        (.ok ((draft.name, ⟨collection.tokens ++ added, collection.groups + 1⟩) :: below, none))
  | exceeded (collection : Collection) (held : first.collection = some collection)
      (limited : 0 < most) (beyond : most < collection.groups + 1) :
      Grown draft most below first added
        (.error (.failed (.tooMany (ownerOf draft.name) most (added.headD first.token))))
  | anew (groups : Nat) (missing : first.collection = none) :
      Grown draft most below first added
        (.ok ((draft.name, ⟨first.token :: added, groups⟩) :: below, none))

/-- A repetition that grows counts one group more than its first child, if that is a repetition at
all, or fails if this is one group too many. -/
theorem reduce_grow (apart : grammar.HelpersApart) (made : grammar.toPlain = .ok plain)
    {draft : Draft} {place : Nat} {first : Entry} {others : List Entry} {most : Nat}
    {body : List Symbol}
    (correct : Children grammar draft place
      { symbols := .name draft.name :: body, emit := .repetition draft.name most body.length }
      (first :: others))
    (isHelper : draft.helper = true) (notEmpty : body ≠ [])
    (writes : forall symbol, symbol ∈ body -> grammar.Writes symbol)
    {below : Collections} (belowHelpers : forall pair, pair ∈ below -> grammar.IsHelper pair.1) :
    Grown draft most below first (others.flatMap offered) ((draft.ruleOf place
        { symbols := .name draft.name :: body,
          emit := .repetition draft.name most body.length }).reduce
      ((first :: others).map Entry.token) (heldBy (first :: others).reverse ++ below)) := by
  have names := correct.names
  rw [List.map_cons, plainNames, List.cons.injEq] at names
  have own : first.token.name = draft.name := names.1
  have absent : forall child, child ∈ others -> child.token.name ≠ draft.name := by
    intro child member same
    have listed : child.token.name ∈ others.map fun child => child.token.name :=
      List.mem_map_of_mem member
    rw [names.2, same] at listed
    exact own_not_mem apart made correct.drafted isHelper place 1 writes listed
  have ownOnly : ((first :: others).filter fun child => child.token.name = draft.name) = [first] := by
    rw [List.filter_cons, if_pos (by simpa using own), List.filter_eq_nil_iff.mpr]
    intro child member
    simpa using absent child member
  have merged : (first :: others).flatMap (offeredTo draft.name) =
      first.token :: others.flatMap offered := by
    rw [List.flatMap_cons, offeredTo, if_pos own,
      offeredTo_eq fun child member same => (absent child member same).elim]
    rfl
  have positive : body.length ≠ 0 := fun zero => notEmpty (List.eq_nil_of_length_eq_zero zero)
  have length : others.length = body.length := Nat.succ.inj (length_children correct)
  rw [reduce_merged apart made correct belowHelpers, ownOnly, List.reverse_singleton,
    heldBy_singleton, merged]
  dsimp only
  rw [ReduceRule.effect]
  have firstFits := correct.fits first List.mem_cons_self
  cases known : first.collection with
  | none =>
      have notSynthetic : forall token rest, (first :: others).map Entry.token = token :: rest ->
          token.isSynthetic = true -> token.name ≠ draft.name := by
        intro token rest split synthetic _
        rw [List.map_cons, List.cons.injEq] at split
        rw [← split.1] at synthetic
        have some := firstFits.mpr ⟨synthetic, own ▸ ⟨draft, correct.drafted, isHelper, rfl⟩⟩
        rw [known] at some
        cases some
      rw [gather_new positive notSynthetic, held_of_none known, List.nil_append]
      exact .anew _ known
  | some collection =>
      have synthetic := (firstFits.mp (by rw [known]; rfl)).1
      rw [held_of_some known, own, List.singleton_append]
      have count : (others.map Entry.token).length = body.length := by
        rw [List.length_map, length]
      rw [List.map_cons, gather_grow positive synthetic own count]
      by_cases beyond : 0 < most ∧ most < collection.groups + 1
      · rw [if_pos beyond]
        exact .exceeded collection known beyond.1 beyond.2
      · rw [if_neg beyond]
        refine .more collection known ?_
        omega

/-- What the reduction of a production leaves of its children: nothing, or one collection for the
helper that is reduced. -/
inductive Leaves (grammar : Grammar) (draft : Draft) (children : List Entry) :
    Production -> Option Collection -> Prop where
  | outward (production : Production) (listed : draft ∈ grammar.drafts) :
      Leaves grammar draft children production none
  | start (owner : Draft) (place index : Nat) (symbol : Symbol) (least most groups : Nat)
      (body front : List Symbol) (ownerDrafted : Drafted grammar.drafts owner)
      (helperOf : owner.HelperOf place index symbol draft)
      (repeats : repetition? symbol = some (least, most, body))
      (inside : forall inner, inner ∈ front -> inner ∈ body)
      (counts : FloorFits symbol -> Within least most groups ∧ front = repeated groups body) :
      Leaves grammar draft children
        { symbols := front, emit := .repetition draft.name most body.length }
        (some ⟨children.flatMap offered, groups⟩)
  | grow (owner : Draft) (place index : Nat) (symbol : Symbol) (least most : Nat)
      (body : List Symbol) (first : Entry) (others : List Entry) (collection : Collection)
      (ownerDrafted : Drafted grammar.drafts owner)
      (helperOf : owner.HelperOf place index symbol draft)
      (repeats : repetition? symbol = some (least, most, body))
      (split : children = first :: others) (held : first.collection = some collection)
      (within : most = 0 ∨ collection.groups + 1 ≤ most) :
      Leaves grammar draft children
        { symbols := .name draft.name :: body, emit := .repetition draft.name most body.length }
        (some ⟨collection.tokens ++ others.flatMap offered, collection.groups + 1⟩)
  | anew (most : Nat) (body : List Symbol) (first : Entry) (others : List Entry)
      (groups : Nat) (isHelper : draft.helper = true)
      (split : children = first :: others) (missing : first.collection = none) :
      Leaves grammar draft children
        { symbols := .name draft.name :: body, emit := .repetition draft.name most body.length }
        (some ⟨children.flatMap offered, groups⟩)
  | branch (owner : Draft) (place index : Nat) (branches : List (List Symbol))
      (branch : List Symbol) (ownerDrafted : Drafted grammar.drafts owner)
      (helperOf : owner.HelperOf place index (.alternation branches) draft)
      (member : branch ∈ branches) :
      Leaves grammar draft children { symbols := branch, emit := .choice draft.name }
        (some ⟨children.flatMap offered, 1⟩)

/-- A helper leaves a collection, and no other rule does. -/
theorem Leaves.fits (apart : grammar.HelpersApart) (made : grammar.toPlain = .ok plain)
    {draft : Draft} (drafted : Drafted grammar.drafts draft) {children : List Entry}
    {production : Production} {kept : Option Collection}
    (leaves : Leaves grammar draft children production kept) :
    kept.isSome = true ↔ grammar.IsHelper draft.name := by
  have helps : draft.helper = true -> grammar.IsHelper draft.name :=
    fun isHelper => ⟨draft, drafted, isHelper, rfl⟩
  cases leaves with
  | outward production listed =>
      have notHelper := not_helper_of_mem_names apart made (helper_of_listed listed).2
      exact ⟨fun impossible => (Bool.false_ne_true impossible).elim,
        fun isHelper => (notHelper isHelper).elim⟩
  | start owner place index symbol least most groups body front _ helperOf =>
      exact ⟨fun _ => helps helperOf.isHelper, fun _ => rfl⟩
  | grow owner place index symbol least most body first others collection _ helperOf =>
      exact ⟨fun _ => helps helperOf.isHelper, fun _ => rfl⟩
  | anew most body first others groups isHelper =>
      exact ⟨fun _ => helps isHelper, fun _ => rfl⟩
  | branch owner place index branches branch _ helperOf member =>
      exact ⟨fun _ => helps helperOf.isHelper, fun _ => rfl⟩

/-- Either a rule of the author's leaves nothing, or a helper leaves all that its children offer and
reports nothing. -/
theorem Leaves.cases {draft : Draft} {children : List Entry} {production : Production}
    {kept : Option Collection} (leaves : Leaves grammar draft children production kept) :
    (draft ∈ grammar.drafts ∧ kept = none) ∨
      (draft.helper = true ∧ draft.callOf production children = none ∧
        Exists fun groups => kept = some ⟨children.flatMap offered, groups⟩) := by
  cases leaves with
  | outward production listed => exact Or.inl ⟨listed, rfl⟩
  | start owner place index symbol least most groups body front _ helperOf =>
      exact Or.inr ⟨helperOf.isHelper, rfl, groups, rfl⟩
  | grow owner place index symbol least most body first others collection _ helperOf _ split held =>
      refine Or.inr ⟨helperOf.isHelper, rfl, collection.groups + 1, ?_⟩
      rw [split, List.flatMap_cons, offered_of_some held]
  | anew most body first others groups isHelper => exact Or.inr ⟨isHelper, rfl, groups, rfl⟩
  | branch owner place index branches branch _ helperOf =>
      exact Or.inr ⟨helperOf.isHelper, rfl, 1, rfl⟩

/-- A repetition must not grow by one more group.  The token that is blamed is the first that the
group offers, or the repetition's own if it offers none. -/
structure Refuses (draft : Draft) (production : Production) (children : List Entry) (token : Token) :
    Prop where
  isHelper : draft.helper = true
  grows : Exists fun body => body ≠ [] ∧ production.symbols = .name draft.name :: body
  blamed : Exists fun first => Exists fun others => children = first :: others ∧
    token = (others.flatMap offered).headD first.token

/-- A reduction leaves what its production says, or it is refused because of a group too many. -/
theorem leaves_reduce (apart : grammar.HelpersApart) (outward : grammar.EmitsOutward)
    (made : grammar.toPlain = .ok plain)
    {draft : Draft} {place : Nat} {production : Production} {children : List Entry}
    (correct : Children grammar draft place production children) {below : Collections}
    (belowHelpers : forall pair, pair ∈ below -> grammar.IsHelper pair.1) :
    (Exists fun kept => Leaves grammar draft children production kept ∧
      (draft.ruleOf place production).reduce (children.map Entry.token)
          (heldBy children.reverse ++ below) =
        .ok ((kept.map fun collection => (draft.name, collection)).toList ++ below,
          draft.callOf production children)) ∨
      Exists fun owner => Exists fun most => Exists fun token =>
        draft.Refuses production children token ∧
        (draft.ruleOf place production).reduce (children.map Entry.token)
          (heldBy children.reverse ++ below) = .error (.failed (.tooMany owner most token)) := by
  have listed := List.mem_of_getElem? correct.found
  cases correct.drafted with
  | listed draft member =>
      exact Or.inl ⟨none, .outward production member,
        reduce_outward apart outward made correct member belowHelpers⟩
  | helper owner draft at_ index symbol ownerDrafted helperOf =>
      have writes := writes_operator ownerDrafted helperOf
      rcases expand_spec helperOf.operator helperOf.expanded with ⟨kinds, enough⟩
      rw [← helperOf.name] at kinds enough
      cases kinds production listed with
      | start least most count body front repeats inside counts =>
          have notEmpty := enough.notEmpty least most body repeats
          have groups : FloorFits symbol -> Within least most (front.length / body.length) ∧
              front = repeated (front.length / body.length) body := by
            intro fits
            rcases counts fits with ⟨within, copies⟩
            rw [copies, length_repeated_div notEmpty]
            exact ⟨within, rfl⟩
          exact Or.inl ⟨_, .start owner at_ index symbol least most _ body front ownerDrafted helperOf
            repeats inside groups, reduce_start apart made correct helperOf.isHelper notEmpty
            (fun inner member => writes_body writes repeats inner (inside inner member))
            belowHelpers⟩
      | grow least most body repeats _ =>
          have notEmpty := enough.notEmpty least most body repeats
          have names := correct.names
          cases children with
          | nil => cases names
          | cons first others =>
              have grown := reduce_grow apart made correct helperOf.isHelper notEmpty
                (writes_body writes repeats) belowHelpers
              generalize reduced : (draft.ruleOf place _).reduce _ _ = result at grown ⊢
              cases grown with
              | more collection held within =>
                  exact Or.inl ⟨_, .grow owner at_ index symbol least most body first others
                    collection ownerDrafted helperOf repeats rfl held within, rfl⟩
              | exceeded collection held limited beyond =>
                  exact Or.inr ⟨_, _, _, ⟨helperOf.isHelper, ⟨body, notEmpty, rfl⟩,
                    ⟨first, others, rfl, rfl⟩⟩, rfl⟩
              | anew groups missing =>
                  have offers : (first :: others).flatMap offered =
                      first.token :: others.flatMap offered := by
                    rw [List.flatMap_cons, offered_of_none missing]
                    rfl
                  rw [← offers]
                  exact Or.inl ⟨_, .anew most body first others groups helperOf.isHelper rfl missing,
                    rfl⟩
      | branch branches branch choice member =>
          subst choice
          exact Or.inl ⟨_, .branch owner at_ index branches branch ownerDrafted helperOf member,
            reduce_branch apart made correct helperOf.isHelper (writes_branch writes member)
              belowHelpers⟩

end Draft

end ShiftReduce
