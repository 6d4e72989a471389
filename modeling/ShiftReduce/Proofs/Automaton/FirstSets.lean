import Mathlib.Algebra.Order.BigOperators.Group.List
import ShiftReduce.Proofs.Automaton.ItemSets
import ShiftReduce.Proofs.Automaton.Numbering

namespace ShiftReduce

/-!
# What symbols derive

Nullable symbols and first sets are computed by going over all productions until nothing changes.
Such a computation is described by one size that every change makes larger and that has a limit: it
has settled once it has been given more rounds than the limit allows changes, and then no single
production changes anything any more.

What has settled is exact in both directions.  Every entry was put there by a production, which says
how it is found by going into names.  Conversely no production has anything left to add, so what is
found in that way has been put there.
-/

/-! ## Settling -/

/-- Every step keeps the invariant, and either changes nothing or makes the size larger. -/
structure Grows {α : Type} (invariant : α -> Prop) (size : α -> Nat) (step : α -> α) : Prop where
  kept : forall value, invariant value -> invariant (step value)
  same_or_larger : forall value, invariant value -> step value = value ∨ size value < size (step value)

namespace Grows

variable {α β : Type} {invariant : α -> Prop} {size : α -> Nat}

/-- A pass over a list that changes nothing has changed nothing at any of its members. -/
theorem foldl {step : α -> β -> α} (members : List β)
    (each : forall member, member ∈ members -> Grows invariant size fun value => step value member) :
    Grows invariant size (fun value => members.foldl step value) ∧
      forall value, invariant value -> members.foldl step value = value ->
        forall member, member ∈ members -> step value member = value := by
  induction members with
  | nil => exact ⟨⟨fun _ holds => holds, fun _ _ => Or.inl rfl⟩, fun _ _ _ _ member => by cases member⟩
  | cons head rest inductionHypothesis =>
      have first := each head List.mem_cons_self
      have others := inductionHypothesis fun member listed =>
        each member (List.mem_cons_of_mem _ listed)
      have growth : forall value, invariant value ->
          step value head = value ∨ size value < size (rest.foldl step (step value head)) := by
        intro value holds
        rcases first.same_or_larger value holds with same | larger
        · exact Or.inl same
        · rcases others.1.same_or_larger _ (first.kept value holds) with equal | more
          · rw [equal]
            exact Or.inr larger
          · exact Or.inr (Nat.lt_trans larger more)
      refine ⟨⟨fun value holds => others.1.kept _ (first.kept value holds), ?_⟩, ?_⟩
      · intro value holds
        rw [List.foldl_cons]
        rcases growth value holds with same | larger
        · rw [same]
          exact others.1.same_or_larger value holds
        · exact Or.inr larger
      · intro value holds unchanged
        rw [List.foldl_cons] at unchanged
        have same : step value head = value := by
          rcases growth value holds with same | larger
          · exact same
          · rw [unchanged] at larger
            exact (Nat.lt_irrefl _ larger).elim
        rw [same] at unchanged
        intro member listed
        rcases List.mem_cons.mp listed with here | later
        · exact here ▸ same
        · exact others.2 value holds unchanged member later

/-- Enough rounds lead to a value that the next round leaves alone. -/
theorem settled [DecidableEq α] {step : α -> α} (grows : Grows invariant size step) {limit : Nat}
    (limited : forall value, invariant value -> size value ≤ limit) {bound : Nat} {value : α}
    (holds : invariant value) (enough : limit < bound + size value) :
    invariant (settle step bound value) ∧
      step (settle step bound value) = settle step bound value := by
  induction bound generalizing value with
  | zero =>
      have small := limited value holds
      omega
  | succ bound inductionHypothesis =>
      simp only [settle]
      by_cases same : step value = value
      · rw [if_pos same]
        exact ⟨holds, same⟩
      · rw [if_neg same]
        have larger := (grows.same_or_larger value holds).resolve_left same
        exact inductionHypothesis (grows.kept value holds) (by omega)

end Grows

/-- Settling is nothing but taking steps, at most as many as are allowed. -/
theorem settle_eq_iterate {α : Type} [DecidableEq α] (step : α -> α) (bound : Nat) (value : α) :
    Exists fun rounds => rounds ≤ bound ∧ settle step bound value = step^[rounds] value := by
  induction bound generalizing value with
  | zero => exact ⟨0, Nat.le_refl 0, rfl⟩
  | succ bound inductionHypothesis =>
      simp only [settle]
      split
      · exact ⟨0, Nat.zero_le _, rfl⟩
      · rcases inductionHypothesis (step value) with ⟨rounds, few, same⟩
        exact ⟨rounds + 1, Nat.succ_le_succ few, same⟩

/-! ## The size of an array -/

private theorem sum_set {α : Type} (size : α -> Nat) (values : List α) (index : Nat) (value : α)
    (inside : index < values.length) :
    ((values.set index value).map size).sum + size values[index] =
      (values.map size).sum + size value := by
  induction values generalizing index with
  | nil => exact (Nat.not_lt_zero _ inside).elim
  | cons head rest inductionHypothesis =>
      cases index with
      | zero =>
          simp only [List.set_cons_zero, List.map_cons, List.sum_cons, List.getElem_cons_zero]
          omega
      | succ index =>
          have later := inductionHypothesis index (Nat.lt_of_succ_lt_succ inside)
          simp only [List.set_cons_succ, List.map_cons, List.sum_cons, List.getElem_cons_succ]
          omega

/-- The sum of the sizes of an array's entries. -/
def totalSize {α : Type} (size : α -> Nat) (values : Array α) : Nat :=
  (values.toList.map size).sum

/-- Writing a larger entry makes an array larger, and writing an entry that is there leaves it
alone. -/
theorem setIfInBounds_same_or_larger {α : Type} (size : α -> Nat) (values : Array α) (index : Nat)
    (default value : α)
    (grown : values.getD index default = value ∨ size (values.getD index default) < size value) :
    values.setIfInBounds index value = values ∨
      totalSize size values < totalSize size (values.setIfInBounds index value) := by
  by_cases inside : index < values.size
  · have entry : values.getD index default = values[index] := by
      simp [Array.getD, inside]
    rw [entry] at grown
    rw [Array.setIfInBounds_def, dif_pos inside]
    rcases grown with same | larger
    · exact Or.inl (by rw [← same, Array.set_getElem_self])
    · have total := sum_set size values.toList index value (by simpa using inside)
      refine Or.inr ?_
      unfold totalSize
      rw [Array.toList_set]
      simp only [Array.getElem_toList] at total
      omega
  · exact Or.inl (Array.setIfInBounds_eq_of_size_le (Nat.le_of_not_lt inside))

theorem totalSize_le {α : Type} {size : α -> Nat} {values : Array α} {bound : Nat}
    (each : forall value, value ∈ values.toList -> size value ≤ bound) :
    totalSize size values ≤ values.size * bound := by
  have small : forall entry, entry ∈ values.toList.map size -> entry ≤ bound := by
    intro entry member
    rcases List.mem_map.mp member with ⟨value, listed, rfl⟩
    exact each value listed
  have total := List.sum_le_card_nsmul _ _ small
  rwa [List.length_map, smul_eq_mul, Array.length_toList] at total

namespace Analysis

variable (grammar : PlainGrammar)

/-- The number of symbols of a grammar, the end of the input included. -/
def symbolCount : Nat := (Vocabulary.ofGrammar grammar).names.size

/-- The name of a symbol of a grammar. -/
def symbolName (id : Nat) : String := (Vocabulary.ofGrammar grammar).name id

/-- The symbols after the dot are those of the grammar's production, by their names. -/
theorem map_fromDot (production dot : Nat) :
    ((ofGrammar grammar).fromDot production dot).map (symbolName grammar) =
      grammar.fromDot production dot := by
  unfold Analysis.fromDot PlainGrammar.fromDot
  cases known : grammar.productions[production]? with
  | none =>
      have beyond := List.getElem?_eq_none_iff.mp known
      rw [← Vocabulary.size_productions] at beyond
      have missing : (ofGrammar grammar).vocabulary.productions[production]? = none :=
        Array.getElem?_eq_none beyond
      rw [missing]
      rfl
  | some pair =>
      rcases Vocabulary.production_exists grammar known with ⟨numbered, found⟩
      have right := (Vocabulary.right_at grammar found known).1
      have same : (ofGrammar grammar).vocabulary.productions[production]? = some numbered := found
      rw [same]
      dsimp only
      rw [List.map_drop]
      exact congrArg (List.drop dot) right

theorem lt_of_mem_fromDot {production dot id : Nat}
    (member : id ∈ (ofGrammar grammar).fromDot production dot) : id < symbolCount grammar := by
  unfold Analysis.fromDot at member
  cases found : (ofGrammar grammar).vocabulary.productions[production]? with
  | none =>
      rw [found] at member
      cases member
  | some numbered =>
      rw [found] at member
      rcases Vocabulary.production_at grammar found with ⟨pair, known, _⟩
      exact (Vocabulary.right_at grammar found known).2 id (List.mem_of_mem_drop member)

theorem getD_productionsOf {id : Nat} (inside : id < symbolCount grammar) :
    (ofGrammar grammar).productionsOf.getD id [] = (Vocabulary.ofGrammar grammar).productionsOf id := by
  have length : id < ((List.range (symbolCount grammar)).map
      (Vocabulary.ofGrammar grammar).productionsOf).length := by simpa using inside
  change (((List.range (symbolCount grammar)).map
    (Vocabulary.ofGrammar grammar).productionsOf).toArray).getD id [] = _
  rw [Array.getD_eq_getD_getElem?, List.getElem?_toArray, List.getElem?_eq_getElem length]
  simp

theorem mem_productionsOf {id index : Nat} (inside : id < symbolCount grammar) :
    index ∈ (ofGrammar grammar).productionsOf.getD id [] ↔
      Exists fun pair => grammar.productions[index]? = some pair ∧
        pair.1.name = symbolName grammar id := by
  rw [getD_productionsOf grammar inside]
  exact Vocabulary.mem_productionsOf grammar inside

/-- A numbered production of the grammar, and the names that its numbers stand for. -/
structure Translates (numbered : NumberedProduction) (pair : PlainRule × PlainProduction) : Prop where
  listed : pair ∈ grammar.productions
  left : symbolName grammar numbered.left = pair.1.name
  leftInside : numbered.left < symbolCount grammar
  right : numbered.right.map (symbolName grammar) = pair.2.symbols
  rightInside : forall id, id ∈ numbered.right -> id < symbolCount grammar

theorem translates_at {index : Nat} {numbered : NumberedProduction}
    (found : (Vocabulary.ofGrammar grammar).productions[index]? = some numbered) :
    Exists fun pair => grammar.productions[index]? = some pair ∧ Translates grammar numbered pair := by
  rcases Vocabulary.production_at grammar found with ⟨pair, known, _, left, _, _⟩
  have right := Vocabulary.right_at grammar found known
  exact ⟨pair, known, List.mem_of_getElem? known, Vocabulary.name_of_getElem? left,
    (Array.getElem?_eq_some_iff.mp left).1, right.1, right.2⟩

theorem translates_of_mem {numbered : NumberedProduction}
    (listed : numbered ∈ (Vocabulary.ofGrammar grammar).productions.toList) :
    Exists fun pair => Translates grammar numbered pair := by
  rcases List.getElem?_of_mem listed with ⟨index, found⟩
  rw [Array.getElem?_toList] at found
  rcases translates_at grammar found with ⟨pair, _, translates⟩
  exact ⟨pair, translates⟩

theorem translated_of_mem {pair : PlainRule × PlainProduction} (listed : pair ∈ grammar.productions) :
    Exists fun numbered => numbered ∈ (Vocabulary.ofGrammar grammar).productions.toList ∧
      Translates grammar numbered pair := by
  rcases List.getElem?_of_mem listed with ⟨index, known⟩
  rcases Vocabulary.production_exists grammar known with ⟨numbered, found⟩
  rcases translates_at grammar found with ⟨other, atIndex, translates⟩
  have same : other = pair := Option.some.inj (atIndex.symm.trans known)
  rw [← Array.getElem?_toList] at found
  exact ⟨numbered, List.mem_of_getElem? found, same ▸ translates⟩

/-! ## Nullable symbols -/

/-- Every mark is that of a symbol that derives the empty string. -/
structure MarksNullable (nullable : Array Bool) : Prop where
  size : nullable.size = symbolCount grammar
  derives : forall id, nullable.getD id false = true -> grammar.Derives [symbolName grammar id] []

private theorem derives_right {nullable : Array Bool} (marks : MarksNullable grammar nullable)
    (ids : List Nat) (all : forall id, id ∈ ids -> nullable.getD id false = true) :
    grammar.Derives (ids.map (symbolName grammar)) [] := by
  apply PlainGrammar.Derives.to_nil
  intro symbol member
  rcases List.mem_map.mp member with ⟨id, listed, rfl⟩
  exact marks.derives id (all id listed)

private theorem grows_markNullable {numbered : NumberedProduction}
    {pair : PlainRule × PlainProduction} (translates : Translates grammar numbered pair) :
    Grows (MarksNullable grammar) (totalSize Bool.toNat)
      fun nullable => markNullable nullable numbered := by
  constructor
  · intro nullable marks
    unfold markNullable
    split
    next all =>
      have right := derives_right grammar marks numbered.right (List.all_eq_true.mp all)
      rw [translates.right] at right
      have left := (PlainGrammar.Derives.production translates.listed).trans right
      rw [← translates.left] at left
      refine ⟨by rw [Array.size_setIfInBounds, marks.size], ?_⟩
      intro id marked
      by_cases same : id = numbered.left
      · exact same ▸ left
      · apply marks.derives id
        rw [← marked]
        simp only [Array.getD_eq_getD_getElem?]
        rw [Array.getElem?_setIfInBounds_ne (Ne.symm same)]
    · exact marks
  · intro nullable _
    unfold markNullable
    split
    · apply setIfInBounds_same_or_larger Bool.toNat nullable numbered.left false true
      cases nullable.getD numbered.left false with
      | false => exact Or.inr Nat.zero_lt_one
      | true => exact Or.inl rfl
    · exact Or.inl rfl

/-- The marks are right, and no production asks for another one. -/
theorem settled_nullable :
    MarksNullable grammar (ofGrammar grammar).nullable ∧
      forall numbered, numbered ∈ (Vocabulary.ofGrammar grammar).productions.toList ->
        markNullable (ofGrammar grammar).nullable numbered = (ofGrammar grammar).nullable := by
  have passes := Grows.foldl (Vocabulary.ofGrammar grammar).productions.toList
    fun numbered listed => (translates_of_mem grammar listed).elim fun _ translates =>
      grows_markNullable grammar translates
  have start : MarksNullable grammar (Array.replicate (symbolCount grammar) false) := by
    refine ⟨Array.size_replicate, ?_⟩
    intro id marked
    simp only [Array.getD_eq_getD_getElem?, Array.getElem?_replicate] at marked
    split at marked <;> cases marked
  have limited : forall nullable, MarksNullable grammar nullable ->
      totalSize Bool.toNat nullable ≤ symbolCount grammar := by
    intro nullable marks
    have total : totalSize Bool.toNat nullable ≤ nullable.size * 1 :=
      totalSize_le fun value _ => Bool.toNat_le value
    rwa [marks.size, Nat.mul_one] at total
  have settled := passes.1.settled limited start
    (Nat.lt_of_lt_of_le (Nat.lt_succ_self (symbolCount grammar)) (Nat.le_add_right _ _))
  have equal : (ofGrammar grammar).nullable =
      settle (fun nullable => (Vocabulary.ofGrammar grammar).productions.toList.foldl
        markNullable nullable) (symbolCount grammar + 1)
        (Array.replicate (symbolCount grammar) false) := by
    simp only [Array.foldl_toList]
    rfl
  rw [equal]
  exact ⟨settled.1, passes.2 _ settled.1 settled.2⟩

/-- Two numbers below the count with one name are the same number. -/
theorem symbolName_injective {left right : Nat} (leftInside : left < symbolCount grammar)
    (rightInside : right < symbolCount grammar)
    (same : symbolName grammar left = symbolName grammar right) : left = right :=
  Vocabulary.name_injective grammar leftInside rightInside same

/-- Whether the analysis takes a name for that of a nullable symbol. -/
def MarkedNullable (name : String) : Prop :=
  Exists fun id => id < symbolCount grammar ∧ symbolName grammar id = name ∧
    (ofGrammar grammar).nullable.getD id false = true

theorem markedNullable_iff {id : Nat} (inside : id < symbolCount grammar) :
    MarkedNullable grammar (symbolName grammar id) ↔
      (ofGrammar grammar).nullable.getD id false = true := by
  constructor
  · rintro ⟨other, otherInside, same, marked⟩
    exact symbolName_injective grammar otherInside inside same ▸ marked
  · intro marked
    exact ⟨id, inside, rfl, marked⟩

/-- A production whose right side is marked has its left side marked: the last pass over the
productions found nothing to mark. -/
theorem markedNullable_production {pair : PlainRule × PlainProduction}
    (listed : pair ∈ grammar.productions)
    (right : forall symbol, symbol ∈ pair.2.symbols -> MarkedNullable grammar symbol) :
    MarkedNullable grammar pair.1.name := by
  rcases translated_of_mem grammar listed with ⟨numbered, member, translates⟩
  have fixed := (settled_nullable grammar).2 numbered member
  have all : numbered.right.all (fun id => (ofGrammar grammar).nullable.getD id false) = true := by
    apply List.all_eq_true.mpr
    intro id inRight
    apply (markedNullable_iff grammar (translates.rightInside id inRight)).mp
    exact right _ (translates.right ▸ List.mem_map_of_mem inRight)
  refine ⟨numbered.left, translates.leftInside, translates.left, ?_⟩
  rw [markNullable, if_pos all] at fixed
  have size := (settled_nullable grammar).1.size
  rw [← fixed, Array.getD_eq_getD_getElem?, Array.getElem?_setIfInBounds_self_of_lt]
  · rfl
  · rw [size]
    exact translates.leftInside

theorem markedNullable_of_derives {source target : List String}
    (derives : grammar.Derives source target)
    (all : forall symbol, symbol ∈ target -> MarkedNullable grammar symbol) :
    forall symbol, symbol ∈ source -> MarkedNullable grammar symbol := by
  induction derives using Relation.ReflTransGen.head_induction_on with
  | refl => exact all
  | head step _ inductionHypothesis =>
      rcases step with ⟨before, after, pair, listed⟩
      have left := markedNullable_production grammar listed fun symbol member =>
        inductionHypothesis symbol (List.mem_append_left _ (List.mem_append_right _ member))
      intro symbol member
      rcases List.mem_append.mp member with front | back
      · exact inductionHypothesis symbol (List.mem_append_left _ (List.mem_append_left _ front))
      · rcases List.mem_cons.mp back with same | behind
        · exact same ▸ left
        · exact inductionHypothesis symbol (List.mem_append_right _ behind)

/-- A sequence is computed to be nullable exactly when it derives the empty string. -/
theorem all_nullable_iff {ids : List Nat} (inside : forall id, id ∈ ids -> id < symbolCount grammar) :
    (forall id, id ∈ ids -> (ofGrammar grammar).nullable.getD id false = true) ↔
      grammar.Nullable (ids.map (symbolName grammar)) := by
  constructor
  · exact derives_right grammar (settled_nullable grammar).1 ids
  · intro nullable id member
    have marked := markedNullable_of_derives grammar nullable
      (fun _ impossible => by cases impossible) _ (List.mem_map_of_mem member)
    exact (markedNullable_iff grammar (inside id member)).mp marked

/-! ## First sets -/

theorem mem_firstOf (nullable : Array Bool) (first : Array IdSet) (tail : IdSet) (ids : List Nat)
    (value : Nat) :
    value ∈ firstOf nullable first tail ids ↔
      value ∈ firstOf nullable first [] ids ∨
        (forall id, id ∈ ids -> nullable.getD id false = true) ∧ value ∈ tail := by
  induction ids with
  | nil => simp [firstOf]
  | cons id rest inductionHypothesis =>
      simp only [firstOf]
      by_cases empty : nullable.getD id false = true
      · rw [if_pos empty, if_pos empty, IdSet.mem_union, IdSet.mem_union, inductionHypothesis]
        simp only [List.forall_mem_cons, empty, true_and]
        exact or_assoc.symm
      · rw [if_neg empty, if_neg empty]
        simp only [List.forall_mem_cons, empty, false_and, or_false, Bool.false_eq_true]

theorem sorted_firstOf {nullable : Array Bool} {first : Array IdSet} {tail : IdSet}
    (each : forall id, IdSet.Sorted (first.getD id [])) (tailSorted : IdSet.Sorted tail)
    (ids : List Nat) : IdSet.Sorted (firstOf nullable first tail ids) := by
  induction ids with
  | nil => exact tailSorted
  | cons id rest inductionHypothesis =>
      simp only [firstOf]
      split
      · exact IdSet.sorted_union (each id) inductionHypothesis
      · exact each id

/-- Leaving out the left side of a production, and what it begins with already, loses nothing. -/
theorem mem_gained (nullable : Array Bool) (first : Array IdSet) (left : Nat) (ids : List Nat)
    (value : Nat) :
    value ∈ gained nullable first left ids ∨ value ∈ first.getD left [] ↔
      value ∈ firstOf nullable first [] ids ∨ value ∈ first.getD left [] := by
  by_cases known : value ∈ first.getD left []
  · exact iff_of_true (Or.inr known) (Or.inr known)
  · simp only [known, or_false]
    induction ids with
    | nil => rfl
    | cons id rest inductionHypothesis =>
        have here : value ∈ (if id = left then []
            else (first.getD id []).filter fun value => value ∉ first.getD left []) ↔
            value ∈ first.getD id [] := by
          split
          next same => rw [same, iff_false_intro List.not_mem_nil, iff_false_intro known]
          · rw [List.mem_filter, and_iff_left (decide_eq_true known)]
        simp only [gained, firstOf]
        split
        · rw [IdSet.mem_union, IdSet.mem_union, here, inductionHypothesis]
        · exact here

theorem sorted_gained {nullable : Array Bool} {first : Array IdSet}
    (each : forall id, IdSet.Sorted (first.getD id [])) (left : Nat) (ids : List Nat) :
    IdSet.Sorted (gained nullable first left ids) := by
  induction ids with
  | nil => exact List.Pairwise.nil
  | cons id rest inductionHypothesis =>
      have here : IdSet.Sorted (if id = left then []
          else (first.getD id []).filter fun value => value ∉ first.getD left []) := by
        split
        · exact List.Pairwise.nil
        · exact (each id).filter _
      simp only [gained]
      split
      · exact IdSet.sorted_union here inductionHypothesis
      · exact here

/-- Every entry is a terminal that is found in front of its symbol, and every terminal is found in
front of itself. -/
structure ListsFirst (first : Array IdSet) : Prop where
  size : first.size = symbolCount grammar
  sorted : forall id, IdSet.Sorted (first.getD id [])
  inside : forall id value, value ∈ first.getD id [] -> value < symbolCount grammar
  opens : forall id value, value ∈ first.getD id [] ->
    grammar.Opens [symbolName grammar id] (symbolName grammar value)
  terminal : forall id, id < symbolCount grammar -> id ≠ Vocabulary.endId ->
    ¬ grammar.IsNonterminal (symbolName grammar id) -> id ∈ first.getD id []

theorem inside_firstOf {nullable : Array Bool} {first : Array IdSet} {tail : IdSet}
    (each : forall id value, value ∈ first.getD id [] -> value < symbolCount grammar)
    (tailInside : forall value, value ∈ tail -> value < symbolCount grammar) (ids : List Nat) :
    forall value, value ∈ firstOf nullable first tail ids -> value < symbolCount grammar := by
  induction ids with
  | nil => exact tailInside
  | cons id rest inductionHypothesis =>
      intro value member
      simp only [firstOf] at member
      split at member
      · rcases (IdSet.mem_union _ _ _).mp member with here | later
        · exact each id value here
        · exact inductionHypothesis value later
      · exact each id value member

private theorem opens_firstOf {first : Array IdSet} (lists : ListsFirst grammar first)
    (ids : List Nat) {value : Nat}
    (member : value ∈ firstOf (ofGrammar grammar).nullable first [] ids) :
    grammar.Opens (ids.map (symbolName grammar)) (symbolName grammar value) := by
  induction ids with
  | nil => cases member
  | cons id rest inductionHypothesis =>
      rw [List.map_cons]
      have front : value ∈ first.getD id [] ->
          grammar.Opens (symbolName grammar id :: rest.map (symbolName grammar))
            (symbolName grammar value) := fun listed =>
        PlainGrammar.opens_append.mpr (Or.inl (lists.opens id value listed))
      simp only [firstOf] at member
      split at member
      next empty =>
        rcases (IdSet.mem_union _ _ _).mp member with here | later
        · exact front here
        · exact .skip _ _ _ ((settled_nullable grammar).1.derives id empty)
            (inductionHypothesis later)
      · exact front member

/-- The end of the input is the only symbol with an empty name. -/
theorem symbolName_eq_empty {id : Nat} (inside : id < symbolCount grammar) :
    symbolName grammar id = "" ↔ id = Vocabulary.endId := by
  have endName := Vocabulary.endName grammar
  have empty : symbolName grammar Vocabulary.endId = "" := Vocabulary.name_of_getElem? endName
  constructor
  · intro same
    exact symbolName_injective grammar inside (Array.getElem?_eq_some_iff.mp endName).1
      (same.trans empty.symm)
  · rintro rfl
    exact empty

theorem isEmpty_productionsOf {id : Nat} (inside : id < symbolCount grammar) :
    ((ofGrammar grammar).productionsOf.getD id []).isEmpty = true ↔
      ¬ grammar.IsNonterminal (symbolName grammar id) := by
  rw [List.isEmpty_iff, List.eq_nil_iff_forall_not_mem]
  constructor
  · rintro noProduction ⟨pair, listed, name⟩
    rcases List.getElem?_of_mem listed with ⟨index, known⟩
    exact noProduction index ((mem_productionsOf grammar inside).mpr ⟨pair, known, name⟩)
  · intro terminal index member
    rcases (mem_productionsOf grammar inside).mp member with ⟨pair, known, name⟩
    exact terminal ⟨pair, List.mem_of_getElem? known, name⟩

private theorem size_initialFirst :
    (initialFirst (ofGrammar grammar).productionsOf).size = symbolCount grammar := by
  have size : (ofGrammar grammar).productionsOf.size = symbolCount grammar := by
    change (((List.range (symbolCount grammar)).map
      (Vocabulary.ofGrammar grammar).productionsOf).toArray).size = _
    simp
  rw [initialFirst, Array.size_mapIdx, size]

private theorem getD_initialFirst (id : Nat) :
    (initialFirst (ofGrammar grammar).productionsOf).getD id [] =
      if id < symbolCount grammar ∧ id ≠ Vocabulary.endId ∧
          ((ofGrammar grammar).productionsOf.getD id []).isEmpty = true then [id]
      else [] := by
  have size := size_initialFirst grammar
  rw [initialFirst, Array.size_mapIdx] at size
  by_cases inside : id < symbolCount grammar
  · have bound := size.symm ▸ inside
    simp only [initialFirst, Array.getD_eq_getD_getElem?, Array.getElem?_mapIdx,
      Array.getElem?_eq_getElem bound, Option.map_some, Option.getD_some, inside, true_and]
    split
    next absent => rw [if_neg (by simpa [or_iff_not_imp_left] using absent)]
    next present =>
      have parts := not_or.mp present
      rw [if_pos ⟨parts.1, by simpa using parts.2⟩]
  · have none : (initialFirst (ofGrammar grammar).productionsOf)[id]? = none := by
      apply Array.getElem?_eq_none
      rw [size_initialFirst]
      exact Nat.le_of_not_lt inside
    rw [Array.getD_eq_getD_getElem?, none, if_neg fun parts => inside parts.1]
    rfl

/-- At first every terminal begins with itself. -/
private theorem mem_initialFirst {id value : Nat} :
    value ∈ (initialFirst (ofGrammar grammar).productionsOf).getD id [] ↔
      value = id ∧ id < symbolCount grammar ∧ id ≠ Vocabulary.endId ∧
        ¬ grammar.IsNonterminal (symbolName grammar id) := by
  rw [getD_initialFirst]
  split
  next parts =>
    have terminal := (isEmpty_productionsOf grammar parts.1).mp parts.2.2
    rw [List.mem_singleton]
    exact ⟨fun same => ⟨same, parts.1, parts.2.1, terminal⟩, fun found => found.1⟩
  next absent =>
    refine ⟨fun impossible => (List.not_mem_nil impossible).elim, ?_⟩
    rintro ⟨_, inside, notEnd, terminal⟩
    exact (absent ⟨inside, notEnd, (isEmpty_productionsOf grammar inside).mpr terminal⟩).elim

private theorem listsFirst_initial :
    ListsFirst grammar (initialFirst (ofGrammar grammar).productionsOf) := by
  refine ⟨size_initialFirst grammar, ?_, ?_, ?_, ?_⟩
  · intro id
    rw [getD_initialFirst]
    split
    · exact List.pairwise_singleton _ _
    · exact List.Pairwise.nil
  · intro id value listed
    rcases (mem_initialFirst grammar).mp listed with ⟨rfl, inside, _⟩
    exact inside
  · intro id value listed
    rcases (mem_initialFirst grammar).mp listed with ⟨rfl, inside, notEnd, terminal⟩
    exact .here _ _ terminal ((symbolName_eq_empty grammar inside).not.mpr notEnd)
  · intro id inside notEnd terminal
    exact (mem_initialFirst grammar).mpr ⟨rfl, inside, notEnd, terminal⟩

private theorem grows_growFirst {numbered : NumberedProduction}
    {pair : PlainRule × PlainProduction} (translates : Translates grammar numbered pair) :
    Grows (ListsFirst grammar) (totalSize List.length)
      fun first => growFirst (ofGrammar grammar).nullable first numbered := by
  have written : forall first : Array IdSet, ListsFirst grammar first -> forall id,
      (growFirst (ofGrammar grammar).nullable first numbered).getD id [] =
        if id = numbered.left then
          (first.getD id []).union
            (gained (ofGrammar grammar).nullable first numbered.left numbered.right)
        else first.getD id [] := by
    intro first lists id
    unfold growFirst
    by_cases same : id = numbered.left
    · rw [if_pos same, same, Array.getD_eq_getD_getElem?,
        Array.getElem?_setIfInBounds_self_of_lt (lists.size.symm ▸ translates.leftInside)]
      rfl
    · rw [if_neg same]
      simp only [Array.getD_eq_getD_getElem?]
      rw [Array.getElem?_setIfInBounds_ne (Ne.symm same)]
  have added : forall first : Array IdSet, ListsFirst grammar first -> forall id value,
      value ∈ (growFirst (ofGrammar grammar).nullable first numbered).getD id [] ->
        value ∈ first.getD id [] ∨ id = numbered.left ∧
          value ∈ firstOf (ofGrammar grammar).nullable first [] numbered.right := by
    intro first lists id value member
    rw [written first lists] at member
    split at member
    next same =>
      subst same
      have gains := (mem_gained _ first numbered.left numbered.right value).mp
        ((IdSet.mem_union _ _ _).mp member).symm
      exact gains.symm.imp_right fun found => ⟨rfl, found⟩
    · exact Or.inl member
  have sortedRight : forall first : Array IdSet, ListsFirst grammar first ->
      IdSet.Sorted (gained (ofGrammar grammar).nullable first numbered.left numbered.right) :=
    fun first lists => sorted_gained lists.sorted numbered.left numbered.right
  constructor
  · intro first lists
    refine ⟨by rw [growFirst, Array.size_setIfInBounds, lists.size], ?_, ?_, ?_, ?_⟩
    · intro id
      rw [written first lists]
      split
      · exact IdSet.sorted_union (lists.sorted id) (sortedRight first lists)
      · exact lists.sorted id
    · intro id value member
      rcases added first lists id value member with known | ⟨_, new⟩
      · exact lists.inside id value known
      · exact inside_firstOf grammar lists.inside (fun _ impossible => by cases impossible) _ value new
    · intro id value member
      rcases added first lists id value member with known | ⟨same, new⟩
      · exact lists.opens id value known
      · have opens := opens_firstOf grammar lists numbered.right new
        rw [translates.right] at opens
        rw [same, translates.left]
        exact .expand pair [] _ translates.listed opens
    · intro id inside notEnd isTerminal
      have known := lists.terminal id inside notEnd isTerminal
      rw [written first lists]
      split
      · exact (IdSet.mem_union _ _ _).mpr (Or.inl known)
      · exact known
  · intro first lists
    apply setIfInBounds_same_or_larger List.length first numbered.left []
    have sorted := lists.sorted numbered.left
    have longer := IdSet.length_le_union sorted (sortedRight first lists)
    rcases Nat.eq_or_lt_of_le longer with equal | larger
    · exact Or.inl (IdSet.union_eq_left_of_length sorted (sortedRight first lists) equal.symm).symm
    · exact Or.inr larger

/-- The sets are right, and no production has anything left to add. -/
theorem settled_first :
    ListsFirst grammar (ofGrammar grammar).first ∧
      forall numbered, numbered ∈ (Vocabulary.ofGrammar grammar).productions.toList ->
        growFirst (ofGrammar grammar).nullable (ofGrammar grammar).first numbered =
          (ofGrammar grammar).first := by
  have passes := Grows.foldl (Vocabulary.ofGrammar grammar).productions.toList
    fun numbered listed => (translates_of_mem grammar listed).elim fun _ translates =>
      grows_growFirst grammar translates
  have limited : forall first, ListsFirst grammar first ->
      totalSize List.length first ≤ symbolCount grammar * symbolCount grammar := by
    intro first lists
    have total : totalSize List.length first ≤ first.size * symbolCount grammar := by
      apply totalSize_le
      intro entry listed
      rcases List.getElem?_of_mem listed with ⟨id, found⟩
      rw [Array.getElem?_toList] at found
      have same : first.getD id [] = entry := by rw [Array.getD_eq_getD_getElem?, found]; rfl
      rw [← same]
      exact IdSet.length_le_of_bounded (lists.sorted id) (lists.inside id)
    rwa [lists.size] at total
  have settled := passes.1.settled limited (listsFirst_initial grammar)
    (Nat.lt_of_lt_of_le (Nat.lt_succ_self (symbolCount grammar * symbolCount grammar))
      (Nat.le_add_right _ _))
  have equal : (ofGrammar grammar).first =
      settle (fun first => (Vocabulary.ofGrammar grammar).productions.toList.foldl
        (growFirst (ofGrammar grammar).nullable) first)
        (symbolCount grammar * symbolCount grammar + 1)
        (initialFirst (ofGrammar grammar).productionsOf) := by
    simp only [Array.foldl_toList]
    rfl
  rw [equal]
  exact ⟨settled.1, passes.2 _ settled.1 settled.2⟩

/-- Whether the analysis takes `value` for a terminal that begins the symbol of that name. -/
def MarkedFirst (value : Nat) (name : String) : Prop :=
  Exists fun id => id < symbolCount grammar ∧ symbolName grammar id = name ∧
    value ∈ (ofGrammar grammar).first.getD id []

/-- Whether `value` begins one of the names and all names before that one are nullable, as far as
the analysis knows. -/
def Leads (value : Nat) : List String -> Prop
  | [] => False
  | name :: rest =>
    MarkedFirst grammar value name ∨ MarkedNullable grammar name ∧ Leads value rest

theorem markedFirst_iff {id : Nat} (inside : id < symbolCount grammar) (value : Nat) :
    MarkedFirst grammar value (symbolName grammar id) ↔
      value ∈ (ofGrammar grammar).first.getD id [] := by
  constructor
  · rintro ⟨other, otherInside, same, marked⟩
    exact symbolName_injective grammar otherInside inside same ▸ marked
  · intro marked
    exact ⟨id, inside, rfl, marked⟩

theorem leads_iff (value : Nat) {ids : List Nat}
    (inside : forall id, id ∈ ids -> id < symbolCount grammar) :
    Leads grammar value (ids.map (symbolName grammar)) ↔
      value ∈ firstOf (ofGrammar grammar).nullable (ofGrammar grammar).first [] ids := by
  induction ids with
  | nil => simp [Leads, firstOf]
  | cons id rest inductionHypothesis =>
      have here := inside id List.mem_cons_self
      have others := inductionHypothesis fun later member => inside later (List.mem_cons_of_mem _ member)
      simp only [List.map_cons, Leads, markedFirst_iff grammar here, markedNullable_iff grammar here,
        others, firstOf]
      split
      next empty => rw [IdSet.mem_union, empty, eq_self, true_and]
      next notEmpty => rw [eq_false notEmpty, false_and, or_false]

/-- What begins the right side of a production begins its left side: the last pass over the
productions found nothing to add. -/
theorem leads_production (value : Nat) {pair : PlainRule × PlainProduction}
    (listed : pair ∈ grammar.productions) (right : Leads grammar value pair.2.symbols) :
    MarkedFirst grammar value pair.1.name := by
  rcases translated_of_mem grammar listed with ⟨numbered, member, translates⟩
  have fixed := (settled_first grammar).2 numbered member
  rw [← translates.right] at right
  have begins := (leads_iff grammar value translates.rightInside).mp right
  refine ⟨numbered.left, translates.leftInside, translates.left, ?_⟩
  have size := (settled_first grammar).1.size
  rw [growFirst] at fixed
  rw [← fixed, Array.getD_eq_getD_getElem?, Array.getElem?_setIfInBounds_self_of_lt]
  · exact (IdSet.mem_union _ _ _).mpr ((mem_gained _ _ _ _ _).mpr (Or.inl begins)).symm
  · rw [size]
    exact translates.leftInside

/-- What is found in front of a string has been listed. -/
theorem leads_of_opens {symbols : List String} {terminal : String}
    (opens : grammar.Opens symbols terminal) {value : Nat} (inside : value < symbolCount grammar)
    (name : symbolName grammar value = terminal) : Leads grammar value symbols := by
  induction opens with
  | here _ rest isTerminal present =>
      subst name
      have notEnd := (symbolName_eq_empty grammar inside).not.mp present
      exact Or.inl ((markedFirst_iff grammar inside value).mpr
        ((settled_first grammar).1.terminal value inside notEnd isTerminal))
  | expand pair rest _ listed _ inductionHypothesis =>
      exact Or.inl (leads_production grammar value listed (inductionHypothesis name))
  | skip first rest _ vanishes _ inductionHypothesis =>
      have marked := markedNullable_of_derives grammar vanishes
        (fun _ impossible => (List.not_mem_nil impossible).elim) first List.mem_cons_self
      exact Or.inr ⟨marked, inductionHypothesis name⟩

/-- Rewriting leads from numbered names to numbered names. -/
theorem numbered_of_derives {source target : List String} (derives : grammar.Derives source target)
    (numbered : forall name, name ∈ source ->
      Exists fun id => id < symbolCount grammar ∧ symbolName grammar id = name) :
    forall name, name ∈ target ->
      Exists fun id => id < symbolCount grammar ∧ symbolName grammar id = name := by
  induction derives with
  | refl => exact numbered
  | tail _ step inductionHypothesis =>
      rcases step with ⟨before, after, pair, listed⟩
      rcases translated_of_mem grammar listed with ⟨production, _, translates⟩
      intro name member
      rcases List.mem_append.mp member with front | back
      · rcases List.mem_append.mp front with first | right
        · exact inductionHypothesis name (List.mem_append_left _ first)
        · rw [← translates.right] at right
          rcases List.mem_map.mp right with ⟨id, listedRight, same⟩
          exact ⟨id, translates.rightInside id listedRight, same⟩
      · exact inductionHypothesis name (List.mem_append_right _ (List.mem_cons_of_mem _ back))

/-- What is computed to begin a sequence with a tail behind it is what is found in front of the
sequence, and the tail where the sequence vanishes. -/
theorem mem_firstOfSequence {ids : List Nat} (tail : IdSet) (value : Nat)
    (inside : forall id, id ∈ ids -> id < symbolCount grammar) :
    value ∈ (ofGrammar grammar).firstOfSequence ids tail ↔
      (value < symbolCount grammar ∧
        grammar.Opens (ids.map (symbolName grammar)) (symbolName grammar value)) ∨
      grammar.Nullable (ids.map (symbolName grammar)) ∧ value ∈ tail := by
  rw [firstOfSequence, mem_firstOf, all_nullable_iff grammar inside]
  apply or_congr_left
  have lists := (settled_first grammar).1
  constructor
  · intro member
    have outside : forall value : Nat, value ∈ ([] : IdSet) -> value < symbolCount grammar :=
      fun _ impossible => by cases impossible
    exact ⟨inside_firstOf grammar lists.inside outside ids value member,
      opens_firstOf grammar lists ids member⟩
  · rintro ⟨valueInside, opens⟩
    exact (leads_iff grammar value inside).mp (leads_of_opens grammar opens valueInside rfl)

theorem sorted_firstOfSequence {tail : IdSet} (tailSorted : IdSet.Sorted tail) (ids : List Nat) :
    IdSet.Sorted ((ofGrammar grammar).firstOfSequence ids tail) :=
  sorted_firstOf (settled_first grammar).1.sorted tailSorted ids

theorem inside_firstOfSequence {tail : IdSet}
    (tailInside : forall value, value ∈ tail -> value < symbolCount grammar) (ids : List Nat) :
    forall value, value ∈ (ofGrammar grammar).firstOfSequence ids tail ->
      value < symbolCount grammar :=
  inside_firstOf grammar (settled_first grammar).1.inside tailInside ids

end Analysis

end ShiftReduce
