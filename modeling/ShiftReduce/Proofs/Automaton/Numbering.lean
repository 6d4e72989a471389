import Mathlib.Data.List.Forall2
import ShiftReduce.Automaton.Analysis
import ShiftReduce.Proofs.Grammar.Rewriting

namespace ShiftReduce

/-!
# Symbol numbers and names

Reading a grammar gives every name that it mentions a number of its own.  Number zero is the end of
the input, whose name is the empty one, so it is the number of no symbol of a grammar without empty
names.  Numbers are handed out while productions are read, and a number once given stays.

The main statement is that the numbered productions are the productions of the grammar, one by one
and in order: translating a numbered production back into names gives the production it came from.
-/

namespace Vocabulary

/-- Every number of the old vocabulary stands for the same name in the new one. -/
def Extends (old new : Vocabulary) : Prop :=
  forall (id : Nat) (name : String), old.names[id]? = some name -> new.names[id]? = some name

/-- A vocabulary that has got some more names. -/
structure Grown (old new : Vocabulary) : Prop where
  extended : old.Extends new
  productions : new.productions = old.productions
  distinct : new.names.toList.Nodup

theorem Grown.trans {first second third : Vocabulary} (left : first.Grown second)
    (right : second.Grown third) : first.Grown third :=
  ⟨fun id name known => right.extended id name (left.extended id name known),
    right.productions.trans left.productions, right.distinct⟩

theorem id?_eq_some {vocabulary : Vocabulary} {name : String} {id : Nat}
    (found : vocabulary.id? name = some id) : vocabulary.names[id]? = some name := by
  rcases Array.findIdx?_eq_some_iff_getElem.mp found with ⟨inside, same, _⟩
  rw [Array.getElem?_eq_getElem inside]
  exact congrArg some (beq_iff_eq.mp same)

theorem not_mem_of_id?_eq_none {vocabulary : Vocabulary} {name : String}
    (missing : vocabulary.id? name = none) : name ∉ vocabulary.names.toList := by
  intro member
  have different := Array.findIdx?_eq_none_iff.mp missing name (Array.mem_toList_iff.mp member)
  simp at different

/-- In a vocabulary without repetitions, a name has one number. -/
theorem id_unique {vocabulary : Vocabulary} (distinct : vocabulary.names.toList.Nodup)
    {name : String} {left right : Nat} (first : vocabulary.names[left]? = some name)
    (second : vocabulary.names[right]? = some name) : left = right := by
  rw [← Array.getElem?_toList] at first second
  have inside := (List.getElem?_eq_some_iff.mp first).1
  exact (List.getElem?_inj inside distinct).mp (first.trans second.symm)

theorem id?_of_name {vocabulary : Vocabulary} (distinct : vocabulary.names.toList.Nodup)
    {name : String} {id : Nat} (known : vocabulary.names[id]? = some name) :
    vocabulary.id? name = some id := by
  cases found : vocabulary.id? name with
  | none =>
      have member : name ∈ vocabulary.names.toList := by
        rw [← Array.getElem?_toList] at known
        exact List.mem_of_getElem? known
      exact (not_mem_of_id?_eq_none found member).elim
  | some other => rw [id_unique distinct (id?_eq_some found) known]

/-! ## Numbering names -/

theorem grown_number {vocabulary : Vocabulary} (distinct : vocabulary.names.toList.Nodup)
    (name : String) : vocabulary.Grown (vocabulary.number name).2 := by
  unfold number
  cases found : vocabulary.id? name with
  | some id => exact ⟨fun _ _ known => known, rfl, distinct⟩
  | none =>
      refine ⟨?_, rfl, ?_⟩
      · intro id other known
        have inside := (Array.getElem?_eq_some_iff.mp known).1
        dsimp only
        rw [Array.getElem?_push_lt inside]
        exact known.symm ▸ (Array.getElem?_eq_getElem inside).symm
      · dsimp only
        rw [Array.toList_push]
        apply List.nodup_append.mpr
        refine ⟨distinct, List.pairwise_singleton _ name, ?_⟩
        intro left leftMember right rightMember same
        rw [List.mem_singleton.mp rightMember] at same
        exact not_mem_of_id?_eq_none found (same ▸ leftMember)

theorem name_number (vocabulary : Vocabulary) (name : String) :
    (vocabulary.number name).2.names[(vocabulary.number name).1]? = some name := by
  unfold number
  cases found : vocabulary.id? name with
  | some id => exact id?_eq_some found
  | none => simp

theorem grown_numberEach {vocabulary : Vocabulary} (distinct : vocabulary.names.toList.Nodup)
    (names : List String) : vocabulary.Grown (vocabulary.numberEach names).2 := by
  induction names generalizing vocabulary with
  | nil => exact ⟨fun _ _ known => known, rfl, distinct⟩
  | cons name rest inductionHypothesis =>
      have first := grown_number distinct name
      exact first.trans (inductionHypothesis first.distinct)

theorem names_numberEach {vocabulary : Vocabulary} (distinct : vocabulary.names.toList.Nodup)
    (names : List String) :
    (vocabulary.numberEach names).1.map ((vocabulary.numberEach names).2.names[·]?) =
      names.map some := by
  induction names generalizing vocabulary with
  | nil => rfl
  | cons name rest inductionHypothesis =>
      have first := grown_number distinct name
      have others := grown_numberEach first.distinct rest
      have known := others.extended _ _ (name_number vocabulary name)
      exact congrArg₂ List.cons known (inductionHypothesis first.distinct)

/-! ## Numbering productions -/

/-- A numbered production says the same as a production of the rule at `index`. -/
structure Numbers (vocabulary : Vocabulary) (numbered : NumberedProduction)
    (entry : (PlainRule × Nat) × PlainProduction) : Prop where
  rule : numbered.rule = entry.1.2
  left : vocabulary.names[numbered.left]? = some entry.1.1.name
  right : numbered.right.map (vocabulary.names[·]?) = entry.2.symbols.map some
  source : numbered.source = entry.2

theorem Numbers.extend {old new : Vocabulary} (extended : old.Extends new)
    {numbered : NumberedProduction} {entry : (PlainRule × Nat) × PlainProduction}
    (numbers : old.Numbers numbered entry) : new.Numbers numbered entry := by
  refine ⟨numbers.rule, extended _ _ numbers.left, ?_, numbers.source⟩
  rw [← numbers.right]
  apply List.map_congr_left
  intro id member
  have listed : old.names[id]? ∈ numbered.right.map (old.names[·]?) := List.mem_map_of_mem member
  rw [numbers.right] at listed
  rcases List.mem_map.mp listed with ⟨name, _, known⟩
  rw [← known]
  exact extended id name known.symm

/-- The vocabulary has read these productions and nothing else. -/
structure HasRead (vocabulary : Vocabulary)
    (entries : List ((PlainRule × Nat) × PlainProduction)) : Prop where
  distinct : vocabulary.names.toList.Nodup
  endName : vocabulary.names[endId]? = some ""
  productions : List.Forall₂ vocabulary.Numbers vocabulary.productions.toList entries

theorem HasRead.grow {old new : Vocabulary} {entries : List ((PlainRule × Nat) × PlainProduction)}
    (read : old.HasRead entries) (grown : old.Grown new) : new.HasRead entries := by
  refine ⟨grown.distinct, grown.extended _ _ read.endName, ?_⟩
  rw [grown.productions]
  exact read.productions.imp fun _ _ numbers => numbers.extend grown.extended

theorem hasRead_initial : initial.HasRead [] :=
  ⟨List.pairwise_singleton _ "", rfl, List.Forall₂.nil⟩

theorem hasRead_addProduction {vocabulary : Vocabulary} {left : Nat} {rule : PlainRule × Nat}
    {entries : List ((PlainRule × Nat) × PlainProduction)} (read : vocabulary.HasRead entries)
    (known : vocabulary.names[left]? = some rule.1.name) (production : PlainProduction) :
    (vocabulary.addProduction rule.2 left production).HasRead (entries ++ [(rule, production)]) ∧
      vocabulary.Extends (vocabulary.addProduction rule.2 left production) := by
  have grown := grown_numberEach read.distinct production.symbols
  have names := names_numberEach read.distinct production.symbols
  have others := read.grow grown
  have kept : (vocabulary.numberEach production.symbols).2.Extends
      (vocabulary.addProduction rule.2 left production) := fun _ _ same => same
  have last : (vocabulary.addProduction rule.2 left production).Numbers
      ⟨rule.2, left, (vocabulary.numberEach production.symbols).1, production⟩ (rule, production) :=
    ⟨rfl, grown.extended _ _ known, names, rfl⟩
  refine ⟨⟨others.distinct, others.endName, ?_⟩, grown.extended⟩
  have before := others.productions.imp fun _ _ numbers => numbers.extend kept
  have appended := List.rel_append before (List.Forall₂.cons last List.Forall₂.nil)
  simpa only [addProduction, Array.toList_push] using appended

private theorem hasRead_addProductions {left : Nat} {rule : PlainRule × Nat}
    (productions : List PlainProduction) {vocabulary : Vocabulary}
    {entries : List ((PlainRule × Nat) × PlainProduction)} (read : vocabulary.HasRead entries)
    (known : vocabulary.names[left]? = some rule.1.name) :
    (productions.foldl (addProduction rule.2 left) vocabulary).HasRead
        (entries ++ productions.map fun production => (rule, production)) ∧
      vocabulary.Extends (productions.foldl (addProduction rule.2 left) vocabulary) := by
  induction productions generalizing vocabulary entries with
  | nil => exact ⟨by simpa using read, fun _ _ same => same⟩
  | cons production rest inductionHypothesis =>
      have first := hasRead_addProduction read known production
      have others := inductionHypothesis first.1 (first.2 _ _ known)
      exact ⟨by simpa using others.1, fun id name same => others.2 id name (first.2 id name same)⟩

theorem hasRead_addRule {vocabulary : Vocabulary}
    {entries : List ((PlainRule × Nat) × PlainProduction)} (read : vocabulary.HasRead entries)
    (rule : PlainRule × Nat) :
    (vocabulary.addRule rule.1 rule.2).HasRead
      (entries ++ rule.1.productions.map fun production => (rule, production)) :=
  (hasRead_addProductions rule.1.productions
    (read.grow (grown_number read.distinct rule.1.name)) (name_number vocabulary rule.1.name)).1

/-- A rule that has been added has a number, even if it has no production. -/
theorem extends_addRule {vocabulary : Vocabulary}
    {entries : List ((PlainRule × Nat) × PlainProduction)} (read : vocabulary.HasRead entries)
    (rule : PlainRule × Nat) :
    vocabulary.Extends (vocabulary.addRule rule.1 rule.2) ∧
      Exists fun id : Nat => (vocabulary.addRule rule.1 rule.2).names[id]? = some rule.1.name := by
  have grown := grown_number read.distinct rule.1.name
  have known := name_number vocabulary rule.1.name
  have extended := (hasRead_addProductions rule.1.productions (read.grow grown) known).2
  exact ⟨fun id name same => extended id name (grown.extended id name same),
    _, extended _ _ known⟩

private theorem hasRead_addRules (rules : List (PlainRule × Nat)) {vocabulary : Vocabulary}
    {entries : List ((PlainRule × Nat) × PlainProduction)} (read : vocabulary.HasRead entries) :
    (rules.foldl (fun vocabulary (rule, index) => vocabulary.addRule rule index) vocabulary).HasRead
      (entries ++ rules.flatMap fun rule =>
        rule.1.productions.map fun production => (rule, production)) := by
  induction rules generalizing vocabulary entries with
  | nil => simpa using read
  | cons rule rest inductionHypothesis =>
      have others := inductionHypothesis (hasRead_addRule read rule)
      simpa using others

private theorem extends_addRules (rules : List (PlainRule × Nat)) {vocabulary : Vocabulary}
    {entries : List ((PlainRule × Nat) × PlainProduction)} (read : vocabulary.HasRead entries) :
    vocabulary.Extends
      (rules.foldl (fun vocabulary (rule, index) => vocabulary.addRule rule index) vocabulary) := by
  induction rules generalizing vocabulary entries with
  | nil => exact fun _ _ same => same
  | cons rule rest inductionHypothesis =>
      have others := inductionHypothesis (hasRead_addRule read rule)
      exact fun id name same => others id name ((extends_addRule read rule).1 id name same)

/-- The productions of a grammar in order, each with its rule and the place of the rule. -/
def entries (grammar : PlainGrammar) : List ((PlainRule × Nat) × PlainProduction) :=
  grammar.rules.zipIdx.flatMap fun rule =>
    rule.1.productions.map fun production => (rule, production)

/-- A grammar's vocabulary has read all productions in order. -/
theorem hasRead_ofGrammar (grammar : PlainGrammar) :
    (ofGrammar grammar).HasRead (entries grammar) :=
  hasRead_addRules grammar.rules.zipIdx hasRead_initial

/-! ## The numbered productions of a grammar -/

variable (grammar : PlainGrammar)

theorem nodup_names : (ofGrammar grammar).names.toList.Nodup :=
  (hasRead_ofGrammar grammar).distinct

theorem endName : (ofGrammar grammar).names[endId]? = some "" :=
  (hasRead_ofGrammar grammar).endName

/-- A rule's name has a number, even if the rule has no production. -/
theorem rule_numbered {rule : PlainRule} (listed : rule ∈ grammar.rules) :
    Exists fun id => (ofGrammar grammar).id? rule.name = some id := by
  rcases List.getElem?_of_mem listed with ⟨index, known⟩
  have member : (rule, index) ∈ grammar.rules.zipIdx := List.mem_zipIdx_iff_getElem?.mpr known
  rcases List.append_of_mem member with ⟨before, after, split⟩
  have read := hasRead_addRules before hasRead_initial
  rcases (extends_addRule read (rule, index)).2 with ⟨id, atName⟩
  have extended := extends_addRules after (hasRead_addRule read (rule, index))
  refine ⟨id, id?_of_name (nodup_names grammar) ?_⟩
  rw [ofGrammar, split, List.foldl_append, List.foldl_cons]
  exact extended id rule.name atName

/-- The root has a number, for it is the first name that is read. -/
theorem root_numbered : Exists fun id => (ofGrammar grammar).id? grammar.root = some id := by
  rcases grammar with ⟨rules⟩
  cases rules with
  | nil => exact ⟨endId, id?_of_name (nodup_names _) (endName _)⟩
  | cons rule rest => exact rule_numbered ⟨rule :: rest⟩ List.mem_cons_self

private theorem map_entries :
    (entries grammar).map (fun entry => (entry.1.1, entry.2)) = grammar.productions := by
  rw [entries, List.map_flatMap]
  conv_rhs => rw [PlainGrammar.productions, ← List.zipIdx_map_fst 0 grammar.rules]
  rw [List.flatMap_map]
  simp only [List.map_map, Function.comp_def]

theorem size_productions : (ofGrammar grammar).productions.size = grammar.productions.length := by
  have same := (hasRead_ofGrammar grammar).productions.length_eq
  rw [← map_entries, List.length_map, ← same, Array.length_toList]

/-- Translated into names, a numbered production is the production at the same place. -/
theorem production_at {index : Nat} {numbered : NumberedProduction}
    (found : (ofGrammar grammar).productions[index]? = some numbered) :
    Exists fun pair => grammar.productions[index]? = some pair ∧
      grammar.rules[numbered.rule]? = some pair.1 ∧
      (ofGrammar grammar).names[numbered.left]? = some pair.1.name ∧
      numbered.right.map ((ofGrammar grammar).names[·]?) = pair.2.symbols.map some ∧
      numbered.source = pair.2 := by
  have related := (hasRead_ofGrammar grammar).productions
  rw [← Array.getElem?_toList] at found
  rcases List.getElem?_eq_some_iff.mp found with ⟨inside, rfl⟩
  have alsoInside := related.length_eq ▸ inside
  have numbers := List.Forall₂.get related inside alsoInside
  simp only [List.get_eq_getElem] at numbers
  have listed := List.getElem_mem alsoInside
  rcases List.mem_flatMap.mp listed with ⟨rule, ruleListed, member⟩
  rcases List.mem_map.mp member with ⟨production, _, same⟩
  have atRule := List.mem_zipIdx_iff_getElem?.mp ruleListed
  refine ⟨((entries grammar)[index].1.1, (entries grammar)[index].2), ?_, ?_, numbers.left,
    numbers.right, numbers.source⟩
  · rw [← map_entries, List.getElem?_map, List.getElem?_eq_getElem alsoInside]
    rfl
  · rw [numbers.rule, ← same]
    exact atRule

theorem name_of_getElem? {vocabulary : Vocabulary} {id : Nat} {name : String}
    (known : vocabulary.names[id]? = some name) : vocabulary.name id = name := by
  unfold Vocabulary.name
  rw [Array.getD_eq_getD_getElem?, known]
  rfl

theorem getElem?_names {vocabulary : Vocabulary} {id : Nat} (inside : id < vocabulary.names.size) :
    vocabulary.names[id]? = some (vocabulary.name id) := by
  have known := Array.getElem?_eq_getElem inside
  rw [name_of_getElem? known]
  exact known

/-- Different numbers are different names. -/
theorem name_injective {left right : Nat} (leftInside : left < (ofGrammar grammar).names.size)
    (rightInside : right < (ofGrammar grammar).names.size)
    (same : (ofGrammar grammar).name left = (ofGrammar grammar).name right) : left = right :=
  id_unique (nodup_names grammar) (getElem?_names leftInside) (same ▸ getElem?_names rightInside)

/-- The right side of a numbered production, by the names of its symbols. -/
theorem right_at {index : Nat} {numbered : NumberedProduction}
    {pair : PlainRule × PlainProduction}
    (found : (ofGrammar grammar).productions[index]? = some numbered)
    (known : grammar.productions[index]? = some pair) :
    numbered.right.map (ofGrammar grammar).name = pair.2.symbols ∧
      forall id, id ∈ numbered.right -> id < (ofGrammar grammar).names.size := by
  rcases production_at grammar found with ⟨other, atIndex, _, _, right, _⟩
  have same : other = pair := Option.some.inj (atIndex.symm.trans known)
  subst same
  have inside : forall id, id ∈ numbered.right -> id < (ofGrammar grammar).names.size := by
    intro id member
    have listed := List.mem_map_of_mem (f := ((ofGrammar grammar).names[·]?)) member
    rw [right] at listed
    rcases List.mem_map.mp listed with ⟨name, _, atName⟩
    exact (Array.getElem?_eq_some_iff.mp atName.symm).1
  refine ⟨?_, inside⟩
  apply List.map_injective_iff.mpr fun _ _ => Option.some.inj
  rw [← right, List.map_map]
  apply List.map_congr_left
  intro id member
  exact (getElem?_names (inside id member)).symm

theorem production_exists {index : Nat} {pair : PlainRule × PlainProduction}
    (known : grammar.productions[index]? = some pair) :
    Exists fun numbered => (ofGrammar grammar).productions[index]? = some numbered := by
  have inside := (List.getElem?_eq_some_iff.mp known).1
  rw [← size_productions] at inside
  exact ⟨_, Array.getElem?_eq_getElem inside⟩

theorem mem_productionsOf {id index : Nat} (inside : id < (ofGrammar grammar).names.size) :
    index ∈ (ofGrammar grammar).productionsOf id ↔
      Exists fun pair => grammar.productions[index]? = some pair ∧
        pair.1.name = (ofGrammar grammar).name id := by
  unfold productionsOf
  rw [List.mem_filter, List.mem_range]
  constructor
  · rintro ⟨listed, left⟩
    have found := Array.getElem?_eq_getElem listed
    rw [found] at left
    rcases production_at grammar found with ⟨pair, known, _, atLeft, _⟩
    refine ⟨pair, known, ?_⟩
    have same : (ofGrammar grammar).productions[index].left = id := by simpa using left
    rw [← same, name_of_getElem? atLeft]
  · rintro ⟨pair, known, name⟩
    rcases production_exists grammar known with ⟨numbered, found⟩
    rcases production_at grammar found with ⟨other, atIndex, _, atLeft, _⟩
    have same : other = pair := Option.some.inj (atIndex.symm.trans known)
    subst same
    refine ⟨(Array.getElem?_eq_some_iff.mp found).1, ?_⟩
    have equal : numbered.left = id :=
      id_unique (nodup_names grammar) atLeft (name ▸ getElem?_names inside)
    rw [found]
    simpa using equal

end Vocabulary

end ShiftReduce
