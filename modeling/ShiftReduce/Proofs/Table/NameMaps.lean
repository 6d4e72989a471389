import ShiftReduce.NameMap

namespace ShiftReduce

/-!
# Finite maps from names

A map is known by what it gives for each name.  For this the order of the entries plays no part:
giving a name a number changes what the map gives for this name and for no other, whatever the map
was before.

Maps and sets that are made by adding names one by one have their names in increasing order, and
entries that are in increasing order are the map or set that is made of them.  So it does not matter
how often a map or a set is made anew from its own entries.
-/

/-- What is found under a key is one of the entries. -/
theorem mem_of_lookup {α β : Type} [BEq α] [LawfulBEq α] {entries : List (α × β)} {key : α}
    {value : β} (found : entries.lookup key = some value) : (key, value) ∈ entries := by
  induction entries with
  | nil => cases found
  | cons head rest inductionHypothesis =>
      rcases head with ⟨known, first⟩
      rw [List.lookup_cons] at found
      split at found
      next same =>
        rw [beq_iff_eq.mp same, Option.some.inj found]
        exact List.mem_cons_self
      · exact List.mem_cons_of_mem _ (inductionHypothesis found)

/-! ## Increasing order -/

/-- A step that puts what is larger than all before it at the end leaves what is in order as it
is. -/
private theorem foldl_of_increasing {α : Type} {less : α -> α -> Prop} {step : List α -> α -> List α}
    (atEnd : forall before last, (forall known, known ∈ before -> less known last) ->
      step before last = before ++ [last]) (before rest : List α)
    (increasing : (before ++ rest).Pairwise less) : rest.foldl step before = before ++ rest := by
  induction rest generalizing before with
  | nil => simp
  | cons head rest inductionHypothesis =>
      have smaller := (List.pairwise_append.mp increasing).2.2
      rw [List.foldl_cons, atEnd before head fun known member =>
        smaller known member head List.mem_cons_self]
      have regroup : before ++ head :: rest = before ++ [head] ++ rest := by simp
      rw [regroup] at increasing ⊢
      exact inductionHypothesis (before ++ [head]) increasing

namespace NameSet

/-- The names are in increasing order. -/
def Increasing (set : NameSet) : Prop := set.Pairwise (· < ·)

theorem mem_insert {set : NameSet} {added name : String} :
    name ∈ set.insert added ↔ name = added ∨ name ∈ set := by
  induction set with
  | nil => simp [insert]
  | cons head rest inductionHypothesis =>
      unfold insert
      split
      next same => simp [same]
      · split
        · simp
        · simp [inductionHypothesis, or_left_comm]

theorem increasing_insert {set : NameSet} (increasing : set.Increasing) (added : String) :
    Increasing (set.insert added) := by
  induction set with
  | nil => exact List.pairwise_singleton _ _
  | cons head rest inductionHypothesis =>
      rcases List.pairwise_cons.mp increasing with ⟨smallest, others⟩
      unfold insert
      split
      · exact increasing
      next different =>
        split
        next before =>
          refine List.pairwise_cons.mpr ⟨?_, increasing⟩
          intro name member
          rcases List.mem_cons.mp member with rfl | later
          · exact before
          · exact String.lt_trans before (smallest name later)
        next notBefore =>
          refine List.pairwise_cons.mpr ⟨?_, inductionHypothesis others⟩
          intro name member
          rcases mem_insert.mp member with rfl | later
          · exact Std.lt_of_le_of_ne notBefore (Ne.symm different)
          · exact smallest name later

theorem increasing_ofList (names : List String) : Increasing (ofList names) :=
  List.foldlRecOn names _ (motive := Increasing) List.Pairwise.nil
    fun _ increasing name _ => increasing_insert increasing name

private theorem insert_last {set : NameSet} {last : String}
    (larger : forall name, name ∈ set -> name < last) : set.insert last = set ++ [last] := by
  induction set with
  | nil => rfl
  | cons head rest inductionHypothesis =>
      have before := larger head List.mem_cons_self
      have different : last ≠ head := fun same => String.lt_irrefl _ (same ▸ before)
      unfold insert
      rw [if_neg different, if_neg (String.lt_asymm before),
        inductionHypothesis fun name member => larger name (List.mem_cons_of_mem _ member)]
      rfl

/-- Names in increasing order are their own set. -/
theorem ofList_of_increasing {names : List String} (increasing : Increasing names) :
    ofList names = names := by
  have inOrder : ([] ++ names).Pairwise (· < ·) := increasing
  exact foldl_of_increasing (fun _ _ larger => insert_last larger) [] names inOrder

/-- The set of the names in a set is that set. -/
theorem ofList_ofList (names : List String) : ofList (ofList names) = ofList names :=
  ofList_of_increasing (increasing_ofList names)

end NameSet

namespace NameMap

/-- The names are in increasing order. -/
def Increasing (map : NameMap) : Prop := map.Pairwise fun left right => left.1 < right.1

theorem map_insert (map : NameMap) (name : String) (value : Nat) :
    (map.insert name value).map Prod.fst = NameSet.insert name (map.map Prod.fst) := by
  induction map with
  | nil => rfl
  | cons entry rest inductionHypothesis =>
      rcases entry with ⟨head, known⟩
      unfold insert
      rw [List.map_cons, NameSet.insert]
      dsimp only
      split
      next same => rw [same, List.map_cons]
      · split
        · rfl
        · rw [List.map_cons, inductionHypothesis]

theorem increasing_iff {map : NameMap} : map.Increasing ↔ NameSet.Increasing (map.map Prod.fst) :=
  List.pairwise_map.symm

theorem increasing_ofList (entries : List (String × Nat)) : Increasing (ofList entries) := by
  refine List.foldlRecOn entries _ (motive := Increasing) List.Pairwise.nil ?_
  intro map increasing entry _
  apply increasing_iff.mpr
  rw [map_insert]
  exact NameSet.increasing_insert (increasing_iff.mp increasing) entry.1

private theorem insert_larger {map : NameMap} {name : String} {value : Nat}
    (larger : forall entry, entry ∈ map -> entry.1 < name) :
    map.insert name value = map ++ [(name, value)] := by
  induction map with
  | nil => rfl
  | cons entry rest inductionHypothesis =>
      rcases entry with ⟨head, known⟩
      have before := larger (head, known) List.mem_cons_self
      have different : name ≠ head := fun same => String.lt_irrefl head (same ▸ before)
      unfold insert
      rw [if_neg different, if_neg (String.lt_asymm before),
        inductionHypothesis fun entry member => larger entry (List.mem_cons_of_mem _ member)]
      rfl

/-- Entries in increasing order are their own map. -/
theorem ofList_of_increasing {entries : List (String × Nat)} (increasing : Increasing entries) :
    ofList entries = entries := by
  have inOrder : ([] ++ entries).Pairwise fun left right : String × Nat => left.1 < right.1 :=
    increasing
  exact foldl_of_increasing (fun _ _ larger => insert_larger larger) [] entries inOrder

/-! ## What maps give -/

theorem get?_cons (head name : String) (value : Nat) (rest : NameMap) :
    get? ((head, value) :: rest) name = if name = head then some value else get? rest name := by
  unfold get?
  rw [List.lookup_cons]
  by_cases same : name = head
  · rw [if_pos same, beq_iff_eq.mpr same]
  · rw [if_neg same, beq_eq_false_iff_ne.mpr same]

/-- What a map gives is one of its entries. -/
theorem mem_of_get? {map : NameMap} {name : String} {value : Nat}
    (found : map.get? name = some value) : (name, value) ∈ map :=
  mem_of_lookup found

theorem get?_insert (map : NameMap) (added : String) (value : Nat) (name : String) :
    (map.insert added value).get? name = if name = added then some value else map.get? name := by
  induction map with
  | nil => exact get?_cons added name value []
  | cons entry rest inductionHypothesis =>
      rcases entry with ⟨head, known⟩
      unfold insert
      by_cases same : added = head
      · rw [if_pos same, get?_cons, get?_cons, same]
        by_cases here : name = head
        · rw [if_pos here, if_pos here]
        · rw [if_neg here, if_neg here, if_neg here]
      · rw [if_neg same]
        by_cases before : added < head
        · rw [if_pos before, get?_cons]
        · rw [if_neg before, get?_cons, get?_cons, inductionHypothesis]
          by_cases here : name = head
          · rw [if_pos here, if_pos here, if_neg (fun equal => same (equal.symm.trans here))]
          · rw [if_neg here, if_neg here]

private theorem get?_foldl (entries : List (String × Nat)) (map : NameMap) (name : String) :
    (forall value, (entries.foldl (fun map entry => map.insert entry.1 entry.2) map).get? name =
        some value -> (name, value) ∈ entries ∨ map.get? name = some value) ∧
      (((Exists fun value => (name, value) ∈ entries) ∨ (map.get? name).isSome = true) ->
        ((entries.foldl (fun map entry => map.insert entry.1 entry.2) map).get? name).isSome =
          true) := by
  induction entries generalizing map with
  | nil =>
      constructor
      · exact fun value found => Or.inr found
      · rintro (⟨value, impossible⟩ | known)
        · cases impossible
        · exact known
  | cons entry rest inductionHypothesis =>
      rcases entry with ⟨head, number⟩
      have later := inductionHypothesis (map.insert head number)
      rw [List.foldl_cons]
      constructor
      · intro value found
        rcases later.1 value found with listed | known
        · exact Or.inl (List.mem_cons_of_mem _ listed)
        · rw [get?_insert] at known
          split at known
          next same =>
            rw [same, ← Option.some.inj known]
            exact Or.inl List.mem_cons_self
          · exact Or.inr known
      · intro present
        apply later.2
        rw [get?_insert]
        by_cases same : name = head
        · rw [if_pos same]
          exact Or.inr rfl
        · rw [if_neg same]
          rcases present with ⟨value, listed⟩ | known
          · rcases List.mem_cons.mp listed with here | after
            · exact (same (congrArg Prod.fst here)).elim
            · exact Or.inl ⟨value, after⟩
          · exact Or.inr known

/-- The map of a list gives nothing but what the list holds. -/
theorem mem_of_get?_ofList {entries : List (String × Nat)} {name : String} {value : Nat}
    (found : (ofList entries).get? name = some value) : (name, value) ∈ entries := by
  rcases (get?_foldl entries [] name).1 value found with listed | known
  · exact listed
  · cases known

/-- The map of a list gives something for every name in the list. -/
theorem get?_ofList_of_mem {entries : List (String × Nat)} {name : String} {value : Nat}
    (listed : (name, value) ∈ entries) :
    Exists fun given => (ofList entries).get? name = some given ∧ (name, given) ∈ entries := by
  have present := (get?_foldl entries [] name).2 (Or.inl ⟨value, listed⟩)
  rcases Option.isSome_iff_exists.mp present with ⟨given, found⟩
  exact ⟨given, found, mem_of_get?_ofList found⟩

/-- Every entry of a map counts. -/
theorem get?_of_mem {map : NameMap} (increasing : map.Increasing) {name : String} {value : Nat}
    (listed : (name, value) ∈ map) : map.get? name = some value := by
  induction increasing with
  | nil => cases listed
  | @cons entry rest smallest _ inductionHypothesis =>
      rw [get?_cons]
      rcases List.mem_cons.mp listed with rfl | later
      · rw [if_pos rfl]
      · have different : name ≠ entry.1 := (String.ne_of_lt (smallest _ later)).symm
        rw [if_neg different]
        exact inductionHypothesis later

/-- Removing names leaves what a map gives for the other names. -/
theorem get?_filter (keep : String -> Bool) (map : NameMap) (name : String) :
    get? (map.filter fun entry => keep entry.1) name =
      if keep name = true then map.get? name else none := by
  induction map with
  | nil => exact (ite_self none).symm
  | cons entry rest inductionHypothesis =>
      rcases entry with ⟨head, value⟩
      rw [List.filter_cons]
      by_cases kept : keep head = true
      · rw [if_pos kept, get?_cons, get?_cons, inductionHypothesis]
        by_cases same : name = head
        · rw [if_pos same, if_pos same, if_pos (same ▸ kept)]
        · rw [if_neg same, if_neg same]
      · rw [if_neg kept, inductionHypothesis, get?_cons]
        by_cases same : name = head
        · rw [if_neg (same ▸ kept), if_neg (same ▸ kept)]
        · rw [if_neg same]

end NameMap

end ShiftReduce
