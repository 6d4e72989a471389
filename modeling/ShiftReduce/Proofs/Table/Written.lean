import ShiftReduce.Proofs.Json.RoundTrip
import ShiftReduce.Proofs.Table.Storing
import ShiftReduce.Table.Json

namespace ShiftReduce

/-!
# Stored tables as text

An effect, a map, a rule, a state and a table each come back from the value that they are written as,
and this value is one whose text can be read.  What has to be assumed is about sizes only.  A number
above a certain limit is decoded as none at all, and an effect is not decoded if too many merges are
around it.  Nothing is assumed about names, since every string comes back from its text.

Apart from its effects, the numbers in an intact table refer to its rows and to the rules of a row.
So they are small if the table has few rows and its rows have few rules, and what is stored of such a
table is read back from its text.
-/

namespace Json

/-! ## Values -/

theorem asNat?_nat {value : Nat} (small : value ≤ natLimit) : (nat value).asNat? = some value :=
  if_pos small

theorem asTexts?_texts (texts : List String) :
    (array (texts.map text)).asTexts? = some texts :=
  mapM_map_eq_some fun _ _ => rfl

theorem entries?_record (entries : List (String × Json)) :
    (record entries).entries? = some entries :=
  mapM_map_eq_some fun _ _ => rfl

theorem fields?_record (names : List String) (entries : List (String × Json)) :
    (record entries).fields? names = names.mapM (uniqueValue? entries) := by
  change ((record entries).entries?.bind fun entries => names.mapM (uniqueValue? entries)) = _
  rw [entries?_record]
  rfl

theorem Plain.map {α : Type} {write : α -> Json} (values : List α)
    (plain : forall value, Plain (write value)) : Plain (.array (values.map write)) := by
  apply Plain.array
  intro element member
  rcases List.mem_map.mp member with ⟨value, _, rfl⟩
  exact plain value

end Json

/-! ## Effects -/

namespace Emit

/-- Every number in the effect can be decoded. -/
def Small : Emit -> Prop
  | .repetition _ max group => max ≤ Json.natLimit ∧ group ≤ Json.natLimit
  | .merge inner => inner.Small
  | _ => True

instance decidableSmall : (emit : Emit) -> Decidable emit.Small
  | .repetition _ max group =>
    inferInstanceAs (Decidable (max ≤ Json.natLimit ∧ group ≤ Json.natLimit))
  | .merge inner => decidableSmall inner
  | .none => isTrue trivial
  | .report => isTrue trivial
  | .callback _ => isTrue trivial
  | .choice _ => isTrue trivial

/-- The number of merges around an effect. -/
def merges : Emit -> Nat
  | .merge inner => inner.merges + 1
  | _ => 0

/-- An effect whose stored form can be read back. -/
structure Writable (emit : Emit) : Prop where
  small : emit.Small
  shallow : StoredEmit.depthAround + (emit.merges + 1) ≤ StoredEmit.depthLimit

instance (emit : Emit) : Decidable emit.Writable :=
  decidable_of_iff
    (emit.Small ∧ StoredEmit.depthAround + (emit.merges + 1) ≤ StoredEmit.depthLimit)
    ⟨fun ⟨small, shallow⟩ => ⟨small, shallow⟩, fun writable => ⟨writable.small, writable.shallow⟩⟩

end Emit

namespace StoredEmit

open Json

private theorem tagged?_record (numbered : Bool) {kind : String} (known : kind ∈ kinds)
    {fields : List (String × Json)} (others : forall field, field ∈ fields -> field.1 ≠ "kind") :
    tagged? numbered (.record (("kind", .text kind) :: fields)) = some (kind, .record fields) := by
  have none : fields.filter (fun field => field.1 == "kind") = [] := by
    simpa using others
  have all : fields.filter (fun field => field.1 != "kind") = fields := by
    simpa using others
  rw [tagged?, entries?_record]
  · simp [valuesOf, none, all, kindOf?, Json.text, asText?, known]
  · intro tag rest impossible
    cases impossible
  · intro impossible
    cases impossible

theorem ofJsonWithin_toJson {emit : StoredEmit} (small : emit.toEmit.Small) {bound : Nat}
    (deep : emit.toEmit.merges < bound) (numbered : Bool) :
    ofJsonWithin bound numbered emit.toJson = some emit := by
  induction bound generalizing emit numbered with
  | zero => cases deep
  | succ bound inductionHypothesis =>
      cases emit with
      | none =>
          rw [toJson, ofJsonWithin, tagged?_record numbered (by decide) (by simp)]
          rfl
      | report =>
          rw [toJson, ofJsonWithin, tagged?_record numbered (by decide) (by simp)]
          rfl
      | repetition collector max group =>
          rw [toJson, ofJsonWithin, tagged?_record numbered (by decide) (by simp)]
          simp [fields?_record, uniqueValue?, valuesOf, asNat?_nat small.1, asNat?_nat small.2,
            Json.text, asText?]
      | choice collector =>
          rw [toJson, ofJsonWithin, tagged?_record numbered (by decide) (by simp)]
          simp [fields?_record, uniqueValue?, valuesOf, Json.text, asText?]
      | merge inner =>
          have smallInside : inner.toEmit.Small := small
          have read := inductionHypothesis smallInside (Nat.lt_of_succ_lt_succ deep) true
          rw [toJson, ofJsonWithin, tagged?_record numbered (by decide) (by simp)]
          simp [fields?_record, uniqueValue?, valuesOf, read]

private theorem isSound_nat {value : Nat} (small : value ≤ natLimit) :
    (Json.nat value).isSound = true := by
  have limit : natLimit < Nat.pow 2 1024 - Nat.pow 2 970 := by decide +kernel
  rw [Json.nat, Json.isSound]
  unfold JsonNumber.isFinite
  dsimp only
  generalize Nat.pow 2 1024 - Nat.pow 2 970 = most at limit ⊢
  split_ifs with zero scale large
  · rfl
  · apply decide_eq_true
    exact Nat.lt_of_lt_of_le (Nat.lt_of_le_of_lt small limit)
      (Nat.le_mul_of_pos_right _ (Nat.pow_pos (Nat.succ_pos 9)))
  · exact (scale (Int.le_refl 0)).elim
  · exact (scale (Int.le_refl 0)).elim

private theorem isSound_toJson {emit : StoredEmit} (small : emit.toEmit.Small) :
    emit.toJson.isSound = true := by
  induction emit with
  | none => rfl
  | report => rfl
  | repetition collector max group =>
      simp [toJson, record, Json.isSound, haveSound, isSound_nat small.1, isSound_nat small.2, Json.text]
  | choice collector => rfl
  | merge inner inductionHypothesis =>
      simp [toJson, record, Json.isSound, haveSound, inductionHypothesis small, Json.text]

private theorem depth_toJson (emit : StoredEmit) : emit.toJson.depth = emit.toEmit.merges + 1 := by
  induction emit with
  | merge inner inductionHypothesis =>
      simp [toJson, record, Json.depth, depthOfEntries, inductionHypothesis, Json.text, toEmit,
        Emit.merges]
  | _ => rfl

theorem plain_toJson (emit : StoredEmit) : Plain emit.toJson := by
  induction emit with
  | none => exact .record _ (by simp [Plain.text])
  | report => exact .record _ (by simp [Plain.text])
  | repetition collector max group => exact .record _ (by simp [Plain.text, Plain.nat])
  | choice collector => exact .record _ (by simp [Plain.text])
  | merge inner inductionHypothesis =>
      exact .record _ (by simp [Plain.text, inductionHypothesis])

theorem ofJson?_toJson {emit : StoredEmit} (writable : emit.toEmit.Writable) :
    ofJson? emit.toJson = some emit := by
  rw [ofJson?, if_pos]
  · apply ofJsonWithin_toJson writable.small
    rw [depth_toJson]
    omega
  · rw [depth_toJson]
    exact ⟨isSound_toJson writable.small, writable.shallow⟩

end StoredEmit

/-! ## Maps, rules, states and tables -/

namespace NameMap

open Json

/-- A map that is read back: its names are in order and its numbers are small. -/
structure Readable (map : NameMap) : Prop where
  increasing : map.Increasing
  small : forall entry, entry ∈ map -> entry.2 ≤ natLimit

theorem ofJson?_toJson {map : NameMap} (readable : map.Readable) :
    ofJson? (toJson map) = some map := by
  have numbers : (map.map fun entry => (entry.1, Json.nat entry.2)).mapM
      (fun entry : String × Json => entry.2.asNat?.map fun value => (entry.1, value)) =
        some map := by
    apply mapM_map_eq_some
    intro entry member
    dsimp only
    rw [asNat?_nat (readable.small entry member)]
    rfl
  have step : ofJson? (toJson map) =
      (toJson map).entries?.bind fun entries =>
        (entries.mapM fun entry : String × Json => entry.2.asNat?.map fun value => (entry.1, value)).bind
          fun pairs => some (ofList pairs) := rfl
  rw [step, toJson, entries?_record, Option.bind_some, numbers, Option.bind_some,
    ofList_of_increasing readable.increasing]

theorem plain_toJson (map : NameMap) : Plain (toJson map) := by
  apply Plain.record
  intro entry member
  rcases List.mem_map.mp member with ⟨known, _, rfl⟩
  exact Plain.nat known.2

end NameMap

namespace StoredRule

open Json

theorem ofJson?_toJson {rule : StoredRule} (writable : rule.emit.toEmit.Writable) :
    ofJson? rule.toJson = some rule := by
  have emit := StoredEmit.ofJson?_toJson writable
  rcases rule with ⟨nonterminal, symbols, effect, label, helper⟩
  cases label with
  | none =>
      simp [ofJson?, toJson, fields?_record, uniqueValue?, valuesOf, emit, asTexts?_texts, labelOf?,
        asText?, asBool?, Json.text]
  | some label =>
      simp [ofJson?, toJson, fields?_record, uniqueValue?, valuesOf, emit, asTexts?_texts, labelOf?,
        asText?, asBool?, Json.text]

theorem plain_toJson (rule : StoredRule) : Plain rule.toJson := by
  have symbols := Plain.map rule.symbols Plain.text
  apply Plain.record
  cases rule.label with
  | none => simp [Plain.text, Plain.bool, symbols, StoredEmit.plain_toJson]
  | some label => simp [Plain.text, Plain.bool, symbols, StoredEmit.plain_toJson]

end StoredRule

namespace StoredState

open Json

/-- A state that is read back. -/
structure Readable (state : StoredState) : Prop where
  rules : forall rule, rule ∈ state.rules -> rule.emit.toEmit.Writable
  reduce : state.reduce.Readable
  shift : state.shift.Readable

theorem ofJson?_toJson {state : StoredState} (readable : state.Readable) :
    ofJson? state.toJson = some state := by
  have rules : (state.rules.map StoredRule.toJson).mapM StoredRule.ofJson? = some state.rules :=
    mapM_map_eq_some fun rule member => StoredRule.ofJson?_toJson (readable.rules rule member)
  have reduce := NameMap.ofJson?_toJson readable.reduce
  have shift := NameMap.ofJson?_toJson readable.shift
  simp [ofJson?, toJson, fields?_record, uniqueValue?, valuesOf, asArray?, rules, reduce, shift]

theorem plain_toJson (state : StoredState) : Plain state.toJson := by
  have rules := Plain.map state.rules StoredRule.plain_toJson
  apply Plain.record
  simp [rules, NameMap.plain_toJson]

end StoredState

namespace StoredTable

open Json

theorem ofJson?_toJson {stored : StoredTable}
    (readable : forall state, state ∈ stored.states -> state.Readable) :
    ofJson? stored.toJson = some stored := by
  have states : (stored.states.map StoredState.toJson).mapM StoredState.ofJson? =
      some stored.states :=
    mapM_map_eq_some fun state member => StoredState.ofJson?_toJson (readable state member)
  simp [ofJson?, toJson, fields?_record, uniqueValue?, valuesOf, asArray?, asTexts?_texts, asText?,
    Json.text, states]

theorem plain_toJson (stored : StoredTable) : Plain stored.toJson := by
  have skip := Plain.map stored.skip Plain.text
  have states := Plain.map stored.states StoredState.plain_toJson
  apply Plain.record
  simp [Plain.text, skip, states]

/-- A stored table is read back from its text. -/
theorem ofText_toText {stored : StoredTable}
    (readable : forall state, state ∈ stored.states -> state.Readable) :
    ofText stored.toText = .ok stored := by
  rw [ofText, toText, ofText?_indented stored.plain_toJson, Option.bind_some,
    ofJson?_toJson readable]

end StoredTable

/-! ## Tables that can be written -/

namespace Table

/-- No number in a table is too large to be decoded and no effect is merged too often. -/
structure Writable (table : Table) : Prop where
  states : table.states.size ≤ Json.natLimit
  rules : forall row, row ∈ table.states -> row.rules.size ≤ Json.natLimit
  emits : forall row, row ∈ table.states -> forall rule, rule ∈ row.rules -> rule.emit.Writable

instance (table : Table) : Decidable table.Writable :=
  decidable_of_iff
    (table.states.size ≤ Json.natLimit ∧
      (forall row, row ∈ table.states -> row.rules.size ≤ Json.natLimit) ∧
      forall row, row ∈ table.states -> forall rule, rule ∈ row.rules -> rule.emit.Writable)
    ⟨fun ⟨states, rules, emits⟩ => ⟨states, rules, emits⟩,
      fun writable => ⟨writable.states, writable.rules, writable.emits⟩⟩

private theorem readable_of_store {table : Table} (intact : table.Intact)
    (increasing : table.Increasing) (writable : table.Writable) {names : List String}
    {stored : StoredTable} (made : table.store names = .ok stored) :
    forall state, state ∈ stored.states -> state.Readable := by
  intro state member
  have listed : state.toState ∈ table.states := by
    have known : state.toState ∈ stored.table.states := by
      simpa [StoredTable.table] using ⟨state, member, rfl⟩
    rwa [(StoredTable.of_store made).1] at known
  have ordered := increasing _ listed
  refine ⟨?_, ⟨ordered.2, ?_⟩, ⟨ordered.1, ?_⟩⟩
  · intro rule ruleMember
    apply writable.emits _ listed rule.toRule
    simpa [StoredState.toState] using ⟨rule, ruleMember, rfl⟩
  · intro entry entryMember
    have inside := (intact.rows _ listed).reduce entry.1 entry.2 entryMember
    exact Nat.le_of_lt (Nat.lt_of_lt_of_le inside (writable.rules _ listed))
  · intro entry entryMember
    have inside := (intact.rows _ listed).shift entry.1 entry.2 entryMember
    exact Nat.le_of_lt (Nat.lt_of_lt_of_le inside writable.states)

/-- What was stored of an intact table is read back from its text. -/
theorem ofText_of_store {table : Table} (intact : table.Intact) (increasing : table.Increasing)
    (writable : table.Writable) {names : List String} {stored : StoredTable}
    (made : table.store names = .ok stored) : StoredTable.ofText stored.toText = .ok stored :=
  StoredTable.ofText_toText (readable_of_store intact increasing writable made)

end Table

end ShiftReduce
