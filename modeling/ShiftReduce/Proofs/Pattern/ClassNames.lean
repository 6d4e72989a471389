import ShiftReduce.Pattern.ClassName
import ShiftReduce.Proofs.Pattern.Taking

namespace ShiftReduce
namespace ClassName

/-!
# Names of classes

A name that stands for a class of characters has no backslash, no bracket and no opening parenthesis.
The tables list none with such a character, and the forms in which names are compared leave none out.
-/

/-! ## The tables -/

private def loudBytes : List UInt8 := ['\\', '[', ']', '('].flatMap String.utf8EncodeChar

/-- The name has no byte of a loud character.  The tables are gone through in this form, since a name is
stored as bytes. -/
private def quietBytes (name : String) : Bool :=
  name.toByteArray.data.toList.all fun byte => !loudBytes.contains byte

private theorem quiet_of_bytes {name : String} (quiet : quietBytes name = true) :
    QuietText name.toList := by
  intro c member loud
  have whole : name.toByteArray.data.toList = name.toList.flatMap String.utf8EncodeChar := by
    rw [← String.utf8Encode_toList]
    simp [List.utf8Encode]
  obtain ⟨byte, first⟩ := List.exists_mem_of_ne_nil (String.utf8EncodeChar c) (by simp)
  have listed : byte ∈ loudBytes := List.mem_flatMap.mpr ⟨c, loud, first⟩
  have written : byte ∈ name.toByteArray.data.toList := by
    rw [whole]
    exact List.mem_flatMap.mpr ⟨c, member, first⟩
  have outside := List.all_eq_true.mp quiet byte written
  simp [listed] at outside

private theorem quiet_tables :
    (forall entry, entry ∈ Unicode.Property.names ->
      forall name, name ∈ entry.1 -> quietBytes name = true) ∧
    (forall script, script ∈ Unicode.Script.all ->
      forall name, name ∈ script.names -> quietBytes name = true) ∧
    (forall entry, entry ∈ Unicode.Category.names -> quietBytes entry.1 = true) ∧
    (forall entry, entry ∈ Unicode.Category.groups ->
      forall name, name ∈ entry.1 -> quietBytes name = true) := by
  decide +kernel

private theorem quiet_script {name : String} {script : Unicode.Script}
    (found : Unicode.Script.ofName? name = some script) : QuietText name.toList := by
  unfold Unicode.Script.ofName? at found
  have named := List.find?_some found
  exact quiet_of_bytes (quiet_tables.2.1 script (List.mem_of_find?_eq_some found) name
    (List.contains_iff_mem.mp named))

private theorem quiet_of_script? {name : String} {members : CharClass}
    (found : script? name = some members) : QuietText name.toList := by
  rcases Option.map_eq_some_iff.mp found with ⟨script, known, _⟩
  exact quiet_script known

private theorem quiet_of_property? {name : String} {members : CharClass}
    (found : property? name = some members) : QuietText name.toList := by
  unfold property? at found
  split at found
  · cases found
  · rcases Option.map_eq_some_iff.mp found with ⟨property, known, _⟩
    rcases Option.map_eq_some_iff.mp known with ⟨entry, listed, _⟩
    have named := List.find?_some listed
    exact quiet_of_bytes (quiet_tables.1 entry (List.mem_of_find?_eq_some listed) name
      (List.contains_iff_mem.mp named))

private theorem quiet_of_category? {name : String} {members : CharClass}
    (found : category? name = some members) : QuietText name.toList := by
  unfold category? at found
  split at found
  next same => exact same ▸ quiet_of_bytes (by decide)
  split at found
  next same => exact same ▸ quiet_of_bytes (by decide)
  split at found
  next same => exact same ▸ quiet_of_bytes (by decide)
  rcases Option.map_eq_some_iff.mp found with ⟨categories, known, _⟩
  unfold Unicode.Category.ofName? at known
  split at known
  next category listed =>
    rcases List.lookup_eq_some_iff.mp listed with ⟨before, after, all, _⟩
    have member : (name, category) ∈ Unicode.Category.names :=
      all ▸ List.mem_append_right before List.mem_cons_self
    exact quiet_of_bytes (quiet_tables.2.2.1 _ member)
  · rcases Option.map_eq_some_iff.mp known with ⟨entry, listed, _⟩
    have named := List.find?_some listed
    exact quiet_of_bytes (quiet_tables.2.2.2 entry (List.mem_of_find?_eq_some listed) name
      (List.contains_iff_mem.mp named))

/-! ## Names as they are compared -/

/-- What holds of the four loud characters holds of each of them. -/
private theorem of_loud (holds : Char -> Bool) {c : Char} (loud : ¬ Quiet c)
    (each : ['\\', '[', ']', '('].all holds = true) : holds c = true :=
  List.all_eq_true.mp each c (not_not.mp loud)

private theorem mem_dropIs {c : Char} (loud : ¬ Quiet c) {name : List Char} (member : c ∈ name) :
    c ∈ dropIs name := by
  unfold dropIs
  split
  next first second rest =>
    split
    next same =>
      have notLetter : c.toLower ≠ 'i' ∧ c.toLower ≠ 's' :=
        of_decide_eq_true (of_loud (fun c => c.toLower ≠ 'i' ∧ c.toLower ≠ 's') loud (by decide))
      rcases List.mem_cons.mp member with rfl | later
      · exact (notLetter.1 same.1).elim
      rcases List.mem_cons.mp later with rfl | later
      · exact (notLetter.2 same.2).elim
      · exact later
    · exact member
  · exact member

/-- The form in which a name is compared leaves no loud character out. -/
theorem quiet_of_normalize {name : String} (quiet : QuietText (normalize name).toList) :
    QuietText name.toList := by
  intro c member
  by_contra loud
  have keeps : (Unicode.isAscii c && !(c = ' ' || c = '_' || c = '-')) = true ∧ c.toLower = c :=
    of_decide_eq_true (of_loud (fun c =>
      (Unicode.isAscii c && !(c = ' ' || c = '_' || c = '-')) = true ∧ c.toLower = c) loud (by decide))
  have kept : c ∈ ((dropIs name.toList).filter fun c =>
      Unicode.isAscii c && !(c = ' ' || c = '_' || c = '-')).map Char.toLower :=
    List.mem_map.mpr ⟨c, List.mem_filter.mpr ⟨mem_dropIs loud member, keeps.1⟩, keeps.2⟩
  unfold normalize at quiet
  dsimp only at quiet
  split at quiet
  next short =>
    rw [short.1] at kept
    exact loud (List.mem_singleton.mp kept ▸ by decide)
  · rw [String.toList_ofList] at quiet
    exact loud (quiet c kept)

/-! ## Names of classes -/

/-- A name that stands for a class is quiet. -/
theorem quiet_of_lookup {name : String} {members : CharClass}
    (found : lookup name = .ok members) : QuietText name.toList := by
  unfold lookup at found
  dsimp only at found
  split at found
  next members known =>
    apply quiet_of_normalize
    rcases Option.or_eq_some_iff.mp known with property | ⟨_, known⟩
    · exact quiet_of_property? property
    rcases Option.or_eq_some_iff.mp known with category | ⟨_, script⟩
    · exact quiet_of_category? category
    · exact quiet_of_script? script
  · cases found

private theorem quiet_of_value {property value : String} {members : CharClass}
    (found : (match property with
      | "gc" | "generalcategory" => category? value
      | "sc" | "script" => script? value
      | "scx" | "scriptextensions" => (Unicode.Script.ofName? value).map .scriptExtension
      | _ => none) = some members) :
    QuietText property.toList ∧ QuietText value.toList := by
  split at found
  · exact ⟨quiet_of_bytes (by decide), quiet_of_category? found⟩
  · exact ⟨quiet_of_bytes (by decide), quiet_of_category? found⟩
  · exact ⟨quiet_of_bytes (by decide), quiet_of_script? found⟩
  · exact ⟨quiet_of_bytes (by decide), quiet_of_script? found⟩
  · rcases Option.map_eq_some_iff.mp found with ⟨script, known, _⟩
    exact ⟨quiet_of_bytes (by decide), quiet_script known⟩
  · rcases Option.map_eq_some_iff.mp found with ⟨script, known, _⟩
    exact ⟨quiet_of_bytes (by decide), quiet_script known⟩
  · cases found

/-- A property with a value that stands for a class is quiet, and so is the value. -/
theorem quiet_of_lookupValue {property value : String} {members : CharClass}
    (found : lookupValue property value = .ok members) :
    QuietText property.toList ∧ QuietText value.toList := by
  unfold lookupValue at found
  dsimp only at found
  split at found
  next members known =>
    have both := quiet_of_value known
    exact ⟨quiet_of_normalize both.1, quiet_of_normalize both.2⟩
  · cases found

/-- The name of a POSIX class is made of letters. -/
theorem isAlpha_of_posix? {name : String} {ranges : Unicode.Ranges}
    (found : posix? name = some ranges) : forall c, c ∈ name.toList -> c.isAlpha = true := by
  unfold posix? at found
  split at found
  case h_15 => cases found
  all_goals exact List.all_eq_true.mp (by decide)

end ClassName
end ShiftReduce
