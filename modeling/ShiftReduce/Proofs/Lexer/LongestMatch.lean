import Mathlib.Data.Prod.Lex
import ShiftReduce.Lexer.Matcher
import ShiftReduce.Proofs.Fallible
import ShiftReduce.Proofs.Text.Slices

namespace ShiftReduce

/-!
# The longest match

A matcher asks for the declarations together and reports one of them by its groups.  What it finds is
said here without unions: each declaration has a match of its own at a place of the text, and the
matcher answers with the one that is best, by length, preference, keyword and order of declaration.

Unions are supposed to do what unions are for.  A union reports the first of its patterns that matches
at the place, with the match that this pattern has by itself, and its groups are numbered as they are
opened in the text of the union.  Which pattern this is has to be found out from the groups.  The matcher
looks for the group of a pattern behind as many groups as the patterns in front of it have by themselves,
and there it is if no pattern has lost a group that it opens.  The scan then meets every pattern that
could win: between two patterns that are found there is none that matches, and behind the last one there
is none either.  Its invariant is that it has kept the best of the patterns before the place where it
asks next.

A part that is repeated no times is lost with its groups.  Behind such a pattern the matcher looks for
groups in the wrong places.  It can then answer with a pattern that does not match, or with none.
-/

/-- The number of groups that are opened in the rest of a pattern and in what has been read of it. -/
def PatternReading.openedWithin : Nat -> PatternReading -> List Char -> Nat
  | 0, reading, _ => reading.groups
  | bound + 1, reading, rest =>
    match PatternLexeme.skipBlanks reading.flags.verbose rest with
    | [] => reading.groups
    | c :: rest =>
      match reading.next c rest with
      | .error _ => reading.groups
      | .ok (reading, rest) => openedWithin bound reading rest

/-- The number of groups that are opened in the text of a pattern. -/
def Pattern.opened (source : String) (insensitive : Bool) : Nat :=
  PatternReading.openedWithin (source.toList.length + 1) ⟨[], .empty, { insensitive }, 0, []⟩
    source.toList

namespace Matcher

/-- What a candidate is compared by: its length, whether it is wanted, whether its name is that of a
keyword, and an early declaration. -/
def rank (matcher : Matcher) (preference : Preference) (candidate : Candidate) :
    Nat ×ₗ Bool ×ₗ Bool ×ₗ Natᵒᵈ :=
  toLex (candidate.size, toLex (preference.wants candidate.name,
    toLex (matcher.isKeyword candidate.name, OrderDual.toDual candidate.index)))

/-- In front of the text, patterns match at its beginning only. -/
def BeginsAt (matcher : Matcher) (text : List Char) : Prop :=
  forall entry own, entry ∈ matcher.entries -> entry.single.find? text = some own -> own.skipped = []

/-- The match that the union of some entries has to report: the first entry that matches by itself,
with the groups that it has by itself behind the group that it stands in.  The group that comes next
in the text of the union is numbered `group`. -/
def firstMatch? (matcher : Matcher) (text : List Char) :
    (group : Nat) -> List MatcherEntry -> Option Pattern.Match
  | _, [] => none
  | group, entry :: rest =>
    match entry.single.find? text with
    | some own => some { own with groups := group :: own.groups.map (group + ·) }
    | none => matcher.firstMatch? text (group + Pattern.opened entry.branch matcher.insensitive) rest

/-- In front of the text, patterns match at its beginning only, and every union reports the first of
its patterns that matches by itself. -/
structure Reports (matcher : Matcher) (text : List Char) : Prop where
  anchored : matcher.BeginsAt text
  first : forall index union, matcher.unions[index]? = some union ->
    union.find? text = matcher.firstMatch? text 1 (matcher.entries.drop index)

/-- The pattern has by itself as many groups as its text opens in a union, besides the one that it
stands in there. -/
def CountsGroups (matcher : Matcher) : Prop :=
  forall entry, entry ∈ matcher.entries ->
    Pattern.opened entry.branch matcher.insensitive = entry.single.groupCount + 1

/-- Whether this is so can be found out by going through the entries and the unions. -/
theorem reports_of_each {matcher : Matcher} {text : List Char}
    (anchored : forall entry, entry ∈ matcher.entries ->
      forall own, own ∈ entry.single.find? text -> own.skipped = [])
    (first : forall index : Fin matcher.unions.length,
      matcher.unions[index].find? text = matcher.firstMatch? text 1 (matcher.entries.drop index)) :
    matcher.Reports text := by
  refine ⟨fun entry own listed matched => anchored entry listed own matched, ?_⟩
  intro index union found
  rcases List.getElem?_eq_some_iff.mp found with ⟨bound, rfl⟩
  exact first ⟨index, bound⟩

/-- The entry of the candidate matches the beginning of a text by itself, and the match is not
empty. -/
inductive Reads (matcher : Matcher) (text : List Char) : Candidate -> List Char -> Prop where
  | own (index : Nat) (entry : MatcherEntry) (found : Pattern.Match)
      (listed : matcher.entries[index]? = some entry)
      (matched : entry.single.find? text = some found) (inhabited : found.matched ≠ []) :
      Reads matcher text ⟨index, entry.name, Text.byteSize found.matched⟩ found.matched

end Matcher

/-- The declaration of the candidate has a pattern that matches the beginning of a text, and the match
is not empty. -/
inductive TokenSpec.Reads (spec : TokenSpec) (insensitive : Bool) (text : List Char) :
    Matcher.Candidate -> List Char -> Prop where
  | own (index : Nat) (tokenDef : TokenDef) (entry : MatcherEntry) (found : Pattern.Match)
      (declared : spec.defs[index]? = some tokenDef)
      (made : Matcher.entryOf insensitive tokenDef = .ok entry)
      (matched : entry.single.find? text = some found) (inhabited : found.matched ≠ []) :
      Reads spec insensitive text ⟨index, tokenDef.name, Text.byteSize found.matched⟩ found.matched

/-- A match with nothing before it is a beginning of the text. -/
theorem Pattern.prefix_of_find? {pattern : Pattern} {text : List Char} {found : Pattern.Match}
    (matched : pattern.find? text = some found) (atStart : found.skipped = []) :
    Exists fun rest => text = found.matched ++ rest := by
  rcases Option.map_eq_some_iff.mp matched with ⟨⟨start, fin⟩, _, same⟩
  cases same
  rcases List.take_eq_nil_iff.mp atStart with rfl | rfl
  · exact ⟨text.drop fin.place.passed, (List.take_append_drop _ _).symm⟩
  · exact ⟨[], by simp⟩

namespace Matcher

/-! ## Declarations and entries -/

theorem name_of_entryOf {insensitive : Bool} {tokenDef : TokenDef} {entry : MatcherEntry}
    (made : entryOf insensitive tokenDef = .ok entry) : entry.name = tokenDef.name := by
  rcases of_bind_eq_ok made with ⟨single, _, same⟩
  cases same
  rfl

private theorem length_of_unionsOf {insensitive : Bool} {entries : List MatcherEntry}
    {unions : List Pattern} (made : unionsOf insensitive entries = .ok unions) :
    unions.length = entries.length := by
  induction entries generalizing unions with
  | nil =>
      cases made
      rfl
  | cons entry rest inductionHypothesis =>
      rcases of_bind_eq_ok made with ⟨first, _, remaining⟩
      rcases of_bind_eq_ok remaining with ⟨others, later, same⟩
      cases same
      rw [List.length_cons, List.length_cons, inductionHypothesis later]

/-- A matcher has an entry for each declaration and a union for each entry. -/
theorem ofSpec_eq_ok {spec : TokenSpec} {insensitive : Bool} {matcher : Matcher}
    (made : ofSpec spec insensitive = .ok matcher) :
    List.Forall₂ (fun tokenDef entry => entryOf insensitive tokenDef = .ok entry) spec.defs
      matcher.entries ∧ matcher.unions.length = matcher.entries.length := by
  rcases of_bind_eq_ok made with ⟨entries, each, remaining⟩
  rcases of_bind_eq_ok remaining with ⟨unions, joined, same⟩
  cases same
  exact ⟨mapM_eq_ok.mp each, length_of_unionsOf joined⟩

/-- The entries read what the declarations read. -/
theorem reads_iff {spec : TokenSpec} {insensitive : Bool} {matcher : Matcher}
    (made : ofSpec spec insensitive = .ok matcher) {text : List Char} {candidate : Candidate}
    {piece : List Char} :
    matcher.Reads text candidate piece ↔ spec.Reads insensitive text candidate piece := by
  have each := (ofSpec_eq_ok made).1
  rw [List.forall₂_iff_get] at each
  rcases each with ⟨length, each⟩
  constructor
  · rintro ⟨index, entry, found, listed, matched, inhabited⟩
    rcases List.getElem?_eq_some_iff.mp listed with ⟨bound, same⟩
    have inside : index < spec.defs.length := length ▸ bound
    have entryMade := each index inside bound
    rw [List.get_eq_getElem, List.get_eq_getElem, same] at entryMade
    rw [name_of_entryOf entryMade]
    exact .own index _ entry found (List.getElem?_eq_getElem inside) entryMade matched inhabited
  · rintro ⟨index, tokenDef, entry, found, declared, entryMade, matched, inhabited⟩
    rcases List.getElem?_eq_some_iff.mp declared with ⟨inside, same⟩
    have bound : index < matcher.entries.length := length ▸ inside
    have other := each index inside bound
    rw [List.get_eq_getElem, List.get_eq_getElem, same, entryMade] at other
    rw [← name_of_entryOf entryMade]
    refine .own index entry found ?_ matched inhabited
    rw [List.getElem?_eq_getElem bound, Except.ok.inj other]

/-! ## Unions -/

variable {matcher : Matcher} {preference : Preference} {text : List Char}

theorem firstMatch?_eq_none {group : Nat} {entries : List MatcherEntry}
    (nothing : matcher.firstMatch? text group entries = none) (entry : MatcherEntry)
    (member : entry ∈ entries) : entry.single.find? text = none := by
  induction entries generalizing group with
  | nil => cases member
  | cons head rest inductionHypothesis =>
      rw [firstMatch?] at nothing
      split at nothing
      · cases nothing
      next silent =>
        rcases List.mem_cons.mp member with rfl | later
        · exact silent
        · exact inductionHypothesis nothing later

/-- The groups that a union reports tell the entry that matched, and none before it matches. -/
theorem firstMatch?_eq_some {group : Nat} {entries : List MatcherEntry} {reported : Pattern.Match}
    (counts : forall entry, entry ∈ entries ->
      Pattern.opened entry.branch matcher.insensitive = entry.single.groupCount + 1)
    (found : matcher.firstMatch? text group entries = some reported) :
    (forall number, number ∈ reported.groups -> group ≤ number) ∧
    Exists fun place => Exists fun entry => Exists fun own =>
      entryOfGroups reported.groups group entries = some place ∧ entries[place]? = some entry ∧
      entry.single.find? text = some own ∧ reported.matched = own.matched ∧
      forall before other, before < place -> entries[before]? = some other ->
        other.single.find? text = none := by
  induction entries generalizing group with
  | nil => cases found
  | cons head rest inductionHypothesis =>
      rw [firstMatch?] at found
      split at found
      next own matched =>
        cases found
        refine ⟨?_, 0, head, own, ?_, rfl, matched, rfl, ?_⟩
        · intro number member
          rcases List.mem_cons.mp member with rfl | inner
          · exact Nat.le_refl _
          · rcases List.mem_map.mp inner with ⟨_, _, rfl⟩
            exact Nat.le_add_right _ _
        · rw [entryOfGroups, if_pos List.mem_cons_self]
        · intro before other impossible
          exact (Nat.not_lt_zero before impossible).elim
      next silent =>
        rw [counts head List.mem_cons_self, Nat.add_comm head.single.groupCount,
          ← Nat.add_assoc] at found
        rcases inductionHypothesis
            (fun entry member => counts entry (List.mem_cons_of_mem head member)) found with
          ⟨larger, place, entry, own, numbered, listed, matched, same, silentBefore⟩
        have different : group ∉ reported.groups := by
          intro member
          have := larger group member
          omega
        refine ⟨?_, place + 1, entry, own, ?_, listed, matched, same, ?_⟩
        · intro number member
          have := larger number member
          omega
        · rw [entryOfGroups, if_neg different, numbered]
          rfl
        · intro before other early known
          cases before with
          | zero =>
              cases known
              exact silent
          | succ before => exact silentBefore before other (Nat.lt_of_succ_lt_succ early) known

/-! ## The scan -/

/-- What is kept when a candidate is met. -/
def chosen (matcher : Matcher) (preference : Preference) (best : Option Candidate)
    (candidate : Candidate) : Option Candidate :=
  if candidate.size = 0 then best
  else
    match best with
    | none => some candidate
    | some old => if matcher.better preference old candidate then some candidate else some old

theorem of_chosen {best : Option Candidate} {met candidate : Candidate}
    (kept : matcher.chosen preference best met = some candidate) :
    best = some candidate ∨ (met = candidate ∧ candidate.size ≠ 0) := by
  unfold chosen at kept
  split at kept
  · exact Or.inl kept
  next inhabited =>
    split at kept
    · cases kept
      exact Or.inr ⟨rfl, inhabited⟩
    · split at kept
      · cases kept
        exact Or.inr ⟨rfl, inhabited⟩
      · exact Or.inl kept

/-- What holds of the size of every match that is found, if it is not empty, holds of the size that the
scan answers with. -/
theorem size_of_scan (holds : Nat -> Prop) {index skip : Nat} {entries : List MatcherEntry}
    {unions : List Pattern}
    (each : forall union found, union ∈ unions -> union.find? text = some found ->
      Text.byteSize found.matched ≠ 0 -> holds (Text.byteSize found.matched))
    {best : Option Candidate} (known : forall candidate, best = some candidate -> holds candidate.size)
    {candidate : Candidate}
    (answer : matcher.scan preference text index skip entries unions best = .ok (some candidate)) :
    holds candidate.size := by
  induction entries generalizing index skip unions best with
  | nil => cases skip <;> exact known candidate (Except.ok.inj answer)
  | cons entry rest inductionHypothesis =>
      cases unions with
      | nil => cases skip <;> exact known candidate (Except.ok.inj answer)
      | cons union others =>
          have later := fun other found (member : other ∈ others) =>
            each other found (List.mem_cons_of_mem union member)
          cases skip with
          | succ skip => exact inductionHypothesis later known answer
          | zero =>
              rw [scan] at answer
              split at answer
              · exact known candidate (Except.ok.inj answer)
              next found matched =>
                split at answer
                · cases answer
                next place _ =>
                  refine inductionHypothesis later (fun other kept => ?_) answer
                  rcases of_chosen kept with before | ⟨rfl, inhabited⟩
                  · exact known other before
                  · exact each union found List.mem_cons_self matched inhabited

/-- The choice between two candidates is by rank. -/
theorem better_iff {old new : Candidate} (later : old.index < new.index) :
    matcher.better preference old new = true ↔
      matcher.rank preference old < matcher.rank preference new := by
  have notEarlier : ¬ (OrderDual.toDual old.index : Natᵒᵈ) < OrderDual.toDual new.index := by
    rw [OrderDual.toDual_lt_toDual]
    omega
  unfold better rank
  simp only [Prod.Lex.toLex_lt_toLex, notEarlier, and_false, or_false]
  by_cases same : new.size = old.size
  · rw [if_neg (not_not_intro same)]
    simp only [same, lt_irrefl, false_or, true_and]
    cases preference.wants old.name <;> cases preference.wants new.name <;>
      cases matcher.isKeyword old.name <;> cases matcher.isKeyword new.name <;> decide
  · rw [if_pos same, decide_eq_true_iff]
    constructor
    · exact Or.inl
    · rintro (longer | ⟨impossible, _⟩)
      · exact longer
      · exact (same impossible.symm).elim

/-- A reading is what its entry says. -/
theorem Reads.eq_of_entry {candidate : Candidate} {piece : List Char}
    (reads : matcher.Reads text candidate piece) {entry : MatcherEntry} {own : Pattern.Match}
    (listed : matcher.entries[candidate.index]? = some entry)
    (matched : entry.single.find? text = some own) :
    candidate = ⟨candidate.index, entry.name, Text.byteSize own.matched⟩ ∧ piece = own.matched ∧
      own.matched ≠ [] := by
  rcases reads with ⟨index, other, found, otherListed, otherMatched, inhabited⟩
  cases otherListed.symm.trans listed
  cases otherMatched.symm.trans matched
  exact ⟨rfl, rfl, inhabited⟩

/-- The best of the readings that are declared before `bound`. -/
def Best (matcher : Matcher) (preference : Preference) (text : List Char) (bound : Nat) :
    Option Candidate -> Prop
  | none => forall other piece, matcher.Reads text other piece -> ¬ other.index < bound
  | some best =>
    (Exists fun piece => matcher.Reads text best piece) ∧ best.index < bound ∧
      forall other piece, matcher.Reads text other piece -> other.index < bound ->
        matcher.rank preference other ≤ matcher.rank preference best

/-- The best reading depends only on the readings before the bound. -/
theorem Best.of_same {bound other : Nat} {best : Option Candidate}
    (kept : matcher.Best preference text bound best)
    (same : forall candidate piece, matcher.Reads text candidate piece ->
      (candidate.index < bound ↔ candidate.index < other)) :
    matcher.Best preference text other best := by
  cases best with
  | none =>
      intro candidate piece reads before
      exact kept candidate piece reads ((same candidate piece reads).mpr before)
  | some best =>
      rcases kept with ⟨⟨piece, reads⟩, before, most⟩
      refine ⟨⟨piece, reads⟩, (same best piece reads).mp before, ?_⟩
      intro candidate otherPiece otherReads otherBefore
      exact most candidate otherPiece otherReads
        ((same candidate otherPiece otherReads).mpr otherBefore)

/-- The best reading is the best of all if nothing matches from the bound on. -/
theorem Best.of_silent {bound : Nat} {best : Option Candidate}
    (kept : matcher.Best preference text bound best)
    (silent : forall place entry, bound ≤ place -> matcher.entries[place]? = some entry ->
      entry.single.find? text = none) :
    matcher.Best preference text matcher.entries.length best := by
  refine kept.of_same ?_
  rintro _ _ ⟨place, entry, found, listed, matched, _⟩
  refine ⟨fun _ => (List.getElem?_eq_some_iff.mp listed).1, fun _ => ?_⟩
  by_contra behind
  rw [silent place entry (Nat.not_lt.mp behind) listed] at matched
  cases matched

/-- What is read up to the next entry that matches is read before the bound or by this entry. -/
theorem Reads.early_or_next {bound place : Nat} {other : Candidate} {piece : List Char}
    (reads : matcher.Reads text other piece) {entry : MatcherEntry} {own : Pattern.Match}
    (listed : matcher.entries[bound + place]? = some entry)
    (matched : entry.single.find? text = some own)
    (silent : forall index other, bound ≤ index -> index < bound + place ->
      matcher.entries[index]? = some other -> other.single.find? text = none)
    (before : other.index < bound + place + 1) :
    other.index < bound ∨
      (other = ⟨bound + place, entry.name, Text.byteSize own.matched⟩ ∧ own.matched ≠ []) := by
  by_cases early : other.index < bound
  · exact Or.inl early
  by_cases here : other.index = bound + place
  · rcases reads.eq_of_entry (here ▸ listed) matched with ⟨same, _, inhabited⟩
    exact Or.inr ⟨by rw [same, here], inhabited⟩
  · rcases reads with ⟨index, otherEntry, found, otherListed, otherMatched, _⟩
    have nothing := silent index otherEntry (Nat.not_lt.mp early)
      (Nat.lt_of_le_of_ne (Nat.lt_succ_iff.mp before) here) otherListed
    rw [nothing] at otherMatched
    cases otherMatched

/-- A reading behind the bound is taken if it is better than the best before. -/
theorem Best.add {bound later : Nat} {best : Option Candidate}
    (kept : matcher.Best preference text bound best) {candidate : Candidate} {piece : List Char}
    (reads : matcher.Reads text candidate piece) (inhabited : candidate.size ≠ 0)
    (behind : bound ≤ candidate.index) (inside : candidate.index < later)
    (either : forall other otherPiece, matcher.Reads text other otherPiece -> other.index < later ->
      other.index < bound ∨ other = candidate) :
    matcher.Best preference text later (matcher.chosen preference best candidate) := by
  unfold chosen
  rw [if_neg inhabited]
  cases best with
  | none =>
      refine ⟨⟨piece, reads⟩, inside, fun other otherPiece otherReads before => ?_⟩
      rcases either other otherPiece otherReads before with early | rfl
      · exact (kept other otherPiece otherReads early).elim
      · exact le_refl _
  | some old =>
      rcases kept with ⟨oldReads, oldBefore, most⟩
      have decided : matcher.better preference old candidate = true ↔
          matcher.rank preference old < matcher.rank preference candidate :=
        better_iff (by omega)
      dsimp only
      split
      next better =>
        refine ⟨⟨piece, reads⟩, inside, fun other otherPiece otherReads before => ?_⟩
        rcases either other otherPiece otherReads before with early | rfl
        · exact le_trans (most other otherPiece otherReads early) (le_of_lt (decided.mp better))
        · exact le_refl _
      next notBetter =>
        refine ⟨oldReads, by omega, fun other otherPiece otherReads before => ?_⟩
        rcases either other otherPiece otherReads before with early | rfl
        · exact most other otherPiece otherReads early
        · exact not_lt.mp fun less => notBetter (decided.mpr less)

/-- The next entry that matches is taken if it is better than the best before it, and not empty. -/
theorem Best.next {bound place : Nat} {best : Option Candidate}
    (kept : matcher.Best preference text bound best) {entry : MatcherEntry} {own : Pattern.Match}
    (listed : matcher.entries[bound + place]? = some entry)
    (matched : entry.single.find? text = some own)
    (silent : forall index other, bound ≤ index -> index < bound + place ->
      matcher.entries[index]? = some other -> other.single.find? text = none) :
    matcher.Best preference text (bound + place + 1)
      (matcher.chosen preference best
        ⟨bound + place, entry.name, Text.byteSize own.matched⟩) := by
  by_cases empty : own.matched = []
  · have size : Text.byteSize own.matched = 0 := Text.byteSize_eq_zero_iff.mpr empty
    unfold chosen
    rw [if_pos size]
    refine kept.of_same fun other piece reads => ⟨fun before => by omega, fun before => ?_⟩
    rcases reads.early_or_next listed matched silent before with early | ⟨_, inhabited⟩
    · exact early
    · exact (inhabited empty).elim
  · refine kept.add (.own _ entry own listed matched empty)
      (fun none => empty (Text.byteSize_eq_zero_iff.mp none)) (Nat.le_add_right _ _)
      (Nat.lt_succ_self _) fun other piece reads before => ?_
    exact (reads.early_or_next listed matched silent before).imp_right And.left

/-- The scan keeps the best of the readings that it has gone past. -/
theorem best_scan (reports : matcher.Reports text) (counts : matcher.CountsGroups)
    (paired : matcher.unions.length = matcher.entries.length) (index skip : Nat)
    {entries : List MatcherEntry} {unions : List Pattern} {best : Option Candidate}
    (entriesHere : matcher.entries.drop index = entries)
    (unionsHere : matcher.unions.drop index = unions)
    (kept : matcher.Best preference text (index + skip) best) :
    Exists fun answer =>
      matcher.scan preference text index skip entries unions best = .ok answer ∧
      matcher.Best preference text matcher.entries.length answer := by
  induction entries generalizing index skip unions best with
  | nil =>
      have passed := List.drop_eq_nil_iff.mp entriesHere
      refine ⟨best, by cases skip <;> rfl, ?_⟩
      refine kept.of_silent fun place entry behind listed => ?_
      have bound := (List.getElem?_eq_some_iff.mp listed).1
      omega
  | cons entry rest inductionHypothesis =>
      have inside : index < matcher.entries.length := by
        by_contra beyond
        rw [List.drop_eq_nil_of_le (Nat.not_lt.mp beyond)] at entriesHere
        cases entriesHere
      have restHere : matcher.entries.drop (index + 1) = rest := by
        rw [← List.tail_drop, entriesHere]
        rfl
      rw [List.drop_eq_getElem_cons (paired.symm ▸ inside)] at unionsHere
      rw [← unionsHere]
      cases skip with
      | succ skip =>
          rw [scan]
          exact inductionHypothesis (index + 1) skip restHere rfl (by rwa [Nat.add_right_comm])
      | zero =>
          have listed : forall place, matcher.entries[index + place]? = (entry :: rest)[place]? := by
            intro place
            rw [← entriesHere, List.getElem?_drop]
          have union := reports.first index _ (List.getElem?_eq_getElem (paired.symm ▸ inside))
          rw [entriesHere] at union
          have counted : forall other, other ∈ entry :: rest ->
              Pattern.opened other.branch matcher.insensitive = other.single.groupCount + 1 :=
            fun other member => counts other (List.mem_of_mem_drop (entriesHere ▸ member))
          rw [scan, union]
          split
          next nothing =>
            refine ⟨best, rfl, kept.of_silent fun place other behind otherListed => ?_⟩
            rw [← Nat.add_sub_cancel' behind, Nat.add_zero, listed] at otherListed
            exact firstMatch?_eq_none nothing other (List.mem_of_getElem? otherListed)
          next reported found =>
            rcases firstMatch?_eq_some counted found with
              ⟨_, place, winner, own, numbered, atPlace, matched, same, silent⟩
            rw [numbered]
            dsimp only
            rw [atPlace, same]
            refine inductionHypothesis (index + 1) place restHere rfl ?_
            rw [Nat.add_right_comm]
            refine kept.next ((listed place).trans atPlace) matched ?_
            intro number other behind before otherListed
            have later : index + (number - index) = number := by omega
            rw [← later, listed] at otherListed
            exact silent _ other (by omega) otherListed

theorem best_longest (reports : matcher.Reports text) (counts : matcher.CountsGroups)
    (paired : matcher.unions.length = matcher.entries.length) (preference : Preference) :
    Exists fun answer => matcher.longest text preference = .ok answer ∧
      matcher.Best preference text matcher.entries.length answer :=
  best_scan reports counts paired 0 0 rfl rfl fun _ _ _ => Nat.not_lt_zero _

/-! ## The text of the match -/

theorem Reads.takeWithin (anchored : matcher.BeginsAt text) {candidate : Candidate}
    {piece : List Char} (reads : matcher.Reads text candidate piece) :
    Text.takeWithin text candidate.size = piece := by
  rcases reads with ⟨index, entry, found, listed, matched, inhabited⟩
  rcases Pattern.prefix_of_find? matched
    (anchored entry found (List.mem_of_getElem? listed) matched) with ⟨rest, rfl⟩
  exact Text.takeWithin_byteSize found.matched rest

private theorem index_of_rank {first second : Candidate}
    (same : matcher.rank preference first = matcher.rank preference second) :
    first.index = second.index := by
  injection toLex_inj.mp same with _ same
  injection toLex_inj.mp same with _ same
  injection toLex_inj.mp same with _ same

/-- Two best readings are the same. -/
private theorem Reads.eq_of_rank {first second : Candidate} {firstPiece secondPiece : List Char}
    (firstReads : matcher.Reads text first firstPiece)
    (secondReads : matcher.Reads text second secondPiece)
    (same : matcher.rank preference first = matcher.rank preference second) :
    first = second ∧ firstPiece = secondPiece := by
  have index := index_of_rank same
  rcases secondReads with ⟨place, entry, found, listed, matched, inhabited⟩
  rcases firstReads.eq_of_entry (index ▸ listed) matched with ⟨reading, piece, _⟩
  exact ⟨by rw [reading, index], piece⟩

/-- At a place of a text, a matcher answers with the best of all declarations that have a match there
which is not empty, and with the text of this match.  It has no answer exactly if there is no such
declaration, and it does not break off. -/
theorem matchAt_eq_best {spec : TokenSpec} {insensitive : Bool}
    (made : ofSpec spec insensitive = .ok matcher) {whole : String} {offset : Nat}
    (boundary : Text.dropBytes? whole.toList offset = some text) (reports : matcher.Reports text)
    (counts : matcher.CountsGroups) (preference : Preference) :
    (forall name piece, matcher.matchAt whole offset preference = .ok (some (name, piece)) ↔
      Exists fun candidate => spec.Reads insensitive text candidate piece.toList ∧
        candidate.name = name ∧
        forall other otherPiece, spec.Reads insensitive text other otherPiece ->
          matcher.rank preference other ≤ matcher.rank preference candidate) ∧
    (matcher.matchAt whole offset preference = .ok none ↔
      forall candidate piece, ¬ spec.Reads insensitive text candidate piece) ∧
    matcher.matchAt whole offset preference ≠ .error .unclaimed := by
  rcases best_longest reports counts (ofSpec_eq_ok made).2 preference with ⟨answer, longest, best⟩
  have inside : forall candidate piece, matcher.Reads text candidate piece ->
      candidate.index < matcher.entries.length := by
    rintro _ _ ⟨index, entry, found, listed, _, _⟩
    exact (List.getElem?_eq_some_iff.mp listed).1
  simp only [← reads_iff made]
  have found : matcher.matchAt whole offset preference = .ok (answer.map fun candidate =>
      (candidate.name, String.ofList (Text.takeWithin text candidate.size))) := by
    rw [matchAt, boundary]
    dsimp only
    rw [longest]
    rfl
  rw [found]
  simp only [Except.ok.injEq, ne_eq, reduceCtorEq, not_false_eq_true, and_true]
  cases answer with
  | none =>
      have nothing : forall candidate piece, ¬ matcher.Reads text candidate piece :=
        fun candidate piece reads => best candidate piece reads (inside candidate piece reads)
      refine ⟨fun name piece => ⟨?_, ?_⟩, fun _ => nothing, fun _ => rfl⟩
      · intro impossible
        cases impossible
      · rintro ⟨candidate, reads, _⟩
        exact (nothing candidate _ reads).elim
  | some candidate =>
      rcases best with ⟨⟨own, reads⟩, _, most⟩
      have greatest : forall other piece, matcher.Reads text other piece ->
          matcher.rank preference other ≤ matcher.rank preference candidate :=
        fun other piece otherReads => most other piece otherReads (inside other piece otherReads)
      rw [Option.map_some, reads.takeWithin reports.anchored]
      refine ⟨fun name piece => ⟨?_, ?_⟩, ?_, ?_⟩
      · intro same
        cases same
        exact ⟨candidate, by rwa [String.toList_ofList], rfl, greatest⟩
      · rintro ⟨other, otherReads, rfl, otherGreatest⟩
        have equal := le_antisymm (greatest other _ otherReads) (otherGreatest candidate own reads)
        rcases otherReads.eq_of_rank reads equal with ⟨rfl, same⟩
        rw [← same, String.ofList_toList]
      · intro impossible
        cases impossible
      · intro nothing
        exact (nothing candidate own reads).elim

end Matcher

instance : Inhabited Matcher := ⟨⟨[], [], false⟩⟩

/-! ## Groups that are lost -/

/-- Three tokens. The pattern of the first opens a group that it does not have. -/
def TokenSpec.lossy : TokenSpec :=
  ⟨[⟨"x", .regex "(a)\x7b0\x7dc"⟩, ⟨"y", .regex "(d)"⟩, ⟨"z", .regex "e"⟩]⟩

/-- The matcher for them. -/
def Matcher.lossy : Matcher :=
  (ofSpec .lossy false).toOption.getD default

/-- The matcher for the first of them and a second one without groups. -/
def Matcher.lossyPair : Matcher :=
  (ofSpec ⟨[⟨"x", .regex "(a)\x7b0\x7dc"⟩, ⟨"y", .regex "d"⟩]⟩ false).toOption.getD default

namespace Matcher

/-- In front of a `d`, only the second token has a match, and the unions report it.  But the matcher
answers with the third token, and if there is none and the second has no group, it breaks off. -/
theorem answers_unread_lossy :
    ofSpec .lossy false = .ok lossy ∧ lossy.Reports ['d'] ∧
    TokenSpec.lossy.Reads false ['d'] ⟨1, "y", 1⟩ ['d'] ∧
    (forall candidate piece, TokenSpec.lossy.Reads false ['d'] candidate piece ->
      candidate.name ≠ "z") ∧
    lossy.matchAt "d" 0 .nothing = .ok (some ("z", "d")) ∧
    lossyPair.Reports ['d'] ∧ lossyPair.matchAt "d" 0 .nothing = .error .unclaimed := by
  have made : ofSpec .lossy false = .ok lossy := eq_ok_of_isOk (by decide +kernel)
  have reads : lossy.Reads ['d'] ⟨1, "y", 1⟩ ['d'] := by
    have matched : lossy.entries[1]?.bind (fun entry => entry.single.find? ['d']) =
        some ⟨[], ['d'], [1]⟩ := by decide +kernel
    have named : lossy.entries[1]?.map MatcherEntry.name = some "y" := by decide +kernel
    rcases Option.bind_eq_some_iff.mp matched with ⟨entry, listed, own⟩
    rw [listed, Option.map_some, Option.some.injEq] at named
    have whole := Reads.own 1 entry _ listed own (List.cons_ne_nil _ _)
    rwa [named] at whole
  have silent : forall entry, entry ∈ lossy.entries -> entry.name = "z" ->
      entry.single.find? ['d'] = none := by decide +kernel
  refine ⟨made, reports_of_each (by decide +kernel) (by decide +kernel), (reads_iff made).mp reads,
    ?_, by decide +kernel, reports_of_each (by decide +kernel) (by decide +kernel), by decide +kernel⟩
  intro candidate piece other named
  rcases (reads_iff made).mpr other with ⟨index, entry, found, listed, matched, _⟩
  rw [silent entry (List.mem_of_getElem? listed) named] at matched
  cases matched

end Matcher

/-! ## Words and a keyword -/

/-- Words, numbers, and a keyword that is also a word. -/
def TokenSpec.conditional : TokenSpec :=
  ⟨[⟨"word", .regex "([a-z])([a-z]+)?"⟩, ⟨"number", .regex "[0-9]+"⟩, ⟨"if", .keyword⟩]⟩

/-- The matcher for them. -/
def Matcher.conditional : Matcher :=
  (ofSpec .conditional false).toOption.getD default

namespace Matcher

theorem ofSpec_conditional : ofSpec .conditional false = .ok conditional :=
  eq_ok_of_isOk (by decide +kernel)

theorem reports_conditional : conditional.Reports "if x".toList :=
  reports_of_each (by decide +kernel) (by decide +kernel)

theorem countsGroups_conditional : conditional.CountsGroups := by
  unfold CountsGroups
  decide +kernel

/-- The keyword is the best reading where a word of the same length is declared before it. -/
theorem matchAt_eq_best_conditional :
    ofSpec .conditional false = .ok conditional ∧
    Text.dropBytes? "1 if x".toList 2 = some "if x".toList ∧
    conditional.Reports "if x".toList ∧ conditional.CountsGroups ∧
    Exists fun candidate =>
      TokenSpec.conditional.Reads false "if x".toList candidate "if".toList ∧
      candidate.name = "if" ∧
      forall other piece, TokenSpec.conditional.Reads false "if x".toList other piece ->
        conditional.rank .nothing other ≤ conditional.rank .nothing candidate := by
  have boundary : Text.dropBytes? "1 if x".toList 2 = some "if x".toList := by decide +kernel
  have found : conditional.matchAt "1 if x" 2 .nothing = .ok (some ("if", "if")) := by
    decide +kernel
  have best := matchAt_eq_best ofSpec_conditional boundary reports_conditional
    countsGroups_conditional .nothing
  exact ⟨ofSpec_conditional, boundary, reports_conditional, countsGroups_conditional,
    (best.1 "if" "if").mp found⟩

end Matcher

end ShiftReduce
