import Mathlib.Data.List.Basic
import Mathlib.Data.List.ModifyLast
import ShiftReduce.Parse.Tree

namespace ShiftReduce

/-!
# The drawing of a tree as an outline

The drawing of a tree is made from the inside out: the drawing of each child is broken into lines, and
every line is moved behind the connector of the child.  What comes out has a closed form.  An item of a
tree, a node or a leaf, has an address, the indices of the children on the way down to it.  The drawing
has one line for each address, in lexicographic order, so that an item stands in front of the items
below it and these in front of its next sibling.  The line of an item can be told from its title and
from which of the items on the way down are the last children of their parents.

Titles must take one line each for this.  Labels and names must be free of line feeds, and they must not
end in a carriage return, which gets lost when a line is moved.  The text of a token is escaped, and can
be any text.
-/

/-! ## Texts of one line -/

namespace Text

/-- Whether a text is a line of its own, of which nothing gets lost when it is moved. -/
def OneLine (text : List Char) : Prop :=
  '\n' ∉ text ∧ text.getLast? ≠ some '\r'
deriving Decidable

theorem brokenLines_of_line {line : List Char} (unbroken : '\n' ∉ line) :
    brokenLines line = [line] := by
  induction line with
  | nil => rfl
  | cons c rest inductionHypothesis =>
      rw [List.mem_cons, not_or] at unbroken
      rw [brokenLines, if_neg (Ne.symm unbroken.1), inductionHypothesis unbroken.2]

theorem brokenLines_append {line : List Char} (unbroken : '\n' ∉ line) (text : List Char) :
    brokenLines (line ++ '\n' :: text) = line :: brokenLines text := by
  induction line with
  | nil => rw [List.nil_append, brokenLines, if_pos rfl]
  | cons c rest inductionHypothesis =>
      rw [List.mem_cons, not_or] at unbroken
      rw [List.cons_append, brokenLines, if_neg (Ne.symm unbroken.1),
        inductionHypothesis unbroken.2]

/-- A text that is written line by line is broken into these lines, and nothing stands behind the
last of them. -/
theorem brokenLines_flatMap {lines : List (List Char)}
    (unbroken : forall line, line ∈ lines -> '\n' ∉ line) :
    brokenLines (lines.flatMap fun line => line ++ ['\n']) = lines ++ [[]] := by
  induction lines with
  | nil => rfl
  | cons line rest inductionHypothesis =>
      rw [List.forall_mem_cons] at unbroken
      rw [List.flatMap_cons, List.append_assoc, List.singleton_append,
        brokenLines_append unbroken.1, inductionHypothesis unbroken.2, List.cons_append]

theorem dropReturn_eq_self {line : List Char} (ending : line.getLast? ≠ some '\r') :
    dropReturn line = line := by
  rw [dropReturn, if_neg ending]

theorem not_mem_hexadecimal (number : Nat) : '\n' ∉ (hexadecimal number).toList := by
  have digits : forall digit, digit < 16 -> '\n' ≠ Nat.digitChar digit := by decide
  rw [hexadecimal, String.toList_ofList]
  induction number using Nat.strongRecOn with
  | ind number inductionHypothesis =>
      by_cases small : number < 16
      · rw [Nat.toDigits_of_lt_base small, List.mem_singleton]
        exact digits number small
      · rw [Nat.toDigits_of_base_le (by decide) (Nat.le_of_not_lt small), List.mem_append, not_or,
          List.mem_singleton]
        exact ⟨inductionHypothesis _ (by omega), digits _ (Nat.mod_lt _ (by decide))⟩

/-- A character is escaped without a line feed. -/
theorem not_mem_escapeChar (escaping : Escaping) (c : Char) :
    '\n' ∉ (escapeChar escaping c).toList := by
  have byCode : '\n' ∉ (escapeByCode c).toList := by
    simp [escapeByCode, not_mem_hexadecimal]
  by_cases feed : c = '\n'
  · subst c
    simp [escapeChar]
  · unfold escapeChar
    rw [if_neg feed]
    repeat' split
    any_goals decide
    · exact byCode
    · simpa [Char.toString] using Ne.symm feed
    · exact byCode

theorem not_mem_escape (escaping : Escaping) (text : String) :
    '\n' ∉ (escape escaping text).toList := by
  simp [escape, String.toList_join, not_mem_escapeChar]

end Text

theorem Token.oneLine_display {token : Token} (plain : Text.OneLine token.name.toList) :
    Text.OneLine token.display.toList := by
  unfold Token.display
  cases token.text with
  | none => exact plain
  | some text =>
      refine ⟨?_, ?_⟩
      · simp [Text.quoted, Text.not_mem_escape, plain.1]
      · have closing : (Text.quoted text).toList.getLast? = some '"' := by
          rw [Text.quoted, String.toList_append]
          exact List.getLast?_concat
        rw [String.toList_append, List.getLast?_append, closing, Option.some_or]
        decide

namespace OutlineLine

/-- The line as it is written. -/
def text (line : OutlineLine) : List Char :=
  line.lead ++ line.title

end OutlineLine

namespace ParseTree

/-! ## Addresses -/

/-- The node or leaf that is reached when at each level the child with the next index is taken. -/
def at? (tree : ParseTree) : List Nat -> Option ParseTree
  | [] => some tree
  | index :: address => tree.children[index]?.bind fun child => child.at? address

mutual

/-- The addresses of the items of a tree, in pre-order. -/
def addresses : ParseTree -> List (List Nat)
  | .node _ children => [] :: addressesOfEach 0 children
  | .leaf _ => [[]]

/-- The addresses below a node whose children from `index` on are these trees. -/
def addressesOfEach (index : Nat) : List ParseTree -> List (List Nat)
  | [] => []
  | tree :: rest => tree.addresses.map (List.cons index) ++ addressesOfEach (index + 1) rest

end

/-- The label of a node, and the name of a leaf's token. -/
def name : ParseTree -> String
  | .node label _ => label
  | .leaf token => token.name

/-- Whether each label and each name in the tree takes one line. -/
def OneLineNames (tree : ParseTree) : Prop :=
  forall address item, tree.at? address = some item -> Text.OneLine item.name.toList

/-- Whether no sibling comes after the item at an address. -/
def isLast (tree : ParseTree) (address : List Nat) : Bool :=
  (tree.at? (address.modifyLast Nat.succ)).isNone

/-- The two columns that one level takes in the line of an item: the item's own connector, or below
one of its ancestors the bar that leads to this ancestor's next sibling. -/
def columns (own last : Bool) : List Char :=
  match own, last with
  | true, true => ['└', '─']
  | true, false => ['├', '─']
  | false, true => [' ', ' ']
  | false, false => ['│', ' ']

/-- What stands in front of the title of the item at an address: two columns for each item on the way
down below the root, itself included. -/
def leadAt (tree : ParseTree) (address : List Nat) : List Char :=
  (List.range address.length).flatMap fun level =>
    columns (level + 1 = address.length) (tree.isLast (address.take (level + 1)))

/-- The title of the item at an address. -/
def titleAt (tree : ParseTree) (address : List Nat) : List Char :=
  ((tree.at? address).map fun item => item.title.toList).getD []

/-- The line of the item at an address. -/
def lineAt (tree : ParseTree) (address : List Nat) : OutlineLine :=
  ⟨tree.leadAt address, tree.titleAt address⟩

theorem addresses_eq (tree : ParseTree) :
    tree.addresses = [] :: addressesOfEach 0 tree.children := by
  cases tree <;> rfl

/-- The addresses below a node are those of its children, behind the index of the child. -/
theorem mem_addressesOfEach {address : List Nat} (trees : List ParseTree) (index : Nat) :
    address ∈ addressesOfEach index trees ↔
      Exists fun offset => Exists fun child => Exists fun rest => trees[offset]? = some child ∧
        rest ∈ child.addresses ∧ address = (index + offset) :: rest := by
  induction trees generalizing index with
  | nil => simp [addressesOfEach]
  | cons tree others inductionHypothesis =>
      rw [addressesOfEach, List.mem_append, List.mem_map, inductionHypothesis]
      constructor
      · rintro (⟨rest, member, rfl⟩ | ⟨offset, child, rest, found, member, rfl⟩)
        · exact ⟨0, tree, rest, rfl, member, rfl⟩
        · exact ⟨offset + 1, child, rest, found, member, by rw [Nat.add_assoc, Nat.add_comm 1]⟩
      · rintro ⟨offset, child, rest, found, member, rfl⟩
        cases offset with
        | zero =>
            cases found
            exact Or.inl ⟨rest, member, rfl⟩
        | succ offset =>
            exact Or.inr ⟨offset, child, rest, found, member, by rw [Nat.add_assoc, Nat.add_comm 1]⟩

theorem cons_mem_addresses_iff {tree : ParseTree} {index : Nat} {rest : List Nat} :
    index :: rest ∈ tree.addresses ↔
      Exists fun child => tree.children[index]? = some child ∧ rest ∈ child.addresses := by
  rw [addresses_eq, List.mem_cons, mem_addressesOfEach]
  constructor
  · rintro (impossible | ⟨offset, child, _, found, member, same⟩)
    · cases impossible
    · rw [Nat.zero_add] at same
      cases same
      exact ⟨child, found, member⟩
  · rintro ⟨child, found, member⟩
    exact Or.inr ⟨index, child, rest, found, member, by rw [Nat.zero_add]⟩

/-- The addresses of a tree are those that lead to an item. -/
theorem mem_addresses_iff {tree : ParseTree} {address : List Nat} :
    address ∈ tree.addresses ↔ (tree.at? address).isSome := by
  induction address generalizing tree with
  | nil => simp [addresses_eq, at?]
  | cons index rest inductionHypothesis =>
      rw [cons_mem_addresses_iff, at?]
      cases found : tree.children[index]? with
      | none => simp
      | some child => simp [inductionHypothesis]

instance (tree : ParseTree) : Decidable tree.OneLineNames :=
  decidable_of_iff
    (forall address, address ∈ tree.addresses ->
      forall item, item ∈ tree.at? address -> Text.OneLine item.name.toList)
    ⟨fun each address item reached =>
      each address (mem_addresses_iff.mpr (Option.isSome_of_mem reached)) item reached,
      fun plain address _ item reached => plain address item reached⟩

mutual

/-- The addresses stand in lexicographic order. -/
theorem pairwise_addresses : forall tree : ParseTree, tree.addresses.Pairwise (· < ·)
  | .node _ children => by
      rw [addresses, List.pairwise_cons]
      refine ⟨?_, pairwise_addressesOfEach 0 children⟩
      intro address member
      rcases (mem_addressesOfEach children 0).mp member with ⟨_, _, _, _, _, rfl⟩
      exact List.nil_lt_cons _ _
  | .leaf _ => List.pairwise_singleton _ _

theorem pairwise_addressesOfEach : forall (index : Nat) (trees : List ParseTree),
    (addressesOfEach index trees).Pairwise (· < ·)
  | _, [] => List.Pairwise.nil
  | index, tree :: rest => by
      rw [addressesOfEach, List.pairwise_append]
      refine ⟨?_, pairwise_addressesOfEach (index + 1) rest, ?_⟩
      · exact List.Pairwise.map _ (fun _ _ => List.cons_lt_cons_self.mpr) (pairwise_addresses tree)
      · intro left front right back
        rcases List.mem_map.mp front with ⟨_, _, rfl⟩
        rcases (mem_addressesOfEach rest (index + 1)).mp back with ⟨_, _, _, _, _, rfl⟩
        exact List.cons_lt_cons_iff.mpr (Or.inl (by omega))

end

/-! ## The line of an item -/

variable {tree child : ParseTree} {index : Nat}

theorem OneLineNames.of_child (plain : tree.OneLineNames)
    (found : tree.children[index]? = some child) : child.OneLineNames :=
  fun address item reached => plain (index :: address) item (by rw [at?, found]; exact reached)

theorem oneLine_title (plain : tree.OneLineNames) : Text.OneLine tree.title.toList := by
  have root := plain [] tree rfl
  cases tree with
  | node label children => exact root
  | leaf token => exact Token.oneLine_display root

theorem titleAt_cons (found : tree.children[index]? = some child) (address : List Nat) :
    tree.titleAt (index :: address) = child.titleAt address := by
  rw [titleAt, at?, found]
  rfl

theorem oneLine_titleAt (plain : tree.OneLineNames) (address : List Nat) :
    Text.OneLine (tree.titleAt address) := by
  induction address generalizing tree with
  | nil => exact oneLine_title plain
  | cons index rest inductionHypothesis =>
      cases found : tree.children[index]? with
      | none =>
          rw [titleAt, at?, found]
          exact ⟨List.not_mem_nil, by simp⟩
      | some child =>
          rw [titleAt_cons found]
          exact inductionHypothesis (plain.of_child found)

theorem isLast_singleton (tree : ParseTree) (index : Nat) :
    tree.isLast [index] = (tree.children[index + 1]?).isNone := by
  rw [isLast, show [index].modifyLast Nat.succ = [index + 1] from rfl, at?]
  cases tree.children[index + 1]? <;> rfl

theorem isLast_cons (found : tree.children[index]? = some child) {address : List Nat}
    (below : address ≠ []) : tree.isLast (index :: address) = child.isLast address := by
  rw [isLast, isLast, ← List.singleton_append, List.modifyLast_append_of_right_ne_nil _ _ _ below,
    List.singleton_append, at?, found]
  rfl

/-- The lead of an item begins with the columns of the child it is or is below. -/
theorem leadAt_cons (found : tree.children[index]? = some child) (address : List Nat) :
    tree.leadAt (index :: address) =
      columns address.isEmpty (tree.children[index + 1]?).isNone ++ child.leadAt address := by
  have top : ((0 + 1 : Nat) = (index :: address).length : Bool) = address.isEmpty := by
    cases address <;> simp
  rw [leadAt, List.length_cons, List.range_succ_eq_map, List.flatMap_cons, ← List.length_cons,
    top, List.take_succ_cons, List.take_zero, isLast_singleton, List.flatMap_map, leadAt]
  congr 1
  refine List.flatMap_congr fun level member => ?_
  have below : address.take (level + 1) ≠ [] := by
    have := List.mem_range.mp member
    cases address with
    | nil => cases this
    | cons => exact List.cons_ne_nil _ _
  rw [List.take_succ_cons, isLast_cons found below, List.length_cons]
  simp

theorem indent_lineAt (plain : tree.OneLineNames) (found : tree.children[index]? = some child)
    (address : List Nat) {mark filler : Char}
    (front : columns address.isEmpty (tree.children[index + 1]?).isNone = [mark, filler]) :
    (child.lineAt address).indent mark filler = tree.lineAt (index :: address) := by
  have ending := (oneLine_titleAt (plain.of_child found) address).2
  rw [lineAt, OutlineLine.indent, Text.dropReturn_eq_self ending, lineAt, leadAt_cons found, front,
    titleAt_cons found]
  rfl

/-- The lines of a child hang below its parent as the lines of the items with its index in front of
their addresses. -/
theorem hang_lineAt (plain : tree.OneLineNames) (found : tree.children[index]? = some child) :
    hang (tree.children[index + 1]?).isNone (child.addresses.map child.lineAt) =
      (child.addresses.map (List.cons index)).map tree.lineAt := by
  rw [addresses_eq, List.map_cons, hang, List.map_cons, List.map_cons, List.map_map, List.map_map]
  congr 1
  · apply indent_lineAt plain found
    cases (tree.children[index + 1]?).isNone <;> rfl
  · refine List.map_congr_left fun address member => ?_
    rcases (mem_addressesOfEach _ 0).mp member with ⟨_, _, _, _, _, rfl⟩
    apply indent_lineAt plain found
    cases (tree.children[index + 1]?).isNone <;> rfl

theorem titleLines_eq {title : String} (plain : Text.OneLine title.toList) :
    titleLines title = [⟨[], title.toList⟩] := by
  rw [titleLines, Text.brokenLines_of_line plain.1]
  rfl

mutual

/-- The lines of a tree are the lines of its items. -/
theorem lines_eq : forall tree : ParseTree, tree.OneLineNames ->
    tree.lines = tree.addresses.map tree.lineAt
  | .node label children, plain => by
      have own := titleLines_eq (oneLine_title plain)
      rw [title] at own
      rw [lines, own, addresses, List.map_cons,
        linesOfEach_eq children (.node label children) 0 plain rfl]
      rfl
  | .leaf token, plain => titleLines_eq (oneLine_title plain)

theorem linesOfEach_eq : forall (trees : List ParseTree) (parent : ParseTree) (index : Nat),
    parent.OneLineNames -> parent.children.drop index = trees ->
      linesOfEach trees = (addressesOfEach index trees).map parent.lineAt
  | [], _, _, _, _ => rfl
  | tree :: rest, parent, index, plain, remaining => by
      have found : parent.children[index]? = some tree := by
        rw [← Nat.add_zero index, ← List.getElem?_drop, remaining]
        rfl
      have others : parent.children.drop (index + 1) = rest := by
        rw [← List.drop_drop, remaining]
        rfl
      have last : rest.isEmpty = (parent.children[index + 1]?).isNone := by
        rw [← Nat.add_zero (index + 1), ← List.getElem?_drop, others]
        cases rest <;> rfl
      rw [linesOfEach, addressesOfEach, List.map_append, ← hang_lineAt plain found, ← last,
        lines_eq tree (plain.of_child found), linesOfEach_eq rest parent (index + 1) plain others]

end

/-! ## The drawing -/

theorem not_mem_lineAt (plain : tree.OneLineNames) (address : List Nat) :
    '\n' ∉ (tree.lineAt address).text := by
  have marks : forall own last, '\n' ∉ columns own last := by decide
  rw [OutlineLine.text, List.mem_append, not_or]
  refine ⟨?_, (oneLine_titleAt plain address).1⟩
  rw [lineAt, leadAt, List.mem_flatMap]
  rintro ⟨level, _, member⟩
  exact marks _ _ member

/-- The drawing of a tree has one line for each item and nothing else, in pre-order.  The line of an
item has two columns for each item on the way down below the root, and its title behind them. -/
theorem outline_draw (tree : ParseTree) (plain : tree.OneLineNames) :
    Text.brokenLines tree.draw.toList =
        (tree.addresses.map fun address => (tree.lineAt address).text) ++ [[]] ∧
      tree.addresses.Pairwise (· < ·) ∧
      forall address, address ∈ tree.addresses ↔ (tree.at? address).isSome := by
  refine ⟨?_, pairwise_addresses tree, fun address => mem_addresses_iff⟩
  rw [draw, String.toList_ofList, lines_eq tree plain, List.flatMap_map]
  rw [← Text.brokenLines_flatMap, List.flatMap_map]
  · rfl
  · rintro line member
    rcases List.mem_map.mp member with ⟨address, _, rfl⟩
    exact not_mem_lineAt plain address

/-- The tree of a sum with a line feed for its second digit. -/
def brokenSum : ParseTree :=
  .node "Exp"
    [.node "Exp" [.node "Term" [.leaf ⟨"d", some "1", ⟨1, 1, 0⟩⟩]],
      .leaf ⟨"+", some "+", ⟨1, 2, 1⟩⟩,
      .node "Term" [.leaf ⟨"d", some "\n", ⟨1, 3, 2⟩⟩]]

theorem outline_draw_brokenSum :
    brokenSum.OneLineNames ∧
      brokenSum.addresses = [[], [0], [0, 0], [0, 0, 0], [1], [2], [2, 0]] ∧
      Text.brokenLines brokenSum.draw.toList =
        ["Exp", "├─Exp", "│ └─Term", "│   └─d \"1\"", "├─+ \"+\"", "└─Term",
          "  └─d \"\\n\"", ""].map String.toList := by
  have plain : brokenSum.OneLineNames := by decide +kernel
  refine ⟨plain, by decide +kernel, (outline_draw brokenSum plain).1.trans ?_⟩
  decide +kernel

end ParseTree
end ShiftReduce
