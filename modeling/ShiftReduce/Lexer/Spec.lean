/-!
Declarations of tokens.

A token is declared by a pattern or as a keyword, whose text is its name. The order of the
declarations decides only between tokens that nothing else tells apart.
-/

namespace ShiftReduce

/-- What a token looks like. -/
inductive TokenPattern where
  /-- The texts that a pattern matches. -/
  | regex (source : String)
  /-- The name of the token. -/
  | keyword
deriving DecidableEq, Repr, Inhabited

/-- The declaration of a token. -/
structure TokenDef where
  name : String
  pattern : TokenPattern
deriving DecidableEq, Repr, Inhabited

/-- Token declarations in order. A name can be declared more than once. -/
structure TokenSpec where
  defs : List TokenDef
deriving DecidableEq, Repr, Inhabited

namespace TokenSpec

/-- Whether a token of that name is declared. -/
def contains (spec : TokenSpec) (name : String) : Bool :=
  spec.defs.any (·.name == name)

/-- The number of declarations. -/
def size (spec : TokenSpec) : Nat :=
  spec.defs.length

/-- Whether nothing is declared. -/
def isEmpty (spec : TokenSpec) : Bool :=
  spec.defs.isEmpty

end TokenSpec
end ShiftReduce
