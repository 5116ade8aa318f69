namespace SourceAtlas.Shell

inductive Cut where
  | shortestEnd
  | longestEnd
  | shortestStart
  | longestStart
  deriving DecidableEq, Repr

inductive Otherwise where
  | use
  | assign
  | complain
  | replace
  deriving DecidableEq, Repr

inductive Mode where
  | create
  | extend
  | input
  | duplicate
  | document
  deriving DecidableEq, Repr

mutual

inductive Part where
  | text (s : List Char) (quoted : Bool)
  | value (name : String) (quoted : Bool)
  | size (name : String)
  | cut (name : String) (how : Cut) (pattern : List Part) (quoted : Bool)
  -- `orEmpty` tells that an empty value counts as not set.
  | otherwise (name : String) (how : Otherwise) (orEmpty : Bool) (word : List Part) (quoted : Bool)
  | output (body : Command) (quoted : Bool)

inductive Redirection where
  | mk (descriptor : Nat) (mode : Mode) (target : List Part)

inductive Command where
  | skip
  | simple (line : Nat) (settings : List (String × List Part)) (words : List (List Part))
      (redirections : List Redirection)
  | sequence (first second : Command)
  | both (first second : Command)
  | either (first second : Command)
  | negated (body : Command)
  | pipe (first second : Command)
  | choice (condition yes no : Command)
  | loop (until_ : Bool) (condition body : Command)
  | forEach (name : String) (words : Option (List (List Part))) (body : Command)
  | select (word : List Part) (arms : List (List (List Part) × Command))
  | grouped (apart : Bool) (body : Command) (redirections : List Redirection)

end

instance : Inhabited Command := ⟨.skip⟩

abbrev Word := List Part

end SourceAtlas.Shell
