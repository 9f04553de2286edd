/-!
  Names of files.

  A name is a sequence of parts with slashes between them, behind a root if it is absolute.  Empty
  parts and single dots say nothing and are left out; double dots stay.
-/

namespace ScriptLang.CommandLine

/-- A file name without its idle parts. -/
structure Path where
  /-- The leading slashes that count: none, one, or exactly two. -/
  root : String
  parts : List String
  deriving DecidableEq, Repr

namespace Path

/-- Splits characters at slashes. -/
def splitSlashes : List Char → List (List Char)
  | [] => [[]]
  | '/' :: cs => [] :: splitSlashes cs
  | c :: cs =>
    match splitSlashes cs with
    | [] => [[c]]
    | part :: parts => (c :: part) :: parts

/-- The steps of a name: what stands between its slashes, single dots included. -/
def steps (name : String) : List String :=
  ((splitSlashes name.toList).map String.ofList).filter (· ≠ "")

/-- The parts of a name that say something. -/
def partsOf (name : String) : List String := (steps name).filter (· ≠ ".")

/-- Reads a file name. -/
def ofString (name : String) : Path where
  root :=
    match (name.toList.takeWhile (· == '/')).length with
    | 0 => ""
    | 2 => "//"
    | _ => "/"
  parts := partsOf name

/-- Writes a file name; the empty one is a dot. -/
def text (p : Path) : String :=
  if p.root = "" ∧ p.parts = [] then "." else p.root ++ "/".intercalate p.parts

/-- The name with an ending added to its last part. -/
def extend (p : Path) (ending : String) : Path :=
  match p.parts.reverse with
  | [] => { p with parts := [ending] }
  | last :: front => { p with parts := ((last ++ ending) :: front).reverse }

end Path

example : (Path.ofString "a//./b/").text = "a/b" ∧ (Path.ofString "").text = "." := by decide

end ScriptLang.CommandLine
