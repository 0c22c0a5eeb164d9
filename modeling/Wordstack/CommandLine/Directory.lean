import Wordstack.Text.Pieces

/-!
# Files by name

A *directory* holds files and other directories under paths, and a file is found by following
the steps of a path from the directory: a name leads into a directory, a single point stays, two
points lead back. The reading of a file can fail on the way, at a step that leads nowhere or
beyond a file, or at its end, if a directory is there. A name can also be too long for any
directory, and a path too long to be followed.

What lies *outside* are directories too, which a path comes to by leading back far enough or by
starting from the root. Nothing is known of them: no name leads anywhere from there.
-/

namespace Wordstack

/-- What a path can lead to. -/
inductive Node where
  | file (bytes : List UInt8)
  | directory

/-- The reasons why a file cannot be read. -/
inductive ReadFault where
  | notFound
  | notDirectory
  | isDirectory
  | nameTooLong
  deriving DecidableEq, Repr

namespace ReadFault

/-- The number by which the reason is known. -/
def code : ReadFault → Nat
  | notFound => 2
  | notDirectory => 20
  | isDirectory => 21
  | nameTooLong => 36

/-- The reason in words. -/
def message : ReadFault → String
  | notFound => "No such file or directory"
  | notDirectory => "Not a directory"
  | isDirectory => "Is a directory"
  | nameTooLong => "File name too long"

end ReadFault

/-- Where the steps of a path lead. -/
inductive Place where
  /-- At the end of steps from the directory. -/
  | within (steps : List String)
  | outside
  deriving DecidableEq, Repr

/-- One step back. -/
def Place.back : Place → Place
  | within [] => outside
  | within steps => within steps.dropLast
  | outside => outside

/-- A directory: what lies under the paths from it. -/
structure Directory where
  /-- The files and directories, each under the steps of its path. -/
  nodes : List (List String × Node)

namespace Directory

/-- The steps of a path. -/
def steps (path : String) : List String :=
  ((Text.pieces '/' path.toList).filter (· ≠ [])).map .ofList

/-- The directory with the nodes under the paths. -/
def ofPaths (nodes : List (String × Node)) : Directory :=
  ⟨nodes.map fun n => (steps n.1, n.2)⟩

/-- What lies under a name from a place. Where a node lies deeper, there is a directory. -/
def find? (d : Directory) (name : String) : Place → Option (Node × Place)
  | .outside => none
  | .within steps =>
    let steps := steps ++ [name]
    match d.nodes.find? (·.1 = steps) with
    | some n => some (n.2, .within steps)
    | none =>
      if d.nodes.any fun n => steps.isPrefixOf n.1 then some (.directory, .within steps) else none

/-- The most bytes of a name. -/
def nameLimit : Nat := 255

/-- The most bytes of a path. -/
def pathLimit : Nat := 4095

/-- Follows the steps from a place where there is a directory. -/
def follow (d : Directory) (here : Place) : List String → Except ReadFault (List UInt8)
  | [] => .error .isDirectory
  | step :: rest =>
    if step = "." then d.follow here rest
    else if step = ".." then d.follow here.back rest
    else if nameLimit < step.utf8ByteSize then .error .nameTooLong
    else match d.find? step here with
      | none => .error .notFound
      | some (.directory, there) => d.follow there rest
      | some (.file bytes, _) => if rest = [] then .ok bytes else .error .notDirectory

/-- Where a path starts. -/
def start (path : String) : Place :=
  if path.toList.head? = some '/' then .outside else .within []

/-- The bytes of the file at the end of a path. -/
def readFile (d : Directory) (path : String) : Except ReadFault (List UInt8) :=
  if pathLimit < path.utf8ByteSize then .error .nameTooLong
  else d.follow (start path) (steps path)

end Directory

end Wordstack
