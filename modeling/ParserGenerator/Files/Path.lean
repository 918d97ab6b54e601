import ParserGenerator.Text.Lines

/-!
# Paths

Paths are texts with a slash between their parts, and are shown as they were given. Empty parts and
single dots do not name anything. The name of a path is its last part, unless that goes up.

A walk along a path takes a step for every part that is not empty, also for a single dot, which can
only follow a directory.
-/

namespace ParserGenerator

/-- A path as it was given. -/
abbrev Path := String

namespace Path

open Text

/-- The parts between slashes. -/
def parts (p : Path) : List (List Char) := splitAt '/' p.toList

/-- Empty parts and single dots stay where they are. -/
def isIdle (part : List Char) : Bool := part = [] ∨ part = ['.']

def isAbsolute (p : Path) : Bool := p.toList.head? = some '/'

/-- A path that ends in a slash can only be a directory. -/
def wantsDirectory (p : Path) : Bool := p.toList.getLast? = some '/'

/-- The parts that name something. -/
def names (p : Path) : List String := (p.parts.filter (!isIdle ·)).map String.ofList

/-- The parts that a walk goes through. -/
def steps (p : Path) : List String := (p.parts.filter (!·.isEmpty)).map String.ofList

/-- The last step of the path is one or two dots, which no file can be called. -/
def endsInDots (p : Path) : Bool := p.steps.getLast?.any fun step ↦ step = "." ∨ step = ".."

/-- The name of a path, and the parts before it, the last one first. -/
def split? (p : Path) : Option (List (List Char) × List Char) :=
  match p.parts.reverse.dropWhile isIdle with
  | [] => none
  | name :: before => if name = ['.', '.'] then none else some (before, name)

/-- A name cut at its last dot. A dot at the start does not count. -/
def cutName (name : List Char) : List Char × Option (List Char) :=
  match cutAt '.' name.reverse with
  | none => (name, none)
  | some (extension, stem) =>
    if stem = [] then (name, none) else (stem.reverse, some extension.reverse)

/-- What stands after the last dot of the name. -/
def extension? (p : Path) : Option String :=
  p.split?.bind fun s ↦ (cutName s.2).2.map String.ofList

/-- The parts, the last one first, as a path. -/
def ofReversed (parts : List (List Char)) : Path :=
  joinWith "/" (parts.reverse.map String.ofList)

/-- Replaces the extension, or adds one. A path without a name is left as it is. -/
def setExtension (p : Path) (extension : String) : Path :=
  match p.split? with
  | none => p
  | some (before, name) =>
    ofReversed (((cutName name).1 ++ '.' :: extension.toList) :: before)

/-- Takes an extension off the end of the path, but keeps the dot before it. -/
def dropExtension (p : Path) : Path :=
  match p.extension? with
  | none => p
  | some extension => ((stripSuffix? extension.toList p.toList).map String.ofList).getD p

/-- The path with another extension. The old one is dropped first; if two dots are all that is left
of the name, there is no name any more, and the path stays without an extension. -/
def withExtension (p : Path) (extension : String) : Path :=
  p.dropExtension.setExtension extension

/-- The path of a file in a directory; an absolute path stands on its own. -/
def join (directory file : Path) : Path :=
  if file.isAbsolute ∨ directory = "" then file
  else if directory.wantsDirectory then directory ++ file
  else directory ++ "/" ++ file

/-- The path without its last part. -/
def parent (p : Path) : Path :=
  match p.parts.reverse.dropWhile isIdle with
  | [] => ""
  | _ :: before =>
    match before.dropWhile isIdle with
    | [] => if p.isAbsolute then "/" else ""
    | before => ofReversed before

end Path

end ParserGenerator
