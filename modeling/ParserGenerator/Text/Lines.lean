/-!
# Lines and cuts

A line ends at a line feed, and a carriage return right before that line feed belongs to the line
end. Text after the last line feed is a line of its own if it is not empty, and keeps a trailing
carriage return.
-/

namespace ParserGenerator.Text

def lines : List Char → List (List Char)
  | [] => []
  | '\n' :: rest => [] :: lines rest
  | '\r' :: '\n' :: rest => [] :: lines rest
  | c :: rest =>
    match lines rest with
    | [] => [[c]]
    | line :: more => (c :: line) :: more

/-- Cuts at the first occurrence of a character, which belongs to neither part. -/
def cutAt (sep : Char) (cs : List Char) : Option (List Char × List Char) :=
  match cs.dropWhile (· != sep) with
  | [] => none
  | _ :: after => some (cs.takeWhile (· != sep), after)

/-- Cuts at the first occurrence of two adjacent characters, which belong to neither part. -/
def cutAtPair (a b : Char) : List Char → Option (List Char × List Char)
  | x :: y :: rest =>
    if x = a ∧ y = b then some ([], rest)
    else (cutAtPair a b (y :: rest)).map fun cut ↦ (x :: cut.1, cut.2)
  | _ => none

/-- Splits at every occurrence of a character; there is one part more than there are occurrences. -/
def splitAt (sep : Char) : List Char → List (List Char)
  | [] => [[]]
  | c :: rest =>
    if c = sep then [] :: splitAt sep rest
    else
      match splitAt sep rest with
      | [] => [[c]]
      | part :: more => (c :: part) :: more

/-- The text before a suffix, if the text ends with it. -/
def stripSuffix? (suffix cs : List Char) : Option (List Char) :=
  if suffix.isSuffixOf cs then some (cs.take (cs.length - suffix.length)) else none

/-- The strings in order with a separator between neighbours. -/
def joinWith (sep : String) : List String → String
  | [] => ""
  | [s] => s
  | s :: rest => s ++ sep ++ joinWith sep rest

def concat : List String → String
  | [] => ""
  | s :: rest => s ++ concat rest

theorem append_of_cutAtPair {a b : Char} {cs before after : List Char}
    (h : cutAtPair a b cs = some (before, after)) :
    before ++ a :: b :: after = cs := by
  fun_induction cutAtPair a b cs generalizing before with
  | case1 x y rest hxy => simp_all
  | case2 x y rest hxy ih =>
    obtain ⟨cut, hcut, heq⟩ := Option.map_eq_some_iff.1 h
    obtain ⟨rfl, rfl⟩ := Prod.mk.inj heq
    simp [ih hcut]
  | case3 cs hcs => simp at h

end ParserGenerator.Text
