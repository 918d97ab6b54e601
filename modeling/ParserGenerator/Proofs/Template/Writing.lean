import ParserGenerator.Proofs.Text.Cuts
import ParserGenerator.Template.Basic

/-!
# Written templates

A template is written part by part: a text with its dollar signs doubled, or a placeholder with its
name behind a dollar sign, between braces or without. Reading a text from left to right goes through
parts that can be written until the text ends or a dollar sign starts nothing, and a text that has
been written is read as its parts, although texts next to each other are not told apart.
-/

namespace ParserGenerator.Template

open Text

/-! ## Writing -/

/-- A part of a template. -/
inductive Part where
  | text (s : String)
  /-- A placeholder with its name between braces. -/
  | braced (name : String)
  /-- A placeholder without braces. -/
  | bare (name : String)

def Part.name? : Part → Option String
  | .text _ => none
  | .braced name | .bare name => some name

/-- The names of the placeholders in order. -/
def names (parts : List Part) : List String := parts.filterMap Part.name?

def doubled (cs : List Char) : List Char := cs.flatMap fun c ↦ if c = '$' then ['$', '$'] else [c]

def Part.written : Part → List Char
  | .text s => doubled s.toList
  | .braced name => '$' :: '{' :: (name.toList ++ ['}'])
  | .bare name => '$' :: name.toList

def written (parts : List Part) : List Char := parts.flatMap Part.written

/-- ASCII letters, digits and underscores with no digit at the start. -/
structure IsIdentifier (name : List Char) : Prop where
  ne_nil : name ≠ []
  chars : ∀ c ∈ name, isNameChar c = true
  head : ∀ c ∈ name.head?, c.isDigit = false

/-- A name between braces has no closing brace. A name without braces is an identifier, and the text
after it does not go on with a letter, a digit or an underscore. -/
def Part.Fits (after : List Char) : Part → Prop
  | .text _ => True
  | .braced name => '}' ∉ name.toList
  | .bare name => IsIdentifier name.toList ∧ ∀ c ∈ after.head?, isNameChar c = false

/-- Every part fits in front of what is written after it. -/
def IsWritable : List Part → Prop
  | [] => True
  | part :: rest => part.Fits (written rest) ∧ IsWritable rest

theorem all_head?_iff {p : Char → Bool} {cs : List Char} :
    cs.head?.all (!p ·) = true ↔ ∀ c ∈ cs.head?, p c = false := by
  cases cs <;> simp

instance (name : List Char) : Decidable (IsIdentifier name) :=
  decidable_of_iff
    (name ≠ [] ∧ name.all isNameChar = true ∧ name.head?.all (!·.isDigit) = true)
    ⟨fun h ↦ ⟨h.1, List.all_eq_true.1 h.2.1, all_head?_iff.1 h.2.2⟩,
      fun h ↦ ⟨h.ne_nil, List.all_eq_true.2 h.chars, all_head?_iff.2 h.head⟩⟩

instance (after : List Char) : (part : Part) → Decidable (part.Fits after)
  | .text _ => inferInstanceAs (Decidable True)
  | .braced name => inferInstanceAs (Decidable ('}' ∉ name.toList))
  | .bare name =>
    decidable_of_iff (IsIdentifier name.toList ∧ after.head?.all (!isNameChar ·) = true)
      (and_congr_right fun _ ↦ all_head?_iff)

def decidableIsWritable : (parts : List Part) → Decidable (IsWritable parts)
  | [] => inferInstanceAs (Decidable True)
  | part :: rest =>
    have := decidableIsWritable rest
    inferInstanceAs (Decidable (part.Fits (written rest) ∧ IsWritable rest))

instance (parts : List Part) : Decidable (IsWritable parts) := decidableIsWritable parts

/-- Every dollar sign that is met from left to right is doubled, or it starts a closed pair of
braces or an identifier. -/
inductive DollarsStart : List Char → Prop where
  | nil : DollarsStart []
  | other {c : Char} {rest : List Char} (hc : c ≠ '$') (h : DollarsStart rest) :
      DollarsStart (c :: rest)
  | doubled {rest : List Char} (h : DollarsStart rest) : DollarsStart ('$' :: '$' :: rest)
  | braced {name rest : List Char} (hname : '}' ∉ name) (h : DollarsStart rest) :
      DollarsStart ('$' :: '{' :: (name ++ '}' :: rest))
  | bare {name rest : List Char} (hname : IsIdentifier name) (h : DollarsStart rest) :
      DollarsStart ('$' :: (name ++ rest))

/-- The pieces for parts that start on the given line. -/
def piecesAt (line : Nat) : List Part → List Piece
  | [] => []
  | .text s :: rest => .text s :: piecesAt (line + s.toList.count '\n') rest
  | .braced name :: rest | .bare name :: rest => .placeholder name line :: piecesAt line rest

/-- The number of line feeds in the texts between placeholders. -/
def feeds : List Part → Nat
  | [] => 0
  | .text s :: rest => s.toList.count '\n' + feeds rest
  | _ :: rest => feeds rest

@[simp] theorem written_nil : written [] = [] := rfl

theorem written_cons (part : Part) (rest : List Part) :
    written (part :: rest) = part.written ++ written rest := rfl

@[simp] theorem written_append (parts rest : List Part) :
    written (parts ++ rest) = written parts ++ written rest := List.flatMap_append

@[simp] theorem doubled_nil : doubled [] = [] := rfl

@[simp] theorem doubled_dollar (cs : List Char) :
    doubled ('$' :: cs) = '$' :: '$' :: doubled cs := rfl

theorem doubled_cons {c : Char} (hc : c ≠ '$') (cs : List Char) :
    doubled (c :: cs) = c :: doubled cs := by
  simp [doubled, hc]

theorem doubled_of_not_mem {cs : List Char} (h : '$' ∉ cs) : doubled cs = cs := by
  induction cs with
  | nil => rfl
  | cons c cs ih =>
    rw [List.mem_cons, not_or] at h
    rw [doubled_cons (Ne.symm h.1), ih h.2]

section Placeholder

variable {part : Part} {name : String}

theorem names_cons (h : part.name? = some name) (parts : List Part) :
    names (part :: parts) = name :: names parts :=
  List.filterMap_cons_some h

theorem piecesAt_cons (h : part.name? = some name) (line : Nat) (parts : List Part) :
    piecesAt line (part :: parts) = .placeholder name line :: piecesAt line parts := by
  cases part with
  | text t => cases h
  | braced name | bare name =>
    obtain rfl := Option.some.inj h
    rfl

theorem feeds_cons (h : part.name? = some name) (parts : List Part) :
    feeds (part :: parts) = feeds parts := by
  cases part with
  | text t => cases h
  | braced name | bare name => rfl

theorem exists_text_of_name? (h : part.name? = none) : ∃ t, part = .text t := by
  cases part with
  | text t => exact ⟨t, rfl⟩
  | braced name | bare name => cases h

end Placeholder

theorem piecesAt_append (line : Nat) (parts rest : List Part) :
    piecesAt line (parts ++ rest) = piecesAt line parts ++ piecesAt (line + feeds parts) rest := by
  induction parts generalizing line with
  | nil => rfl
  | cons part parts ih =>
    cases part <;> simp [piecesAt, feeds, ih, Nat.add_assoc]

theorem feeds_append (parts rest : List Part) :
    feeds (parts ++ rest) = feeds parts + feeds rest := by
  induction parts with
  | nil => simp [feeds]
  | cons part parts ih =>
    cases part <;> simp [feeds, ih, Nat.add_assoc]

theorem Part.Fits.of_append {part : Part} {after later : List Char}
    (h : part.Fits (after ++ later)) : part.Fits after := by
  cases part with
  | text s => trivial
  | braced name => exact h
  | bare name =>
    refine ⟨h.1, fun c hc ↦ h.2 c ?_⟩
    rw [List.head?_append, Option.mem_def.1 hc]
    rfl

/-! ## Dollar signs -/

theorem IsIdentifier.append {name rest : List Char} (h : IsIdentifier name)
    (hrest : ∀ c ∈ rest, isNameChar c = true) : IsIdentifier (name ++ rest) := by
  refine ⟨List.append_ne_nil_of_left_ne_nil h.ne_nil rest, ?_, ?_⟩
  · intro c hc
    exact (List.mem_append.1 hc).elim (h.chars c) (hrest c)
  · cases name with
    | nil => exact absurd rfl h.ne_nil
    | cons c name => exact h.head

theorem dollarsStart_doubled_append (cs : List Char) {rest : List Char} (h : DollarsStart rest) :
    DollarsStart (doubled cs ++ rest) := by
  induction cs with
  | nil => exact h
  | cons c cs ih =>
    by_cases hc : c = '$'
    · subst hc
      exact ih.doubled
    · rw [doubled_cons hc]
      exact ih.other hc

theorem dollarsStart_written {parts : List Part} (h : IsWritable parts) :
    DollarsStart (written parts) := by
  induction parts with
  | nil => exact .nil
  | cons part parts ih =>
    rw [written_cons]
    cases part with
    | text t => exact dollarsStart_doubled_append t.toList (ih h.2)
    | braced name =>
      rw [Part.written, List.cons_append, List.cons_append, List.append_assoc]
      exact (ih h.2).braced h.1
    | bare name => exact (ih h.2).bare h.1.1

/-- An identifier may be followed by more letters, digits and underscores, which then belong to the
name. So what is behind them has to be written as well. -/
theorem exists_written {cs : List Char} (h : DollarsStart cs) :
    (∃ parts, IsWritable parts ∧ cs = written parts) ∧
      ∃ parts, IsWritable parts ∧ cs.dropWhile isNameChar = written parts := by
  have hsign : ∀ rest, ('$' :: rest).dropWhile isNameChar = '$' :: rest := fun _ ↦ rfl
  induction h with
  | nil => exact ⟨⟨[], trivial, rfl⟩, [], trivial, rfl⟩
  | @other c rest hc _ ih =>
    obtain ⟨⟨parts, hparts, rfl⟩, hbehind⟩ := ih
    have hfirst : ∃ parts', IsWritable parts' ∧ c :: written parts = written parts' := by
      refine ⟨.text (String.ofList [c]) :: parts, ⟨trivial, hparts⟩, ?_⟩
      rw [written_cons, Part.written, String.toList_ofList, doubled_cons hc]
      rfl
    refine ⟨hfirst, ?_⟩
    rw [List.dropWhile_cons]
    split
    · exact hbehind
    · exact hfirst
  | @doubled rest _ ih =>
    obtain ⟨⟨parts, hparts, rfl⟩, -⟩ := ih
    rw [hsign, and_self]
    refine ⟨.text "$" :: parts, ⟨trivial, hparts⟩, ?_⟩
    simp [written_cons, Part.written]
  | @braced name rest hname _ ih =>
    obtain ⟨⟨parts, hparts, rfl⟩, -⟩ := ih
    rw [hsign, and_self]
    refine ⟨.braced (String.ofList name) :: parts, ⟨?_, hparts⟩, ?_⟩
    · rwa [Part.Fits, String.toList_ofList]
    · simp [written_cons, Part.written]
  | @bare name rest hname _ ih =>
    obtain ⟨-, parts, hparts, hbehind⟩ := ih
    rw [hsign, and_self]
    refine ⟨.bare (String.ofList (name ++ rest.takeWhile isNameChar)) :: parts, ⟨?_, hparts⟩, ?_⟩
    · rw [Part.Fits, String.toList_ofList, ← hbehind]
      exact ⟨hname.append (List.all_eq_true.1 List.all_takeWhile), head?_dropWhile isNameChar rest⟩
    · simp [written_cons, Part.written, ← hbehind]

/-! ## Constructs -/

theorem construct_braced (line : Nat) {name : List Char} (h : '}' ∉ name) (after : List Char) :
    construct line ('{' :: (name ++ '}' :: after)) =
      .ok (.placeholder (String.ofList name) line, after) := by
  rw [construct, cutAt_append h]

theorem construct_bare (line : Nat) {name after : List Char} (h : IsIdentifier name)
    (hafter : ∀ c ∈ after.head?, isNameChar c = false) :
    construct line (name ++ after) = .ok (.placeholder (String.ofList name) line, after) := by
  cases name with
  | nil => exact absurd rfl h.ne_nil
  | cons c name =>
    have hc : isNameChar c = true := h.chars c List.mem_cons_self
    have hdigit : c.isDigit = false := h.head c rfl
    have hdollar : c ≠ '$' := by
      rintro rfl
      exact absurd hc (by decide)
    have hbrace : c ≠ '{' := by
      rintro rfl
      exact absurd hc (by decide)
    obtain ⟨htake, hdrop⟩ := span_append (fun x hx ↦ h.chars x (List.mem_cons_of_mem c hx)) hafter
    rw [List.cons_append, construct.eq_4 line c (name ++ after) hdollar hbrace, hc, hdigit, htake,
      hdrop]
    rfl

/-- Behind a dollar sign there is a part that fits, or the reading fails. -/
theorem exists_part_of_construct {line : Nat} {cs rest : List Char} {piece : Piece}
    (h : construct line cs = .ok (piece, rest)) :
    ∃ part : Part, part.Fits rest ∧ '$' :: cs = part.written ++ rest ∧
      ∀ parts, piecesAt line (part :: parts) = piece :: piecesAt line parts ∧
        feeds (part :: parts) = feeds parts := by
  revert h
  fun_cases construct line cs <;> intro h <;>
    simp only [Except.ok.injEq, Prod.mk.injEq, reduceCtorEq] at h <;> obtain ⟨rfl, rfl⟩ := h
  case case1 rest =>
    have hlist : "$".toList = ['$'] := by decide +kernel
    refine ⟨.text "$", trivial, ?_, ?_⟩
    · rw [Part.written, hlist]
      rfl
    · intro parts
      rw [piecesAt, feeds, hlist]
      exact ⟨rfl, Nat.zero_add _⟩
  case case2 name after hcut =>
    obtain ⟨rfl, hname⟩ := append_of_cutAt hcut
    refine ⟨.braced (String.ofList name), ?_, ?_, fun parts ↦ ⟨rfl, rfl⟩⟩
    · rwa [Part.Fits, String.toList_ofList]
    · simp [Part.written]
  case case5 c rest hdollar hbrace hc =>
    rw [Bool.and_eq_true, Bool.not_eq_true'] at hc
    refine ⟨.bare (String.ofList (c :: rest.takeWhile isNameChar)), ?_, ?_, fun parts ↦ ⟨rfl, rfl⟩⟩
    · rw [Part.Fits, String.toList_ofList]
      refine ⟨⟨List.cons_ne_nil _ _, ?_, ?_⟩, head?_dropWhile isNameChar rest⟩
      · exact List.forall_mem_cons.2 ⟨hc.1, List.all_eq_true.1 List.all_takeWhile⟩
      · rintro _ ⟨⟩
        exact hc.2
    · simp [Part.written]

/-! ## Reading -/

/-- The pieces of a text between placeholders as parts. -/
def plainParts (cs : List Char) : List Part := if cs.isEmpty then [] else [.text (String.ofList cs)]

theorem piecesAt_plainParts (line : Nat) (cs : List Char) :
    piecesAt line (plainParts cs) = plain cs := by
  cases cs <;> rfl

theorem feeds_plainParts (cs : List Char) : feeds (plainParts cs) = cs.count '\n' := by
  cases cs <;> simp [plainParts, feeds]

theorem written_plainParts {cs : List Char} (h : '$' ∉ cs) : written (plainParts cs) = cs := by
  cases cs with
  | nil => rfl
  | cons c cs => simp [plainParts, written, Part.written, doubled_of_not_mem h]

theorem isWritable_plainParts_append (cs : List Char) {parts : List Part} (h : IsWritable parts) :
    IsWritable (plainParts cs ++ parts) := by
  cases cs with
  | nil => exact h
  | cons c cs => exact ⟨trivial, h⟩

theorem isWritable_plainParts (cs : List Char) : IsWritable (plainParts cs) := by
  have hnil : IsWritable [] := trivial
  simpa using isWritable_plainParts_append cs hnil

/-- The outcome of reading a text is that the text is what the parts are written as, or that a
dollar sign behind them starts nothing. -/
def ReadAs (parts : List Part) (line : Nat) (cs : List Char) :
    Except TemplateError (List Piece) → Prop
  | .ok pieces => cs = written parts ∧ pieces = piecesAt line parts
  | .error e =>
    ∃ tail, cs = written parts ++ '$' :: tail ∧ construct (line + feeds parts) tail = .error e

/-- A part that fits is read in front of what is read after it. -/
theorem exists_parts_of_construct {line : Nat} {head tail rest : List Char} {piece : Piece}
    {result : Except TemplateError (List Piece)} (hhead : '$' ∉ head)
    (h : construct (line + head.count '\n') tail = .ok (piece, rest))
    (hrest : ∃ parts, IsWritable parts ∧ ReadAs parts (line + head.count '\n') rest result) :
    ∃ parts, IsWritable parts ∧ ReadAs parts line (head ++ '$' :: tail)
      (result.map (plain head ++ piece :: ·)) := by
  obtain ⟨part, hfits, hpart, hstep⟩ := exists_part_of_construct h
  obtain ⟨parts, hwritable, hread⟩ := hrest
  have hwritten : written (plainParts head ++ part :: parts) =
      head ++ (part.written ++ written parts) := by
    rw [written_append, written_plainParts hhead, written_cons]
  refine ⟨plainParts head ++ part :: parts, isWritable_plainParts_append head ⟨?_, hwritable⟩, ?_⟩
  · cases result with
    | ok pieces => exact hread.1 ▸ hfits
    | error e =>
      obtain ⟨later, rfl, -⟩ := hread
      exact hfits.of_append
  · rw [hpart]
    cases result with
    | ok pieces =>
      obtain ⟨rfl, rfl⟩ := hread
      refine ⟨hwritten.symm, ?_⟩
      rw [piecesAt_append, piecesAt_plainParts, feeds_plainParts, (hstep parts).1]
    | error e =>
      obtain ⟨later, rfl, herror⟩ := hread
      refine ⟨later, ?_, ?_⟩
      · rw [hwritten]
        simp only [List.append_assoc]
      · rw [feeds_append, feeds_plainParts, (hstep parts).2, ← Nat.add_assoc]
        exact herror

/-- Reading goes through parts that can be written. -/
theorem exists_readAs (line : Nat) (cs : List Char) :
    ∃ parts, IsWritable parts ∧ ReadAs parts line cs (scan line cs) := by
  fun_induction scan line cs with
  | case1 line cs head hdrop =>
    have hhead : head = cs := by
      have happ := List.takeWhile_append_dropWhile (p := (· != '$')) (l := cs)
      rwa [hdrop, List.append_nil] at happ
    refine ⟨plainParts head, isWritable_plainParts head, ?_, (piecesAt_plainParts line head).symm⟩
    rw [written_plainParts (not_mem_takeWhile '$' cs)]
    exact hhead.symm
  | case2 line cs head here c tail hdrop e hcons =>
    refine ⟨plainParts head, isWritable_plainParts head, tail, ?_, ?_⟩
    · rw [written_plainParts (not_mem_takeWhile '$' cs)]
      exact (append_of_dropWhile hdrop).2.symm
    · rwa [feeds_plainParts]
  | case3 line cs head here c tail hdrop piece rest hcons e hscan ih =>
    rw [hscan] at ih
    rw [← (append_of_dropWhile hdrop).2]
    exact exists_parts_of_construct (not_mem_takeWhile '$' cs) hcons ih
  | case4 line cs head here c tail hdrop piece rest hcons pieces hscan ih =>
    rw [hscan] at ih
    rw [← (append_of_dropWhile hdrop).2]
    exact exists_parts_of_construct (not_mem_takeWhile '$' cs) hcons ih

theorem scan_of_not_mem (line : Nat) {cs : List Char} (h : '$' ∉ cs) :
    scan line cs = .ok (plain cs) := by
  have hend : ∀ c ∈ ([] : List Char).head?, c = '$' := nofun
  obtain ⟨htake, hdrop⟩ := span_of_not_mem h hend
  rw [List.append_nil] at htake hdrop
  fun_cases scan line cs with
  | case1 head hnil => exact congrArg (fun text ↦ Except.ok (plain text)) htake
  | case2 head here c tail hcons => cases hdrop.symm.trans hcons
  | case3 head here c tail hcons => cases hdrop.symm.trans hcons
  | case4 head here c tail hcons => cases hdrop.symm.trans hcons

/-- Reading goes up to the first dollar sign and behind what it starts. -/
theorem scan_append (line : Nat) {head : List Char} (hhead : '$' ∉ head) (tail : List Char) :
    scan line (head ++ '$' :: tail) =
      match construct (line + head.count '\n') tail with
      | .error e => .error e
      | .ok (piece, rest) =>
        (scan (line + head.count '\n') rest).map (plain head ++ piece :: ·) := by
  have hdollar : ∀ c ∈ ('$' :: tail).head?, c = '$' := by simp
  obtain ⟨htake, hdrop⟩ := span_of_not_mem hhead hdollar
  have hhere : line + ((head ++ '$' :: tail).takeWhile (· != '$')).count '\n' =
      line + head.count '\n' := congrArg (line + List.count '\n' ·) htake
  fun_cases scan line (head ++ '$' :: tail) with
  | case1 before hnil => cases hdrop.symm.trans hnil
  | case2 before here c later hcons e herror =>
    obtain ⟨-, rfl⟩ := List.cons.inj (hdrop.symm.trans hcons)
    rw [← hhere, herror]
  | case3 before here c later hcons piece rest hok e herror =>
    obtain ⟨-, rfl⟩ := List.cons.inj (hdrop.symm.trans hcons)
    rw [← hhere, hok]
    dsimp only
    rw [herror]
    rfl
  | case4 before here c later hcons piece rest hok pieces hpieces =>
    obtain ⟨-, rfl⟩ := List.cons.inj (hdrop.symm.trans hcons)
    rw [← hhere, hok]
    dsimp only
    rw [hpieces, ← htake]
    rfl

/-- A character that is not a dollar sign belongs to the text in front of what is read after it. -/
theorem scan_cons {c : Char} (hc : c ≠ '$') {line : Nat} {cs : List Char} {pieces : List Piece}
    (h : scan (line + [c].count '\n') cs = .ok pieces) :
    ∃ head later, scan line (c :: cs) = .ok (plain (c :: head) ++ later) ∧
      pieces = plain head ++ later := by
  have hcons {head : List Char} (hhead : '$' ∉ head) : '$' ∉ c :: head := by
    rw [List.mem_cons, not_or]
    exact ⟨Ne.symm hc, hhead⟩
  by_cases hmem : '$' ∈ cs
  · obtain ⟨head, tail, rfl, hhead⟩ := List.eq_append_cons_of_mem hmem
    have hcount : line + (c :: head).count '\n' = line + [c].count '\n' + head.count '\n' := by
      rw [← List.singleton_append, List.count_append, Nat.add_assoc]
    have hboth := scan_append line (hcons hhead) tail
    rw [hcount, List.cons_append] at hboth
    rw [scan_append _ hhead] at h
    cases hpart : construct (line + [c].count '\n' + head.count '\n') tail with
    | error e =>
      rw [hpart] at h
      cases h
    | ok part =>
      obtain ⟨piece, rest⟩ := part
      rw [hpart] at h hboth
      dsimp only at h hboth
      cases hscan : scan (line + [c].count '\n' + head.count '\n') rest with
      | error e =>
        rw [hscan] at h
        cases h
      | ok later =>
        rw [hscan] at h hboth
        exact ⟨head, piece :: later, hboth, (Except.ok.inj h).symm⟩
  · refine ⟨cs, [], ?_, ?_⟩
    · rw [scan_of_not_mem line (hcons hmem), List.append_nil]
    · rw [scan_of_not_mem _ hmem] at h
      rw [List.append_nil, Except.ok.inj h]

/-- A part that starts with a dollar sign is read in front of what is read after it. -/
theorem scan_construct {line : Nat} {tail rest : List Char} {piece : Piece} {pieces : List Piece}
    (h : construct line tail = .ok (piece, rest)) (hrest : scan line rest = .ok pieces) :
    scan line ('$' :: tail) = .ok (piece :: pieces) := by
  have hhead : '$' ∉ ([] : List Char) := List.not_mem_nil
  have happ := scan_append line hhead tail
  rw [List.nil_append, List.count_nil, Nat.add_zero, h] at happ
  rw [happ]
  dsimp only
  rw [hrest]
  rfl

end ParserGenerator.Template
