import ParserGenerator.Proofs.Offsets.Rules
import ParserGenerator.Template.Basic

/-!
# Templates at byte offsets

A template is cut before the next dollar sign, behind it, and behind the name or the brace that ends
the placeholder. All of these offsets come from searches for characters of one byte or from the end
of a run of such characters.

Writing a template stops for good at a placeholder that has no value, so `render?` has no answer
there. A template that has passed the check has no such placeholder.
-/

namespace ParserGenerator.Offsets

open Text ParserGenerator.Template

namespace Template

/-- A placeholder without braces. -/
def named? (line : Nat) (cs : List Char) : Option (Except TemplateError (Piece × Slice)) :=
  let stop := (find? (!isNameChar ·) cs).getD (byteLength cs)
  if stop = 0 ∨ cs.head?.any Char.isDigit = true then some (.error (.stray line))
  else do
    let name ← sliceTo? stop cs
    let after ← sliceFrom? stop cs
    some (.ok (.placeholder (String.ofList name) line, after))

/-- What follows a dollar sign on the given line, and the text after it. -/
def construct? (line : Nat) (cs : List Char) :
    Option (Except TemplateError (Piece × Slice)) :=
  match cs with
  | '$' :: rest => some (.ok (.text "$", rest))
  | '{' :: rest =>
    match find? (· == '}') rest with
    | none => some (.error (.unterminated line))
    | some stop => do
      let name ← sliceTo? stop rest
      let after ← sliceFrom? (stop + 1) rest
      some (.ok (.placeholder (String.ofList name) line, after))
  | cs => named? line cs

end Template

/-- The pieces of a text that starts on the given line. -/
def Slice.pieces? (line : Nat) (cs : Slice) : Option (Except TemplateError (List Piece)) :=
  match find? (· == '$') cs with
  | none => some (.ok (plain cs))
  | some stop => do
    let (head, tail) ← cutAtByte? stop cs
    let here := line + head.count '\n'
    let tail ← sliceFrom? 1 tail
    match ← Template.construct? here tail with
    | .error e => some (.error e)
    | .ok (piece, rest) =>
      match ← rest |>.pieces? here with
      | .error e => some (.error e)
      | .ok pieces => some (.ok (plain head ++ piece :: pieces))
partial_fixpoint

namespace Template

def parse? (text : String) : Option (Except TemplateError (List Piece)) :=
  Slice.pieces? 1 text.toList

/-- Writes the pieces in order. -/
def render? (value? : String → Option String) : List Piece → Option String
  | [] => some ""
  | .text s :: rest => do
    let later ← render? value? rest
    some (s ++ later)
  | .placeholder name _ :: rest => do
    let s ← value? name
    let later ← render? value? rest
    some (s ++ later)

/-! ## Reading -/

theorem named?_cons (line : Nat) (c : Char) (rest : List Char) :
    named? line (c :: rest) =
      some (if isNameChar c && !c.isDigit then
        .ok (.placeholder (String.ofList (c :: rest.takeWhile isNameChar)) line,
          rest.dropWhile isNameChar)
      else .error (.stray line)) := by
  have hname : (fun x ↦ !!isNameChar x) = isNameChar := by
    funext x
    exact Bool.not_not _
  have hcut := cutAtByte?_find (!isNameChar ·) (c :: rest)
  have hlen := getD_find? (!isNameChar ·) (c :: rest)
  rw [hname, List.takeWhile_cons] at hcut hlen
  rw [List.dropWhile_cons] at hcut
  cases hc : isNameChar c with
  | false =>
    rw [hc] at hlen
    rw [named?, if_pos (.inl hlen)]
    rfl
  | true =>
    rw [hc] at hcut hlen
    have hsize := c.utf8Size_pos
    have hpos : (find? (!isNameChar ·) (c :: rest)).getD (byteLength (c :: rest)) ≠ 0 := by
      rw [hlen, if_pos rfl, byteLength]
      omega
    cases hdigit : c.isDigit with
    | true =>
      rw [named?, if_pos (.inr hdigit)]
      rfl
    | false =>
      have hnot : ¬ ((find? (!isNameChar ·) (c :: rest)).getD (byteLength (c :: rest)) = 0 ∨
          (c :: rest).head?.any Char.isDigit = true) := by
        rintro (h | h)
        · exact hpos h
        · exact Bool.false_ne_true (hdigit.symm.trans h)
      rw [named?, if_neg hnot, sliceTo?, sliceFrom?, hcut]
      rfl

theorem construct?_eq (line : Nat) (cs : List Char) :
    construct? line cs = some (construct line cs) := by
  have hone : '}'.utf8Size = 1 := rfl
  fun_cases construct? line cs with
  | case1 rest => rfl
  | case2 rest hfind =>
    cases hcut : cutAt '}' rest with
    | none => rw [construct, hcut]
    | some cut =>
      rw [(find?_of_cutAt hcut).1] at hfind
      cases hfind
  | case3 rest stop hfind =>
    cases hcut : cutAt '}' rest with
    | none =>
      rw [find?_of_cutAt_eq_none hcut] at hfind
      cases hfind
    | some cut =>
      obtain ⟨name, after⟩ := cut
      obtain ⟨hname, rfl⟩ := find?_of_cutAt hcut
      obtain rfl := Option.some.inj (hname.symm.trans hfind)
      have hlen : byteLength (name ++ ['}']) = byteLength name + 1 := byteLength_append ..
      have hslice := @sliceFrom?_append _ (name ++ ['}']) after hlen
      rw [List.append_assoc] at hslice
      rw [construct, hcut, sliceTo?_append rfl, Option.bind_eq_bind, Option.bind_some]
      exact congrArg (Option.bind · _) hslice
  | case4 cs hdollar hbrace =>
    cases cs with
    | nil => rfl
    | cons c rest =>
      have hc : c ≠ '$' := fun h ↦ hdollar rest (congrArg (· :: rest) h)
      have hc' : c ≠ '{' := fun h ↦ hbrace rest (congrArg (· :: rest) h)
      rw [named?_cons, construct.eq_4 line c rest hc hc']

/-- A text with a dollar sign is cut before the sign and behind it. -/
theorem pieces?_of_dropWhile (line : Nat) {cs tail : List Char} {c : Char}
    (h : cs.dropWhile (· != '$') = c :: tail) :
    Slice.pieces? line cs =
      let head := cs.takeWhile (· != '$')
      let here := line + head.count '\n'
      match construct here tail with
      | .error e => some (.error e)
      | .ok (piece, rest) =>
        (Slice.pieces? here rest).bind fun
          | .error e => some (.error e)
          | .ok pieces => some (.ok (plain head ++ piece :: pieces)) := by
  have hstop : (fun x ↦ !(x == '$')) = fun x ↦ x != '$' := rfl
  have hfind : find? (· == '$') cs = some (byteLength (cs.takeWhile (· != '$'))) := by
    rw [find?_eq, hstop, h]
  have hcut := cutAtByte?_find (· == '$') cs
  rw [hfind, hstop, h] at hcut
  have hc : c = '$' := (append_of_dropWhile h).1
  have hslice : sliceFrom? 1 (c :: tail) = some tail :=
    @sliceFrom?_append _ [c] tail (congrArg Char.utf8Size hc)
  rw [Slice.pieces?, hfind]
  dsimp only
  rw [Option.getD_some] at hcut
  rw [hcut, Option.bind_eq_bind, Option.bind_some]
  dsimp only
  rw [hslice, Option.bind_eq_bind, Option.bind_some, construct?_eq, Option.bind_eq_bind,
    Option.bind_some]
  cases construct (line + (cs.takeWhile (· != '$')).count '\n') tail <;> rfl

/-- A template is cut as its characters say. -/
theorem pieces?_eq (line : Nat) (cs : List Char) : Slice.pieces? line cs = some (scan line cs) := by
  fun_induction scan line cs with
  | case1 line cs head hdrop =>
    have hstop : (fun x ↦ !(x == '$')) = fun x ↦ x != '$' := rfl
    have happ := List.takeWhile_append_dropWhile (p := (· != '$')) (l := cs)
    rw [hdrop, List.append_nil] at happ
    rw [Slice.pieces?, find?_eq, hstop, hdrop]
    exact congrArg (fun text ↦ some (Except.ok (plain text))) happ.symm
  | case2 line cs head here c tail hdrop e hcons =>
    rw [pieces?_of_dropWhile line hdrop]
    dsimp only
    rw [hcons]
  | case3 line cs head here c tail hdrop piece rest hcons e hscan ih =>
    rw [pieces?_of_dropWhile line hdrop]
    dsimp only
    rw [hcons]
    dsimp only
    rw [ih, hscan]
    rfl
  | case4 line cs head here c tail hdrop piece rest hcons pieces hscan ih =>
    rw [pieces?_of_dropWhile line hdrop]
    dsimp only
    rw [hcons]
    dsimp only
    rw [ih, hscan]
    rfl

theorem parse?_eq (text : String) : parse? text = some (parse text) := pieces?_eq 1 text.toList

/-! ## Writing -/

/-- A template that has passed the check is written to its end if the known names have values. -/
theorem render?_eq {known : List String} {value? : String → Option String}
    (hvalue : ∀ name ∈ known, (value? name).isSome = true) {pieces : List Piece}
    (h : check known pieces = .ok ()) :
    render? value? pieces = some (render value? pieces).text := by
  induction pieces with
  | nil => rfl
  | cons piece rest ih =>
    cases piece with
    | text s =>
      rw [render?, ih h]
      rfl
    | placeholder name line =>
      rw [check] at h
      split at h
      · next hknown =>
        obtain ⟨s, hs⟩ := Option.isSome_iff_exists.1 (hvalue name hknown)
        rw [render?, hs, Option.bind_eq_bind, Option.bind_some, ih h, render, hs]
        rfl
      · cases h

end Template

end ParserGenerator.Offsets
