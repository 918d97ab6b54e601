import ParserGenerator.Lexer.ActionBlock
import ParserGenerator.Proofs.Text.Cuts
import ParserGenerator.Proofs.Text.Encoding

/-!
# Action code in bytes

What a brace in action code means is defined here by the bytes of the code alone: the bytes are cut
into fragments from the left, and the fragments that are braces nest. A fragment is an escape, a
string, a character literal or a comment where one of these starts, and else a single byte. There is
no fragment at the end of the code, at a backslash with nothing behind it and at a block comment
that is never closed.

Every code has one cut, which goes on until no fragment is left: `Cuts.unique`, `CutsAll.isPrefix`.
-/

namespace ParserGenerator.Lexer.Code

open Text

/-! ## Fragments -/

/-- What follows the first quote of a string: a backslash takes the byte after it, and the quote
that ends the string comes before any other line feed. -/
inductive StringTail : List UInt8 → Prop
  | quote : StringTail ['"'.toUInt8]
  | escape (b : UInt8) {bs : List UInt8} (h : StringTail bs) :
    StringTail ('\\'.toUInt8 :: b :: bs)
  | byte {b : UInt8} (hquote : b ≠ '"'.toUInt8) (hescape : b ≠ '\\'.toUInt8)
    (hfeed : b ≠ '\n'.toUInt8) {bs : List UInt8} (h : StringTail bs) : StringTail (b :: bs)

/-- What follows the first quote of a character literal: one character, or an escape of a character
of one byte with anything behind it on the same line, and a quote. -/
inductive CharacterTail : List UInt8 → Prop
  | single {c : Char} (hquote : c ≠ '\'') (hescape : c ≠ '\\') (hfeed : c ≠ '\n') :
    CharacterTail (String.utf8EncodeChar c ++ ['\''.toUInt8])
  | escape {b : UInt8} (hb : b.toNat < 128) {bs : List UInt8} (hquote : '\''.toUInt8 ∉ bs)
    (hfeed : '\n'.toUInt8 ∉ bs) :
    CharacterTail ('\\'.toUInt8 :: b :: bs ++ ['\''.toUInt8])

/-- A phrase in front of the bytes `rest`: an escape, a string, a character literal or a comment. -/
inductive Phrase : List UInt8 → List UInt8 → Prop
  | escape (b : UInt8) (rest : List UInt8) : Phrase ['\\'.toUInt8, b] rest
  | string {tail : List UInt8} (h : StringTail tail) (rest : List UInt8) :
    Phrase ('"'.toUInt8 :: tail) rest
  | character {tail : List UInt8} (h : CharacterTail tail) (rest : List UInt8) :
    Phrase ('\''.toUInt8 :: tail) rest
  | lineComment {body rest : List UInt8} (hbody : '\n'.toUInt8 ∉ body)
    (hrest : ∀ b ∈ rest.head?, b = '\n'.toUInt8) :
    Phrase ('/'.toUInt8 :: '/'.toUInt8 :: body) rest
  | blockComment {body : List UInt8} (hbody : ¬ ['*'.toUInt8, '/'.toUInt8] <:+: body)
    (rest : List UInt8) :
    Phrase ('/'.toUInt8 :: '*'.toUInt8 :: (body ++ ['*'.toUInt8, '/'.toUInt8])) rest

/-- No fragment can be cut off. -/
inductive Stops : List UInt8 → Prop
  | nil : Stops []
  | escape : Stops ['\\'.toUInt8]
  | comment {body : List UInt8} (h : ¬ ['*'.toUInt8, '/'.toUInt8] <:+: body) :
    Stops ('/'.toUInt8 :: '*'.toUInt8 :: body)

inductive Fragment where
  | opening
  | closing
  | plain (bytes : List UInt8)

def Fragment.bytes : Fragment → List UInt8
  | .opening => ['{'.toUInt8]
  | .closing => ['}'.toUInt8]
  | .plain bytes => bytes

/-- The bytes of fragments in a row. -/
def extent (fs : List Fragment) : List UInt8 := fs.flatMap Fragment.bytes

/-- The first fragment of some bytes, and the bytes after it. -/
inductive Cuts : List UInt8 → Fragment → List UInt8 → Prop
  | phrase {bytes rest : List UInt8} (h : Phrase bytes rest) :
    Cuts (bytes ++ rest) (.plain bytes) rest
  | opening (rest : List UInt8) : Cuts ('{'.toUInt8 :: rest) .opening rest
  | closing (rest : List UInt8) : Cuts ('}'.toUInt8 :: rest) .closing rest
  | byte {b : UInt8} {rest : List UInt8} (hopen : b ≠ '{'.toUInt8) (hclose : b ≠ '}'.toUInt8)
    (hphrase : ∀ bytes after, bytes ++ after = b :: rest → ¬ Phrase bytes after)
    (hstop : ¬ Stops (b :: rest)) : Cuts (b :: rest) (.plain [b]) rest

/-- Fragments that are cut off one after the other, and the bytes after them. -/
inductive CutsAll : List UInt8 → List Fragment → List UInt8 → Prop
  | nil (bs : List UInt8) : CutsAll bs [] bs
  | cons {bs middle rest : List UInt8} {f : Fragment} {fs : List Fragment} (h : Cuts bs f middle)
    (hrest : CutsAll middle fs rest) : CutsAll bs (f :: fs) rest

/-! ## The cut is unique -/

section Unique

variable {bytes rest bytes' rest' : List UInt8}

theorem StringTail.unique {tail tail' : List UInt8} (h : StringTail tail) (h' : StringTail tail')
    (heq : tail ++ rest = tail' ++ rest') : tail = tail' := by
  induction h generalizing tail' with
  | quote =>
    cases h' with
    | quote => rfl
    | escape => exact absurd (List.cons.inj heq).1 (by decide)
    | byte hquote => exact absurd (List.cons.inj heq).1.symm hquote
  | escape b _ ih =>
    cases h' with
    | quote => exact absurd (List.cons.inj heq).1 (by decide)
    | escape b' h' =>
      simp only [List.cons_append, List.cons.injEq, true_and] at heq
      rw [heq.1, ih h' heq.2]
    | byte _ hescape => exact absurd (List.cons.inj heq).1.symm hescape
  | byte hquote hescape _ _ ih =>
    cases h' with
    | quote => exact absurd (List.cons.inj heq).1 hquote
    | escape => exact absurd (List.cons.inj heq).1 hescape
    | byte _ _ _ h' =>
      rw [(List.cons.inj heq).1, ih h' (List.cons.inj heq).2]

/-- The first character of an escaped literal is the backslash. -/
theorem eq_backslash {c : Char}
    (h : String.utf8EncodeChar c ++ bytes = '\\'.toUInt8 :: rest) : c = '\\' :=
  (utf8EncodeChar_append_inj (h.trans (by rfl : _ = String.utf8EncodeChar '\\' ++ rest))).1

theorem CharacterTail.unique {tail tail' : List UInt8} (h : CharacterTail tail)
    (h' : CharacterTail tail') (heq : tail ++ rest = tail' ++ rest') : tail = tail' := by
  cases h with
  | single _ hc =>
    rw [List.append_assoc] at heq
    cases h' with
    | single =>
      rw [List.append_assoc] at heq
      rw [(utf8EncodeChar_append_inj heq).1]
    | escape => exact absurd (eq_backslash heq) hc
  | escape _ hquote =>
    cases h' with
    | single _ hc =>
      rw [List.append_assoc (String.utf8EncodeChar _)] at heq
      exact absurd (eq_backslash heq.symm) hc
    | escape _ hquote' =>
      simp only [List.cons_append, List.append_assoc, List.cons.injEq, true_and,
        List.nil_append] at heq
      rw [heq.1, eq_of_append_stop hquote hquote' (by simp) (by simp) heq.2]

theorem Phrase.unique (h : Phrase bytes rest) (h' : Phrase bytes' rest')
    (heq : bytes ++ rest = bytes' ++ rest') : bytes = bytes' := by
  cases h with
  | escape =>
    cases h' with
    | escape => simpa using (List.cons.inj (List.cons.inj heq).2).1
    | _ => exact absurd (List.cons.inj heq).1 (by decide)
  | string h =>
    cases h' with
    | string h' => rw [h.unique h' (List.cons.inj heq).2]
    | _ => exact absurd (List.cons.inj heq).1 (by decide)
  | character h =>
    cases h' with
    | character h' => rw [h.unique h' (List.cons.inj heq).2]
    | _ => exact absurd (List.cons.inj heq).1 (by decide)
  | lineComment hbody hrest =>
    cases h' with
    | lineComment hbody' hrest' =>
      have htail := (List.cons.inj (List.cons.inj heq).2).2
      rw [eq_of_append_stop hbody hbody' hrest hrest' htail]
    | blockComment => exact absurd (List.cons.inj (List.cons.inj heq).2).1 (by decide)
    | _ => exact absurd (List.cons.inj heq).1 (by decide)
  | blockComment hbody =>
    cases h' with
    | lineComment => exact absurd (List.cons.inj (List.cons.inj heq).2).1 (by decide)
    | blockComment hbody' =>
      simp only [List.cons_append, List.append_assoc, List.cons.injEq, true_and,
        List.nil_append] at heq
      rw [eq_of_append_pair (by decide) hbody hbody' heq]
    | _ => exact absurd (List.cons.inj heq).1 (by decide)

/-- A phrase starts with a byte that is no brace, and does not stop the cut. -/
theorem Phrase.exists_cons (h : Phrase bytes rest) :
    ∃ b tail, bytes = b :: tail ∧ b ≠ '{'.toUInt8 ∧ b ≠ '}'.toUInt8 := by
  cases h with
  | _ => exact ⟨_, _, rfl, by decide, by decide⟩

theorem Phrase.not_stops {bs : List UInt8} (h : Phrase bytes rest) (heq : bytes ++ rest = bs) :
    ¬ Stops bs := by
  intro hstops
  cases hstops with
  | nil => cases h with
    | _ => exact absurd heq (by simp)
  | escape => cases h with
    | escape => exact absurd (List.cons.inj heq).2 (by simp)
    | _ => exact absurd (List.cons.inj heq).1 (by decide)
  | comment hbody => cases h with
    | lineComment => exact absurd (List.cons.inj (List.cons.inj heq).2).1 (by decide)
    | @blockComment body =>
      simp only [List.cons_append, List.append_assoc, List.cons.injEq, true_and,
        List.nil_append] at heq
      exact hbody ⟨body, rest, by simpa using heq⟩
    | _ => exact absurd (List.cons.inj heq).1 (by decide)

theorem Cuts.not_stops {bs : List UInt8} {f : Fragment} (h : Cuts bs f rest) : ¬ Stops bs := by
  cases h with
  | phrase h => exact h.not_stops rfl
  | byte _ _ _ hstop => exact hstop
  | _ => rintro ⟨⟩

theorem Cuts.eq_append {bs : List UInt8} {f : Fragment} (h : Cuts bs f rest) :
    bs = f.bytes ++ rest := by
  cases h with
  | _ => rfl

section First

variable {bs : List UInt8} {f f' : Fragment} (h : Cuts bs f rest)

include h

/-- A phrase at the start of the bytes is their first fragment. -/
theorem Cuts.eq_plain (hphrase : Phrase bytes' rest') (heq : bs = bytes' ++ rest') :
    f = .plain bytes' := by
  obtain ⟨b, tail, hbytes, hopen, hclose⟩ := hphrase.exists_cons
  cases h with
  | phrase h => rw [h.unique hphrase heq]
  | opening =>
    rw [hbytes] at heq
    exact absurd (List.cons.inj heq).1.symm hopen
  | closing =>
    rw [hbytes] at heq
    exact absurd (List.cons.inj heq).1.symm hclose
  | byte _ _ hnone => exact absurd hphrase (hnone _ _ heq.symm)

theorem Cuts.eq_opening (heq : bs = '{'.toUInt8 :: rest') : f = .opening := by
  cases h with
  | phrase h => exact (Cuts.eq_plain (.opening rest') h heq.symm).symm
  | opening => rfl
  | closing => exact absurd (List.cons.inj heq).1 (by decide)
  | byte hopen => exact absurd (List.cons.inj heq).1 hopen

theorem Cuts.eq_closing (heq : bs = '}'.toUInt8 :: rest') : f = .closing := by
  cases h with
  | phrase h => exact (Cuts.eq_plain (.closing rest') h heq.symm).symm
  | opening => exact absurd (List.cons.inj heq).1 (by decide)
  | closing => rfl
  | byte _ hclose => exact absurd (List.cons.inj heq).1 hclose

/-- The first fragment is determined by the bytes. -/
theorem Cuts.unique (h' : Cuts bs f' rest') : f = f' ∧ rest = rest' := by
  have hf : f = f' := by
    cases h' with
    | phrase h' => exact h.eq_plain h' rfl
    | opening => exact h.eq_opening rfl
    | closing => exact h.eq_closing rfl
    | @byte b _ hopen hclose hphrase hstop =>
      generalize hbs : b :: rest' = bs at h
      cases h with
      | phrase h => exact absurd h (hphrase _ _ hbs.symm)
      | opening => exact absurd (List.cons.inj hbs).1 hopen
      | closing => exact absurd (List.cons.inj hbs).1 hclose
      | byte => rw [(List.cons.inj hbs).1]
  have heq := h.eq_append.symm.trans h'.eq_append
  rw [hf] at heq
  exact ⟨hf, List.append_cancel_left heq⟩

end First

end Unique

/-! ## Complete cuts -/

section All

variable {bs middle rest rest' : List UInt8} {fs gs : List Fragment}

theorem CutsAll.eq_append (h : CutsAll bs fs rest) : bs = extent fs ++ rest := by
  induction h with
  | nil => rfl
  | cons h _ ih =>
    rw [h.eq_append, ih]
    simp [extent]

theorem CutsAll.append (h : CutsAll bs fs middle) (h' : CutsAll middle gs rest) :
    CutsAll bs (fs ++ gs) rest := by
  induction h with
  | nil => exact h'
  | cons h _ ih => exact .cons h (ih h')

/-- Where a row of fragments is divided, the cut goes through some bytes. -/
theorem CutsAll.of_append (h : CutsAll bs (fs ++ gs) rest) :
    ∃ middle, CutsAll bs fs middle ∧ CutsAll middle gs rest := by
  induction fs generalizing bs with
  | nil => exact ⟨bs, .nil bs, h⟩
  | cons f fs ih =>
    cases h with
    | cons h hrest =>
      obtain ⟨middle, hfs, hgs⟩ := ih hrest
      exact ⟨middle, .cons h hfs, hgs⟩

/-- Every cut is the start of the one that goes on to where it stops. -/
theorem CutsAll.isPrefix (h : CutsAll bs fs rest) (hstops : Stops rest) (h' : CutsAll bs gs rest') :
    gs <+: fs := by
  induction h' generalizing fs with
  | nil => exact List.nil_prefix
  | cons hcut _ ih =>
    cases h with
    | nil => exact absurd hstops hcut.not_stops
    | cons hcut' hrest =>
      obtain ⟨rfl, rfl⟩ := hcut.unique hcut'
      exact List.cons_prefix_cons.2 ⟨rfl, ih hrest⟩

end All

/-! ## Nesting -/

/-- Fragments that are no braces, and complete blocks between braces. -/
inductive Balanced : List Fragment → Prop
  | nil : Balanced []
  | plain (bytes : List UInt8) {fs : List Fragment} (h : Balanced fs) :
    Balanced (.plain bytes :: fs)
  | block {inner fs : List Fragment} (hinner : Balanced inner) (h : Balanced fs) :
    Balanced (.opening :: inner ++ .closing :: fs)

/-- The code in `bs` is closed by the brace that ends at `n`: up to there, it consists of fragments
that are no braces, complete blocks, and that brace. -/
def ClosedAt (bs : List UInt8) (n : Nat) : Prop :=
  ∃ body rest, Balanced body ∧ CutsAll bs (body ++ [.closing]) rest ∧
    n = (extent (body ++ [.closing])).length

/-- The fragments up to the brace that closes `depth + 1` open blocks. -/
def upToClosing (depth : Nat) : List Fragment → Option (List Fragment)
  | [] => none
  | .plain bytes :: fs => (upToClosing depth fs).map (.plain bytes :: ·)
  | .opening :: fs => (upToClosing (depth + 1) fs).map (.opening :: ·)
  | .closing :: fs =>
    match depth with
    | 0 => some [.closing]
    | outer + 1 => (upToClosing outer fs).map (.closing :: ·)

/-- What is balanced leaves the depth as it is. -/
theorem upToClosing_append {body : List Fragment} (h : Balanced body) (depth : Nat)
    (fs : List Fragment) :
    upToClosing depth (body ++ fs) = (upToClosing depth fs).map (body ++ ·) := by
  induction h generalizing depth fs with
  | nil => simp
  | plain bytes _ ih => simp [upToClosing, ih, Function.comp_def]
  | block _ _ ihInner ih => simp [upToClosing, ihInner, ih, Function.comp_def]

/-- A closing brace that is found has something balanced before it. -/
theorem exists_balanced {depth : Nat} {fs : List Fragment} (h : (upToClosing depth fs).isSome) :
    ∃ body rest, Balanced body ∧ fs = body ++ .closing :: rest := by
  induction hlen : fs.length using Nat.strongRecOn generalizing depth fs with
  | ind len ih =>
    subst hlen
    cases fs with
    | nil => cases h
    | cons f fs =>
      cases f with
      | plain bytes =>
        rw [upToClosing, Option.isSome_map] at h
        obtain ⟨body, rest, hbody, rfl⟩ := ih _ (Nat.lt_succ_self _) h rfl
        exact ⟨_, rest, hbody.plain bytes, rfl⟩
      | opening =>
        -- Behind the block that starts here, the search goes on at the same depth.
        rw [upToClosing, Option.isSome_map] at h
        obtain ⟨inner, later, hinner, rfl⟩ := ih _ (Nat.lt_succ_self _) h rfl
        rw [upToClosing_append hinner, Option.isSome_map, upToClosing, Option.isSome_map] at h
        obtain ⟨body, rest, hbody, rfl⟩ := ih _ (by simp; omega) h rfl
        exact ⟨_, rest, hinner.block hbody, by simp⟩
      | closing => exact ⟨[], fs, .nil, rfl⟩

theorem upToClosing_eq_some_iff {fs gs : List Fragment} :
    upToClosing 0 fs = some gs ↔
      ∃ body rest, Balanced body ∧ fs = body ++ .closing :: rest ∧ gs = body ++ [.closing] := by
  constructor
  · intro h
    obtain ⟨body, rest, hbody, rfl⟩ := exists_balanced (Option.isSome_iff_exists.2 ⟨gs, h⟩)
    rw [upToClosing_append hbody] at h
    exact ⟨body, rest, hbody, rfl, (Option.some.inj h).symm⟩
  · rintro ⟨body, rest, hbody, rfl, rfl⟩
    rw [upToClosing_append hbody]
    rfl

/-- Where the code is closed can be told from its complete cut. -/
theorem closedAt_iff {bs rest : List UInt8} {fs : List Fragment} (h : CutsAll bs fs rest)
    (hstops : Stops rest) {n : Nat} :
    ClosedAt bs n ↔ (upToClosing 0 fs).map (fun gs ↦ (extent gs).length) = some n := by
  simp only [Option.map_eq_some_iff, upToClosing_eq_some_iff]
  constructor
  · rintro ⟨body, rest', hbody, hcut, rfl⟩
    obtain ⟨later, rfl⟩ := h.isPrefix hstops hcut
    exact ⟨_, ⟨body, later, hbody, by simp, rfl⟩, rfl⟩
  · rintro ⟨_, ⟨body, later, hbody, rfl, rfl⟩, rfl⟩
    rw [List.append_cons] at h
    obtain ⟨middle, hcut, -⟩ := h.of_append
    exact ⟨body, middle, hbody, hcut, rfl⟩

end ParserGenerator.Lexer.Code
