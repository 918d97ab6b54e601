import ParserGenerator.Lexer.Stream
import ParserGenerator.Proofs.Text.Cuts

/-!
# Tilings

The segments that a reading passes over make up its source: their texts, one after another, are
the source, and each of them has the shape that its kind promises. A token shows as one lexeme, a
failure as one failure and an illegal character as one fault, each at the place where its segment
starts, and blanks and comments do not show at all. All of this holds for every schedule, so the
flag that makes a divider take the rest of the input may change between any two pulls.
-/

namespace ParserGenerator

namespace Lexer

open Text

/-! ## Shapes -/

/-- A name starts with a letter or an underscore, and digits may follow. -/
def IsName (name : String) : Prop :=
  ∃ c rest, name.toList = c :: rest ∧ isNameStart c = true ∧ rest.all isNameChar = true

/-- What the text of a token looks like. A literal block ends at the first `%}`. -/
def Shaped : Token → Prop
  | .literal body => ¬ ['%', '}'] <:+: body.toList
  | .divider _ | .keyword _ | .punctuation _ => True
  | .code text => ∃ body, text.toList = '{' :: body ++ ['}']
  | .identifier name => IsName name
  | .quoted text =>
    ∃ mark body, (mark = '\'' ∨ mark = '"') ∧ text.toList = mark :: body ++ [mark] ∧
      ∀ c ∈ body, c ≠ mark ∧ c ≠ '\n'
  | .number digits => digits.toList ≠ [] ∧ digits.toList.all Char.isDigit = true

/-- The text of a token as what the token carries says it. -/
def Spells (text : String) : Token → Prop
  | .literal body => text = "%\x7b" ++ body ++ "%\x7d"
  | .divider none => text = "%%"
  | .divider (some tail) => text = "%%" ++ tail
  | .code payload | .identifier payload | .quoted payload | .number payload => text = payload
  | .keyword k => text = k.text
  | .punctuation p => text = String.singleton p.char

theorem spells_text (t : Token) : Spells t.text t := by
  cases t with
  | divider tail => cases tail <;> rfl
  | _ => rfl

/-- The text of a segment as what the segment holds says it. -/
def Segment.Spans (text : List Char) : Segment → Prop
  | .blank cs => text = cs
  | .lineComment body => text = ['/', '/'] ++ body
  | .blockComment body => text = ['/', '*'] ++ body ++ ['*', '/']
  | .illegal c => text = [c]
  | .token t => Spells (.ofList text) t
  | .failure _ extent => text = extent

theorem Segment.spans_text (seg : Segment) : seg.Spans seg.text := by
  cases seg with
  | token t =>
    rw [Segment.text, Segment.Spans, String.ofList_toList]
    exact spells_text t
  | _ => rfl

/-- The characters that blanks between tokens consist of. -/
def separators : List Char := [' ', '\t', '\r', '\n', '\x0c']

theorem isSeparator_iff {c : Char} : isSeparator c = true ↔ c ∈ separators := by
  simp [isSeparator, separators, or_assoc]

/-- What a segment looks like in front of the text `after`. -/
def Segment.Fits (after : List Char) : Segment → Prop
  | .blank text => text ≠ [] ∧ ∀ c ∈ text, c ∈ separators
  | .lineComment body => '\n' ∉ body ∧ (after = [] ∨ after.head? = some '\n')
  | .blockComment body => ¬ ['*', '/'] <:+: body
  | .illegal c =>
    c ∉ separators ∧ isNameStart c = false ∧ c.isDigit = false ∧ c ≠ '{' ∧
      Punctuation.ofChar? c = none
  | .token t => Shaped t ∧ ∀ tail, t = .divider (some tail) → after = []
  | .failure .unbalancedCode extent => extent = ['{'] ∧ closeBlock 0 after = none
  | .failure .unterminatedLiteral extent =>
    after = [] ∧ ∃ body, extent = '%' :: '{' :: body ∧ ¬ ['%', '}'] <:+: body
  | .failure .unterminatedComment extent =>
    after = [] ∧ ∃ body, extent = '/' :: '*' :: body ∧ ¬ ['*', '/'] <:+: body

namespace Segment

theorem fits_percent (closing : Bool) (rest : List Char) :
    (percent closing rest).1.Fits (percent closing rest).2 := by
  fun_cases percent closing rest with
  | case1 rest body after h =>
    refine ⟨?_, by simp⟩
    simpa [Shaped] using not_infix_of_cutAtPair h
  | case2 rest h => exact ⟨rfl, rest, rfl, not_infix_of_cutAtPair_eq_none h⟩
  | case3 rest h => exact ⟨trivial, fun _ _ ↦ rfl⟩
  | case4 rest h => exact ⟨trivial, by simp⟩
  | case5 rest _ _ k after h => exact ⟨trivial, by simp⟩
  | case6 rest _ _ h => exact ⟨by decide, by decide, by decide, by decide, by decide⟩

theorem head?_dropWhile_bne (sep : Char) (cs : List Char) :
    cs.dropWhile (· != sep) = [] ∨ (cs.dropWhile (· != sep)).head? = some sep := by
  cases hdrop : cs.dropWhile (· != sep) with
  | nil => exact .inl rfl
  | cons c after => exact .inr (congrArg some (append_of_dropWhile hdrop).1)

theorem fits_slash (rest : List Char) : (slash rest).1.Fits (slash rest).2 := by
  fun_cases slash rest with
  | case1 rest =>
    exact ⟨not_mem_takeWhile '\n' rest, head?_dropWhile_bne '\n' rest⟩
  | case2 rest body after h => exact not_infix_of_cutAtPair h
  | case3 rest h => exact ⟨rfl, rest, rfl, not_infix_of_cutAtPair_eq_none h⟩
  | case4 rest _ _ => exact ⟨by decide, by decide, by decide, by decide, by decide⟩

theorem fits_quotation {mark : Char} (hmark : mark = '\'' ∨ mark = '"') (rest : List Char) :
    (quotation mark rest).1.Fits (quotation mark rest).2 := by
  have hillegal (after : List Char) : (illegal mark).Fits after := by
    obtain rfl | rfl := hmark
    · exact ⟨by decide, by decide, by decide, by decide, by decide⟩
    · exact ⟨by decide, by decide, by decide, by decide, by decide⟩
  unfold quotation
  split
  · split
    · refine ⟨⟨mark, rest.takeWhile fun c ↦ c != mark && c != '\n', hmark, by simp, ?_⟩, by simp⟩
      intro c hc
      have hall := List.all_takeWhile (p := fun c ↦ c != mark && c != '\n') (l := rest)
      simpa using List.all_eq_true.1 hall c hc
    · exact hillegal rest
  · exact hillegal rest

theorem exists_append_of_closeBlock {depth : Nat} {cs code after : List Char}
    (h : closeBlock depth cs = some (code, after)) : ∃ body, code = body ++ ['}'] := by
  fun_induction closeBlock depth cs generalizing code with
  | case1 => simp at h
  | case2 cs rest hp =>
    obtain ⟨rfl, -⟩ := Prod.mk.inj (Option.some.inj h)
    exact ⟨[], rfl⟩
  | case3 cs rest hp outer ih =>
    obtain ⟨cut, hcut, heq⟩ := Option.map_eq_some_iff.1 h
    obtain ⟨rfl, rfl⟩ := Prod.mk.inj heq
    obtain ⟨body, hbody⟩ := ih hcut
    exact ⟨'}' :: body, by simp [hbody]⟩
  | case4 depth cs rest hp ih =>
    obtain ⟨cut, hcut, heq⟩ := Option.map_eq_some_iff.1 h
    obtain ⟨rfl, rfl⟩ := Prod.mk.inj heq
    obtain ⟨body, hbody⟩ := ih hcut
    exact ⟨'{' :: body, by simp [hbody]⟩
  | case5 depth cs p rest _ _ hp ih =>
    obtain ⟨cut, hcut, heq⟩ := Option.map_eq_some_iff.1 h
    obtain ⟨rfl, rfl⟩ := Prod.mk.inj heq
    obtain ⟨body, hbody⟩ := ih hcut
    exact ⟨p.text ++ body, by simp [hbody]⟩

theorem fits_brace (rest : List Char) : (brace rest).1.Fits (brace rest).2 := by
  unfold brace
  split
  · next code after h =>
    obtain ⟨body, rfl⟩ := exists_append_of_closeBlock h
    exact ⟨⟨body, by simp⟩, by simp⟩
  · next h => exact ⟨rfl, h⟩

/-- The first segment has the shape that its kind promises. -/
theorem fits_first (closing : Bool) (c : Char) (rest : List Char) :
    (first closing c rest).1.Fits (first closing c rest).2 := by
  fun_cases first closing c rest with
  | case1 hblank =>
    refine ⟨List.cons_ne_nil _ _, List.forall_mem_cons.2 ⟨isSeparator_iff.1 hblank, ?_⟩⟩
    intro x hx
    exact isSeparator_iff.1 (List.all_eq_true.1 List.all_takeWhile x hx)
  | case2 _ hname =>
    exact ⟨⟨c, rest.takeWhile isNameChar, by simp, hname, List.all_takeWhile⟩, by simp⟩
  | case3 _ _ hdigit =>
    refine ⟨⟨by simp, ?_⟩, by simp⟩
    rw [String.toList_ofList, List.all_cons, hdigit, List.all_takeWhile]
    rfl
  | case4 _ _ _ h => exact fits_percent closing rest
  | case5 _ _ _ _ h => exact fits_slash rest
  | case6 _ _ _ _ _ hmark => exact fits_quotation hmark rest
  | case7 _ _ _ _ _ _ h => exact fits_brace rest
  | case8 _ _ _ _ _ _ _ p hp => exact ⟨trivial, by simp⟩
  | case9 hblank hname hdigit _ _ _ hbrace hp =>
    rw [isSeparator_iff] at hblank
    simp only [Bool.not_eq_true] at hname hdigit
    exact ⟨hblank, hname, hdigit, hbrace, hp⟩

/-- The segments of a text, each with the place where it starts. -/
def placed : Position → List Segment → List (Position × Segment)
  | _, [] => []
  | pos, seg :: segs => (pos, seg) :: placed (pos.advance seg.text) segs

theorem placed_append (pos : Position) (a b : List Segment) :
    placed pos (a ++ b) = placed pos a ++ placed (pos.advance (a.flatMap text)) b := by
  induction a generalizing pos with
  | nil => rfl
  | cons seg a ih => simp [placed, ih]

theorem mem_of_mem_placed {pos : Position} {segs : List Segment} {entry : Position × Segment}
    (h : entry ∈ placed pos segs) : entry.2 ∈ segs := by
  induction segs generalizing pos with
  | nil => cases h
  | cons seg segs ih =>
    rcases List.mem_cons.1 h with rfl | hlater
    · exact List.mem_cons_self
    · exact List.mem_cons_of_mem _ (ih hlater)

/-- The item that a segment has to show as: a token is one lexeme and a failure is one failure, and
nothing else is an item. -/
def expectedItem? (pos : Position) : Segment → Option Item
  | .token t => some (.lexeme ⟨t, pos⟩)
  | .failure kind _ => some (.failure ⟨kind, pos⟩)
  | .blank _ | .lineComment _ | .blockComment _ | .illegal _ => none

/-- The fault that a segment has to show as: an illegal character is one fault for this character,
and nothing else is a fault. -/
def expectedFault? (pos : Position) : Segment → Option Fault
  | .illegal c => some ⟨c, pos⟩
  | .blank _ | .lineComment _ | .blockComment _ | .token _ | .failure _ _ => none

theorem item?_eq (pos : Position) (seg : Segment) : seg.item? pos = seg.expectedItem? pos := by
  cases seg <;> rfl

theorem faults_eq (pos : Position) (seg : Segment) :
    seg.faults pos = (seg.expectedFault? pos).toList := by
  cases seg <;> rfl

/-- The items that segments in a row have to show as. -/
def itemsFrom (pos : Position) (segs : List Segment) : List Item :=
  (placed pos segs).filterMap fun entry ↦ entry.2.expectedItem? entry.1

/-- The faults that segments in a row have to show as. -/
def faultsFrom (pos : Position) (segs : List Segment) : List Fault :=
  (placed pos segs).filterMap fun entry ↦ entry.2.expectedFault? entry.1

theorem itemsFrom_cons (pos : Position) (seg : Segment) (segs : List Segment) :
    itemsFrom pos (seg :: segs) =
      (seg.item? pos).toList ++ itemsFrom (pos.advance seg.text) segs := by
  rw [itemsFrom, placed, List.filterMap_cons, item?_eq]
  cases seg.expectedItem? pos <;> rfl

theorem faultsFrom_cons (pos : Position) (seg : Segment) (segs : List Segment) :
    faultsFrom pos (seg :: segs) = seg.faults pos ++ faultsFrom (pos.advance seg.text) segs := by
  rw [faultsFrom, placed, List.filterMap_cons, faults_eq]
  cases seg.expectedFault? pos <;> rfl

/-- Each segment has the shape of its kind in front of what follows it. -/
def Chain : List Segment → List Char → Prop
  | [], _ => True
  | seg :: segs, after => seg.Fits (segs.flatMap text ++ after) ∧ Chain segs after

theorem chain_append {a b : List Segment} {after : List Char} :
    Chain (a ++ b) after ↔ Chain a (b.flatMap text ++ after) ∧ Chain b after := by
  induction a with
  | nil => simp [Chain]
  | cons seg a ih => simp [Chain, ih, and_assoc]

/-- Every member of a chain is followed by the rest of the chain. -/
theorem Chain.fits {before later : List Segment} {seg : Segment} {after : List Char}
    (h : Chain (before ++ seg :: later) after) : seg.Fits (later.flatMap text ++ after) :=
  (chain_append.1 h).2.1

end Segment

open Segment

/-! ## Readings -/

/-- The segments `segs` are what a pull passes over between two cursors. -/
structure Passes (cur : Cursor) (p : Pull) (segs : List Segment) : Prop where
  text : segs.flatMap Segment.text ++ p.cursor.rest = cur.rest
  chain : Chain segs p.cursor.rest
  pos : p.cursor.pos = cur.pos.advance (segs.flatMap Segment.text)
  items : p.item?.toList = itemsFrom cur.pos segs
  faults : p.faults = faultsFrom cur.pos segs
  ended : p.item? = none → p.cursor.rest = []

theorem exists_passes_pullFrom (closing : Bool) (rest : List Char) (pos : Position) :
    ∃ segs, Passes ⟨rest, pos⟩ (pullFrom closing rest pos) segs := by
  fun_induction pullFrom closing rest pos with
  | case1 pos => exact ⟨[], rfl, trivial, rfl, rfl, rfl, fun _ ↦ rfl⟩
  | case2 pos c cs seg after item hitem =>
    have hfaults : seg.faults pos = [] := by
      cases hseg : seg with
      | illegal c => simp [hseg, Segment.item?] at hitem
      | _ => rfl
    refine ⟨[seg], ?_, ?_, ?_, ?_, ?_, ?_⟩
    · simpa using text_append_first closing c cs
    · exact ⟨fits_first closing c cs, trivial⟩
    · simp
    · rw [itemsFrom_cons, hitem]
      rfl
    · rw [faultsFrom_cons, hfaults]
      rfl
    · simp
  | case3 pos c cs seg after hitem later ih =>
    obtain ⟨segs, h⟩ := ih
    refine ⟨seg :: segs, ?_, ?_, ?_, ?_, ?_, h.ended⟩
    · have hlater := h.text
      simp only [List.flatMap_cons, List.append_assoc]
      rw [hlater]
      exact text_append_first closing c cs
    · refine ⟨?_, h.chain⟩
      rw [h.text]
      exact fits_first closing c cs
    · simpa using h.pos
    · rw [itemsFrom_cons, hitem]
      exact h.items
    · rw [faultsFrom_cons, ← h.faults]

theorem exists_passes_pull (closing : Bool) (cur : Cursor) :
    ∃ segs, Passes cur (cur.pull closing) segs := exists_passes_pullFrom closing cur.rest cur.pos

/-- A reading cuts a text into segments, and its last pull has reached the end of the text. -/
structure Tiles (cur : Cursor) (reading : List Pull) (segs : List Segment) : Prop where
  text : segs.flatMap Segment.text = cur.rest
  chain : Chain segs []
  items : itemsOf reading = itemsFrom cur.pos segs
  faults : faultsOf reading = faultsFrom cur.pos segs
  ended : ∃ last, reading.getLast? = some last ∧ last.item? = none ∧ last.cursor.rest = []

theorem Tiles.cons {cur : Cursor} {p : Pull} {reading : List Pull} {a b : List Segment}
    (hp : Passes cur p a) (hreading : Tiles p.cursor reading b) :
    Tiles cur (p :: reading) (a ++ b) := by
  have hrest : b.flatMap Segment.text = p.cursor.rest := hreading.text
  constructor
  · calc (a ++ b).flatMap Segment.text
        = a.flatMap Segment.text ++ b.flatMap Segment.text := List.flatMap_append
      _ = a.flatMap Segment.text ++ p.cursor.rest := by rw [hrest]
      _ = cur.rest := hp.text
  · apply chain_append.2
    rw [List.append_nil, hrest]
    exact ⟨hp.chain, hreading.chain⟩
  · have hitems : itemsOf (p :: reading) = p.item?.toList ++ itemsOf reading := by
      cases h : p.item? <;> simp [itemsOf, h]
    calc itemsOf (p :: reading)
        = p.item?.toList ++ itemsOf reading := hitems
      _ = itemsFrom cur.pos a ++ itemsFrom p.cursor.pos b := by rw [hp.items, hreading.items]
      _ = itemsFrom cur.pos (a ++ b) := by simp [itemsFrom, placed_append, hp.pos]
  · calc faultsOf (p :: reading)
        = p.faults ++ faultsOf reading := rfl
      _ = faultsFrom cur.pos a ++ faultsFrom p.cursor.pos b := by rw [hp.faults, hreading.faults]
      _ = faultsFrom cur.pos (a ++ b) := by simp [faultsFrom, placed_append, hp.pos]
  · obtain ⟨last, hlast, hnone⟩ := hreading.ended
    exact ⟨last, by rw [List.getLast?_cons, hlast]; rfl, hnone⟩

theorem pulls_of_item?_eq_none {schedule : List Item → Bool} {seen : List Item} {cur : Cursor}
    (h : (cur.pull (schedule seen)).item? = none) (n : Nat) :
    pulls schedule (n + 1) seen cur = [cur.pull (schedule seen)] := by
  simp [pulls, h]

theorem pulls_of_item?_eq_some {schedule : List Item → Bool} {seen : List Item} {cur : Cursor}
    {item : Item} (h : (cur.pull (schedule seen)).item? = some item) (n : Nat) :
    pulls schedule (n + 1) seen cur =
      cur.pull (schedule seen) ::
        pulls schedule n (seen ++ [item]) (cur.pull (schedule seen)).cursor := by
  simp [pulls, h]

theorem length_pull {closing : Bool} {cur : Cursor} {item : Item}
    (h : (cur.pull closing).item? = some item) :
    (cur.pull closing).cursor.rest.length < cur.rest.length := length_pullFrom h

/-- A pull that finds no item has passed over all the text. -/
theorem Passes.tiles {cur : Cursor} {p : Pull} {segs : List Segment} (h : Passes cur p segs)
    (hitem : p.item? = none) : Tiles cur [p] segs := by
  have hend := h.ended hitem
  refine ⟨?_, ?_, ?_, ?_, p, rfl, hitem, hend⟩
  · simpa [hend] using h.text
  · simpa [hend] using h.chain
  · rw [← h.items]
    simp [itemsOf, hitem]
  · rw [← h.faults]
    simp [faultsOf]

/-- With more pulls than characters the end of the text is reached. -/
theorem exists_tiles_pulls (schedule : List Item → Bool) {n : Nat} {seen : List Item}
    {cur : Cursor} (hn : cur.rest.length < n) :
    ∃ segs, Tiles cur (pulls schedule n seen cur) segs := by
  induction n generalizing seen cur with
  | zero => omega
  | succ n ih =>
    obtain ⟨segs, hsegs⟩ := exists_passes_pull (schedule seen) cur
    cases hitem : (cur.pull (schedule seen)).item? with
    | none =>
      rw [pulls_of_item?_eq_none hitem]
      exact ⟨segs, hsegs.tiles hitem⟩
    | some item =>
      have hlen := length_pull hitem
      obtain ⟨more, hmore⟩ := @ih (seen ++ [item]) (cur.pull (schedule seen)).cursor (by omega)
      rw [pulls_of_item?_eq_some hitem]
      exact ⟨segs ++ more, hmore.cons hsegs⟩

theorem exists_tiles_read (schedule : List Item → Bool) (source : String) :
    ∃ segs, Tiles (.ofString source) (read schedule none source) segs := by
  apply exists_tiles_pulls
  rw [Option.getD_none, ← String.length_toList]
  exact Nat.lt_succ_self _

/-! ## Callbacks -/

section Callback

variable {σ : Type} (onFault : σ → Fault → σ)

/-- A callback is told of the recorded faults in their order and changes nothing else. -/
theorem pullFromWith_eq (closing : Bool) (rest : List Char) (pos : Position) (s : σ) :
    pullFromWith onFault closing rest pos s =
      (pullFrom closing rest pos, (pullFrom closing rest pos).faults.foldl onFault s) := by
  fun_induction pullFrom closing rest pos generalizing s with
  | case1 pos => simp [pullFromWith]
  | case2 pos c cs seg after item hitem =>
    rw [pullFromWith]
    simp only [seg] at hitem
    simp [hitem, seg, after]
  | case3 pos c cs seg after hitem later ih =>
    rw [pullFromWith]
    simp only [seg] at hitem
    simp only [hitem, seg, after, later] at ih ⊢
    rw [ih, List.foldl_append]

theorem pullsWith_eq (schedule : List Item → Bool) (n : Nat) (seen : List Item) (cur : Cursor)
    (s : σ) :
    pullsWith onFault schedule n seen cur s =
      (pulls schedule n seen cur, (faultsOf (pulls schedule n seen cur)).foldl onFault s) := by
  induction n generalizing seen cur s with
  | zero => rfl
  | succ n ih =>
    rw [pullsWith, pullFromWith_eq]
    cases hitem : (cur.pull (schedule seen)).item? with
    | none =>
      rw [pulls_of_item?_eq_none hitem]
      rw [Cursor.pull] at hitem
      simp [hitem, faultsOf, Cursor.pull]
    | some item =>
      rw [pulls_of_item?_eq_some hitem]
      rw [Cursor.pull] at hitem
      simp [hitem, ih, faultsOf, Cursor.pull]

theorem readWith_eq (schedule : List Item → Bool) (limit : Option Nat) (source : String) (s : σ) :
    readWith onFault schedule limit source s =
      (read schedule limit source, (faultsOf (read schedule limit source)).foldl onFault s) :=
  pullsWith_eq onFault schedule _ [] _ s

/-! ## Lossless reading -/

/-- Nothing of a source is lost: it is cut into segments without gap or overlap, each with the shape
of its kind, and what a segment or a token holds is told by its text. The tokens and the failures among the
segments are the items of the reading and the illegal characters are its faults, the callback is
told of the faults in their order, and the reading ends at the end of the source. -/
theorem read_lossless (schedule : List Item → Bool) (source : String) (s : σ) :
    ∃ segs : List Segment,
      segs.flatMap Segment.text = source.toList ∧
      (∀ before seg later, segs = before ++ seg :: later →
        seg.Fits (later.flatMap Segment.text)) ∧
      (∀ seg ∈ segs, seg.Spans seg.text) ∧
      itemsOf (readWith onFault schedule none source s).1 = itemsFrom .start segs ∧
      faultsOf (readWith onFault schedule none source s).1 = faultsFrom .start segs ∧
      (readWith onFault schedule none source s).2 = (faultsFrom .start segs).foldl onFault s ∧
      ∃ last, (readWith onFault schedule none source s).1.getLast? = some last ∧
        last.item? = none ∧ last.cursor.rest = [] := by
  obtain ⟨segs, h⟩ := exists_tiles_read schedule source
  rw [readWith_eq]
  refine ⟨segs, h.text, ?_, fun seg _ ↦ seg.spans_text, h.items, h.faults, ?_, h.ended⟩
  · rintro before seg later rfl
    simpa using h.chain.fits
  · exact congrArg (List.foldl onFault s) h.faults

end Callback

end Lexer

end ParserGenerator
