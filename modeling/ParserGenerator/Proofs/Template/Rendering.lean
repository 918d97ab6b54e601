import ParserGenerator.Proofs.Template.Writing

/-!
# Rendered templates

The placeholders of a template are filled in by a provider, which is asked for one name after the
other and may answer the same name differently each time. What is written are the texts of the
template as they stand and the answers as they are given; how the texts are cut into pieces makes no
difference.
-/

namespace ParserGenerator.Template

open Text

variable {σ : Type}

/-- A call writes a text and leaves the provider in a new state; there is none if the call fails. -/
abbrev Provider (σ : Type) := σ → String → String × Option σ

/-- The provider that looks the names up. -/
def Provider.ofValues (value? : String → Option String) : Provider Unit := fun _ name ↦
  match value? name with
  | none => ("", none)
  | some value => (value, some ())

/-- Writes something in front. -/
def Rendering.prepend (text : String) (asked : List String) (later : Rendering) : Rendering :=
  ⟨text ++ later.text, asked ++ later.asked, later.complete⟩

/-- Writes the pieces in order, up to the first failure of the provider. -/
def renderBy (ask : Provider σ) (s : σ) : List Piece → Rendering
  | [] => ⟨"", [], true⟩
  | .text t :: rest => (renderBy ask s rest).prepend t []
  | .placeholder name _ :: rest =>
    match ask s name with
    | (out, none) => ⟨out, [name], false⟩
    | (out, some s) => (renderBy ask s rest).prepend out [name]

/-- The answers to names in order and the state after them, if no call fails. -/
def answers (ask : Provider σ) (s : σ) : List String → Option (List String × σ)
  | [] => some ([], s)
  | name :: rest =>
    match ask s name with
    | (_, none) => none
    | (out, some s) => (answers ask s rest).map fun r ↦ (out :: r.1, r.2)

/-- The parts with the values in order in the places of the placeholders. -/
def fill : List Part → List String → String
  | .text s :: rest, values => s ++ fill rest values
  | .braced _ :: rest, value :: values | .bare _ :: rest, value :: values =>
    value ++ fill rest values
  | _, _ => ""

@[simp] theorem Rendering.prepend_prepend (text text' : String) (asked asked' : List String)
    (later : Rendering) : (later.prepend text' asked').prepend text asked =
      later.prepend (text ++ text') (asked ++ asked') := by
  simp [prepend, String.append_assoc]

@[simp] theorem Rendering.prepend_nothing (later : Rendering) : later.prepend "" [] = later := by
  simp [prepend]

theorem render_eq_renderBy (value? : String → Option String) (pieces : List Piece) :
    render value? pieces = renderBy (.ofValues value?) () pieces := by
  induction pieces with
  | nil => rfl
  | cons piece rest ih =>
    cases piece with
    | text t =>
      rw [render, renderBy, ih]
      rfl
    | placeholder name line =>
      rw [render, renderBy, Provider.ofValues]
      cases value? name with
      | none => rfl
      | some value =>
        rw [ih]
        rfl

/-! ## Pieces that are written alike -/

def RendersAs (pieces pieces' : List Piece) : Prop :=
  ∀ (σ : Type) (ask : Provider σ) (s : σ), renderBy ask s pieces = renderBy ask s pieces'

variable {pieces pieces' pieces'' : List Piece}

theorem RendersAs.symm (h : RendersAs pieces pieces') : RendersAs pieces' pieces :=
  fun σ ask s ↦ (h σ ask s).symm

theorem RendersAs.trans (h : RendersAs pieces pieces') (h' : RendersAs pieces' pieces'') :
    RendersAs pieces pieces'' :=
  fun σ ask s ↦ (h σ ask s).trans (h' σ ask s)

instance : Trans RendersAs RendersAs RendersAs := ⟨RendersAs.trans⟩

theorem RendersAs.cons (h : RendersAs pieces pieces') (piece : Piece) :
    RendersAs (piece :: pieces) (piece :: pieces') := by
  intro σ ask s
  cases piece with
  | text t => rw [renderBy, renderBy, h σ]
  | placeholder name line =>
    rw [renderBy, renderBy]
    cases (ask s name).2 <;> simp only [h σ ask]

theorem rendersAs_plain_append (cs : List Char) (pieces : List Piece) :
    RendersAs (plain cs ++ pieces) (.text (String.ofList cs) :: pieces) := by
  intro σ ask s
  cases cs with
  | nil => simp [plain, renderBy]
  | cons c cs => rfl

theorem rendersAs_text_text (c : Char) (cs : List Char) (pieces : List Piece) :
    RendersAs (.text (String.ofList [c]) :: .text (String.ofList cs) :: pieces)
      (.text (String.ofList (c :: cs)) :: pieces) := by
  intro σ ask s
  simp [renderBy]

/-- A text with doubled dollar signs is read in front of what is read after it. -/
theorem exists_scan_doubled {rest : List Char} {later : List Piece} (cs : List Char) (line : Nat)
    (h : ∃ pieces, scan (line + cs.count '\n') rest = .ok pieces ∧ RendersAs pieces later) :
    ∃ pieces, scan line (doubled cs ++ rest) = .ok pieces ∧
      RendersAs pieces (.text (String.ofList cs) :: later) := by
  induction cs generalizing line with
  | nil =>
    obtain ⟨pieces, hscan, hrenders⟩ := h
    exact ⟨pieces, hscan, hrenders.trans (rendersAs_plain_append [] later)⟩
  | cons c cs ih =>
    have hboth := rendersAs_text_text c cs later
    rw [← List.singleton_append, List.count_append, ← Nat.add_assoc] at h
    obtain ⟨pieces, hscan, hrenders⟩ := ih _ h
    by_cases hc : c = '$'
    · subst hc
      exact ⟨_, scan_construct rfl hscan, (hrenders.cons (.text "$")).trans hboth⟩
    · obtain ⟨head, tail, hcons, rfl⟩ := scan_cons hc hscan
      rw [doubled_cons hc]
      refine ⟨plain (c :: head) ++ tail, hcons, ?_⟩
      calc
        RendersAs _ (.text (String.ofList (c :: head)) :: tail) := rendersAs_plain_append _ tail
        RendersAs _ (.text (String.ofList [c]) :: .text (String.ofList head) :: tail) :=
          (rendersAs_text_text c head tail).symm
        RendersAs _ (.text (String.ofList [c]) :: (plain head ++ tail)) :=
          ((rendersAs_plain_append head tail).cons _).symm
        RendersAs _ (.text (String.ofList [c]) :: .text (String.ofList cs) :: later) :=
          hrenders.cons _
        RendersAs _ _ := hboth

/-- What has been written is read as its parts. -/
theorem exists_scan_written {parts : List Part} (h : IsWritable parts) (line : Nat) :
    ∃ pieces, scan line (written parts) = .ok pieces ∧ RendersAs pieces (piecesAt line parts) := by
  induction parts generalizing line with
  | nil => exact ⟨[], scan_of_not_mem line List.not_mem_nil, fun _ _ _ ↦ rfl⟩
  | cons part parts ih =>
    rw [written_cons]
    cases part with
    | text t =>
      have htext := exists_scan_doubled t.toList line (ih h.2 _)
      rwa [String.ofList_toList] at htext
    | braced name =>
      obtain ⟨pieces, hscan, hrenders⟩ := ih h.2 line
      have hpart := construct_braced line h.1 (written parts)
      rw [String.ofList_toList] at hpart
      refine ⟨_, ?_, hrenders.cons (.placeholder name line)⟩
      rw [Part.written, List.cons_append, List.cons_append, List.append_assoc]
      exact scan_construct hpart hscan
    | bare name =>
      obtain ⟨pieces, hscan, hrenders⟩ := ih h.2 line
      have hpart := construct_bare line h.1.1 h.1.2
      rw [String.ofList_toList] at hpart
      exact ⟨_, scan_construct hpart hscan, hrenders.cons (.placeholder name line)⟩

/-! ## Writing the parts -/

theorem fill_cons {part : Part} {name : String} (h : part.name? = some name) (parts : List Part)
    (value : String) (values : List String) :
    fill (part :: parts) (value :: values) = value ++ fill parts values := by
  cases part with
  | text t => cases h
  | braced name | bare name => rfl

theorem answers_cons {ask : Provider σ} {s s' : σ} {name : String} {rest values : List String}
    (h : answers ask s (name :: rest) = some (values, s')) :
    ∃ value next later, ask s name = (value, some next) ∧
      answers ask next rest = some (later, s') ∧ values = value :: later := by
  rw [answers] at h
  split at h
  · cases h
  · next value next hask =>
    obtain ⟨⟨later, final⟩, hlater, heq⟩ := Option.map_eq_some_iff.1 h
    obtain ⟨rfl, rfl⟩ := Prod.mk.inj heq
    exact ⟨value, next, later, hask, hlater, rfl⟩

/-- As long as the provider answers, the texts and the answers are written in order. -/
theorem renderBy_piecesAt_append {ask : Provider σ} {s s' : σ} {before : List Part}
    {values : List String} (h : answers ask s (names before) = some (values, s')) (line : Nat)
    (after : List Part) :
    renderBy ask s (piecesAt line (before ++ after)) =
      (renderBy ask s' (piecesAt (line + feeds before) after)).prepend (fill before values)
        (names before) := by
  induction before generalizing s values line with
  | nil =>
    obtain ⟨rfl, rfl⟩ := Prod.mk.inj (Option.some.inj h)
    exact (Rendering.prepend_nothing _).symm
  | cons part before ih =>
    cases hname : part.name? with
    | none =>
      obtain ⟨t, rfl⟩ := exists_text_of_name? hname
      rw [List.cons_append, piecesAt, renderBy, ih h, Rendering.prepend_prepend, feeds,
        ← Nat.add_assoc]
      rfl
    | some name =>
      rw [names_cons hname] at h ⊢
      obtain ⟨value, next, later, hask, hlater, rfl⟩ := answers_cons h
      rw [List.cons_append, piecesAt_cons hname, renderBy, hask, feeds_cons hname,
        fill_cons hname]
      dsimp only
      rw [ih hlater, Rendering.prepend_prepend]
      rfl

theorem renderBy_of_answers {ask : Provider σ} {s s' : σ} {parts : List Part}
    {values : List String} (h : answers ask s (names parts) = some (values, s')) (line : Nat) :
    renderBy ask s (piecesAt line parts) = ⟨fill parts values, names parts, true⟩ := by
  have happ := renderBy_piecesAt_append h line []
  rw [List.append_nil] at happ
  simp [happ, piecesAt, renderBy, Rendering.prepend]

theorem renderBy_of_failure {ask : Provider σ} {s s' : σ} {before : List Part} {part : Part}
    {name out : String} {values : List String} (hname : part.name? = some name)
    (h : answers ask s (names before) = some (values, s')) (hfail : ask s' name = (out, none))
    (line : Nat) (after : List Part) :
    renderBy ask s (piecesAt line (before ++ part :: after)) =
      ⟨fill before values ++ out, names before ++ [name], false⟩ := by
  rw [renderBy_piecesAt_append h, piecesAt_cons hname, renderBy, hfail]
  rfl

/-- A template that is written part by part is read. When it is rendered, the provider is asked for
the names of the placeholders in order, and the texts and its answers are written as they stand, all
of them or up to its first failure. The texts that are read are just those that can be written so,
which are those in which every dollar sign starts something. -/
theorem render_written :
    (∀ parts, IsWritable parts →
      ∃ pieces, parse (String.ofList (written parts)) = .ok pieces ∧
        (∀ (σ : Type) (ask : Provider σ) (s s' : σ) (values : List String),
          answers ask s (names parts) = some (values, s') →
          renderBy ask s pieces = ⟨fill parts values, names parts, true⟩) ∧
        (∀ (σ : Type) (ask : Provider σ) (s s' : σ) (before after : List Part) (part : Part)
            (name out : String) (values : List String),
          parts = before ++ part :: after → part.name? = some name →
          answers ask s (names before) = some (values, s') → ask s' name = (out, none) →
          renderBy ask s pieces = ⟨fill before values ++ out, names before ++ [name], false⟩) ∧
        ∀ value?, render value? pieces = renderBy (.ofValues value?) () pieces) ∧
    ∀ text : String,
      ((∃ pieces, parse text = .ok pieces) ↔
        ∃ parts, IsWritable parts ∧ text.toList = written parts) ∧
      ((∃ pieces, parse text = .ok pieces) ↔ DollarsStart text.toList) := by
  constructor
  · intro parts h
    obtain ⟨pieces, hscan, hrenders⟩ := exists_scan_written h 1
    refine ⟨pieces, ?_, ?_, ?_, fun value? ↦ render_eq_renderBy value? pieces⟩
    · rwa [parse, String.toList_ofList]
    · intro σ ask s s' values hvalues
      rw [hrenders σ ask s, renderBy_of_answers hvalues]
    · rintro σ ask s s' before after part name out values rfl hname hvalues hfail
      rw [hrenders σ ask s, renderBy_of_failure hname hvalues hfail]
  · intro text
    have hread : (∃ pieces, parse text = .ok pieces) ↔
        ∃ parts, IsWritable parts ∧ text.toList = written parts := by
      constructor
      · rintro ⟨pieces, hparse⟩
        obtain ⟨parts, hparts, hreads⟩ := exists_readAs 1 text.toList
        rw [← parse, hparse] at hreads
        exact ⟨parts, hparts, hreads.1⟩
      · rintro ⟨parts, hparts, htext⟩
        obtain ⟨pieces, hscan, -⟩ := exists_scan_written hparts 1
        exact ⟨pieces, by rwa [parse, htext]⟩
    refine ⟨hread, hread.trans ⟨?_, fun h ↦ (exists_written h).1⟩⟩
    rintro ⟨parts, hparts, htext⟩
    rw [htext]
    exact dollarsStart_written hparts

/-- Answers with the values in a row and fails when they are used up. -/
def queue : Provider (List String)
  | [], _ => ("?", none)
  | value :: rest, _ => (value, some rest)

/-- Dollar signs next to a name, in a name and in the answers, and a name that is asked for
twice. -/
theorem render_written_queue :
    let parts := [.text "a$", .bare "x_1", .text "$-", .braced "$ x", .bare "x_1"]
    (IsWritable parts ∧ String.ofList (written parts) = "a$$$x_1$$-$\x7b$ x\x7d$x_1" ∧
      answers queue ["$x", "", "$$"] (names parts) = some (["$x", "", "$$"], []) ∧
      answers queue ["$x"] (names (parts.take 3)) = some (["$x"], []) ∧
      queue [] "$ x" = ("?", none)) ∧
    ∃ pieces, parse "a$$$x_1$$-$\x7b$ x\x7d$x_1" = .ok pieces ∧
      renderBy queue ["$x", "", "$$"] pieces = ⟨"a$$x$-$$", ["x_1", "$ x", "x_1"], true⟩ ∧
      renderBy queue ["$x"] pieces = ⟨"a$$x$-?", ["x_1", "$ x"], false⟩ := by
  intro parts
  have hparts : IsWritable parts := by decide +kernel
  have htext : String.ofList (written parts) = "a$$$x_1$$-$\x7b$ x\x7d$x_1" := by decide +kernel
  have hall : answers queue ["$x", "", "$$"] (names parts) = some (["$x", "", "$$"], []) := by
    decide +kernel
  have hsome : answers queue ["$x"] (names (parts.take 3)) = some (["$x"], []) := by
    decide +kernel
  obtain ⟨pieces, hparse, hcomplete, hfailed, -⟩ := render_written.1 parts hparts
  rw [htext] at hparse
  refine ⟨⟨hparts, htext, hall, hsome, rfl⟩, pieces, hparse, ?_, ?_⟩
  · rw [hcomplete _ _ _ _ _ hall]
    decide +kernel
  · rw [hfailed _ queue ["$x"] [] (parts.take 3) [.bare "x_1"] (.braced "$ x") "$ x" "?" ["$x"]
      rfl rfl hsome rfl]
    decide +kernel

end ParserGenerator.Template
