import TemplateScript.Proofs.Script.Command

/-!
# Tokens of scripts

A script is read as its tokens, whatever stands around its blocks. A word that opens or closes a
block is a brace to whoever reads tokens, but for the text that the token keeps.
-/

namespace TemplateScript

open Cursor

variable {α β : Type} {w : Operands α} {v : Operands β} {options : ScanOptions} {pending : Bool}
  {rest : List Glyph} {faces : List Token.Face}

/-- Operands are read as their tokens, and a statement may end behind them. -/
structure Operands.Lexed (w : Operands α) (options : ScanOptions) : Prop where
  lexes : ∀ e, Lexes.BeforeEnd options (w.text e) (w.faces e)
  endsStatement : ∀ e, EndsStatement (w.faces e)

theorem Atom.lexed (hmixed : options.mixed = false) : Atom.operands.Lexed options :=
  ⟨fun a _ _ hend => a.lexes hmixed hend, fun a => a.endsStatement⟩

namespace Cursor

theorem endsNumber_space : EndsNumber (.char ' ' :: rest) := by
  rintro g ⟨⟩
  decide

theorem endsMark_space {kind : Token.Kind} (hkind : kind ∈ Token.Kind.marks) :
    EndsMark kind (.char ' ' :: rest) := by
  refine .of_tail ?_ hkind
  rintro g ⟨⟩
  decide

end Cursor

namespace Lexes

/-- A word of a kind. -/
theorem keyword (word : String) (kind : Token.Kind) (hmixed : options.mixed = false)
    (hword : isWord word = true) (hkind : Token.Kind.ofWord word = kind)
    (hlegal : kind ∉ [Token.Kind.comment, .illegal])
    (hend : ∀ g ∈ rest.head?, (g.isLetter || g.isDigit) = false) :
    Lexes options pending word rest [⟨kind, word⟩] := by
  subst hkind
  exact .word hmixed hword hend hlegal

/-- A word of a kind, and a space behind it. -/
theorem spacedWord (word : String) (kind : Token.Kind) (hmixed : options.mixed = false)
    (hword : isWord word = true) (hkind : Token.Kind.ofWord word = kind)
    (hlegal : kind ∉ [Token.Kind.comment, .illegal]) :
    Lexes options pending (word ++ " ") rest [⟨kind, word⟩] :=
  (keyword word kind hmixed hword hkind hlegal endsNumber_space.isLetter_eq).before_space

/-- An operator that assigns, between spaces. -/
theorem assignment {op : Token.Kind} (hmixed : options.mixed = false) (hop : op.isAssign = true) :
    Lexes options pending op.spelling (.char ' ' :: rest) [Chain.opFace op] := by
  have hplain : ∀ op ∈ Token.Kind.assignments, op ∈ plainMarks := by decide +kernel
  have hmem := hplain op (List.contains_iff_mem.1 hop)
  exact .mark hmixed hmem (endsMark_space (List.mem_filter.1 hmem).1)

/-- A mark between spaces. -/
theorem betweenSpaces {kind : Token.Kind} (hmixed : options.mixed = false)
    (hkind : kind ∈ plainMarks) :
    Lexes options pending (" " ++ (kind.spelling ++ " ")) rest [Chain.opFace kind] :=
  (mark hmixed hkind (endsMark_space (List.mem_filter.1 hkind).1)).before_space.behind_space

/-- A comma, and a space behind it. -/
theorem comma (hmixed : options.mixed = false) :
    Lexes options pending ", " rest [Chain.opFace .comma] := by
  have hmark : Lexes options pending Token.Kind.comma.spelling (.char ' ' :: rest)
      [Chain.opFace .comma] := .solid hmixed (by decide)
  exact hmark.before_space

/-- A text between two brackets is read as its tokens between those of the brackets. -/
theorem bracketed {opening closing : Token.Kind} {body : String} (hmixed : options.mixed = false)
    (hopening : opening ∈ solidMarks)
    (hclosing : closing ∈ [Token.Kind.rparen, .rbrack, .rbrace])
    (hbody : BeforeEnd options body faces) :
    Lexes options pending (opening.spelling ++ body ++ closing.spelling) rest
      (Chain.opFace opening :: (faces ++ [Chain.opFace closing])) := by
  have hclosers : ∀ closing ∈ [Token.Kind.rparen, .rbrack, .rbrace], closing ∈ solidMarks := by
    decide
  have hends : EndsNumber (Glyph.ofText closing.spelling ++ rest) := by
    simp only [List.mem_cons, List.not_mem_nil, or_false] at hclosing
    rcases hclosing with rfl | rfl | rfl <;> rintro g ⟨⟩ <;> decide
  have hopen (rest : List Glyph) :
      Lexes options pending opening.spelling rest [Chain.opFace opening] := .solid hmixed hopening
  have hclose (pending : Bool) :
      Lexes options pending closing.spelling rest [Chain.opFace closing] :=
    .solid hmixed (hclosers closing hclosing)
  exact ((hopen _).append (hbody _ _ hends)).append (hclose _)

end Lexes

namespace Fence

/-- Words that open blocks are words, and read as braces. -/
theorem opening_word : ∀ word ∈ Token.Kind.blockOpeners,
    isWord word = true ∧ Token.Kind.ofWord word = .lbrace := by
  decide +kernel

theorem closing_word : ∀ word ∈ Token.Kind.blockClosers,
    isWord word = true ∧ Token.Kind.ofWord word = .rbrace := by
  decide +kernel

/-- A fenced text is read as its tokens between those of the fence. -/
theorem lexes (fence : Fence) {body : String} (hmixed : options.mixed = false)
    (hbody : Lexes.BeforeEnd options body faces) :
    Lexes.BeforeEnd options (fence.around body) (fence.opener :: (faces ++ [fence.closer])) := by
  intro pending rest hend
  cases fence with
  | braces =>
    have hall : Lexes options pending
        (Token.Kind.lbrace.spelling ++ body ++ Token.Kind.rbrace.spelling) rest _ :=
      .bracketed hmixed (by decide) (by decide) hbody
    exact hall
  | words opening closing =>
    obtain ⟨hopening, hlbrace⟩ := opening_word _ opening.2
    obtain ⟨hclosing, hrbrace⟩ := closing_word _ closing.2
    have hopen (rest : List Glyph) :
        Lexes options pending (opening ++ " ") rest [⟨.lbrace, opening⟩] :=
      .spacedWord opening .lbrace hmixed hopening hlbrace (by decide)
    have hclose (pending : Bool) : Lexes options pending closing rest [⟨.rbrace, closing⟩] :=
      .keyword closing .rbrace hmixed hclosing hrbrace (by decide) hend.isLetter_eq
    exact (((hopen _).append (hbody _ _ endsNumber_space)).before_space).append (hclose _)

end Fence

namespace Command

theorem texts_eq_map (script : List (Command α β)) : texts w v script = script.map (text w v) := by
  induction script with
  | nil => rfl
  | cons s rest ih => rw [texts, ih, List.map_cons]

theorem allFaces_eq_map (script : List (Command α β)) :
    allFaces w v script = script.map (Command.faces w v) := by
  induction script with
  | nil => rfl
  | cons s rest ih => rw [allFaces, ih, List.map_cons]

/-- A statement may end behind every statement. -/
theorem endsStatement (hw : w.Lexed options) (hv : v.Lexed options) (s : Command α β) :
    EndsStatement (Command.faces w v s) := by
  have hfence (fence : Fence) (front : List Token.Face) :
      EndsStatement (front ++ [fence.closer]) := by
    refine .append (.singleton ?_) _
    rw [fence.closer_kind]
    rfl
  cases s with
  | assign x op isAssign e => exact (hw.endsStatement e).append [_, _]
  | ifThen test fence body =>
    have h := hfence fence (⟨.ifWord, "if"⟩ :: (v.faces test ++
      fence.opener :: bodyFaces (allFaces w v body)))
    simpa only [Command.faces, List.cons_append, List.append_assoc] using h
  | ifElse test fence body elseFence otherwise =>
    have h := hfence elseFence (⟨.ifWord, "if"⟩ :: (v.faces test ++
      fence.opener :: (bodyFaces (allFaces w v body) ++
        fence.closer :: ⟨.elseWord, "else"⟩ :: elseFence.opener ::
          bodyFaces (allFaces w v otherwise))))
    simpa only [Command.faces, List.cons_append, List.append_assoc] using h
  | each key value list fence body =>
    have h := hfence fence (⟨.forWord, "for"⟩ :: key.face ::
      ((value.map fun x => [Chain.opFace .comma, x.face]).getD [] ++
        ⟨.inWord, "in"⟩ :: (w.faces list ++
          fence.opener :: bodyFaces (allFaces w v body))))
    simpa only [Command.faces, List.cons_append, List.append_assoc] using h
  | block fence body => exact hfence fence (fence.opener :: bodyFaces (allFaces w v body))
  | ret result =>
    cases result with
    | none => exact .singleton rfl
    | some e => exact (hw.endsStatement e).append [_]
  | expr e => exact hv.endsStatement e

/-- Statements with semicolons between them are read as their tokens. -/
theorem body_lexes {body : List (Command α β)} (hmixed : options.mixed = false)
    (h : ∀ s ∈ body, Lexes.BeforeEnd options (text w v s) (Command.faces w v s)) :
    Lexes.BeforeEnd options ("; ".intercalate (texts w v body))
      (bodyFaces (allFaces w v body)) := by
  intro pending rest hend
  let items := body.map fun s => (text w v s, Command.faces w v s)
  have hitems : ∀ item ∈ items, Lexes.BeforeEnd options item.1 item.2 := by
    intro item hitem
    obtain ⟨s, hs, rfl⟩ := List.mem_map.1 hitem
    exact h s hs
  have hseparator (pending : Bool) (rest : List Glyph) :
      Lexes options pending "; " rest [semicolon] := (Lexes.semicolon hmixed).before_space
  have hends (rest : List Glyph) : EndsNumber (Glyph.ofText "; " ++ rest) := by
    rintro g ⟨⟩
    decide
  have hall : Lexes options pending _ rest _ :=
    Lexes.intercalate hseparator hends hitems hend
  rw [List.map_map, List.map_map] at hall
  rw [texts_eq_map, allFaces_eq_map]
  exact hall

/-- What stands before the collection in a loop. -/
theorem names_lexes (hmixed : options.mixed = false) (key : Template.Name)
    (value : Option Template.Name) :
    Lexes options pending ("for " ++ key.text ++ led ", " (value.map (·.text)) ++ " in ")
      rest (⟨.forWord, "for"⟩ :: key.face ::
        ((value.map fun x => [Chain.opFace .comma, x.face]).getD [] ++ [⟨.inWord, "in"⟩])) := by
  have hfor (rest : List Glyph) : Lexes options pending "for " rest [⟨.forWord, "for"⟩] :=
    .spacedWord "for" .forWord hmixed rfl rfl (by decide)
  have hin (pending : Bool) : Lexes options pending " in " rest [⟨.inWord, "in"⟩] :=
    (Lexes.spacedWord "in" .inWord hmixed rfl rfl (by decide)).behind_space
  have hname (pending : Bool) (x : Template.Name) {rest : List Glyph} (hend : EndsNumber rest) :
      Lexes options pending x.text rest [x.face] := .name hmixed x hend.isLetter_eq
  cases value with
  | none =>
    have hall : Lexes options pending ("for " ++ key.text ++ "" ++ " in ") rest _ :=
      .append (.append (.append (hfor _) (hname _ key endsNumber_space)) .nil) (hin _)
    exact hall
  | some x =>
    have hends (rest : List Glyph) : EndsNumber (Glyph.ofText (", " ++ x.text) ++ rest) := by
      rw [Glyph.ofText_append]
      rintro g ⟨⟩
      decide
    have hall : Lexes options pending
        ("for " ++ key.text ++ (", " ++ x.text) ++ " in ") rest _ :=
      .append (.append (.append (hfor _) (hname _ key (hends _)))
        (.append (.comma hmixed) (hname _ x endsNumber_space))) (hin _)
    exact hall

mutual

/-- A statement is read as its tokens. -/
theorem lexes (hmixed : options.mixed = false) (hw : w.Lexed options) (hv : v.Lexed options) :
    ∀ s : Command α β, Lexes.BeforeEnd options (text w v s) (Command.faces w v s)
  | assign x op isAssign e => by
    intro pending rest hend
    have hall : Lexes options pending (x.text ++ " " ++ op.spelling ++ " " ++ w.text e) rest _ :=
      .append (.before_space (.append (.before_space (.name hmixed x endsNumber_space.isLetter_eq))
        (.assignment hmixed isAssign))) (hw.lexes e _ _ hend)
    exact hall
  | ifThen test fence body => by
    intro pending rest hend
    have hbody := fence.lexes hmixed (body_lexes hmixed (lexesAll hmixed hw hv body))
    have hall : Lexes options pending ("if " ++ v.text test ++ " " ++
        fence.around ("; ".intercalate (texts w v body))) rest _ :=
      .append (.before_space (.append
        (.spacedWord "if" .ifWord hmixed rfl rfl (by decide))
        (hv.lexes test _ _ endsNumber_space))) (hbody _ _ hend)
    exact hall
  | ifElse test fence body elseFence otherwise => by
    intro pending rest hend
    have hbody := fence.lexes hmixed (body_lexes hmixed (lexesAll hmixed hw hv body))
    have hotherwise := elseFence.lexes hmixed (body_lexes hmixed (lexesAll hmixed hw hv otherwise))
    have hall : Lexes options pending ("if " ++ v.text test ++ " " ++
        fence.around ("; ".intercalate (texts w v body)) ++ " else " ++
        elseFence.around ("; ".intercalate (texts w v otherwise))) rest _ :=
      .append (.append (.append (.before_space (.append
        (.spacedWord "if" .ifWord hmixed rfl rfl (by decide))
        (hv.lexes test _ _ endsNumber_space))) (hbody _ _ endsNumber_space))
        (.behind_space (.spacedWord "else" .elseWord hmixed rfl rfl (by decide))))
        (hotherwise _ _ hend)
    simpa only [text, Command.faces, List.append_assoc, List.cons_append, List.nil_append]
      using hall
  | each key value list fence body => by
    intro pending rest hend
    have hbody := fence.lexes hmixed (body_lexes hmixed (lexesAll hmixed hw hv body))
    have hall : Lexes options pending ("for " ++ key.text ++ led ", " (value.map (·.text)) ++
        " in " ++ w.text list ++ " " ++ fence.around ("; ".intercalate (texts w v body))) rest _ :=
      .append (.before_space (.append (names_lexes hmixed key value)
        (hw.lexes list _ _ endsNumber_space))) (hbody _ _ hend)
    simpa only [text, Command.faces, List.append_assoc, List.cons_append, List.nil_append]
      using hall
  | block fence body => fence.lexes hmixed (body_lexes hmixed (lexesAll hmixed hw hv body))
  | ret none => by
    intro pending rest hend
    have hword : Lexes options pending "return" rest [⟨.returnWord, "return"⟩] :=
      .keyword "return" .returnWord hmixed rfl rfl (by decide) hend.isLetter_eq
    exact hword
  | ret (some e) => by
    intro pending rest hend
    have hspace : EndsNumber (Glyph.ofText (" " ++ w.text e) ++ rest) := by
      rw [Glyph.ofText_append]
      exact endsNumber_space
    have hall : Lexes options pending ("return" ++ (" " ++ w.text e)) rest _ :=
      .append (.keyword "return" .returnWord hmixed rfl rfl (by decide) hspace.isLetter_eq)
        (.behind_space (hw.lexes e _ _ hend))
    exact hall
  | expr e => hv.lexes e

theorem lexesAll (hmixed : options.mixed = false) (hw : w.Lexed options) (hv : v.Lexed options) :
    ∀ body : List (Command α β),
      ∀ s ∈ body, Lexes.BeforeEnd options (text w v s) (Command.faces w v s)
  | [] => List.forall_mem_nil _
  | s :: rest => List.forall_mem_cons.2 ⟨lexes hmixed hw hv s, lexesAll hmixed hw hv rest⟩

end

/-- A script is read as its tokens. -/
theorem source_lexes (hmixed : options.mixed = false) (hauto : options.noAutoSemicolons = false)
    (hw : w.Lexed options) (hv : v.Lexed options) (script : List (Command α β)) :
    Lexes options false (source w v script) [] (sourceFaces w v script) ∧
      pendingBehind options false (sourceFaces w v script) = false := by
  induction script with
  | nil => exact ⟨.nil, rfl⟩
  | cons s script ih =>
    have hsource : source w v (s :: script) = text w v s ++ "\n" ++ source w v script :=
      String.join_cons ..
    have hfaces : sourceFaces w v (s :: script) =
        Command.faces w v s ++ [.lineBreak] ++ sourceFaces w v script := rfl
    have hend : EndsNumber (Glyph.ofText "\n" ++ (Glyph.ofText (source w v script) ++ [])) := by
      rintro g ⟨⟩
      decide
    have hpending : pendingBehind options false (Command.faces w v s) = true := by
      rw [(endsStatement hw hv s).pendingBehind_eq, hauto]
      rfl
    have hbreak : Lexes options (pendingBehind options false (Command.faces w v s)) "\n"
        (Glyph.ofText (source w v script) ++ []) [.lineBreak] := by
      rw [hpending]
      exact .lineBreak hmixed
    have hline := (lexes hmixed hw hv s false _ hend).append hbreak
    have hbehind : pendingBehind options false (Command.faces w v s ++ [.lineBreak]) = false := by
      rw [pendingBehind_append]
      rfl
    rw [hsource, hfaces, pendingBehind_append, hbehind]
    refine ⟨hline.append ?_, ih.2⟩
    rw [hbehind]
    exact ih.1

/-- The tokens of a source that is a script. -/
theorem source_gives (hmixed : options.mixed = false) (hauto : options.noAutoSemicolons = false)
    (hw : w.Lexed options) (hv : v.Lexed options) (script : List (Command α β)) {c : Cursor}
    {glyphs : List Glyph} (h : c.InScript options false (Glyph.ofText (source w v script)))
    (hin : c.InSource glyphs) :
    c.GivesIn (.lines glyphs) (sourceFaces w v script ++ [⟨.eof, ""⟩]) := by
  obtain ⟨hlexes, hpending⟩ := source_lexes hmixed hauto hw hv script
  rw [← List.append_nil (Glyph.ofText _)] at h
  refine hlexes.gives ⟨hin, 0, h⟩ rfl fun later hlater => ?_
  rw [hpending] at hlater
  exact hlater.gives_end hmixed

end Command

end TemplateScript
