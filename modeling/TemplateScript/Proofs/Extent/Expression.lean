import TemplateScript.Proofs.Extent.Params

/-!
# Extents of expressions

Every phrase for an expression promises a tree between the token it begins at and the one behind it.
A tree that a token closes ends where the token does, any other where its last part does. Selections
by name and tests for nil end up to two bytes later.
-/

namespace TemplateScript

namespace Grammar

open Parse

variable {given : Prop} {deep : Nested} {t u : Token} {lo : Pos}

/-! ### Blocks -/

theorem closeBlock_covers :
    Covers given t closeBlock fun rbrace u => rbrace = t.pos ∧ t.pos + 1 ≤ u.pos := by
  unfold closeBlock
  refine .pos_bind (.isFull_bind (.pure False.elim) (.kind_bind ?_))
  split
  · next hkind => exact .next_bind fun u hu => .pure fun _ => ⟨rfl, hu.succ_le hkind rfl⟩
  · exact (Covers.errorAt _ _).bind fun _ _ _ => .pure fun h => h.1.elim
  · exact .failExpected _

theorem block_covers (hdeep : deep.Covers) :
    Covers given t (block deep) fun body u => body.Within t.pos u.pos := by
  unfold block
  refine .expect_bind fun u _ hu => ((hdeep.stmts u).weaken fun _ => trivial).bind
    fun stmts v hv => closeBlock_covers.bind fun rbrace w hw => .pure ?_
  rintro ⟨⟨rfl, hend⟩, hstmts, -⟩
  exact ⟨Nat.le_refl _, Nat.le_trans hu.le hv, fun s hs => (hstmts s hs).since hu.le, hend⟩

/-! ### Operands -/

/-- A closure ends with its body. -/
theorem closure_covers (hdeep : deep.Covers) {pos : Pos} {params : Params Expr}
    (hpos : pos ≤ t.pos) :
    Covers (params.Within pos t.pos ∧ given) t (closure deep pos params)
      fun e u => e.Within pos u.pos := by
  unfold closure
  refine .expect_bind fun u _ hu => ((hdeep.expr u).weaken fun _ => trivial).bind
    fun body v hv => .pure ?_
  rintro ⟨hbody, hparams, -⟩
  have hbehind := Nat.le_trans hu.le hbody.lo_le
  refine .ending (.expr body) (Nat.le_refl _) rfl List.mem_cons_self
    (hbody.since (Nat.le_trans hpos hu.le)) ?_
  refine List.forall_mem_cons.2 ⟨.inl rfl, List.forall_mem_map.2 fun e he => .inr ?_⟩
  exact (hparams e he).upTo hbehind

theorem separator_covers : Covers given t Grammar.separator fun _ _ => True := by
  unfold Grammar.separator
  refine Covers.skipLineBreaks.bind fun _ u _ => .accept_bind (fun v _ _ => ?_) fun _ => ?_
  · exact Covers.skipLineBreaks.bind fun _ _ _ => .pure fun _ => trivial
  · exact .pure fun _ => trivial

/-- Entries lie where each of them promises to. -/
theorem entries_covers {α : Type} {P : Pos → Pos → α → Prop} (closing : Token.Kind)
    {entry : Parse α}
    (hmono : ∀ {a lo hi lo' hi'}, P lo hi a → lo' ≤ lo → hi ≤ hi' → P lo' hi' a)
    (hentry : ∀ t, Covers True t entry fun a u => P t.pos u.pos a) :
    Covers given t (entries closing entry) fun list u => ∀ a ∈ list, P t.pos u.pos a := by
  unfold entries
  refine Covers.skipLineBreaks.bind fun _ u hu => ?_
  refine .loop_kept (fun list v => ∀ a ∈ list, P t.pos v.pos a)
    (fun _ => List.forall_mem_nil _) fun list v hv => .kind_bind ?_
  split
  · exact .pure fun h => h.1
  · refine ((hentry v).weaken fun _ => trivial).bind fun a w hw => separator_covers.bind
      fun more x hx => ?_
    have hmore (hlist : ∀ b ∈ list, P t.pos v.pos b) (ha : P v.pos w.pos a) :
        ∀ b ∈ list ++ [a], P t.pos x.pos b := by
      intro b hb
      rcases List.mem_append.1 hb with hb | hb
      · exact hmono (hlist b hb) (Nat.le_refl _) (Nat.le_trans hw hx)
      · rw [List.mem_singleton.1 hb]
        exact hmono ha (Nat.le_trans hu hv) hx
    split
    · exact .pure fun ⟨_, ha, hlist, _⟩ => hmore hlist ha
    · exact .pure fun ⟨_, ha, hlist, _⟩ => hmore hlist ha

theorem array_covers (hdeep : deep.Covers) :
    Covers given t (array deep) fun e u => e.Within t.pos u.pos := by
  unfold array
  refine .expect_bind fun u _ hu => (entries_covers (P := fun lo hi (e : Expr) => e.Within lo hi) _
    (fun h => h.mono) hdeep.expr).bind fun elements v hv => .expect_bind fun w hclose hw => .pure ?_
  rintro ⟨helements, -⟩
  refine .closed (Nat.le_refl _) (Nat.le_trans hu.le hv) (Nat.le_succ _)
    (hw.succ_le hclose rfl) (List.forall_mem_map.2 fun e he => ?_)
  exact ((helements e he).since hu.le).anywhere

theorem dictKey_covers : Covers given t dictKey fun _ _ => True := by
  unfold dictKey
  refine .token_bind ?_
  dsimp only
  split
  · exact .next_bind fun _ _ => .pure fun _ => trivial
  · exact .failExpected _

theorem dictEntry_covers (hdeep : deep.Covers) :
    Covers given t (dictEntry deep) fun entry u => entry.value.Within t.pos u.pos := by
  unfold dictEntry
  refine .pos_bind (dictKey_covers.bind fun key u hu => .expect_bind fun v _ hv =>
    ((hdeep.expr v).weaken fun _ => trivial).bind fun value w hw => .pure ?_)
  exact fun h => h.1.since (Nat.le_trans hu hv.le)

theorem dict_covers (hdeep : deep.Covers) :
    Covers given t (dict deep) fun e u => e.Within t.pos u.pos := by
  unfold dict
  refine .expect_bind fun u _ hu => (entries_covers
    (P := fun lo hi (entry : DictEntry Expr) => entry.value.Within lo hi) _ (fun h => h.mono)
    fun t => dictEntry_covers hdeep).bind fun list v hv => .expect_bind fun w hclose hw => .pure ?_
  rintro ⟨hlist, -⟩
  refine .closed (Nat.le_refl _) (Nat.le_trans hu.le hv) (Nat.le_succ _)
    (hw.succ_le hclose rfl) (List.forall_mem_map.2 fun entry hentry => ?_)
  exact ((hlist entry hentry).since hu.le).anywhere

/-- A key and its value in a range. -/
def KeyValueWithin (lo hi : Pos) (entry : KeyValue Expr) : Prop :=
  ∀ e ∈ entry.parts, e.Within lo hi

theorem KeyValueWithin.mono {entry : KeyValue Expr} {lo hi lo' hi' : Pos}
    (h : KeyValueWithin lo hi entry) (hlo : lo' ≤ lo) (hhi : hi ≤ hi') :
    KeyValueWithin lo' hi' entry :=
  fun e he => (h e he).mono hlo hhi

theorem within_keyValues {entries : List (KeyValue Expr)} {lo hi : Pos}
    (h : ∀ entry ∈ entries, KeyValueWithin lo hi entry) :
    ∀ m ∈ (entries.flatMap KeyValue.parts).map Node.expr, m.Within lo hi := by
  refine List.forall_mem_map.2 fun e he => ?_
  obtain ⟨entry, hentry, he⟩ := List.mem_flatMap.1 he
  exact h entry hentry e he

theorem keyValue_covers (hdeep : deep.Covers) :
    Covers given t (keyValue deep) fun entry u => KeyValueWithin t.pos u.pos entry := by
  unfold keyValue
  refine argName_covers.bind fun key u hu => .accept_bind (fun v _ hv => ?_) fun _ => .pure ?_
  · refine ((hdeep.expr v).weaken fun _ => trivial).bind fun value w hw => .pure ?_
    rintro ⟨hvalue, ⟨hkey, -⟩, -⟩
    have hbegin := Nat.le_trans hu hv.le
    exact List.forall_mem_cons.2 ⟨hkey.upTo (Nat.le_trans hv.le hw),
      List.forall_mem_singleton.2 (hvalue.since hbegin)⟩
  · exact fun h => List.forall_mem_singleton.2 h.1.1

theorem parenthesized_covers (hdeep : deep.Covers) :
    Covers given t (parenthesized deep) fun e u => e.Within t.pos u.pos := by
  unfold parenthesized
  refine .expect_bind fun u _ hu => .token_bind ?_
  split
  · refine .next_bind fun v hv => (entries_covers
      (P := KeyValueWithin) _ (fun h => h.mono) fun t => keyValue_covers hdeep).bind
        fun list w hw => .expect_bind fun x hclose hx => .pure ?_
    rintro ⟨hlist, -⟩
    have hbegin := Nat.le_trans hu.le hv.le
    refine .closed (Nat.le_refl _) (Nat.le_trans hbegin hw) (Nat.le_succ _)
      (hx.succ_le hclose rfl) fun m hm => ?_
    exact ((within_keyValues hlist m hm).since hbegin).anywhere
  · refine (argList_covers hdeep).bind fun (args, separated) v hv => .expect_bind
      fun w hclose hw => .kind_bind ?_
    have hend := Nat.le_trans hu.le hv
    split
    · refine ((paramsOfArgs_covers _ args _).weaken fun h =>
        ⟨h.1.mono hu.le hw.le, trivial⟩).bind fun params x hx => ?_
      exact (closure_covers hdeep (Nat.le_trans hend (Nat.le_trans hw.le hx))).weaken
        fun h => ⟨h.1, trivial⟩
    · split
      · next e hsingle =>
        refine .pure ?_
        rintro ⟨hargs, -⟩
        have hwritten : args.IsWritten := by
          rw [Args.eq_of_single? hsingle]
          exact List.forall_mem_nil _
        have he : e ∈ args.parts := by
          rw [Args.eq_of_single? hsingle]
          exact List.mem_cons_self
        refine .closed (Nat.le_refl _) hend (Nat.le_succ _) (hw.succ_le hclose rfl)
          (List.forall_mem_singleton.2 ?_)
        exact ((hargs e he).since hu.le).surely fun _ => hwritten
      · refine .pure fun h => ?_
        refine .closed (Nat.le_refl _) hend (Nat.le_succ _) (hw.succ_le hclose rfl)
          (List.forall_mem_map.2 fun e he => ?_)
        exact (h.1 e he).since hu.le

theorem func_covers (hdeep : deep.Covers) :
    Covers given t (func deep) fun e u => e.Within t.pos u.pos := by
  unfold func
  refine .expect_bind fun u _ hu => .kind_bind ?_
  refine .ite_bind (fun _ _ => True) (fun _ => ?_) (fun _ => .pure fun _ => trivial)
    fun name v hv => .expect_bind fun w _ hw => (paramList_covers hdeep v.pos).bind
      fun params x hx => .expect_bind fun y _ hy => .kind_bind ?_
  · exact .expectIdent_bind fun _ _ _ => .pure fun _ => trivial
  have hparams := Nat.le_trans hu.le (Nat.le_trans hv hw.le)
  have hend := Nat.le_trans hparams (Nat.le_trans hx hy.le)
  split
  · exact (closure_covers hdeep hend).weaken fun h =>
      ⟨fun e he => ((h.1 e he).mono hparams hy.le).anywhere, trivial⟩
  · refine (block_covers hdeep).bind fun body z hz => .pure ?_
    rintro ⟨hbody, hdefaults, -⟩
    have hopen := Nat.le_trans hy.le (Nat.le_trans hbody.lo_le hbody.le)
    refine .closed (Nat.le_refl _) (Nat.le_trans hend (Nat.le_trans hbody.lo_le hbody.le))
      (Nat.le_succ _) hbody.stop_le (List.forall_mem_append.2 ⟨?_, fun m hm => ?_⟩)
    · exact List.forall_mem_map.2 fun e he => ((hdefaults e he).mono hparams hopen).anywhere
    · exact ((hbody.parts m hm).since hend).anywhere

theorem load_covers (kind : LoadKind) :
    Covers given t (load kind) fun e u => e.Within t.pos u.pos := by
  unfold load
  refine .pos_bind (.next_bind fun u hu => .expect_bind fun v _ hv => .token_bind ?_)
  dsimp only
  split
  · refine .next_bind fun w hw => .expect_bind fun x hclose hx => .pure fun _ => ?_
    have hbegin := Nat.le_trans hu.le (Nat.le_trans hv.le hw.le)
    exact .leaf rfl (Nat.le_refl _) (Nat.le_succ_of_le hbegin) (hx.succ_le hclose rfl)
  · exact .failExpected _

theorem single_covers {e : Expr} (h : ∀ u, t.Precedes u → e.Within t.pos u.pos) :
    Covers given t (single e) fun e u => e.Within t.pos u.pos :=
  .next_bind fun u hu => .pure fun _ => h u hu

/-- A literal that is a keyword. -/
theorem single_literal_covers {value : Value} (hfixed : t.kind.isFixed = true) :
    Covers given t (single (.literal ⟨value, t.text, t.pos⟩)) fun e u => e.Within t.pos u.pos :=
  single_covers fun _ hu => .leaf rfl (Nat.le_refl _) (Nat.le_add_right ..)
    (hu.text_le (Token.isWritten_of_isFixed hfixed))

/-- A keyword that is an expression. -/
theorem single_word_covers {word : Word} {kind : Token.Kind} (hkind : t.kind = kind)
    (hfixed : kind.isFixed = true) (hword : word.spelling = kind.spelling) :
    Covers given t (single (.word word t.pos)) fun e u => e.Within t.pos u.pos :=
  single_covers fun _ hu => .leaf rfl (Nat.le_refl _) (Nat.le_add_right ..)
    (Nat.le_trans (Nat.le_of_eq (congrArg (t.pos + ·.utf8ByteSize) hword))
      (hu.spelling_le hkind hfixed))

theorem operand_covers (hdeep : deep.Covers) :
    Covers given t (operand deep) fun e u => e.Within t.pos u.pos := by
  have hliteral (kind : Token.Kind) (hkind : t.kind = kind) (hmem : kind ∈ literalKinds) :
      Covers given t literal fun e u => e.Within t.pos u.pos :=
    (literal_covers (hkind ▸ hmem)).promised fun _ _ h => h.1
  unfold operand
  refine .token_bind ?_
  dsimp only
  split
  case h_1 hkind =>
    refine .expectIdent_bind fun u _ hu => .kind_bind ?_
    split
    · exact (closure_covers hdeep hu.le).weaken fun _ =>
        ⟨fun e he => by simp [Params.defaults] at he, trivial⟩
    · exact .pure fun _ => within_ident hkind hu
  case h_10 hkind => exact single_literal_covers (hkind ▸ rfl)
  case h_11 hkind => exact single_literal_covers (hkind ▸ rfl)
  case h_12 hkind => exact single_literal_covers (hkind ▸ rfl)
  case h_13 hkind => exact single_literal_covers (hkind ▸ rfl)
  case h_14 hkind => exact single_word_covers hkind rfl rfl
  case h_15 hkind => exact single_word_covers hkind rfl rfl
  case h_16 hkind => exact single_word_covers hkind rfl rfl
  case h_17 hkind => exact single_word_covers hkind rfl rfl
  case h_18 => exact array_covers hdeep
  case h_19 => exact dict_covers hdeep
  case h_20 => exact parenthesized_covers hdeep
  case h_21 => exact func_covers hdeep
  case h_22 => exact load_covers _
  case h_23 => exact load_covers _
  case h_24 hkind =>
    refine .next_bind fun u hu => .atExprEnd_bind fun ends => ?_
    split
    · exact .pure fun _ => .leaf rfl (Nat.le_refl _) (Nat.le_add_right ..)
        (hu.spelling_le hkind rfl)
    · refine ((hdeep.expr u).weaken fun _ => trivial).bind fun result v hv => .pure fun h => ?_
      exact .ending (.expr result) (Nat.le_refl _) rfl List.mem_cons_self (h.1.since hu.le)
        (List.forall_mem_singleton.2 (.inl rfl))
  case h_25 => exact .failAt _ _
  all_goals
    next hkind => exact hliteral _ hkind (by decide)

/-! ### What follows an operand -/

/-- The name of a selection has quotes that the source does not have. -/
theorem within_selection {base : Expr} {nullish : Bool} {mid : Pos}
    (hbase : base.Within lo mid) (hmid : mid ≤ t.pos) (hu : t.Precedes u)
    (hwritten : t.isWritten = true) :
    (Expr.selector base (.literal ⟨.string t.text, "\"" ++ t.text ++ "\"", t.pos⟩) nullish).Within
      lo u.pos := by
  have htext := hu.text_le hwritten
  have hbegin : base.pos ≤ t.pos := Nat.le_trans hbase.pos_le hmid
  have hstop : t.pos + ("\"" ++ t.text ++ "\"").utf8ByteSize = t.pos + t.text.utf8ByteSize + 2 := by
    have hquote : "\"".utf8ByteSize = 1 := rfl
    rw [String.utf8ByteSize_append, String.utf8ByteSize_append, hquote]
    lia
  have hquotes : t.pos + t.text.utf8ByteSize ≤
      t.pos + ("\"" ++ t.text ++ "\"").utf8ByteSize := by
    rw [hstop]
    exact Nat.le_add_right ..
  have htoken : t.pos ≤ t.pos + t.text.utf8ByteSize := Nat.le_add_right ..
  refine .closed_if hbase.lo_le (Nat.le_trans hbegin htoken) hquotes htext ?_ ?_
  · rintro slack (hslack | ⟨-, hnot⟩)
    · exact Nat.le_trans (Nat.le_of_eq hstop) (Nat.add_le_add htext hslack)
    · exact hnot.elim
  · refine List.forall_mem_cons.2 ⟨?_, List.forall_mem_singleton.2 ?_⟩
    · exact (hbase.from_pos.upTo (Nat.le_trans hmid htoken)).anywhere
    · refine .closed_if hbegin (Nat.le_refl _) (Nat.le_add_right ..) htoken ?_
        (List.forall_mem_nil _)
      rintro slack (hslack | ⟨hnot, -⟩)
      · exact Nat.le_trans (Nat.le_of_eq hstop) (Nat.add_le_add_left hslack _)
      · exact hnot.elim

theorem selection_covers (hdeep : deep.Covers) {base : Expr} :
    Covers (base.Within lo t.pos ∧ given) t (selection deep base)
      fun e u => e.Within lo u.pos := by
  unfold selection
  refine .kind_bind (.next_bind fun u hu => .token_bind ?_)
  split
  · refine .next_bind fun v hv => ((hdeep.expr v).weaken fun _ => trivial).bind
      fun name w hw => .expect_bind fun x _ hx => .pure ?_
    rintro ⟨hname, hbase, -⟩
    have hbegin : base.pos ≤ v.pos := Nat.le_trans hbase.pos_le (Nat.le_trans hu.le hv.le)
    refine .ending (.expr name) hbase.lo_le rfl (List.mem_cons_of_mem _ List.mem_cons_self)
      (hname.mono hbegin hx.le) (List.forall_mem_cons.2 ⟨.inr ?_, ?_⟩)
    · exact (hbase.from_pos.upTo
        (Nat.le_trans hu.le (Nat.le_trans hv.le hname.lo_le))).anywhere
    · exact List.forall_mem_singleton.2 (.inl rfl)
  · split
    · next hkind =>
      have hwritten : u.isWritten = true := by
        have hkinds : ∀ kind ∈ .ident :: Token.Kind.keywords,
            kind ≠ .semicolon ∧ kind ≠ .pragmaEnd ∧ kind ≠ .eof := by decide
        have hmem : u.kind ∈ .ident :: Token.Kind.keywords := by
          simpa [Token.Kind.isKeyword, List.contains_iff_mem] using hkind
        obtain ⟨hsemicolon, hends, heof⟩ := hkinds _ hmem
        exact Token.isWritten_of_kind hsemicolon hends heof
      exact .next_bind fun v hv => .pure fun h => within_selection h.1 hu.le hv hwritten
    · exact .failExpected _

/-- What stands between brackets behind an expression lies behind it. -/
theorem sliceEnd_covers (hdeep : deep.Covers) {base : Expr} {lbrack : Pos} {low : Option Expr}
    (hlbrack : lbrack ≤ t.pos) :
    Covers (base.Within lo lbrack ∧ (∀ e ∈ low, e.Within lbrack t.pos) ∧ given) t
      (sliceEnd deep base lbrack low) fun e u => e.Within lo u.pos := by
  unfold sliceEnd
  refine .next_bind fun u hu => .kind_bind ?_
  refine .ite_bind (fun high v => ∀ e ∈ high, e.Within u.pos v.pos) (fun _ => .pure fun _ => nofun)
    (fun _ => ((hdeep.expr u).weaken fun _ => trivial).map fun _ e v hv he => by simpa using he)
    fun high v hv => .expect_bind fun w hclose hw => .pure ?_
  rintro ⟨hhigh, hbase, hlow, -⟩
  have hbegin : base.pos ≤ lbrack := hbase.pos_le
  have hend := Nat.le_trans hu.le hv
  refine .closed hbase.lo_le (Nat.le_trans hbegin (Nat.le_trans hlbrack hend)) (Nat.le_succ _)
    (hw.succ_le hclose rfl) (List.forall_mem_cons.2 ⟨?_, List.forall_mem_map.2 fun e he => ?_⟩)
  · exact (hbase.from_pos.upTo (Nat.le_trans hlbrack hend)).anywhere
  · rcases List.mem_append.1 he with he | he
    · exact ((hlow e (Option.mem_toList.1 he)).mono hbegin hend).anywhere
    · have hopen := Nat.le_trans hbegin (Nat.le_trans hlbrack hu.le)
      exact ((hhigh e (Option.mem_toList.1 he)).since hopen).anywhere

theorem indexOrSlice_covers (hdeep : deep.Covers) {base : Expr} :
    Covers (base.Within lo t.pos ∧ given) t (indexOrSlice deep base)
      fun e u => e.Within lo u.pos := by
  unfold indexOrSlice
  refine .expect_bind fun u _ hu => .kind_bind ?_
  split
  · exact (sliceEnd_covers hdeep hu.le).weaken fun h => ⟨h.1, by simp, trivial⟩
  · refine ((hdeep.expr u).weaken fun _ => trivial).bind fun low v hv => .kind_bind ?_
    have hend := Nat.le_trans hu.le hv
    split
    · exact (sliceEnd_covers hdeep hend).weaken fun h =>
        ⟨h.2.1, by simpa using h.1.since hu.le, trivial⟩
    · refine .expect_bind fun w hclose hw => .pure ?_
      rintro ⟨hlow, hbase, -⟩
      have hbegin : base.pos ≤ t.pos := hbase.pos_le
      refine .closed hbase.lo_le (Nat.le_trans hbegin hend) (Nat.le_succ _) (hw.succ_le hclose rfl)
        (List.forall_mem_cons.2 ⟨?_, List.forall_mem_singleton.2 ?_⟩)
      · exact (hbase.from_pos.upTo hend).anywhere
      · exact (hlow.since (Nat.le_trans hbegin hu.le)).anywhere

/-- The arguments of a call lie between its parentheses. -/
structure CallWithin (lo hi : Pos) (call : Pos × Args Expr × Pos) : Prop where
  lo_le : lo ≤ call.2.2
  args : call.2.1.Within lo call.2.2
  stop_le : call.2.2 + 1 ≤ hi

theorem callArgs_covers (hdeep : deep.Covers) :
    Covers given t (callArgs deep) fun call u => CallWithin t.pos u.pos call := by
  unfold callArgs
  refine .expect_bind fun u _ hu => (argList_covers hdeep).bind fun (args, _) v hv =>
    .expect_bind fun w hclose hw => .pure fun h => ?_
  exact ⟨Nat.le_trans hu.le hv, h.1.mono hu.le (Nat.le_refl _), hw.succ_le hclose rfl⟩

/-- A call behind its function ends where its parentheses do. -/
theorem within_call {func : Expr} {call : Pos × Args Expr × Pos} {mid hi : Pos}
    (hfunc : func.Within lo mid) (hcall : CallWithin mid hi call) :
    (Expr.call func call.1 call.2.1 call.2.2 false).Within lo hi := by
  have hpos : (Node.expr (.call func call.1 call.2.1 call.2.2 false)).pos = func.pos :=
    Expr.pos_call ..
  have hbegin : func.pos ≤ mid := hfunc.pos_le
  refine .closed (hpos ▸ hfunc.lo_le) (hpos ▸ Nat.le_trans hbegin hcall.lo_le) (Nat.le_succ _)
    hcall.stop_le ?_
  rw [hpos]
  refine List.forall_mem_cons.2 ⟨(hfunc.from_pos.upTo hcall.lo_le).anywhere, ?_⟩
  exact List.forall_mem_map.2 fun e he => (hcall.args e he).since hbegin

theorem pipedFunc_covers (hdeep : deep.Covers) :
    Covers given t (pipedFunc deep) fun e u => e.Within t.pos u.pos := by
  unfold pipedFunc
  refine (operand_covers hdeep).bind fun first u hu =>
    .loop_kept (fun (f : Expr) v => f.Within t.pos v.pos) (fun h => h.1) fun f v hv => .kind_bind ?_
  split
  · exact ((selection_covers hdeep).weaken fun h => h).bind fun _ _ _ => .pure fun h => h.1
  · exact .pure fun h => h.1

/-- A piped call without parentheses ends with its function. -/
theorem within_piped {first func : Expr} {lparen : Pos} {mid hi : Pos} (hmid : 0 < mid)
    (hfirst : first.Within lo mid) (hfunc : func.Within mid hi) :
    (Expr.call func lparen { positional := [first] } (func.stop - 1) true).Within lo hi := by
  have hbegin : first.pos ≤ mid := hfirst.pos_le
  have hstop : func.stop - 1 + 1 = func.stop := by
    have hpos : 0 < func.pos := Nat.lt_of_lt_of_le hmid hfunc.lo_le
    exact Nat.sub_add_cancel (Nat.lt_of_lt_of_le hpos hfunc.pos_le_stop)
  refine .ending (.expr func) hfirst.lo_le hstop List.mem_cons_self (hfunc.since hbegin) ?_
  refine List.forall_mem_cons.2 ⟨.inl rfl, List.forall_mem_singleton.2 (.inr ?_)⟩
  exact (hfirst.from_pos.upTo hfunc.lo_le).anywhere

theorem pipe_covers (hdeep : deep.Covers) {first : Expr} (hkind : t.kind = .pipe) :
    Covers (first.Within lo t.pos ∧ given) t (pipe deep first) fun e u => e.Within lo u.pos := by
  unfold pipe
  refine .next_bind fun u hu => (pipedFunc_covers hdeep).bind fun f v hv => .kind_bind ?_
  refine .ite_bind (fun call w => CallWithin v.pos w.pos call ∨
    call.2.1 = {} ∧ call.2.2 = f.stop - 1) (fun _ => (callArgs_covers hdeep).promised
      fun _ _ => .inl) (fun _ => .pure fun _ => .inr ⟨rfl, rfl⟩)
    fun (lparen, args, rparen) w hw => .pure ?_
  rintro ⟨hcall | ⟨rfl, rfl⟩, hf, hfirst, -⟩
  · have hbegin : first.pos ≤ t.pos := hfirst.pos_le
    have hend := Nat.le_trans hu.le (Nat.le_trans hv hcall.lo_le)
    have hargs : args.Within first.pos rparen :=
      hcall.args.mono (Nat.le_trans hbegin (Nat.le_trans hu.le hv)) (Nat.le_refl _)
    refine .closed hfirst.lo_le (Nat.le_trans hbegin hend) (Nat.le_succ _) hcall.stop_le
      (List.forall_mem_cons.2 ⟨?_, List.forall_mem_map.2 fun e he => ?_⟩)
    · exact (hf.mono (Nat.le_trans hbegin hu.le) hcall.lo_le).anywhere
    · exact hargs.withFirst (hfirst.from_pos.upTo hend) e he
  · have hpos : 0 < u.pos := Nat.lt_of_lt_of_le (Nat.succ_pos _) (hu.succ_le hkind rfl)
    exact within_piped hpos (hfirst.upTo hu.le) (hf.upTo hw)

theorem primary_covers (hdeep : deep.Covers) :
    Covers given t (primary deep) fun e u => e.Within t.pos u.pos := by
  unfold primary
  refine (operand_covers hdeep).bind fun first u hu =>
    .loop_kept (fun (e : Expr) v => e.Within t.pos v.pos) (fun h => h.1) fun e v hv => .kind_bind ?_
  split
  · exact (selection_covers hdeep).bind fun _ _ _ => .pure fun h => h.1
  · exact (selection_covers hdeep).bind fun _ _ _ => .pure fun h => h.1
  · exact (indexOrSlice_covers hdeep).bind fun _ _ _ => .pure fun h => h.1
  · exact (callArgs_covers hdeep).bind fun call w hw => .pure fun ⟨hcall, he, _⟩ =>
      within_call he hcall
  · next hkind => exact (pipe_covers hdeep hkind).bind fun _ _ _ => .pure fun h => h.1
  · exact .pure fun h => h.1

/-! ### Operations -/

theorem unary_covers (hdeep : deep.Covers) :
    Covers given t (unary deep) fun e u => e.Within t.pos u.pos := by
  unfold unary
  refine .token_bind ?_
  split
  · next op hop =>
    have hprefix : op.isTest = false := by
      revert hop
      cases t.kind <;> rintro ⟨⟩ <;> rfl
    refine .next_bind fun u hu => ((hdeep.unary u).weaken fun _ => trivial).bind
      fun e v hv => .pure fun h => ?_
    have hpos : (Node.expr (.unary op t.pos e)).pos = t.pos := by
      simp [Node.pos, Expr.pos, hprefix]
    have hstop : (Node.expr (.unary op t.pos e)).stop = e.stop := by
      simp [Node.stop, Expr.stop, hprefix]
    refine .ending (.expr e) (Nat.le_of_eq hpos.symm) hstop List.mem_cons_self ?_
      (List.forall_mem_singleton.2 (.inl rfl))
    rw [hpos]
    exact h.1.since hu.le
  · exact primary_covers hdeep

/-- A test for nil ends as if there were one space before its last word. -/
theorem within_test {op : UnaryOp} {e : Expr} {kind : Token.Kind} {hi : Pos}
    (hop : op.isTest = true) (hspelling : op.spelling = kind.spelling ++ " nil")
    (hkind : t.kind = kind) (hfixed : kind.isFixed = true) (hu : t.Precedes u)
    (hlhs : e.Within lo t.pos) {pos : Pos} (hrhs : (Expr.word .nil pos).Within u.pos hi) :
    (Expr.unary op t.pos e).Within lo hi := by
  have hpos : (Node.expr (.unary op t.pos e)).pos = e.pos := by
    simp [Node.pos, Expr.pos, hop]
  have hstop : (Node.expr (.unary op t.pos e)).stop =
      t.pos + kind.spelling.utf8ByteSize + 4 := by
    have hnil : " nil".utf8ByteSize = 4 := rfl
    simp only [Node.stop, Expr.stop, hop, if_true, hspelling, String.utf8ByteSize_append, hnil]
    lia
  -- The word itself is written out, so it ends in the range without any slack.
  have hword : pos + 3 ≤ hi + 0 := by
    have hwritten : (Node.expr (.word .nil pos)).Everywhere Node.IsWritten :=
      .intro trivial (List.forall_mem_nil _)
    exact hrhs.stop_le (.inr ⟨trivial, hwritten⟩)
  have hbegin : u.pos ≤ pos := hrhs.lo_le
  have hmark := hu.spelling_le hkind hfixed
  refine .closed_if (Nat.le_trans hlhs.lo_le (Nat.le_of_eq hpos.symm))
    (Nat.le_trans (Nat.le_of_eq hpos) hlhs.pos_le) ?_ ?_ ?_ ?_
  · rw [hstop]
    lia
  · lia
  · rintro slack (hslack | ⟨-, hwritten⟩)
    · rw [hstop]
      lia
    · exact absurd hop (hwritten ▸ Bool.false_ne_true)
  · rw [hpos]
    exact List.forall_mem_singleton.2 hlhs.from_pos.anywhere

theorem within_binary {lhs rhs : Expr} {op : Token.Kind} {hi : Pos}
    (hu : t.Precedes u) (hlhs : lhs.Within lo t.pos) (hrhs : rhs.Within u.pos hi) :
    (Expr.binary lhs op t.pos rhs).Within lo hi := by
  have hbegin : lhs.pos ≤ u.pos := Nat.le_trans hlhs.pos_le hu.le
  refine .ending (.expr rhs) hlhs.lo_le rfl (List.mem_cons_of_mem _ List.mem_cons_self)
    (hrhs.since hbegin) (List.forall_mem_cons.2 ⟨.inr ?_, List.forall_mem_singleton.2 (.inl rfl)⟩)
  exact (hlhs.from_pos.upTo (Nat.le_trans hu.le hrhs.lo_le)).anywhere

theorem within_operation {lhs rhs : Expr} {hi : Pos} (hu : t.Precedes u)
    (hlhs : lhs.Within lo t.pos) (hrhs : rhs.Within u.pos hi) :
    (operation lhs t.kind t.pos rhs).Within lo hi := by
  unfold operation
  split
  · next hkind => exact within_test rfl rfl hkind rfl hu hlhs hrhs
  · next hkind => exact within_test rfl rfl hkind rfl hu hlhs hrhs
  · exact within_binary hu hlhs hrhs

theorem binary_covers (hdeep : deep.Covers) (least : Nat) :
    Covers given t (binary deep least) fun e u => e.Within t.pos u.pos := by
  unfold binary
  refine (unary_covers hdeep).bind fun first u hu =>
    .loop_kept (fun (lhs : Expr) v => lhs.Within t.pos v.pos) (fun h => h.1)
      fun lhs v hv => .token_bind ?_
  dsimp only
  split
  · exact .pure fun h => h.1
  · exact .next_bind fun w hw => ((hdeep.binary _ w).weaken fun _ => trivial).bind
      fun rhs x hx => .pure fun ⟨hrhs, hlhs, _⟩ => within_operation hw hlhs hrhs

theorem expr_covers (hdeep : deep.Covers) :
    Covers given t (expr deep) fun e u => e.Within t.pos u.pos := by
  unfold expr
  refine (binary_covers hdeep 1).bind fun test u hu => .kind_bind ?_
  split
  · exact .pure fun h => h.1
  · refine .pos_bind (.next_bind fun v hv => ((hdeep.expr v).weaken fun _ => trivial).bind
      fun yes w hw => .token_bind ?_)
    split
    · exact .failAt _ _
    · split
      · exact .failExpected _
      · refine .line_bind fun first => .line_bind fun last => ?_
        split
        · exact .failAt _ _
        · refine .next_bind fun x hx => ((hdeep.expr x).weaken fun _ => trivial).bind
            fun no y hy => .pure ?_
          rintro ⟨hno, hyes, htest, -⟩
          have hbegin : test.pos ≤ v.pos := Nat.le_trans htest.pos_le hv.le
          have hlast : w.pos ≤ no.pos := Nat.le_trans hx.le hno.lo_le
          refine .ending (.expr no) htest.lo_le rfl (by simp [Node.children, Expr.children])
            (hno.since (Nat.le_trans hbegin (Nat.le_trans hw hx.le))) ?_
          refine List.forall_mem_cons.2 ⟨.inr ?_, List.forall_mem_cons.2 ⟨.inr ?_,
            List.forall_mem_singleton.2 (.inl rfl)⟩⟩
          · exact (htest.from_pos.upTo
              (Nat.le_trans hv.le (Nat.le_trans hw hlast))).anywhere
          · exact (hyes.mono hbegin hlast).anywhere

/-- Expressions with commas between them stand one behind the other. -/
theorem exprs_covers (hdeep : deep.Covers) :
    Covers given t (exprs deep) fun list u =>
      list ≠ [] ∧ Node.Row t.pos u.pos (list.map .expr) := by
  unfold exprs
  refine (expr_covers hdeep).bind fun first u hu => ?_
  refine .loop_kept (fun list v => list ≠ [] ∧ Node.Row t.pos v.pos (list.map .expr))
    (fun h => ⟨List.cons_ne_nil _ _, Node.Row.singleton_iff.2 h.1⟩) fun list v hv => ?_
  refine .accept_bind (fun w _ hw => ?_) fun _ => .pure fun h => h.1
  refine (expr_covers hdeep).bind fun e x hx => .pure ?_
  rintro ⟨he, ⟨-, hlist⟩, -⟩
  refine ⟨List.append_ne_nil_of_right_ne_nil _ (List.cons_ne_nil _ _), ?_⟩
  rw [List.map_append]
  exact Node.Row.snoc_iff.2 ⟨v.pos, hlist, he.since hw.le⟩

end Grammar

end TemplateScript
