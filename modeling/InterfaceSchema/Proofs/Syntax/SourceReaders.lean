import InterfaceSchema.Proofs.Syntax.PatternReaders
import InterfaceSchema.Syntax.Source

/-!
# Source files are read soundly

The statements of a source file stand in it one behind the other, the
documentation of an interface or alias belonging to its statement, and the
parts of each stand inside it in order.
-/

namespace InterfaceSchema

open Grammar

/-- The parts of an interface stand inside it in order, and it stands behind
a position. -/
structure InterfaceDecl.Sound (source : Text) (start : Nat) (decl : InterfaceDecl) : Prop where
  span : decl.span.Sound source
  start_le : start ≤ decl.span.start
  name : decl.nameSpan.Sound source
  name_start : decl.span.start ≤ decl.nameSpan.start
  parts : ∃ first second, SpanBetween source decl.nameSpan.stop first decl.parameters ∧
    TypesSound source first second decl.bases ∧
      MembersSound source second decl.span.stop decl.members
  brace : ∃ opening, decl.nameSpan.stop ≤ opening ∧ Stands source ['\x7b'] opening ∧
    MembersSound source (opening + 1) decl.span.stop decl.members

/-- The parts of an alias stand inside it in order, and it stands behind a
position. -/
structure AliasDecl.Sound (source : Text) (start : Nat) (decl : AliasDecl) : Prop where
  span : decl.span.Sound source
  start_le : start ≤ decl.span.start
  name : decl.nameSpan.Sound source
  name_start : decl.span.start ≤ decl.nameSpan.start
  parts : ∃ middle, SpanBetween source decl.nameSpan.stop middle decl.parameters ∧
    TypesSound source middle decl.span.stop [decl.type]

/-- Where a statement stands. -/
def Item.span : Item → Span
  | .interfaceItem decl => decl.span
  | .aliasItem decl => decl.span
  | .importItem span | .otherItem span => span

/-- A statement that stands behind a position, its parts inside it. -/
def Item.Sound (source : Text) (start : Nat) : Item → Prop
  | .interfaceItem decl => decl.Sound source start
  | .aliasItem decl => decl.Sound source start
  | .importItem span | .otherItem span => span.Sound source ∧ start ≤ span.start

/-- The span of a sound statement is sound and stands behind the position. -/
theorem Item.Sound.whole {source : Text} {start : Nat} {item : Item}
    (h : item.Sound source start) :
    item.span.Sound source ∧ start ≤ item.span.start := by
  cases item with
  | interfaceItem decl =>
    have hdecl : decl.Sound source start := h
    exact ⟨hdecl.span, hdecl.start_le⟩
  | aliasItem decl =>
    have hdecl : decl.Sound source start := h
    exact ⟨hdecl.span, hdecl.start_le⟩
  | importItem span | otherItem span => exact h

/-- Statements that stand behind a position in order. -/
def ItemsSound (source : Text) (start : Nat) : List Item → Prop
  | [] => True
  | item :: rest => item.Sound source start ∧ ItemsSound source item.span.stop rest

/-- Sound reading of a statement. -/
structure ItemRead (source : Text) (start : Nat) (item : Item) (rest : List Token) : Prop where
  sound : item.Sound source start
  rest : Placed source item.span.stop rest

namespace Grammar

variable {source : Text} {start middle first depth : Nat} {setting : Setting} {exported : Bool}
  {tokens rest : List Token} {item : Item}

/-- Type parameters are read soundly. -/
theorem readParameterSpan_sound {parameters : Option Span}
    (heq : readParameterSpan depth setting tokens = some (parameters, rest))
    (hs : setting.source = source) (hplaced : Placed source start tokens) :
    ∃ stop, SpanBetween source start stop parameters ∧ Placed source stop rest := by
  unfold readParameterSpan at heq
  split at heq
  · next opening behind hopening =>
    simp only [Option.bind_eq_bind, Option.bind_eq_some_iff, Option.some.injEq,
      Prod.mk.injEq] at heq
    obtain ⟨reach, hfollow, rfl, rfl⟩ := heq
    have honward := (readersSound source depth).onward hfollow hs hplaced 8 (by decide)
    obtain ⟨rfl, -⟩ := eq_of_takeSymbol hopening
    exact ⟨reach.stop, ⟨⟨hplaced.1.2.cut_start, honward.1.1, honward.2.2⟩, hplaced.1.le,
      Nat.le_refl _⟩, honward.1.2⟩
  · simp only [Option.some.injEq, Prod.mk.injEq] at heq
    obtain ⟨rfl, rfl⟩ := heq
    exact ⟨start, Nat.le_refl start, hplaced⟩

/-- The types an interface extends are read soundly. -/
theorem readBases_sound {bases : List TypeExpr}
    (heq : readBases depth setting tokens = some (bases, rest))
    (hs : setting.source = source) (hplaced : Placed source start tokens) :
    ∃ stop, TypesSound source start stop bases ∧ Placed source stop rest := by
  induction depth generalizing start tokens bases with
  | zero =>
    rw [readBases] at heq
    cases heq
  | succ depth ih =>
    rw [readBases] at heq
    simp only [Option.bind_eq_bind, Option.bind_eq_some_iff, Prod.exists] at heq
    obtain ⟨base, behind, hbase, heq⟩ := heq
    have hread := (readersSound source depth).named hbase hs hplaced
    split at heq
    · next comma more hcomma =>
      simp only [Option.bind_eq_some_iff, Prod.exists, Option.some.injEq, Prod.mk.injEq] at heq
      obtain ⟨others, last, hothers, rfl, rfl⟩ := heq
      obtain ⟨stop, htypes, hrest⟩ := ih hothers (placed_behindSymbol hread.rest hcomma)
      exact ⟨stop, ⟨hread.le hplaced, hread.sound, htypes⟩, hrest⟩
    · simp only [Option.some.injEq, Prod.mk.injEq] at heq
      obtain ⟨rfl, rfl⟩ := heq
      exact ⟨base.span.stop, ⟨hread.le hplaced, hread.sound, Nat.le_refl _⟩, hread.rest⟩

/-- An interface is read soundly. -/
theorem readInterface_sound {decl : InterfaceDecl}
    (heq : readInterface depth setting exported first tokens = some (decl, rest))
    (hs : setting.source = source) (hplaced : Placed source middle tokens)
    (hcut : Cut source first) (hstart : start ≤ first)
    (hfirst : tokens ≠ [] → first ≤ startOf tokens) :
    decl.Sound source start ∧ Placed source decl.span.stop rest := by
  unfold readInterface at heq
  split at heq
  · next word name behind =>
    split at heq
    · simp only [Option.bind_eq_bind, Option.bind_eq_some_iff, Prod.exists] at heq
      obtain ⟨parameters, rest₁, hparameters, heq⟩ := heq
      have hname := hplaced.2.1
      have hname_start := hname.le
      have hword := word.start_le_stop
      have hname_stop := name.start_le_stop
      obtain ⟨second, hbetween, hplaced₁⟩ := readParameterSpan_sound hparameters hs hplaced.2.2
      have hfirst_name : first ≤ name.start := by
        have hfirst_word : first ≤ word.start := hfirst (List.cons_ne_nil _ _)
        omega
      -- whatever it extends, the body follows
      have hbody {bases : List TypeExpr} {third : Nat} {rest₂ rest₃ rest₄ : List Token}
          {opening closing : Token} {members : List Member}
          (htypes : TypesSound source second third bases) (hplaced₂ : Placed source third rest₂)
          (hopening : takeSymbol "\x7b" rest₂ = some (opening, rest₃))
          (hmembers : readBody depth setting.lines rest₃ = some (members, closing, rest₄)) :
          InterfaceDecl.Sound source start
            ⟨name.text, name.span, exported, parameters, bases, members, ⟨first, closing.stop⟩⟩ ∧
              Placed source closing.stop rest₄ := by
        obtain ⟨hstands, hopening_start, hplaced₃⟩ := placed_takeSymbol hplaced₂ hopening
        have hlist := (readersSound source depth).body hmembers hs hplaced₃
        have hbetween_le := hbetween.le
        have htypes_le := htypes.le
        have hbehind : name.stop ≤ closing.stop := by
          have hlist_le := hlist.sound.le
          have hopening_le := opening.start_le_stop
          have hclosing := closing.start_le_stop
          have hspan : name.span.stop = name.stop := rfl
          omega
        have hinside : MembersSound source opening.stop closing.stop members :=
          hlist.sound.mono_stop closing.start_le_stop
        have htext : opening.text = ['\x7b'] := by
          have hsymbol := (eq_of_takeSymbol hopening).2
          simp only [Token.isSymbol, Bool.and_eq_true, beq_iff_eq] at hsymbol
          exact hsymbol.2
        have hstop : opening.stop = opening.start + 1 := by
          rw [Token.stop, htext]
          rfl
        rw [htext] at hstands
        exact ⟨⟨⟨hcut, hlist.stands.cut_stop, by dsimp only; omega⟩, hstart,
          Token.sound_span hname.2, hfirst_name, ⟨second, third, hbetween, htypes,
          hinside.mono_start (Nat.le_trans hopening_start opening.start_le_stop)⟩,
          opening.start, Nat.le_trans hbetween_le (Nat.le_trans htypes_le hopening_start),
          hstands, hstop ▸ hinside⟩, hlist.rest⟩
      split at heq
      · next extending more =>
        split at heq
        · simp only [Option.bind_eq_some_iff, Prod.exists, Option.some.injEq,
            Prod.mk.injEq] at heq
          obtain ⟨bases, rest₂, hbases, opening, rest₃, hopening, members, closing, rest₄,
            hmembers, rfl, rfl⟩ := heq
          obtain ⟨third, htypes, hplaced₂⟩ := readBases_sound hbases hs (placed_tail hplaced₁)
          exact hbody htypes hplaced₂ hopening hmembers
        · simp only [Option.bind_eq_some_iff, Prod.exists, Option.some.injEq,
            Prod.mk.injEq] at heq
          obtain ⟨bases, rest₂, ⟨rfl, rfl⟩, opening, rest₃, hopening, members, closing, rest₄,
          hmembers, rfl, rfl⟩ := heq
          exact hbody (Nat.le_refl second) hplaced₁ hopening hmembers
      · simp only [Option.bind_eq_some_iff, Prod.exists, Option.some.injEq,
          Prod.mk.injEq] at heq
        obtain ⟨bases, rest₂, ⟨rfl, rfl⟩, opening, rest₃, hopening, members, closing, rest₄,
          hmembers, rfl, rfl⟩ := heq
        exact hbody (Nat.le_refl second) hplaced₁ hopening hmembers
    · cases heq
  · cases heq

/-- An alias is read soundly. -/
theorem readAlias_sound {decl : AliasDecl}
    (heq : readAlias depth setting exported first tokens = some (decl, rest))
    (hs : setting.source = source) (hplaced : Placed source middle tokens)
    (hcut : Cut source first) (hstart : start ≤ first)
    (hfirst : tokens ≠ [] → first ≤ startOf tokens) :
    decl.Sound source start ∧ Placed source decl.span.stop rest := by
  unfold readAlias at heq
  split at heq
  · next word name behind =>
    split at heq
    · simp only [Option.bind_eq_bind, Option.bind_eq_some_iff, Prod.exists, Option.some.injEq,
        Prod.mk.injEq] at heq
      obtain ⟨parameters, rest₁, hparameters, sign, rest₂, hsign, type, rest₃, htype, reach,
        hreach, rfl, rfl⟩ := heq
      have hname := hplaced.2.1
      have hname_start := hname.le
      have hword := word.start_le_stop
      have hname_stop := name.start_le_stop
      obtain ⟨second, hbetween, hplaced₁⟩ := readParameterSpan_sound hparameters hs hplaced.2.2
      have hplaced₂ := placed_behindSymbol hplaced₁ hsign
      have hread := (readersSound source depth).type htype hs hplaced₂
      obtain ⟨hnext, hstop⟩ :=
        Reach.endStatement_placed ⟨hread.sound.span.stop_cut, hread.rest⟩ hreach
      have hbehind : name.stop ≤ reach.stop := by
        have hbetween_le := hbetween.le
        have htype_start := hread.le hplaced₂
        have htype_le := hread.sound.span.le
        have hspan : name.span.stop = name.stop := rfl
        dsimp only at hstop
        omega
      have hfirst_name : first ≤ name.start := by
        have hfirst_word : first ≤ word.start := hfirst (List.cons_ne_nil _ _)
        omega
      exact ⟨⟨⟨hcut, hnext.1, by dsimp only; omega⟩, hstart, Token.sound_span hname.2,
        hfirst_name, second, hbetween, hread.le hplaced₂, hread.sound, hstop⟩, hnext.2⟩
    · cases heq
  · cases heq

/-- An interface or alias is read soundly. -/
theorem readDeclared_sound
    (heq : readDeclared depth setting exported first tokens = some (item, rest))
    (hs : setting.source = source) (hplaced : Placed source middle tokens)
    (hcut : Cut source first) (hstart : start ≤ first)
    (hfirst : tokens ≠ [] → first ≤ startOf tokens) :
    ItemRead source start item rest := by
  unfold readDeclared at heq
  split at heq
  · next decl behind hread =>
    simp only [Option.some.injEq, Prod.mk.injEq] at heq
    obtain ⟨rfl, rfl⟩ := heq
    obtain ⟨hsound, hrest⟩ := readInterface_sound hread hs hplaced hcut hstart hfirst
    exact ⟨hsound, hrest⟩
  · simp only [Option.map_eq_some_iff, Prod.exists, Prod.mk.injEq] at heq
    obtain ⟨decl, behind, hread, rfl, rfl⟩ := heq
    obtain ⟨hsound, hrest⟩ := readAlias_sound hread hs hplaced hcut hstart hfirst
    exact ⟨hsound, hrest⟩

/-- A statement of which only the extent is read is read soundly. -/
theorem readOther_sound {part : Part} (steps : Nat) (hfront : part.pattern.front steps = .takes)
    (heq : readOther depth setting part (startOf tokens) tokens = some (item, rest))
    (hs : setting.source = source) (hplaced : Placed source middle tokens)
    (hstart : tokens ≠ [] → start ≤ startOf tokens) : ItemRead source start item rest := by
  unfold readOther at heq
  simp only [Option.bind_eq_bind, Option.bind_eq_some_iff, Option.some.injEq,
    Prod.mk.injEq] at heq
  obtain ⟨reach, hfollow, rfl, rfl⟩ := heq
  have honward := (readersSound source depth).onward hfollow hs hplaced (steps + 1) hfront
  exact ⟨⟨⟨hplaced.cut_startOf, honward.1.1, honward.2.2⟩, hstart honward.2.1⟩, honward.1.2⟩

/-- A declaration or another statement is read soundly. -/
theorem readDeclaration_sound {part : Part} (steps : Nat)
    (hfront : part.pattern.front steps = .takes)
    (heq : readDeclaration depth setting exported first part tokens = some (item, rest))
    (hs : setting.source = source) (hplaced : Placed source middle tokens)
    (hcut : Cut source first) (hstart : start ≤ first)
    (hfirst : tokens ≠ [] → first ≤ startOf tokens) :
    ItemRead source start item rest := by
  unfold readDeclaration at heq
  extract_lets bare at heq
  have hbare : Placed source middle bare ∧ (bare ≠ [] → first ≤ startOf bare) := by
    dsimp only [bare]
    split
    · next word next behind =>
      split
      · have hword := word.start_le_stop
        have hnext := hplaced.2.1.le
        have hfirst_word : first ≤ word.start := hfirst (List.cons_ne_nil _ _)
        have hfirst_next : first ≤ next.start := by omega
        exact ⟨placed_tail hplaced, fun _ => hfirst_next⟩
      · exact ⟨hplaced, hfirst⟩
    · exact ⟨hplaced, hfirst⟩
  split at heq
  · next found hread =>
    cases heq
    exact readDeclared_sound hread hs hbare.1 hcut hstart hbare.2
  · exact readOther_sound steps hfront heq hs hplaced fun hne =>
      Nat.le_trans hstart (hfirst hne)

/-- What follows the word for an export is read soundly. -/
theorem readExported_sound {whole : List Token} {reach : Reach}
    (heq : readExported depth setting (startOf whole) first whole reach.tokens = some (item, rest))
    (hs : setting.source = source) (hplaced : Placed source middle whole)
    (honward : Onward source whole reach) (hcut : Cut source first) (hstart : start ≤ first)
    (hfirst : first ≤ startOf whole) : ItemRead source start item rest := by
  have hbehind := honward.1.2
  -- whatever follows starts behind the word
  have hafter {tokens : List Token} (hplaced : Placed source reach.stop tokens)
      (hne : tokens ≠ []) : first ≤ startOf tokens :=
    Nat.le_trans hfirst (Nat.le_trans honward.2.2 (hplaced.le_startOf hne))
  unfold readExported at heq
  extract_lets declares at heq
  split at heq
  · exact readDeclaration_sound 16 (by decide) heq hs hbehind hcut hstart (hafter hbehind)
  split at heq
  · next word behind htokens =>
    rw [htokens] at hbehind
    have hmore := placed_tail hbehind
    split at heq
    · exact readDeclaration_sound 16 (by decide) heq hs hmore hcut hstart (hafter hmore)
    · exact readOther_sound 16 (by decide) heq hs hplaced fun _ => Nat.le_trans hstart hfirst
  · cases heq

/-- A statement is read soundly. -/
theorem readStatement_sound (heq : readStatement depth setting tokens = some (item, rest))
    (hs : setting.source = source) (hplaced : Placed source start tokens) :
    ItemRead source start item rest := by
  unfold readStatement at heq
  split at heq
  · cases heq
  next token behind =>
  extract_lets documented at heq
  -- an attached documentation comment stands before the statement
  obtain ⟨hcut, hstart, hfirst⟩ :
      Cut source documented ∧ start ≤ documented ∧ documented ≤ token.start := by
    have hdocs := docOf_sound hplaced.1.1
    dsimp only [documented]
    cases hdoc : docOf token.gap.comments with
    | none => exact ⟨hplaced.1.2.cut_start, hplaced.1.le, Nat.le_refl _⟩
    | some docs =>
      rw [hdoc] at hdocs
      exact ⟨hdocs.1.start_cut, hdocs.2.1, Nat.le_trans hdocs.1.le hdocs.2.2⟩
  have hsound := readersSound source depth
  split at heq
  · simp only [Option.some.injEq, Prod.mk.injEq] at heq
    obtain ⟨rfl, rfl⟩ := heq
    exact ⟨⟨Token.sound_span hplaced.1.2, hplaced.1.le⟩, hplaced.2⟩
  split at heq
  · next reach hfollow =>
    have honward := hsound.onward hfollow hs hplaced 8 (by decide)
    exact readExported_sound heq hs hplaced honward hcut hstart hfirst
  split at heq
  · next reach hfollow =>
    simp only [Option.some.injEq, Prod.mk.injEq] at heq
    obtain ⟨rfl, rfl⟩ := heq
    have honward := hsound.onward hfollow hs hplaced 16 (by decide)
    exact ⟨⟨⟨hplaced.1.2.cut_start, honward.1.1, honward.2.2⟩, hplaced.1.le⟩, honward.1.2⟩
  · exact readDeclaration_sound 64 (by decide) heq hs hplaced hcut hstart fun _ => hfirst

/-- Statements are read soundly, one behind the other. -/
theorem readStatements_sound {items : List Item}
    (heq : readStatements depth setting tokens = some items)
    (hs : setting.source = source) (hplaced : Placed source start tokens) :
    ItemsSound source start items := by
  induction depth generalizing start tokens items with
  | zero =>
    rw [readStatements] at heq
    cases heq
  | succ depth ih =>
    unfold readStatements at heq
    dsimp only at heq
    split at heq
    · cases heq
    split at heq
    · cases heq
      trivial
    · simp only [Option.bind_eq_bind, Option.bind_eq_some_iff, Prod.exists,
        Option.some.injEq] at heq
      obtain ⟨item, behind, hitem, others, hothers, rfl⟩ := heq
      have hread := readStatement_sound hitem hs hplaced
      exact ⟨hread.sound, ih hothers hread.rest⟩

end Grammar

/-- The statements of a source file stand in it in order. -/
theorem SourceFile.read_sound {source : Text} {file : SourceFile}
    (h : SourceFile.read source = some file) :
    file.text = source ∧ ItemsSound source 0 file.items := by
  unfold SourceFile.read at h
  simp only [Option.bind_eq_bind, Option.bind_eq_some_iff, Option.some.injEq] at h
  obtain ⟨items, hitems, rfl⟩ := h
  exact ⟨rfl, readStatements_sound hitems rfl (scan_placed source)⟩

end InterfaceSchema
