import InterfaceSchema.Proofs.Syntax.Readers

/-!
# Types are read soundly

One step for every reader of types: it reads soundly at a depth if all readers
do at the depth below.
-/

namespace InterfaceSchema.Grammar

variable {source : Text} {start depth : Nat} {tokens rest : List Token} {type : TypeExpr}

/-- Tokens left out at the front leave the others placed. -/
theorem placed_tail {token : Token} (h : Placed source start (token :: tokens)) :
    Placed source start tokens :=
  h.2.mono (Nat.le_trans h.1.le token.start_le_stop)

/-- What a symbol is taken from is placed behind the symbol. -/
theorem placed_takeSymbol {symbol : String} {token : Token} (hplaced : Placed source start tokens)
    (h : takeSymbol symbol tokens = some (token, rest)) :
    Stands source token.text token.start ∧ start ≤ token.start ∧ Placed source token.stop rest := by
  obtain ⟨rfl, -⟩ := eq_of_takeSymbol h
  exact ⟨hplaced.1.2, hplaced.1.le, hplaced.2⟩

/-- A symbol taken from the front leaves the others placed. -/
theorem placed_behindSymbol {symbol : String} {token : Token}
    (hplaced : Placed source start tokens) (h : takeSymbol symbol tokens = some (token, rest)) :
    Placed source start rest := by
  obtain ⟨rfl, -⟩ := eq_of_takeSymbol h
  exact placed_tail hplaced

/-- The sign between two parts of a list of types leaves the others placed. -/
theorem placed_takeBetween {symbol : String} {setting : Setting}
    (hplaced : Placed source start tokens) (h : takeBetween symbol setting tokens = some rest) :
    Placed source start rest := by
  unfold takeBetween at h
  split at h
  · cases h
  · split at h
    · cases h
      exact placed_tail hplaced
    · cases h

/-- What follows a type is placed where the type was. -/
theorem placed_behindType (h : TypeRead source tokens type rest)
    (hplaced : Placed source start tokens) : Placed source start rest :=
  h.rest.mono (Nat.le_trans (h.le hplaced) h.sound.span.le)

/-- A span without a schema that starts with the first token and ends behind
a type. -/
theorem typeRead_through {left last : List Token}
    (hplaced : Placed source start tokens) (hne : tokens ≠ [])
    (h : TypeRead source left type last) (hle : startOf tokens ≤ type.span.start) :
    TypeRead source tokens (.unsupported ⟨startOf tokens, type.span.stop⟩) last where
  sound := Span.sound_over h hplaced.cut_startOf hle
  nonempty := hne
  start_le := Nat.le_refl _
  rest := h.rest

/-- A span from the first token over what a pattern covers. -/
theorem typeRead_onward {reach : Reach} (hplaced : Placed source start tokens)
    (h : Onward source tokens reach) :
    TypeRead source tokens (.unsupported ⟨startOf tokens, reach.stop⟩) reach.tokens where
  sound := ⟨hplaced.cut_startOf, h.1.1, h.2.2⟩
  nonempty := h.2.1
  start_le := Nat.le_refl _
  rest := h.1.2

/-- A type of one token. -/
theorem typeRead_token {token : Token} (hplaced : Placed source start (token :: rest))
    (hspan : type.span = token.span) (hsound : token.span.Sound source → type.Sound source) :
    TypeRead source (token :: rest) type rest where
  sound := hsound (Token.sound_span hplaced.1.2)
  nonempty := List.cons_ne_nil _ _
  start_le := by rw [hspan]; exact Nat.le_refl _
  rest := by rw [hspan]; exact hplaced.2

/-- A type stands where the tokens do, of which some may be left out at the
front. -/
theorem typeRead_dropWhile {p : Token → Bool} (h : TypeRead source (tokens.dropWhile p) type rest)
    (hplaced : Placed source start tokens) : TypeRead source tokens type rest := by
  obtain ⟨first, others, hdrop⟩ := List.exists_cons_of_ne_nil h.nonempty
  obtain ⟨head, more, rfl, hle⟩ := hplaced.dropWhile_le p hdrop
  have hstart := h.start_le
  rw [hdrop] at hstart
  exact ⟨h.sound, List.cons_ne_nil _ _, Nat.le_trans hle hstart, h.rest⟩

/-- The further parts of a dotted name are taken in order. -/
theorem readDotted_placed {name : Text} {stop last : Nat} {found : Text}
    (h : readDotted name stop tokens = (found, last, rest)) (hcut : Cut source stop)
    (hplaced : Placed source stop tokens) :
    stop ≤ last ∧ Cut source last ∧ Placed source last rest := by
  fun_induction readDotted name stop tokens with
  | case1 name stop dot part more hdot ih =>
    obtain ⟨hle, hlast, hrest⟩ := ih h hplaced.2.1.2.cut_stop hplaced.2.2
    have hbehind := (placed_tail hplaced).1.le
    have hpart := part.start_le_stop
    exact ⟨by omega, hlast, hrest⟩
  | case2 | case3 =>
    simp only [Prod.mk.injEq] at h
    obtain ⟨-, rfl, rfl⟩ := h
    exact ⟨Nat.le_refl _, hcut, hplaced⟩

/-- A list of types as one type. -/
theorem listOf_sound (wrap : List TypeExpr → Span → TypeExpr) {stop : Nat} {first : TypeExpr}
    {parts : List TypeExpr}
    (hspan : ∀ types span, (wrap types span).span = span)
    (hwrap : ∀ types span, span.Sound source → TypesSound source span.start span.stop types →
      (wrap types span).Sound source)
    (hcut : Cut source start) (hle : start ≤ first.span.start) (hfirst : first.Sound source)
    (hparts : TypesSound source first.span.stop stop parts) (hstop : Cut source stop) :
    (listOf wrap ⟨start, stop⟩ (first :: parts)).Sound source ∧
      start ≤ (listOf wrap ⟨start, stop⟩ (first :: parts)).span.start ∧
      (listOf wrap ⟨start, stop⟩ (first :: parts)).span.stop ≤ stop := by
  cases parts with
  | nil => exact ⟨hfirst, hle, hparts⟩
  | cons second more =>
    have hfirst_le := hfirst.span.le
    have hparts_le := hparts.le
    have hspan_sound : Span.Sound source ⟨start, stop⟩ := ⟨hcut, hstop, by dsimp only; omega⟩
    rw [listOf, hspan]
    · exact ⟨hwrap _ _ hspan_sound ⟨hle, hfirst, hparts⟩, Nat.le_refl _, Nat.le_refl _⟩
    · simp

namespace ReadersSound

/-- A pattern that starts with a token is followed from the first token on. -/
theorem onward (h : ReadersSound source depth) {setting : Setting} {pattern : Pattern}
    {reach : Reach} (heq : follow depth setting pattern (Reach.before tokens) = some reach)
    (hs : setting.source = source) (hplaced : Placed source start tokens) (steps : Nat)
    (hfront : pattern.front steps = .takes) : Onward source tokens reach := by
  have hstop : (Reach.before tokens).stop = startOf (Reach.before tokens).tokens := by
    cases tokens <;> rfl
  have hholds := h.followFirst steps heq hs hplaced hstop
  rwa [hfront] at hholds

/-- Types are read soundly. -/
theorem readType (h : ReadersSound source depth) :
    ReadsTypes source (Grammar.readType (depth + 1)) := by
  intro setting start tokens rest type heq hs hplaced
  rw [Grammar.readType] at heq
  simp only [Option.bind_eq_bind, Option.bind_eq_some_iff, Prod.exists] at heq
  obtain ⟨left, behind, hleft, heq⟩ := heq
  have hunion := h.union hleft hs hplaced
  split at heq
  · next token more =>
    split at heq
    · simp only [Option.bind_eq_some_iff, Prod.exists, Option.some.injEq, Prod.mk.injEq] at heq
      obtain ⟨bound, rest₁, hbound, mark, rest₂, hmark, yes, rest₃, hyes, colon, rest₄, hcolon, no,
        rest₅, hno, rfl, rfl⟩ := heq
      -- everything behind the first type stands behind where it starts
      have hmore : Placed source left.span.start more :=
        (placed_tail hunion.rest).mono hunion.sound.span.le
      have hbehind₁ := placed_behindType (h.type hbound hs hmore) hmore
      have hbehind₂ := placed_behindSymbol hbehind₁ hmark
      have hbehind₃ := placed_behindType (h.type hyes hs hbehind₂) hbehind₂
      have hbehind₄ := placed_behindSymbol hbehind₃ hcolon
      have hlast := h.type hno hs hbehind₄
      exact typeRead_through hplaced hunion.nonempty hlast
        (Nat.le_trans hunion.start_le (hlast.le hbehind₄))
    · simp only [Option.some.injEq, Prod.mk.injEq] at heq
      obtain ⟨rfl, rfl⟩ := heq
      exact hunion
  · simp only [Option.some.injEq, Prod.mk.injEq] at heq
    obtain ⟨rfl, rfl⟩ := heq
    exact hunion

/-- A union is read soundly. -/
theorem readUnion (h : ReadersSound source depth) :
    ReadsTypes source (Grammar.readUnion (depth + 1)) := by
  intro setting start tokens rest type heq hs hplaced
  rw [Grammar.readUnion] at heq
  simp only [Option.bind_eq_bind, Option.bind_eq_some_iff, Prod.exists, Option.some.injEq,
    Prod.mk.injEq] at heq
  obtain ⟨first, behind, hfirst, parts, stop, rest, hparts, rfl, rfl⟩ := heq
  have hread := typeRead_dropWhile (h.intersection hfirst hs (hplaced.dropWhile _)) hplaced
  obtain ⟨htypes, hcut, hrest⟩ := h.unionParts hparts hs hread.sound.span.stop_cut hread.rest
  obtain ⟨hsound, hstart, hstop⟩ := listOf_sound .union (fun _ _ => rfl)
    (fun _ _ hspan htypes => ⟨hspan, htypes⟩) hplaced.cut_startOf hread.start_le hread.sound htypes
    hcut
  exact ⟨hsound, hread.nonempty, hstart, hrest.mono hstop⟩

/-- The further parts of a union are read soundly. -/
theorem readUnionParts (h : ReadersSound source depth) :
    ReadsParts source (Grammar.readUnionParts (depth + 1)) := by
  intro setting start stop tokens rest types heq hs hcut hplaced
  rw [Grammar.readUnionParts] at heq
  split at heq
  · next more hbetween =>
    simp only [Option.bind_eq_bind, Option.bind_eq_some_iff, Prod.exists, Option.some.injEq,
      Prod.mk.injEq] at heq
    obtain ⟨part, behind, hpart, parts, last, rest, hparts, rfl, rfl, rfl⟩ := heq
    have hmore := placed_takeBetween hplaced hbetween
    have hread := h.intersection hpart hs (hmore.dropWhile _)
    obtain ⟨htypes, hlast, hrest⟩ := h.unionParts hparts hs hread.sound.span.stop_cut hread.rest
    exact ⟨⟨hread.le (hmore.dropWhile _), hread.sound, htypes⟩, hlast, hrest⟩
  · simp only [Option.some.injEq, Prod.mk.injEq] at heq
    obtain ⟨rfl, rfl, rfl⟩ := heq
    exact ⟨Nat.le_refl _, hcut, hplaced⟩

/-- An intersection is read soundly. -/
theorem readIntersection (h : ReadersSound source depth) :
    ReadsTypes source (Grammar.readIntersection (depth + 1)) := by
  intro setting start tokens rest type heq hs hplaced
  rw [Grammar.readIntersection] at heq
  simp only [Option.bind_eq_bind, Option.bind_eq_some_iff, Prod.exists, Option.some.injEq,
    Prod.mk.injEq] at heq
  obtain ⟨first, behind, hfirst, parts, stop, rest, hparts, rfl, rfl⟩ := heq
  have hread := typeRead_dropWhile (h.prefixed hfirst hs (hplaced.dropWhile _)) hplaced
  obtain ⟨htypes, hcut, hrest⟩ := h.intersectionParts hparts hs hread.sound.span.stop_cut hread.rest
  obtain ⟨hsound, hstart, hstop⟩ := listOf_sound .intersection (fun _ _ => rfl)
    (fun _ _ hspan htypes => ⟨hspan, htypes⟩) hplaced.cut_startOf hread.start_le hread.sound htypes
    hcut
  exact ⟨hsound, hread.nonempty, hstart, hrest.mono hstop⟩

/-- The further parts of an intersection are read soundly. -/
theorem readIntersectionParts (h : ReadersSound source depth) :
    ReadsParts source (Grammar.readIntersectionParts (depth + 1)) := by
  intro setting start stop tokens rest types heq hs hcut hplaced
  rw [Grammar.readIntersectionParts] at heq
  split at heq
  · next more hbetween =>
    simp only [Option.bind_eq_bind, Option.bind_eq_some_iff, Prod.exists, Option.some.injEq,
      Prod.mk.injEq] at heq
    obtain ⟨part, behind, hpart, parts, last, rest, hparts, rfl, rfl, rfl⟩ := heq
    have hmore := placed_takeBetween hplaced hbetween
    have hread := h.prefixed hpart hs (hmore.dropWhile _)
    obtain ⟨htypes, hlast, hrest⟩ :=
      h.intersectionParts hparts hs hread.sound.span.stop_cut hread.rest
    exact ⟨⟨hread.le (hmore.dropWhile _), hread.sound, htypes⟩, hlast, hrest⟩
  · simp only [Option.some.injEq, Prod.mk.injEq] at heq
    obtain ⟨rfl, rfl, rfl⟩ := heq
    exact ⟨Nat.le_refl _, hcut, hplaced⟩

/-- Prefixed types are read soundly. -/
theorem readPrefixed (h : ReadersSound source depth) :
    ReadsTypes source (Grammar.readPrefixed (depth + 1)) := by
  intro setting start tokens rest type heq hs hplaced
  unfold Grammar.readPrefixed at heq
  dsimp only at heq
  split at heq
  · cases heq
  · next token behind =>
    have hbehind : Placed source start behind := placed_tail hplaced
    have hstop : token.start ≤ token.stop := token.start_le_stop
    split at heq
    · split at heq
      · next reach hfollow =>
        simp only [Option.some.injEq, Prod.mk.injEq] at heq
        obtain ⟨rfl, rfl⟩ := heq
        exact typeRead_onward hplaced (h.onward hfollow hs hplaced 8 (by decide))
      · exact h.postfixed heq hs hplaced
    split at heq
    · simp only [Option.bind_eq_bind, Option.bind_eq_some_iff, Option.some.injEq,
        Prod.mk.injEq] at heq
      obtain ⟨reach, hfollow, rfl, rfl⟩ := heq
      exact typeRead_onward hplaced (h.onward hfollow hs hplaced 8 (by decide))
    split at heq
    · have hread := h.type heq hs hplaced.2
      exact ⟨hread.sound, List.cons_ne_nil _ _,
        Nat.le_trans hstop (hread.le hplaced.2), hread.rest⟩
    split at heq
    · split at heq
      · next name word bound =>
        have hname := hplaced.2.1
        split at heq
        · cases heq
        · split at heq
          · simp only [Option.bind_eq_bind, Option.bind_eq_some_iff, Prod.exists, Option.some.injEq,
              Prod.mk.injEq] at heq
            obtain ⟨limit, last, hlimit, rfl, rfl⟩ := heq
            have hbound : Placed source token.stop bound := placed_tail (placed_tail hplaced.2)
            have hread := h.type hlimit hs hbound
            exact typeRead_through hplaced (List.cons_ne_nil _ _) hread
              (Nat.le_trans hstop (hread.le hbound))
          · simp only [Option.some.injEq, Prod.mk.injEq] at heq
            obtain ⟨rfl, rfl⟩ := heq
            have hname_le := hname.le
            have hname_stop := name.start_le_stop
            have hle : token.start ≤ name.stop := by omega
            exact ⟨⟨hplaced.1.2.cut_start, hname.2.cut_stop, hle⟩, List.cons_ne_nil _ _,
              Nat.le_refl _, hplaced.2.2⟩
      · cases heq
    split at heq
    · exact typeRead_dropWhile (h.intersection heq hs (hplaced.dropWhile _)) hplaced
    · exact h.postfixed heq hs hplaced

/-- Types with brackets behind them are read soundly. -/
theorem readPostfixed (h : ReadersSound source depth) :
    ReadsTypes source (Grammar.readPostfixed (depth + 1)) := by
  intro setting start tokens rest type heq hs hplaced
  rw [Grammar.readPostfixed] at heq
  simp only [Option.bind_eq_bind, Option.bind_eq_some_iff, Prod.exists] at heq
  obtain ⟨primary, behind, hprimary, heq⟩ := heq
  have hread := h.primary hprimary hs hplaced
  obtain ⟨hsound, hstart, hrest⟩ :=
    h.brackets heq hs hplaced.cut_startOf hread.start_le hread.sound hread.rest
  exact ⟨hsound, hread.nonempty, hstart, hrest⟩

/-- The brackets behind a type are read soundly. -/
theorem readBrackets (h : ReadersSound source depth) :
    ReadsOn source (Grammar.readBrackets (depth + 1)) := by
  intro setting start tokens rest item type heq hs hcut hle hitem hplaced
  have hitem_le := hitem.span.le
  -- what the brackets make of the type spans all of it and the closing bracket
  have hspan {closing : Token} (hstands : Stands source closing.text closing.start)
      (hbehind : item.span.stop ≤ closing.start) : Span.Sound source ⟨start, closing.stop⟩ :=
    ⟨hcut, hstands.cut_stop, by have hclosing := closing.start_le_stop; dsimp only; omega⟩
  unfold Grammar.readBrackets at heq
  dsimp only at heq
  split at heq
  · next opening behind =>
    split at heq
    · have hbehind := placed_tail hplaced
      split at heq
      · next closing more hclosing =>
        obtain ⟨hstands, hstart, hmore⟩ := placed_takeSymbol hbehind hclosing
        have hwhole := hspan hstands hstart
        have hstop : item.span.stop ≤ closing.stop := Nat.le_trans hstart closing.start_le_stop
        exact h.brackets heq hs hcut (Nat.le_refl _) ⟨hwhole, hle, hitem, hstop⟩ hmore
      · simp only [Option.bind_eq_bind, Option.bind_eq_some_iff, Prod.exists] at heq
        obtain ⟨index, rest₁, hindex, closing, rest₂, hclosing, heq⟩ := heq
        have hbehind₁ := placed_behindType (h.type hindex hs hbehind) hbehind
        obtain ⟨hstands, hstart, hmore⟩ := placed_takeSymbol hbehind₁ hclosing
        exact h.brackets heq hs hcut (Nat.le_refl _) (hspan hstands hstart) hmore
    · simp only [Option.some.injEq, Prod.mk.injEq] at heq
      obtain ⟨rfl, rfl⟩ := heq
      exact ⟨hitem, hle, hplaced⟩
  · simp only [Option.some.injEq, Prod.mk.injEq] at heq
    obtain ⟨rfl, rfl⟩ := heq
    exact ⟨hitem, hle, hplaced⟩

/-- Named types are read soundly. -/
theorem readReference (h : ReadersSound source depth) :
    ReadsTypes source (Grammar.readReference (depth + 1)) := by
  intro setting start tokens rest type heq hs hplaced
  unfold Grammar.readReference at heq
  split at heq
  · cases heq
  · next token behind =>
    split at heq
    · simp only [Option.map_eq_some_iff, Prod.mk.injEq] at heq
      obtain ⟨keyword, -, rfl, rfl⟩ := heq
      exact typeRead_token hplaced rfl id
    split at heq
    · cases heq
    · exact h.named heq hs hplaced

/-- Dotted names with arguments are read soundly. -/
theorem readNamed (h : ReadersSound source depth) :
    ReadsTypes source (Grammar.readNamed (depth + 1)) := by
  intro setting start tokens rest type heq hs hplaced
  unfold Grammar.readNamed at heq
  dsimp only at heq
  split at heq
  · cases heq
  · next token behind =>
    split at heq
    · rcases hdotted : readDotted token.text token.stop behind with ⟨name, stop, more⟩
      simp only [hdotted] at heq
      obtain ⟨hle, hcut, hrest⟩ := readDotted_placed hdotted hplaced.1.2.cut_stop hplaced.2
      have htoken := token.start_le_stop
      split at heq
      · next arguments closing last harguments =>
        simp only [Option.bind_eq_some_iff, Prod.exists] at harguments
        obtain ⟨opening, inner, hopening, harguments⟩ := harguments
        simp only [Option.some.injEq, Prod.mk.injEq] at heq
        obtain ⟨rfl, rfl⟩ := heq
        have hinner := placed_behindSymbol hrest hopening
        have hlist := h.arguments harguments hs hinner
        have hstart := hlist.sound.le
        have hclosing := closing.start_le_stop
        refine ⟨⟨⟨hplaced.1.2.cut_start, hlist.stands.cut_stop, by dsimp only; omega⟩,
          (hlist.sound.mono_start ?_).mono_stop hclosing⟩, List.cons_ne_nil _ _, Nat.le_refl _,
          hlist.rest⟩
        dsimp only
        omega
      · have hspan : Span.Sound source ⟨token.start, stop⟩ :=
          ⟨hplaced.1.2.cut_start, hcut, by dsimp only; omega⟩
        split at heq <;>
        · simp only [Option.some.injEq, Prod.mk.injEq] at heq
          obtain ⟨rfl, rfl⟩ := heq
          refine ⟨?_, List.cons_ne_nil _ _, Nat.le_refl _, hrest⟩
          first | exact hspan | exact ⟨hspan, hspan.le⟩
    · cases heq

/-- Type arguments are read soundly. -/
theorem readArguments (h : ReadersSound source depth) :
    ReadsLists source (TypesSound source) (Grammar.readArguments (depth + 1)) := by
  intro setting start tokens rest list closing heq hs hplaced
  rw [Grammar.readArguments] at heq
  simp only [Option.bind_eq_bind, Option.bind_eq_some_iff, Prod.exists] at heq
  obtain ⟨argument, behind, hargument, heq⟩ := heq
  have hread := h.type hargument hs hplaced
  have hle := hread.sound.span.le
  have hsingle {closing : Token} (hstands : Stands source closing.text closing.start)
      (hclosing : argument.span.stop ≤ closing.start) (hrest : Placed source closing.stop rest) :
      ListRead source (TypesSound source) start [argument] closing rest :=
    ⟨⟨hread.le hplaced, hread.sound, hclosing⟩, hstands, hrest⟩
  split at heq
  · next closing' more hclosing =>
    simp only [Option.some.injEq, Prod.mk.injEq] at heq
    obtain ⟨rfl, rfl, rfl⟩ := heq
    obtain ⟨hstands, hstart, hmore⟩ := placed_takeSymbol hread.rest hclosing
    exact hsingle hstands hstart hmore
  · simp only [Option.bind_eq_some_iff, Prod.exists] at heq
    obtain ⟨comma, more, hcomma, heq⟩ := heq
    have hmore := placed_behindSymbol hread.rest hcomma
    split at heq
    · next closing' last hclosing =>
      simp only [Option.some.injEq, Prod.mk.injEq] at heq
      obtain ⟨rfl, rfl, rfl⟩ := heq
      obtain ⟨hstands, hstart, hlast⟩ := placed_takeSymbol hmore hclosing
      exact hsingle hstands hstart hlast
    · simp only [Option.bind_eq_some_iff, Prod.exists, Option.some.injEq, Prod.mk.injEq] at heq
      obtain ⟨arguments, closing', last, harguments, rfl, rfl, rfl⟩ := heq
      have hlist := h.arguments harguments hs hmore
      exact ⟨⟨hread.le hplaced, hread.sound, hlist.sound⟩, hlist.stands, hlist.rest⟩

/-- The elements of a tuple are read soundly. -/
theorem readItems (h : ReadersSound source depth) :
    ReadsLists source (TypesSound source) (Grammar.readItems (depth + 1)) := by
  intro setting start tokens rest list closing heq hs hplaced
  rw [Grammar.readItems] at heq
  dsimp only at heq
  split at heq
  · next closing' more hclosing =>
    simp only [Option.some.injEq, Prod.mk.injEq] at heq
    obtain ⟨rfl, rfl, rfl⟩ := heq
    -- a comma alone may stand in front of the bracket
    cases hcomma : takeSymbol "," tokens with
    | none =>
      rw [hcomma] at hclosing
      obtain ⟨hstands, hstart, hmore⟩ := placed_takeSymbol hplaced hclosing
      exact ⟨hstart, hstands, hmore⟩
    | some taken =>
      obtain ⟨comma, behind⟩ := taken
      rw [hcomma] at hclosing
      have hbehind := placed_behindSymbol hplaced hcomma
      obtain ⟨hstands, hstart, hmore⟩ := placed_takeSymbol hbehind hclosing
      exact ⟨hstart, hstands, hmore⟩
  · simp only [Option.bind_eq_bind, Option.bind_eq_some_iff, Prod.exists] at heq
    obtain ⟨item, behind, hitem, heq⟩ := heq
    have hread := h.item hitem hs hplaced
    split at heq
    · next comma more hcomma =>
      split at heq
      · cases heq
      · simp only [Option.bind_eq_some_iff, Prod.exists, Option.some.injEq, Prod.mk.injEq] at heq
        obtain ⟨items, closing', last, hitems, rfl, rfl, rfl⟩ := heq
        have hlist := h.items hitems hs (placed_behindSymbol hread.rest hcomma)
        exact ⟨⟨hread.le hplaced, hread.sound, hlist.sound⟩, hlist.stands, hlist.rest⟩
    · simp only [Option.bind_eq_some_iff, Prod.exists, Option.some.injEq, Prod.mk.injEq] at heq
      obtain ⟨closing', last, hclosing, rfl, rfl, rfl⟩ := heq
      obtain ⟨hstands, hstart, hlast⟩ := placed_takeSymbol hread.rest hclosing
      exact ⟨⟨hread.le hplaced, hread.sound, hstart⟩, hstands, hlast⟩

/-- An element of a tuple is read soundly. -/
theorem readItem (h : ReadersSound source depth) :
    ReadsTypes source (Grammar.readItem (depth + 1)) := by
  intro setting start tokens rest type heq hs hplaced
  unfold Grammar.readItem at heq
  dsimp only at heq
  split at heq
  · next token next behind =>
    have hne : token :: next :: behind ≠ [] := List.cons_ne_nil _ _
    have htoken := token.start_le_stop
    have hbehind : Placed source token.stop behind := placed_tail hplaced.2
    have hdrop : Placed source token.stop (behind.drop 1) := by
      cases behind with
      | nil => exact hbehind
      | cons mark more => exact placed_tail hbehind
    have hthrough {tokens : List Token} {type : TypeExpr} {last : List Token}
        (hread : TypeRead source tokens type last) (hplaced : Placed source token.stop tokens) :
        token.start ≤ type.span.start := Nat.le_trans htoken (hread.le hplaced)
    split at heq
    · simp only [Option.bind_eq_bind, Option.bind_eq_some_iff, Prod.exists, Option.some.injEq,
        Prod.mk.injEq] at heq
      obtain ⟨item, last, hitem, rfl, rfl⟩ := heq
      split at hitem
      · have hread := h.type hitem hs hdrop
        exact typeRead_through hplaced hne hread (hthrough hread hdrop)
      · have hread := h.type hitem hs hplaced.2
        exact typeRead_through hplaced hne hread (hthrough hread hplaced.2)
    split at heq
    · have hread := h.type heq hs hbehind
      exact ⟨hread.sound, hne, hthrough hread hbehind, hread.rest⟩
    split at heq
    · simp only [Option.bind_eq_bind, Option.bind_eq_some_iff, Prod.exists, Option.some.injEq,
        Prod.mk.injEq] at heq
      obtain ⟨item, last, hitem, rfl, rfl⟩ := heq
      have hread := h.type hitem hs hdrop
      exact typeRead_through hplaced hne hread (hthrough hread hdrop)
    · simp only [Option.bind_eq_bind, Option.bind_eq_some_iff, Prod.exists] at heq
      obtain ⟨item, last, hitem, heq⟩ := heq
      have hread := h.type hitem hs hplaced
      split at heq
      · next mark more hmark =>
        simp only [Option.some.injEq, Prod.mk.injEq] at heq
        obtain ⟨rfl, rfl⟩ := heq
        obtain ⟨hstands, hstart, hmore⟩ := placed_takeSymbol hread.rest hmark
        have hspan := hread.sound.span.le
        have hfirst : token.start ≤ item.span.start := hread.start_le
        have hmark_stop := mark.start_le_stop
        have hle : token.start ≤ mark.stop := by omega
        exact ⟨⟨hplaced.1.2.cut_start, hstands.cut_stop, hle⟩, hne, Nat.le_refl _, hmore⟩
      · simp only [Option.some.injEq, Prod.mk.injEq] at heq
        obtain ⟨rfl, rfl⟩ := heq
        exact hread
  · cases heq

/-- What a pattern covers is read soundly as a type without a schema. -/
theorem readExtent (h : ReadersSound source depth) {setting : Setting} {token : Token}
    {pattern : Pattern}
    (heq : (do
      let reach ← follow depth setting pattern (Reach.before (token :: tokens))
      some (TypeExpr.unsupported ⟨token.start, reach.stop⟩, reach.tokens)) = some (type, rest))
    (hs : setting.source = source) (hplaced : Placed source start (token :: tokens))
    (hfront : pattern.front 8 = .takes) : TypeRead source (token :: tokens) type rest := by
  simp only [Option.bind_eq_bind, Option.bind_eq_some_iff, Option.some.injEq,
    Prod.mk.injEq] at heq
  obtain ⟨reach, hfollow, rfl, rfl⟩ := heq
  exact typeRead_onward hplaced (h.onward hfollow hs hplaced 8 hfront)

/-- An operator in front of a type is read soundly as a type without a
schema. -/
theorem readOperand (h : ReadersSound source depth) {setting : Setting} {token : Token}
    (heq : (do
      let (operand, rest) ← Grammar.readPostfixed depth setting tokens
      some (TypeExpr.unsupported ⟨token.start, operand.span.stop⟩, rest)) = some (type, rest))
    (hs : setting.source = source) (hplaced : Placed source start (token :: tokens)) :
    TypeRead source (token :: tokens) type rest := by
  simp only [Option.bind_eq_bind, Option.bind_eq_some_iff, Prod.exists, Option.some.injEq,
    Prod.mk.injEq] at heq
  obtain ⟨operand, last, hread, rfl, rfl⟩ := heq
  have hoperand := h.postfixed hread hs hplaced.2
  exact typeRead_through hplaced (List.cons_ne_nil _ _) hoperand
    (Nat.le_trans token.start_le_stop (hoperand.le hplaced.2))

/-- Types that no operator holds together are read soundly. -/
theorem readPrimary (h : ReadersSound source depth) :
    ReadsTypes source (Grammar.readPrimary (depth + 1)) := by
  intro setting start tokens rest type heq hs hplaced
  unfold Grammar.readPrimary at heq
  dsimp only at heq
  split at heq
  · cases heq
  next token behind =>
  have hne : token :: behind ≠ [] := List.cons_ne_nil _ _
  have htoken := token.start_le_stop
  -- a span up to a closing bracket behind the first token
  have hspan {closing : Token} (hstands : Stands source closing.text closing.start)
      (hbehind : token.stop ≤ closing.start) : Span.Sound source ⟨token.start, closing.stop⟩ :=
    ⟨hplaced.1.2.cut_start, hstands.cut_stop,
      by have hclosing := closing.start_le_stop; dsimp only; omega⟩
  have hone {found : TypeExpr} (heq : some (found, behind) = some (type, rest))
      (hspan : found.span = token.span) (hsound : token.span.Sound source → found.Sound source) :
      TypeRead source (token :: behind) type rest := by
    simp only [Option.some.injEq, Prod.mk.injEq] at heq
    obtain ⟨rfl, rfl⟩ := heq
    exact typeRead_token hplaced hspan hsound
  split at heq
  · exact hone heq rfl id
  · exact hone heq rfl id
  · split at heq
    · simp only [Option.bind_eq_bind, Option.bind_eq_some_iff, Prod.exists, Option.some.injEq,
        Prod.mk.injEq] at heq
      obtain ⟨inner, behind', hinner, closing, last, hclosing, rfl, rfl⟩ := heq
      have hread := h.type hinner hs hplaced.2
      obtain ⟨hstands, hstart, hlast⟩ := placed_takeSymbol hread.rest hclosing
      have hinner_le := hread.sound.span.le
      have hle := hread.le hplaced.2
      have hclosing_stop := closing.start_le_stop
      refine ⟨⟨hspan hstands (by omega), ?_, hread.sound, ?_⟩, hne, Nat.le_refl _, hlast⟩
      · exact Nat.le_trans htoken hle
      · exact Nat.le_trans hstart hclosing_stop
    split at heq
    · simp only [Option.bind_eq_bind, Option.bind_eq_some_iff, Prod.exists, Option.some.injEq,
        Prod.mk.injEq] at heq
      obtain ⟨items, closing, last, hitems, rfl, rfl⟩ := heq
      have hlist := h.items hitems hs hplaced.2
      exact ⟨⟨hspan hlist.stands hlist.sound.le,
        (hlist.sound.mono_start htoken).mono_stop closing.start_le_stop⟩, hne, Nat.le_refl _,
        hlist.rest⟩
    split at heq
    · next hbrace =>
      simp only [Option.bind_eq_bind, Option.bind_eq_some_iff, Prod.exists] at heq
      obtain ⟨members, closing, last, hmembers, heq⟩ := heq
      have hlist := h.body hmembers hs hplaced.2
      have hwhole := hspan hlist.stands hlist.sound.le
      split at heq
      · simp only [Option.some.injEq, Prod.mk.injEq] at heq
        obtain ⟨rfl, rfl⟩ := heq
        exact ⟨hwhole, hne, Nat.le_refl _, hlist.rest⟩
      · simp only [Option.some.injEq, Prod.mk.injEq] at heq
        obtain ⟨rfl, rfl⟩ := heq
        have hbrace_stop := Token.lt_stop_of_isSymbol hbrace (by decide)
        have hlist_le := hlist.sound.le
        have hclosing_stop := closing.start_le_stop
        have hlt : token.start < closing.stop := by omega
        exact ⟨⟨hwhole, hlt, (hlist.sound.mono_start htoken).mono_stop hclosing_stop⟩, hne,
          Nat.le_refl _, hlist.rest⟩
    split at heq
    · split at heq
      · next digits more =>
        split at heq
        · simp only [Option.some.injEq, Prod.mk.injEq] at heq
          obtain ⟨rfl, rfl⟩ := heq
          exact ⟨hspan hplaced.2.1.2 hplaced.2.1.le, hne, Nat.le_refl _, hplaced.2.2⟩
        · cases heq
      · cases heq
    split at heq
    · exact h.readExtent heq hs hplaced (by decide)
    split at heq
    · exact h.readOperand heq hs hplaced
    split at heq
    · exact hone heq rfl id
    · cases heq
  · split at heq
    · exact hone heq rfl id
    split at heq
    · exact hone heq rfl id
    split at heq
    · exact hone heq rfl id
    split at heq
    · exact h.readExtent heq hs hplaced (by decide)
    split at heq
    · exact h.readOperand heq hs hplaced
    split at heq
    · exact h.readExtent heq hs hplaced (by decide)
    split at heq
    · exact h.readExtent heq hs hplaced (by decide)
    · exact h.reference heq hs hplaced
  · cases heq

end ReadersSound

end InterfaceSchema.Grammar
