import InterfaceSchema.Dialect.Yup
import InterfaceSchema.Proofs.Dialect.Unions
import InterfaceSchema.Proofs.Fixup.Records

/-!
# Marks in written code

Neither the name of the old package nor the old import stands in what a
dialect writes for well spelled types: fixed texts around expressions are
clear of them, and so they would have to stand in a name, a literal or the
name of a field.
-/

namespace InterfaceSchema

namespace Dialect

open Layout Text

/-- The pattern does not stand in the text. -/
def Lacks (pattern text : Text) : Prop := ¬pattern <:+: text

/-- Whether a fixed text is bare of a pattern. -/
def isBare (pattern text : Text) : Bool :=
  !isInside pattern text && text.getLast?.any (fun c => c != '\n')

/-- Whether a pattern can neither stand nor start in a fixed text nor go on
into it. -/
def isSeam (pattern fixed : Text) : Bool := isClear pattern fixed && isParted pattern fixed

variable {pattern mark fixed text name : Text}

/-- A fixed text for which this is decided is bare. -/
theorem bare_of_isBare (h : isBare pattern text = true) : Bare (Lacks pattern) text := by
  rw [isBare, Bool.and_eq_true, Bool.not_eq_true'] at h
  exact ⟨lacks_of_isInside h.1, h.2⟩

/-- A fixed text in which no mark stands. -/
theorem unmarked_of_all (h : marks.all (fun mark => !isInside mark text) = true) :
    Unmarked text := fun mark hmark => by
  have hlacks := List.all_eq_true.1 h mark hmark
  rw [Bool.not_eq_true'] at hlacks
  exact lacks_of_isInside hlacks

/-- A pattern does not stand in a text behind a fixed one that is clear of
it. -/
theorem opens_of_isClear (h : isClear pattern fixed = true) : Opens (Lacks pattern) fixed :=
  (clear_of_isClear h).lacks_append

/-- A pattern does not stand in two texts with a seam between them. -/
theorem joins_of_isSeam (h : isSeam pattern fixed = true) : Joins (Lacks pattern) fixed := by
  rw [isSeam, Bool.and_eq_true] at h
  intro first second hfirst hsecond
  exact lacks_append hfirst (opens_of_isClear h.1 hsecond) (parted_of_isParted h.2 second)

/-- Marks stand on one line and hold none of the signs around expressions. -/
theorem mark_signs (hmark : mark ∈ marks) : mark ≠ [] ∧ mark.head? ≠ some ' ' ∧ '\n' ∉ mark ∧
    ',' ∉ mark ∧ '\'' ∉ mark ∧ '\\' ∉ mark := by
  revert mark
  decide

/-- Fixed text between and before expressions holds no mark. -/
theorem mark_seams (hmark : mark ∈ marks) : isSeam mark ", " = true ∧ isSeam mark "," = true ∧
    isSeam mark ": " = true ∧ isSeam mark "\n" = true ∧ isSeam mark "\n  " = true := by
  have hall : marks.all (fun mark => isSeam mark ", " && isSeam mark "," && isSeam mark ": " &&
      isSeam mark "\n" && isSeam mark "\n  ") = true := rfl
  simpa only [Bool.and_eq_true, and_assoc] using List.all_eq_true.1 hall mark hmark

/-- Marks do not stand in code that is laid out. -/
theorem layable_marks (hmark : mark ∈ marks) : Layable (Lacks mark) := by
  obtain ⟨hne, hblank, hfeed, -⟩ := mark_signs hmark
  obtain ⟨hrow, hcomma, hcolon, -, hline⟩ := mark_seams hmark
  exact
    { nil := fun hinside => hne (List.infix_nil.1 hinside)
      shift := lacks_shift hne hfeed hblank
      line := opens_of_isClear (Bool.and_eq_true_iff.1 hline).1
      comma := joins_of_isSeam hcomma
      row := joins_of_isSeam hrow
      colon := joins_of_isSeam hcolon }

/-- A pattern with a character that names do not hold stands in no name. -/
theorem lacks_name {c : Char} (hmem : c ∈ pattern) (hc : Calls.startsName (some c) = true)
    (hname : name.IsNamed) : Lacks pattern name := fun hinside => by
  rw [hname.2 c (hinside.subset hmem)] at hc
  cases hc

/-- A mark with a character that numbers do not hold stands in no literal. -/
theorem lacks_literalValue (hmark : mark ∈ marks) {c : Char} (hmem : c ∈ mark)
    (hc : isNumeral c = false) {literal : Literal} (h : literal.WellSpelled) :
    Lacks mark (literalValue literal) := by
  obtain ⟨hne, -, -, -, hquote, hslash⟩ := mark_signs hmark
  have hbooleans : marks.all (fun mark => isBare mark "true" && isBare mark "false") = true := rfl
  cases literal with
  | string value => exact lacks_quote hne hquote hslash (h mark hmark)
  | number spelling =>
    intro hinside
    rw [h.2 c (hinside.subset hmem)] at hc
    cases hc
  | boolean value =>
    have hboth := Bool.and_eq_true_iff.1 (List.all_eq_true.1 hbooleans mark hmark)
    cases value
    · exact (bare_of_isBare hboth.2).1
    · exact (bare_of_isBare hboth.1).1

/-- A mark that is not in the name of a field is not in its key. -/
theorem lacks_key (hmark : mark ∈ marks) (h : Lacks mark name) : Lacks mark (propertyKey name) := by
  obtain ⟨hne, -, -, -, hquote, hslash⟩ := mark_signs hmark
  exact lacks_propertyKey hne hquote hslash h

section Effect

/-- The old package stands in no fixed `effect` type. -/
theorem effectFixed_bare :
    Upholds (Lacks "@effect/schema") (Bare (Lacks "@effect/schema")) effectFixed := by
  have hmark : ("@effect/schema" : Text) ∈ marks := by decide
  have hsign : '@' ∈ ("@effect/schema" : Text) := by decide
  have hlay := layable_marks hmark
  have hkeyword (keyword : Keyword) : isBare "@effect/schema" (effect.keyword keyword) = true := by
    cases keyword <;> rfl
  have hcall (name : Text) (hname : isClear "@effect/schema" name = true) {item : Text}
      (hitem : Lacks "@effect/schema" item) : Bare (Lacks "@effect/schema") (name ++ item ++ ")") :=
    hlay.between (opens_of_isClear hname) hitem (joins_of_isSeam rfl) rfl
  have hrow {items : List Text} (h : ∀ item ∈ items, Bare (Lacks "@effect/schema") item) :
      Lacks "@effect/schema" (commas items) := hlay.commas fun item hitem => (h item hitem).1
  refine
    { keyword := fun keyword => bare_of_isBare (hkeyword keyword)
      date := bare_of_isBare rfl
      literal := fun literal h _ => hcall "ES.Literal(" rfl (lacks_literalValue hmark hsign rfl h)
      reference := fun name h => ⟨lacks_name hsign rfl h.isNamed, getLast?_dotted h⟩
      array := fun h => hcall "ES.Array(" rfl h.1
      tuple := fun h => hcall "ES.Tuple(" rfl (hrow h)
      union := fun h => hcall "ES.Union(" rfl (hrow h)
      intersection := fun hne h => forall_chain (fun hleft hright => ?_) hne h
      object := fun h => hlay.block (opens_of_isClear rfl)
        (hlay.entries (lacks_key hmark) h fun field hvalue => ?_) (bare_of_isBare rfl)
        (joins_of_isSeam rfl)
      record := fun hkey hvalue => ?_ }
  · exact hlay.pair (opens_of_isClear rfl) hleft.1 (joins_of_isSeam rfl) hright.1
      (joins_of_isSeam rfl) rfl
  · split
    · exact hcall "ES.optional(" rfl hvalue.1
    · exact hvalue
  · exact hlay.pair (opens_of_isClear rfl) hkey.1 (joins_of_isSeam rfl) hvalue.1
      (joins_of_isSeam rfl) rfl

end Effect

section Yup

/-- The values of a set of literals stand in the set. -/
theorem infix_of_yupSetValues? {schema values : Text} (h : yupSetValues? schema = some values) :
    values <:+: schema :=
  infix_of_afterStart?_beforeEnd? h

/-- A schema without the mark of a required one stands in the schema. -/
theorem infix_of_getD_beforeEnd? (schema : Text) :
    (beforeEnd? yupRequired schema).getD schema <:+: schema := by
  cases hbefore : beforeEnd? yupRequired schema with
  | none => exact List.infix_rfl
  | some base => exact infix_of_beforeEnd? hbefore

/-- The old import stands in no `yup` type. -/
theorem yup_bare : Upholds (Lacks "import y from") (Bare (Lacks "import y from")) yup := by
  have hmark : ("import y from" : Text) ∈ marks := by decide
  have hsign : ' ' ∈ ("import y from" : Text) := by decide
  have hlay := layable_marks hmark
  have hkeyword (keyword : Keyword) : isBare "import y from" (yup.keyword keyword) = true := by
    cases keyword <;> rfl
  have hcall (opening closing : Text) (hopening : isClear "import y from" opening = true)
      (hclosing : isSeam "import y from" closing = true)
      (hlast : closing.getLast?.any (fun c => c != '\n') = true) {item : Text}
      (hitem : Lacks "import y from" item) :
      Bare (Lacks "import y from") (opening ++ item ++ closing) :=
    hlay.between (opens_of_isClear hopening) hitem (joins_of_isSeam hclosing) hlast
  have hrow {items : List Text} (h : ∀ item ∈ items, Lacks "import y from" item) :
      Lacks "import y from" (commas items) := hlay.commas h
  refine
    { keyword := fun keyword => bare_of_isBare (hkeyword keyword)
      date := bare_of_isBare rfl
      literal := fun literal h _ =>
        hcall yupSetStart yupSetEnd rfl rfl rfl (lacks_literalValue hmark hsign rfl h)
      reference := fun name h => ⟨lacks_name hsign rfl h.isNamed, getLast?_dotted h⟩
      array := fun h => hcall "y.array(" ").required()" rfl rfl rfl h.1
      tuple := fun h =>
        hcall "y.tuple([" "]).required()" rfl rfl rfl (hrow fun item hitem => (h item hitem).1)
      union := fun h => ?_
      intersection := fun hne h => forall_chain (fun hleft hright => ?_) hne h
      object := fun h => ?_
      record := fun _ _ => bare_of_isBare rfl }
  · rcases yup_union_cases _ with ⟨values, hvalues, hunion⟩ | hunion
    · rw [hunion]
      refine hcall yupSetStart yupSetEnd rfl rfl rfl (hrow fun value hvalue => ?_)
      obtain ⟨part, hpart, hfound⟩ := exists_of_mem_mapM hvalues value hvalue
      exact fun hinside => (h part hpart).1 (hinside.trans (infix_of_yupSetValues? hfound))
    · rw [hunion]
      exact bare_of_isBare rfl
  · exact @Layable.pair _ [] _ _ _ _ hlay (opens_of_isClear (by decide)) hleft.1
      (joins_of_isSeam rfl) hright.1 (joins_of_isSeam rfl) rfl
  · have hentries := hlay.entries (lacks_key hmark) h fun field hvalue =>
      (show Bare (Lacks "import y from")
        (if field.optional then yupOptional field.value else field.value) from by
        split
        · exact hcall [] ".optional()" (by decide) rfl rfl fun hinside =>
            hvalue.1 (hinside.trans (infix_of_getD_beforeEnd? field.value))
        · exact hvalue)
    have hblock := @Layable.block _ "y.object(\x7b" "\x7d)" _ hlay (opens_of_isClear rfl) hentries
      (bare_of_isBare rfl) (joins_of_isSeam rfl)
    exact hcall [] yupRequired (by decide) rfl rfl hblock.1

end Yup

end Dialect

end InterfaceSchema
