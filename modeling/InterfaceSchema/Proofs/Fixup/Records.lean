import InterfaceSchema.Dialect.Effect
import InterfaceSchema.Dialect.Zod
import InterfaceSchema.Fixup
import InterfaceSchema.Proofs.Fixup.Framing
import InterfaceSchema.Proofs.Text.Replacement

/-!
# Records after the fixups

Dialects that differ in how they write records are congruent for becoming, as
long as a record becomes a record when calls are replaced. This is so for the
records of `zod`, which get strings as their keys, and for those of `effect`,
which become records with named arguments in two steps. Records that are fixed
already stay as they are.
-/

namespace InterfaceSchema

namespace Layout

/-- Fixed text on one line around a firm text is not shifted. -/
theorem shifted_between {opening item closing : Text} (hopening : Firm opening)
    (hitem : Firm item) (hfeed : '\n' ∉ opening) (hfeed' : '\n' ∉ closing) (times : Nat) :
    shifted times (opening ++ item ++ closing) = opening ++ shifted times item ++ closing := by
  rw [List.append_assoc, shifted_append hopening, shifted_append hitem,
    shifted_eq_self hfeed, shifted_eq_self hfeed', List.append_assoc]

end Layout

namespace Dialect

open Calls Layout

/-- Schemas for the `zod` library in which all records have strings as their
keys. -/
def zodFixed : Dialect :=
  { zod with record := fun _ _ value => "z.record(z.string(), " ++ value ++ ")" }

/-- Schemas for the `effect` library from the package `effect`, with named
arguments for all records. -/
def effectFixed : Dialect :=
  { effect with
    imports := some ("import \x7b Schema as ES \x7d from 'effect'" : Text)
    record := fun _ key value => "ES.Record(\x7b key: " ++ key ++ ", value: " ++ value ++ " \x7d)" }

section Zod

variable {first second : SchemaType → Text → Text → Text}

/-- The name of the `zod` function for records. -/
theorem callable_zodRecord : Callable "z.record" := ⟨by decide, rfl⟩

/-- The mark of an optional `zod` schema ends expressions. -/
theorem joint_zodOptional : Joint "z.record" (".optional()" : Text) where
  lacks := Text.lacks_of_isInside rfl
  last := ⟨')', rfl, rfl, by decide, by decide⟩
  parted times rest := by
    have hself : shifted times (".optional()" : Text) = ".optional()" :=
      shifted_eq_self (by decide) times
    rw [hself]
    exact Text.parted_of_isParted rfl rest
  closed := ⟨'.', rfl, by decide, by decide⟩

/-- Two `zod` dialects with records that become each other. -/
theorem zod_congruent {change : List Text → Option Text}
    (hrecord : ∀ key written written' {value changed}, Becomes "z.record" change value changed →
      Becomes "z.record" change (first key written value) (second key written' changed)) :
    Congruent (Becomes "z.record" change) { zod with record := first }
      { zod with record := second } := by
  have hcallee := callable_zodRecord
  have hmark : ("z.record" : Text) ∈ Text.marks := List.mem_cons_self
  have hkeyword (keyword : Keyword) : isAlone "z.record" (zod.keyword keyword) = true := by
    cases keyword <;> rfl
  have hdate : isAlone "z.record" zod.date = true := rfl
  have harray : Frame "z.record" "z.array(" ")" := @frame_of_isFrame _ _ _ 1 hcallee rfl
  have hliteral : Frame "z.record" "z.literal(" ")" :=
    @frame_of_isFrame _ _ _ 1 hcallee rfl
  have htuple : Frame "z.record" "z.tuple([" "])" :=
    @frame_of_isFrame _ _ _ 2 hcallee rfl
  have hunion : Frame "z.record" "z.union([" "])" :=
    @frame_of_isFrame _ _ _ 2 hcallee rfl
  have hintersection : Frame "z.record" "z.intersection(" ")" :=
    @frame_of_isFrame _ _ _ 1 hcallee rfl
  have hobject : Frame "z.record" "z.object(\x7b" "\x7d)" :=
    @frame_of_isFrame _ _ _ 2 hcallee rfl
  refine
    { keyword := fun keyword => becomes_of_isAlone hcallee (hkeyword keyword)
      date := becomes_of_isAlone hcallee hdate
      literal := fun literal h => hliteral.wrap hcallee (becomes_literalValue hcallee hmark h)
      reference := fun name h => becomes_name hcallee h.isNamed
      array := fun h => harray.wrap hcallee h
      tuple := fun h => htuple.commas hcallee h
      union := fun h => hunion.commas hcallee h
      intersection := fun hne h => related_chain
        (fun hleft hright =>
          hintersection.pair hcallee hcallee.comma rfl hleft hright) hne h
      object := fun h => hobject.block hcallee
        (forall₂_entries hcallee hmark h fun field field' hfield => ?_)
      record := fun _ h => hrecord _ _ _ h }
  have hoptional : field'.optional = field.optional := by rw [hfield.eq]
  rw [hoptional]
  split
  · exact hfield.value.follow hcallee joint_zodOptional rfl ⟨')', rfl, rfl⟩
  · exact hfield.value

/-- Records of values alone become records with strings as their keys. -/
theorem zod_becomes : Congruent (Becomes "z.record" Fixup.zodRecord) zod zodFixed := by
  refine zod_congruent fun key written written' value changed hvalue => ?_
  refine hvalue.call callable_zodRecord (fun times => ?_) List.getLast?_concat
  have hopening : Firm ("z.record(z.string(), " : Text) :=
    @firm_of_last _ ' ' rfl (by decide) (by decide)
  rw [shifted_between hopening (firm_of_eq hvalue.firm hvalue.last_eq) (by decide) (by decide)]
  rfl

/-- Records that have keys stay as they are. -/
theorem zodFixed_becomes : Congruent (Becomes "z.record" Fixup.zodRecord) zodFixed zodFixed := by
  refine zod_congruent fun key written written' value changed hvalue => ?_
  have hstring : Becomes "z.record" Fixup.zodRecord "z.string()" "z.string()" :=
    becomes_of_isAlone callable_zodRecord rfl
  exact hstring.call_pair_stays hvalue callable_zodRecord fun times => rfl

end Zod

section Effect

variable {change : List Text → Option Text} {first second : SchemaType → Text → Text → Text}
  {text new key key' value value' : Text} {imports : Option Text}

/-- The name of the `effect` function for records. -/
theorem callable_effectRecord : Callable "ES.Record" := ⟨by decide, rfl⟩

/-- An expression becomes one that starts with no brace, so it cannot be taken
for named arguments. -/
def Settles (change : List Text → Option Text) (text new : Text) : Prop :=
  Becomes "ES.Record" change text new ∧
    ∃ c, new.head? = some c ∧ c ≠ '\x7b' ∧ Text.isBlank c = false

/-- What starts like a function of the library starts with no brace. -/
theorem settles (h : Becomes "ES.Record" change text new) (hhead : new.head? = some 'E') :
    Settles change text new := ⟨h, 'E', hhead, by decide, by decide⟩

/-- Two `effect` dialects with records that become each other. -/
theorem effect_congruent
    (hrecord : ∀ {type key key' value value'},
      (type = .keyword .string → key' = "ES.String".toList) → Settles change key key' →
      Settles change value value' →
      Settles change (first type key value) (second type key' value')) :
    Congruent (Settles change) { effect with imports := imports, record := first }
      { effect with imports := imports, record := second } := by
  have hcallee := callable_effectRecord
  have hmark : ("ES.Record" : Text) ∈ Text.marks := List.mem_cons_of_mem _ List.mem_cons_self
  have hword (word : Text) (hne : word ≠ [])
      (h : isWord word = true) (hhead : word.head? = some 'E') : Settles change word word :=
    settles (becomes_word hcallee hne h) hhead
  have hkeyword (keyword : Keyword) : effect.keyword keyword ≠ [] ∧
      isWord (effect.keyword keyword) = true ∧ (effect.keyword keyword).head? = some 'E' := by
    cases keyword <;> exact ⟨by decide, rfl, rfl⟩
  have harray : Frame "ES.Record" "ES.Array(" ")" :=
    @frame_of_isFrame _ _ _ 1 hcallee rfl
  have hliteral : Frame "ES.Record" "ES.Literal(" ")" :=
    @frame_of_isFrame _ _ _ 1 hcallee rfl
  have htuple : Frame "ES.Record" "ES.Tuple(" ")" :=
    @frame_of_isFrame _ _ _ 1 hcallee rfl
  have hunion : Frame "ES.Record" "ES.Union(" ")" :=
    @frame_of_isFrame _ _ _ 1 hcallee rfl
  have hextend : Frame "ES.Record" "ES.extend(" ")" :=
    @frame_of_isFrame _ _ _ 1 hcallee rfl
  have hoptional : Frame "ES.Record" "ES.optional(" ")" :=
    @frame_of_isFrame _ _ _ 1 hcallee rfl
  have hstruct : Frame "ES.Record" "ES.Struct(\x7b" "\x7d)" :=
    @frame_of_isFrame _ _ _ 2 hcallee rfl
  have hcomma : Joint "ES.Record" [',', ' '] := hcallee.comma
  have hfields (field field' : WrittenField)
      (h : WrittenField.Related (Settles change) field field') :
      Becomes "ES.Record" change
        (if field.optional then "ES.optional(" ++ field.value ++ ")" else field.value)
        (if field'.optional then "ES.optional(" ++ field'.value ++ ")" else field'.value) := by
    have hmarked : field'.optional = field.optional := by rw [h.eq]
    rw [hmarked]
    split
    · exact hoptional.wrap hcallee h.value.1
    · exact h.value.1
  have hrow {items changes} (h : List.Forall₂ (Settles change) items changes) :
      List.Forall₂ (Becomes "ES.Record" change) items changes := h.imp fun _ _ h => h.1
  refine
    { keyword := fun keyword => hword _ (hkeyword keyword).1 (hkeyword keyword).2.1
        (hkeyword keyword).2.2
      date := hword "ES.Date" (by decide) rfl rfl
      literal := fun literal h =>
        settles (hliteral.wrap hcallee (becomes_literalValue hcallee hmark h)) rfl
      reference := fun name h => ?_
      array := fun h => settles (harray.wrap hcallee h.1) rfl
      tuple := fun h => settles (htuple.commas hcallee (hrow h)) rfl
      union := fun h => settles (hunion.commas hcallee (hrow h)) rfl
      intersection := fun hne h => related_chain (fun hleft hright =>
        settles (hextend.pair hcallee hcomma rfl hleft.1 hright.1) rfl) hne h
      object := fun h => ?_
      record := fun {type _ _} hkey hvalue => hrecord (fun htype => ?_) hkey hvalue }
  · obtain ⟨c, rest, rfl⟩ := List.exists_cons_of_ne_nil h.ne_nil
    have hnamed := Text.startsName_of_isDotted h List.mem_cons_self
    refine ⟨becomes_name hcallee h.isNamed, c, rfl, ?_, isBlank_of_named hnamed⟩
    rintro rfl
    exact absurd hnamed (by decide)
  · have hentries := forall₂_entries hcallee hmark h hfields
    have hblock := hstruct.block_eq (EntryBecomes.lines hentries).2
    exact settles (hstruct.block hcallee hentries) ((congrArg List.head? hblock).trans rfl)
  · subst htype
    rw [writeType]
    rfl

/-- A record with named arguments is a call with one argument. -/
theorem effectRecord_eq (key value : Text) : Fixup.effectRecord key value =
    callOf "ES.Record" ("\x7b key: " ++ key ++ ", value: " ++ value ++ " \x7d") := by
  unfold Fixup.effectRecord callOf
  simp only [List.append_assoc]
  rfl

/-- The parts of a record with named arguments are shifted one by one. -/
theorem shifted_effectRecord (hkey : Firm key) (hvalue : Firm value) (times : Nat) :
    shifted times (Fixup.effectRecord key value) =
      Fixup.effectRecord (shifted times key) (shifted times value) := by
  have hopening : Firm ("ES.Record(\x7b key: " : Text) :=
    @firm_of_last _ ' ' rfl (by decide) (by decide)
  have hcomma : Firm (", value: " : Text) := @firm_of_last _ ' ' rfl (by decide) (by decide)
  have hmiddle : Firm ("ES.Record(\x7b key: " ++ key ++ ", value: ") :=
    firm_of_eq hcomma (by rw [List.getLast?_append]; rfl)
  have hclosing : shifted times (" \x7d)" : Text) = " \x7d)" := shifted_eq_self (by decide) times
  unfold Fixup.effectRecord
  rw [List.append_assoc, shifted_append hmiddle, shifted_append hvalue,
    shifted_between hopening hkey (by decide) (by decide), hclosing]
  simp only [List.append_assoc]

/-- A record with named arguments ends with a bracket. -/
theorem getLast?_effectRecord (key value : Text) :
    (Fixup.effectRecord key value).getLast? = some ')' := by
  unfold Fixup.effectRecord
  rw [List.getLast?_append]
  rfl

/-- Named arguments are an expression. -/
theorem becomes_named (hkey : Becomes "ES.Record" change key key')
    (hvalue : Becomes "ES.Record" change value value') :
    Becomes "ES.Record" change ("\x7b key: " ++ key ++ ", value: " ++ value ++ " \x7d")
      ("\x7b key: " ++ key' ++ ", value: " ++ value' ++ " \x7d") := by
  have hcallee := callable_effectRecord
  have hframe : Frame "ES.Record" "\x7b key: " " \x7d" :=
    @frame_of_isFrame _ _ _ 1 hcallee rfl
  have hjoint : Joint "ES.Record" (", value: " : Text) := joint_of_isJoint hcallee rfl
  exact hframe.pair hcallee hjoint rfl hkey hvalue

/-- A record with named arguments stays one under a change that leaves named
arguments alone. -/
theorem effectRecord_stays (hkey : Becomes "ES.Record" change key key')
    (hvalue : Becomes "ES.Record" change value value')
    (hchange : ∀ argument : Text, argument.head? = some '\x7b' → change [argument] = none) :
    Settles change (Fixup.effectRecord key value) (Fixup.effectRecord key' value') := by
  refine settles ?_ rfl
  rw [effectRecord_eq, effectRecord_eq]
  exact (becomes_named hkey hvalue).call_stays callable_effectRecord fun times =>
    hchange _ (head?_shifted rfl (by decide) times)

/-- An `effect` record as it is between the two rules for records: with one
argument for string keys, with named arguments for others. -/
def effectBetween : SchemaType → Text → Text → Text
  | .keyword .string, _, value => "ES.Record(" ++ value ++ ")"
  | _, key, value => Fixup.effectRecord key value

/-- Records with other keys than strings have two arguments at first. -/
theorem effect_record {type : SchemaType} (htype : type ≠ .keyword .string) :
    effect.record type key value = "ES.Record(" ++ key ++ ", " ++ value ++ ")" := by
  unfold effect
  dsimp only
  split
  · exact absurd rfl htype
  · rfl

/-- Records with other keys than strings have named arguments between the
rules. -/
theorem effectBetween_eq {type : SchemaType} (htype : type ≠ .keyword .string) :
    effectBetween type key value = Fixup.effectRecord key value := by
  unfold effectBetween
  split
  · exact absurd rfl htype
  · rfl

/-- The first rule for records names the arguments where there are two. -/
theorem effect_becomes : Congruent (Settles Fixup.effectPair) effect
    { effect with record := effectBetween } := by
  refine effect_congruent fun {type key key' value value'} _ hkey hvalue => ?_
  have hfirm := firm_of_eq hkey.1.firm hkey.1.last_eq
  have hfirm' := firm_of_eq hvalue.1.firm hvalue.1.last_eq
  have hsingle : Settles Fixup.effectPair (callOf "ES.Record" value) (callOf "ES.Record" value') :=
    settles (hvalue.1.call_stays callable_effectRecord fun times => rfl) rfl
  have hpair : Settles Fixup.effectPair (callOf "ES.Record" (key ++ (", " ++ value)))
      (Fixup.effectRecord key' value') := by
    refine settles (hkey.1.call_pair hvalue.1 callable_effectRecord (fun times => ?_)
      (getLast?_effectRecord _ _)) rfl
    rw [shifted_effectRecord hfirm hfirm']
    rfl
  have hassoc : callOf "ES.Record" (key ++ (", " ++ value)) =
      "ES.Record(" ++ key ++ ", " ++ value ++ ")" := by
    simp [callOf]
  rw [hassoc] at hpair
  by_cases htype : type = .keyword .string
  · subst htype
    exact hsingle
  · rw [← effect_record htype, ← effectBetween_eq htype] at hpair
    exact hpair

/-- The second rule for records gives strings as keys where there is one
argument. -/
theorem effectBetween_becomes : Congruent (Settles Fixup.effectValue)
    { effect with record := effectBetween }
    { effect with record := fun _ key value => Fixup.effectRecord key value } := by
  refine effect_congruent fun {type key key' value value'} hstring hkey hvalue => ?_
  obtain ⟨hbecomes, c, hhead, hbrace, hblank⟩ := hvalue
  have hreturn : c ≠ '\r' := by
    rintro rfl
    exact absurd hblank (by decide)
  have hfirm : Firm ("ES.String" : Text) := @firm_of_last _ 'g' rfl (by decide) (by decide)
  have hsingle : Settles Fixup.effectValue (callOf "ES.Record" value)
      (Fixup.effectRecord "ES.String" value') := by
    refine settles (hbecomes.call callable_effectRecord (fun times => ?_)
      (getLast?_effectRecord _ _)) rfl
    have hopen : (shifted times value').head? ≠ some '\x7b' := by
      rw [head?_shifted hhead hreturn]
      simpa using hbrace
    have hself : shifted times ("ES.String" : Text) = "ES.String" :=
      shifted_eq_self (by decide) times
    rw [shifted_effectRecord hfirm (firm_of_eq hbecomes.firm hbecomes.last_eq), hself]
    exact if_neg hopen
  by_cases htype : type = .keyword .string
  · subst htype
    rw [hstring rfl]
    exact hsingle
  · rw [effectBetween_eq htype]
    exact effectRecord_stays hkey.1 hbecomes fun argument hargument => if_pos hargument

/-- Records with named arguments stay as they are under a change that leaves
named arguments alone. -/
theorem effectFixed_becomes (hchange : ∀ argument : Text, argument.head? = some '\x7b' →
    change [argument] = none) : Congruent (Settles change) effectFixed effectFixed :=
  effect_congruent fun _ hkey hvalue => effectRecord_stays hkey.1 hvalue.1 hchange

end Effect

end Dialect

end InterfaceSchema
