import InterfaceSchema.Generate
import InterfaceSchema.Proofs.Fixup.Literals

/-!
# What fixups spare

The literals of generated code stay as they are, in their order, if what a rule
looks for in the whole code stands in none of them. One of them is changed on
purpose: the name of the package that `effect` code imports, which is the first
literal of such code.
-/

namespace InterfaceSchema

open Text

/-- The texts that a rule looks for wherever they stand. -/
def FixupRule.sought : FixupRule → List Text
  | .first _ _ => []
  | .every old _ => [old]
  | .calls callee _ => [callee ++ "("]

/-- The texts that the rules for a target look for wherever they stand. -/
def Fixup.sought (target : Target) : List Text := (rules target).flatMap FixupRule.sought

section Reading

variable {old new first text callee : Text} {change : List Text → Option Text} {reading : Reading}

/-- If a pattern stands outside of literals only, then a text is read alike
when it is replaced. -/
theorem through_replaceAll (hne : old ≠ []) (hold : Unquoted old) (hnew : Unquoted new)
    (h : Outside old reading text) : reading.through (replaceAll old new text) =
      reading.through text := by
  induction hlength : text.length using Nat.strongRecOn generalizing text reading with
  | ind length ih =>
    subst hlength
    cases text with
    | nil => rfl
    | cons c rest =>
      by_cases hlead : old <+: c :: rest
      · obtain ⟨after, hafter⟩ := hlead
        rw [← hafter] at h ih ⊢
        have hspot : reading.spot = .code := h [] after rfl
        have hdrop := h.drop
        rw [Reading.through_unquoted hspot hold] at hdrop
        have hpositive := List.length_pos_iff.2 hne
        have hafter := ih after.length (by rw [List.length_append]; omega) hdrop rfl
        rw [replaceAll_lead hne, Reading.through_append, Reading.through_unquoted hspot hnew,
          hafter, Reading.through_append, Reading.through_unquoted hspot hold]
      · rw [replaceAll_cons hlead, Reading.through_cons, Reading.through_cons]
        exact ih rest.length (Nat.lt_succ_self _) (@Outside.drop reading [c] rest _ h) rfl

/-- Behind code outside of literals the literals are those of the rest. -/
theorem literals_append (hfirst : (Reading.start.through first).spot = .code) (second : Text) :
    literals (first ++ second) = literals first ++ literals second := by
  have hnone : (Reading.start.through first).literals = (Reading.start.through first).closed := by
    rw [Reading.literals, hfirst]
    exact List.append_nil _
  rw [literals, Reading.through_append, Reading.literals_through hfirst, ← hnone]
  rfl

/-- Calls whose name stands in no literal are replaced without a change to the
literals. -/
theorem literals_replaced (hne : callee ≠ []) (hcallee : Unquoted (callee ++ "("))
    (hchange : Calls.Faithful change)
    (h : ∀ literal ∈ literals text, ¬(callee ++ "(" : Text) <:+: literal)
    (before : Option Char) :
    literals (Calls.replaced callee change before text) = literals text := by
  have hname : Unquoted callee := fun c hc => hcallee c (List.mem_append_left _ hc)
  rw [literals, Calls.through_replaced hne hname hchange (outside_of_literals hcallee h)]
  rfl

/-- A pattern that stands in no literal is replaced without a change to the
literals. -/
theorem literals_replaceAll (hne : old ≠ []) (hold : Unquoted old) (hnew : Unquoted new)
    (h : ∀ literal ∈ literals text, ¬old <:+: literal) :
    literals (replaceAll old new text) = literals text := by
  rw [literals, through_replaceAll hne hold hnew (outside_of_literals hold h)]
  rfl

end Reading

section Changes

variable {reading : Reading} {first second value : Text}

/-- Text without quotes around a balanced text is not read. -/
theorem through_around (hspot : reading.spot = .code) (hfirst : Unquoted first)
    (hvalue : Balanced value) (hsecond : Unquoted second) :
    reading.through (first ++ value ++ second) = reading.through value := by
  rw [Reading.through_append, Reading.through_append, Reading.through_unquoted hspot hfirst,
    Reading.through_unquoted (hvalue reading hspot) hsecond]

/-- A `zod` record is read like its values. -/
theorem faithful_zodRecord : Calls.Faithful Fixup.zodRecord := by
  intro arguments call hcall hbalanced reading hspot
  unfold Fixup.zodRecord at hcall
  split at hcall
  · next value =>
    have hlead : Unquoted ("z.record(z.string(), " : Text) := unquoted_of_all rfl
    have hend : Unquoted (")" : Text) := unquoted_of_all rfl
    have hbalanced := hbalanced value List.mem_cons_self
    rw [← Option.some.inj hcall, through_around hspot hlead hbalanced hend]
    rfl
  · cases hcall

/-- A named record is read like its keys and its values. -/
theorem through_effectRecord (hspot : reading.spot = .code) {key : Text} (hkey : Balanced key)
    (hvalue : Balanced value) : reading.through (Fixup.effectRecord key value) =
      (reading.through key).through value := by
  have hlead : Unquoted ("ES.Record(\x7b key: " : Text) := unquoted_of_all rfl
  have hmiddle : Unquoted (", value: " : Text) := unquoted_of_all rfl
  have hend : Unquoted (" \x7d)" : Text) := unquoted_of_all rfl
  have hrecord : Fixup.effectRecord key value = "ES.Record(\x7b key: ".toList ++
      (key ++ (", value: ".toList ++ (value ++ " \x7d)".toList))) := by
    unfold Fixup.effectRecord
    simp only [List.append_assoc]
  rw [hrecord, Reading.through_append, Reading.through_append, Reading.through_append,
    Reading.through_append, Reading.through_unquoted hspot hlead,
    Reading.through_unquoted (hkey reading hspot) hmiddle,
    Reading.through_unquoted (hvalue _ (hkey reading hspot)) hend]

/-- A record with names for keys and values is read like them. -/
theorem faithful_effectPair : Calls.Faithful Fixup.effectPair := by
  intro arguments call hcall hbalanced reading hspot
  unfold Fixup.effectPair at hcall
  split at hcall
  · next key value =>
    cases hcall
    exact through_effectRecord hspot (hbalanced key List.mem_cons_self)
      (hbalanced value (List.mem_cons_of_mem _ List.mem_cons_self))
  · cases hcall

/-- A record with a name for its values is read like them. -/
theorem faithful_effectValue : Calls.Faithful Fixup.effectValue := by
  intro arguments call hcall hbalanced reading hspot
  unfold Fixup.effectValue at hcall
  split at hcall
  · next value =>
    split at hcall
    · cases hcall
    · cases hcall
      have hkey : Unquoted ("ES.String" : Text) := unquoted_of_all rfl
      rw [through_effectRecord hspot hkey.balanced (hbalanced value List.mem_cons_self),
        Reading.through_unquoted hspot hkey]
      rfl
  · cases hcall

end Changes

section Files

variable {source generated imports body : Text} {dialect : Dialect} {target : Target}

/-- Code in a dialect starts with its imports. -/
theorem exists_of_generate (himports : dialect.imports = some imports)
    (h : dialect.generate source = .ok generated) : ∃ body, generated = imports ++ body := by
  unfold Dialect.generate at h
  cases hmodel : Model.ofSource source with
  | error failure =>
    rw [hmodel] at h
    cases h
  | ok model =>
    rw [hmodel] at h
    cases h
    refine ⟨"\n\n" ++ Text.joinWith "\n" (model.declarations.map (dialect.writeDeclaration)), ?_⟩
    rw [Dialect.emit, himports, List.append_assoc]

/-- The fixup of `zod` code spares the literals. -/
theorem literals_zod (h : ∀ literal ∈ literals body, ¬"z.record(".toList <:+: literal) :
    literals (Fixup.apply .zod ("import \x7b z \x7d from 'zod'" ++ body)) =
      literals ("import \x7b z \x7d from 'zod'" ++ body) := by
  have happly (code : Text) : Fixup.apply .zod code =
      Calls.replaced "z.record" Fixup.zodRecord none code := rfl
  rw [happly]
  refine literals_replaced (by decide) (unquoted_of_all rfl) faithful_zodRecord
    (fun literal hliteral => ?_) none
  rw [literals_append rfl] at hliteral
  rcases List.mem_append.1 hliteral with hliteral | hliteral
  · have himport : literals ("import \x7b z \x7d from 'zod'" : Text) = ["'zod'".toList] := rfl
    rw [himport, List.mem_singleton] at hliteral
    rw [hliteral]
    exact lacks_of_isInside rfl
  · exact h literal hliteral

/-- The fixup of `yup` code spares the literals. -/
theorem literals_yup (body : Text) : literals (Fixup.apply .yup ("import y from 'yup'" ++ body)) =
      literals ("import y from 'yup'" ++ body) := by
  have happly : Fixup.apply .yup ("import y from 'yup'" ++ body) =
      "import * as y from 'yup'" ++ body :=
    @replaceFirst_append "import y from 'yup'" "import * as y from 'yup'" (by decide) body
  have himport : literals ("import y from 'yup'" : Text) = ["'yup'".toList] := rfl
  have hfixed : literals ("import * as y from 'yup'" : Text) = ["'yup'".toList] := rfl
  rw [happly, literals_append rfl, literals_append rfl, himport, hfixed]

/-- The fixups of `effect` code change the name of the package and spare all
other literals. -/
theorem literals_effect (hrecord : ∀ literal ∈ literals body, ¬"ES.Record(".toList <:+: literal)
    (hpackage : ∀ literal ∈ literals body, ¬"@effect/schema".toList <:+: literal) :
    literals (Fixup.apply .effect ("import \x7b Schema as ES \x7d from '@effect/schema'" ++ body)) =
      "'effect'".toList :: literals body := by
  have hclear : Clear "ES.Record" ("import \x7b Schema as ES \x7d from '@effect/schema'" : Text) :=
    clear_of_isClear rfl
  have hreplace {change : List Text → Option Text} (hchange : Calls.Faithful change) {code : Text}
      (hcode : literals code = literals body) : ∃ fixed, literals fixed = literals body ∧
        Calls.replaceCalls "ES.Record" change
          ("import \x7b Schema as ES \x7d from '@effect/schema'" ++ code) =
            "import \x7b Schema as ES \x7d from '@effect/schema'" ++ fixed :=
    ⟨_, (literals_replaced (by decide) (unquoted_of_all rfl) hchange (hcode ▸ hrecord) _).trans
      hcode, Calls.replaced_clear hclear⟩
  obtain ⟨paired, hpaired, hpairs⟩ := hreplace faithful_effectPair rfl
  obtain ⟨valued, hvalued, hvalues⟩ := hreplace faithful_effectValue hpaired
  have hstart : Clear "@effect/schema" ("import \x7b Schema as ES \x7d from '" : Text) :=
    clear_of_isClear rfl
  have hquote : ¬"@effect/schema".toList <+: '\'' :: valued := fun hlead =>
    absurd (List.cons_prefix_cons.1 hlead).1 (by decide)
  have hrenamed :=
    @replaceAll_append "@effect/schema" "effect" _ (by decide) hstart ('\'' :: valued)
  rw [replaceAll_cons hquote] at hrenamed
  have happly (code : Text) : Fixup.apply .effect code =
      replaceAll "@effect/schema" "effect" (Calls.replaceCalls "ES.Record" Fixup.effectValue
        (Calls.replaceCalls "ES.Record" Fixup.effectPair code)) := rfl
  have hfixed : Fixup.apply .effect
      ("import \x7b Schema as ES \x7d from '@effect/schema'" ++ body) =
        "import \x7b Schema as ES \x7d from 'effect'" ++
          replaceAll "@effect/schema" "effect" valued := by
    have hold : ("import \x7b Schema as ES \x7d from '@effect/schema'" : Text) =
        "import \x7b Schema as ES \x7d from '".toList ++ ("@effect/schema".toList ++ ['\'']) := rfl
    have hnew : ("import \x7b Schema as ES \x7d from 'effect'" : Text) =
        "import \x7b Schema as ES \x7d from '".toList ++ ("effect".toList ++ ['\'']) := rfl
    rw [happly, hpairs, hvalues, hold, hnew, List.append_assoc, List.append_assoc,
      List.append_assoc, List.append_assoc]
    exact hrenamed
  have himport : literals ("import \x7b Schema as ES \x7d from 'effect'" : Text) =
      ["'effect'".toList] := rfl
  rw [hfixed, literals_append rfl, himport, literals_replaceAll (by decide)
    (unquoted_of_all rfl) (unquoted_of_all rfl) (hvalued ▸ hpackage), hvalued]
  rfl

/-- The fixups of a target leave the literals of generated code as they are, in
their order, if no rule looks for something that stands in one of them. The
first literal, the name of the imported package, is the one that the fixups of
`effect` code change. -/
theorem literals_apply (h : flattenAndGenerate target source = .ok generated)
    (hfree : ∀ pattern ∈ Fixup.sought target, ∀ literal ∈ (literals generated).tail,
      ¬pattern <:+: literal) :
    (target ≠ .effect → literals (Fixup.apply target generated) = literals generated) ∧
      (target = .effect → ∃ others, literals generated = "'@effect/schema'".toList :: others ∧
        literals (Fixup.apply target generated) = "'effect'".toList :: others) := by
  obtain ⟨flattened, hgenerate⟩ : ∃ flattened, generate target flattened = .ok generated := by
    unfold flattenAndGenerate at h
    split at h
    · cases h
    · cases h
    · exact ⟨_, h⟩
  cases target with
  | zod =>
    obtain ⟨body, rfl⟩ := exists_of_generate rfl hgenerate
    refine ⟨fun _ => literals_zod fun literal hliteral => ?_, fun heffect => nomatch heffect⟩
    rw [literals_append rfl] at hfree
    exact hfree _ List.mem_cons_self literal hliteral
  | yup =>
    obtain ⟨body, rfl⟩ := exists_of_generate rfl hgenerate
    exact ⟨fun _ => literals_yup body, fun heffect => nomatch heffect⟩
  | effect =>
    obtain ⟨body, rfl⟩ := exists_of_generate rfl hgenerate
    have himport : literals ("import \x7b Schema as ES \x7d from '@effect/schema'" : Text) =
        ["'@effect/schema'".toList] := rfl
    rw [literals_append rfl, himport] at hfree ⊢
    refine ⟨fun hother => absurd rfl hother, fun _ => ⟨literals body, rfl, ?_⟩⟩
    exact literals_effect (hfree _ List.mem_cons_self)
      (hfree _ (List.mem_cons_of_mem _ (List.mem_cons_of_mem _ List.mem_cons_self)))
  | typebox => exact ⟨fun _ => rfl, fun heffect => nomatch heffect⟩
  | valibot => exact ⟨fun _ => rfl, fun heffect => nomatch heffect⟩
  | jsonschema => exact ⟨fun _ => rfl, fun heffect => nomatch heffect⟩
  | types => exact ⟨fun _ => rfl, fun heffect => nomatch heffect⟩

/-- A record of literals with brackets, commas, an escaped quote and the name of
the function in them. -/
theorem literals_apply_brackets :
    let source : Text := "type A = \x7b [key: string]: '(,\\'' | \"ES.Record\" \x7d"
    ∃ generated, flattenAndGenerate .effect source = .ok generated ∧
      literals generated =
        ["'@effect/schema'".toList, "'(,\\''".toList, "'ES.Record'".toList] ∧
      literals (Fixup.apply .effect generated) =
        ["'effect'".toList, "'(,\\''".toList, "'ES.Record'".toList] := by
  intro source
  have hliterals : (flattenAndGenerate .effect source).toOption.map literals =
      some ["'@effect/schema'".toList, "'(,\\''".toList, "'ES.Record'".toList] := by decide +kernel
  obtain ⟨generated, hgenerated, hfound⟩ := Option.map_eq_some_iff.1 hliterals
  have h : flattenAndGenerate .effect source = .ok generated := eq_ok_of_toOption hgenerated
  have hlacks : (Fixup.sought .effect).all (fun pattern =>
      ["'(,\\''".toList, "'ES.Record'".toList].all fun literal => !isInside pattern literal) =
        true := rfl
  obtain ⟨others, hothers, hfixed⟩ := (literals_apply h fun pattern hpattern literal hliteral => by
    rw [hfound] at hliteral
    have hinside := List.all_eq_true.1 (List.all_eq_true.1 hlacks pattern hpattern) literal hliteral
    rw [Bool.not_eq_true'] at hinside
    exact lacks_of_isInside hinside).2 rfl
  rw [hfound] at hothers
  obtain ⟨-, rfl⟩ := List.cons.inj hothers
  exact ⟨generated, h, hfound, hfixed⟩

/-- The fixups of `effect` code change the literal that names the imported
package, and those of `zod` code a literal in which a call of a record is
spelled out. -/
theorem not_literals_apply :
    (¬∀ source generated, flattenAndGenerate .effect source = .ok generated →
      literals (Fixup.apply .effect generated) = literals generated) ∧
    ¬∀ source generated, flattenAndGenerate .zod source = .ok generated →
      literals (Fixup.apply .zod generated) = literals generated := by
  constructor
  · intro h
    have hgenerated : (flattenAndGenerate .effect "type A = string").toOption =
        some ("import \x7b Schema as ES \x7d from '@effect/schema'\n\n" ++
          "export type A = ES.Schema.Type<typeof A>\nexport const A = ES.String\n") := by
      decide +kernel
    exact absurd (h _ _ (eq_ok_of_toOption hgenerated)) (by decide +kernel)
  · intro h
    have hgenerated : (flattenAndGenerate .zod "type A = 'z.record(x)'").toOption =
        some ("import \x7b z \x7d from 'zod'\n\n" ++
          "export type A = z.infer<typeof A>\nexport const A = z.literal('z.record(x)')\n") := by
      decide +kernel
    exact absurd (h _ _ (eq_ok_of_toOption hgenerated)) (by decide +kernel)

end Files

end InterfaceSchema
