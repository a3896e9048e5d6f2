import InterfaceSchema.Proofs.Syntax.Signatures
import InterfaceSchema.Proofs.Syntax.Operators
import InterfaceSchema.Proofs.Flatten.Preservation

/-!
# Copied property signatures

A property of an object type becomes a line of the interface extracted from it. The
line is the property as it stands in the source, and a type that is no object type
is copied from the source by its span. Operators in front of the type that are no
part of the span are lost: signs in front of a list with a single part, and always
the word `readonly`.
-/

namespace InterfaceSchema

/-- The properties of an interface are among those of the file. -/
theorem SourceFile.mem_properties {file : SourceFile} {decl : InterfaceDecl}
    (hdecl : decl ∈ file.interfaces) {property : Property}
    (h : property ∈ TypeExpr.propertiesOfMembers decl.members) : property ∈ file.properties := by
  obtain ⟨item, hitem, hinterface⟩ := List.mem_filterMap.1 hdecl
  refine List.mem_flatMap.2 ⟨item, hitem, ?_⟩
  cases item with
  | interfaceItem found =>
    obtain rfl : found = decl := Option.some.inj hinterface
    exact List.mem_append_right _ h
  | _ => cases hinterface

namespace Flatten

open Grammar

variable {source text : Text} {property : Property}

/-- The properties of the interfaces that come out of members are in the members. -/
theorem mem_propertiesOfMembers {parent : Text} {members : List Member} {hoisted : Hoisted}
    (h : hoisted ∈ hoistMembers parent members) (hproperty : property ∈ hoisted.properties) :
    property ∈ TypeExpr.propertiesOfMembers members := by
  induction members using body_induction generalizing parent with
  | step members ih =>
    rw [hoistMembers_eq] at h
    obtain ⟨inline, hinline, h⟩ := List.mem_flatMap.1 h
    have hbelow : property ∈ TypeExpr.propertiesOfMembers inline.members := by
      rcases List.mem_append.1 h with h | h
      · exact ih inline hinline h
      · obtain rfl := List.mem_singleton.1 h
        rw [TypeExpr.propertiesOfMembers_eq]
        exact List.mem_flatMap.2 ⟨.property property, mem_propertiesOf.1 hproperty,
          List.mem_append_left _ (List.mem_singleton.2 rfl)⟩
    -- the object type stands in a property among the members
    obtain ⟨outer, houter, hfound⟩ := List.mem_filterMap.1 hinline
    obtain ⟨span, htype, rfl⟩ := Inline.eq_of_ofProperty? hfound
    rw [TypeExpr.propertiesOfMembers_eq]
    refine List.mem_flatMap.2 ⟨_, mem_propertiesOf.1 houter, List.mem_append_right _ ?_⟩
    rw [TypeExpr.propertiesBelow, htype, TypeExpr.properties]
    exact hbelow

/-- An interface that comes out of a declared one is printed among all others. -/
theorem print_infix_printFrom {decls : List InterfaceDecl} {decl : InterfaceDecl}
    (hdecl : decl ∈ decls) {hoisted : Hoisted}
    (h : hoisted ∈ hoistMembers decl.name decl.members) (cursor : Nat) :
    hoisted.print source <:+: printFrom source cursor decls := by
  induction decls generalizing cursor with
  | nil => cases hdecl
  | cons first rest ih =>
    rw [printFrom]
    refine List.IsInfix.trans ?_ (List.suffix_append _ _).isInfix
    rcases List.mem_cons.1 hdecl with rfl | hdecl
    · refine List.IsInfix.trans ?_ (List.prefix_append _ _).isInfix
      rw [printInterface]
      refine List.IsInfix.trans ?_ (List.prefix_append _ _).isInfix
      obtain ⟨before, after, hlist⟩ := List.append_of_mem h
      rw [hlist, List.flatMap_append, List.flatMap_cons]
      exact ⟨_, _, List.append_assoc _ _ _⟩
    · exact (ih hdecl _).trans (List.suffix_append _ _).isInfix

/-- A flattened source was read, and is printed from what was read. -/
theorem exists_printFrom_of_flatten (h : flatten source = .ok text) :
    ∃ file, SourceFile.read source = some file ∧ text = printFrom source 0 file.interfaces := by
  cases hread : SourceFile.read source with
  | none =>
    rw [flatten, hread] at h
    cases h
  | some file => exact ⟨file, rfl, eq_printFrom_of_flatten hread h⟩

/-- The signature of a property with this text behind its name. -/
def signature (source : Text) (head : PropertyHead) (written : Text) : Text :=
  (if head.readonly then ("readonly " : Text) else []) ++ head.nameSpan.slice source ++
    (if head.optional then ['?'] else []) ++ written ++ [';']

/-- What is printed behind the name of a property for its annotation. -/
inductive Copied (source : Text) (head : PropertyHead) : Text → Prop
  /-- Nothing is annotated. -/
  | bare (hcolon : (head.behindName source).head?.any (fun token => token.isSymbol ":") = false) :
    Copied source head []
  /-- The annotation is copied to its end, from behind some operators on. If the first
  token is the word `readonly` then it is left out. -/
  | typed (hcolon : (head.behindName source).head?.any (fun token => token.isSymbol ":") = true)
      (dropped kept : List Token) (htokens : head.behindColon source = dropped ++ kept)
      (hkept : kept ≠ []) (hdropped : ∀ token ∈ dropped, token.isOperator = true)
      (hreadonly :
        (head.behindColon source).head?.any (fun token => token.isWord "readonly") = true →
          dropped ≠ []) :
    Copied source head (": " ++ Span.slice ⟨startOf kept, head.span.stop⟩ source)

/-- A property without an object type is printed with its annotation. -/
theorem copied_printType (h : property.Stands source) (parent : Text)
    (hcopied : Inline.ofProperty? property = none) :
    Copied source property.head (printType source parent property) := by
  obtain ⟨head, type⟩ := property
  cases type with
  | none => exact .bare (h.bare rfl)
  | some type =>
    have hmembers : type.members? = none := by
      cases hmembers : type.members? with
      | none => rfl
      | some members => simp [Inline.ofProperty?, hmembers] at hcopied
    obtain ⟨hcolon, ⟨depth, setting, rest, -, hread⟩, hstop⟩ := h.annotated type rfl
    have hprint : printType source parent ⟨head, some type⟩ =
        ": " ++ Span.slice ⟨type.span.start, head.span.stop⟩ source := by
      rw [hstop]
      simp only [printType, hmembers]
    by_cases hreadonly :
      (head.behindColon source).head?.any (fun token => token.isWord "readonly") = true
    · cases htokens : head.behindColon source with
      | nil =>
        rw [htokens] at hreadonly
        cases hreadonly
      | cons word tokens =>
        rw [htokens] at hreadonly hread
        have hword : word.isWord "readonly" = true := hreadonly
        have hoperator : word.isOperator = true := by
          rw [Token.isOperator, hword, Bool.or_true]
        obtain ⟨dropped, kept, rfl, hdropped, hkept, hstart⟩ :=
          startsBehind_of_readonly hword hread
        rw [hprint, hstart]
        exact .typed hcolon (word :: dropped) kept htokens hkept
          (List.forall_mem_cons.2 ⟨hoperator, hdropped⟩) fun _ => List.cons_ne_nil _ _
    · obtain ⟨dropped, kept, htokens, hdropped, hkept, hstart⟩ := (readersStart depth).type hread
      rw [hprint, hstart]
      exact .typed hcolon dropped kept htokens hkept hdropped (absurd · hreadonly)

/-- The lines for a property are its documentation and one signature. -/
theorem printProperty_eq (h : property.Stands source) (parent : Text) :
    printProperty source parent property =
      (property.head.docs.elim [] fun span => docLines (span.slice source)) ++
        [signature source property.head (printType source parent property)] := by
  rw [printProperty, signature, ← h.name]

/-- The signature of a property is a line of the interface that it is printed in. -/
theorem signature_infix_print (h : property.Stands source) {hoisted : Hoisted}
    (hproperty : property ∈ hoisted.properties) :
    innerLine (signature source property.head (printType source hoisted.name property)) <:+:
      hoisted.print source := by
  have hempty : hoisted.properties.isEmpty = false := by
    cases hlist : hoisted.properties with
    | nil =>
      rw [hlist] at hproperty
      cases hproperty
    | cons => rfl
  have hline : signature source property.head (printType source hoisted.name property) ∈
      hoisted.properties.flatMap (printProperty source hoisted.name) := by
    refine List.mem_flatMap.2 ⟨property, hproperty, ?_⟩
    rw [printProperty_eq h]
    exact List.mem_append_right _ (List.mem_singleton.2 rfl)
  obtain ⟨before, after, hlines⟩ := List.append_of_mem hline
  rw [Hoisted.print, hempty, hlines, List.flatMap_append, List.flatMap_cons]
  refine ⟨"export interface " ++ hoisted.name ++ " \x7b\n" ++ before.flatMap innerLine,
    after.flatMap innerLine ++ "\x7d\n\n", ?_⟩
  simp only [Bool.false_eq_true, if_false, List.append_assoc]

/-- A property that is copied into an extracted interface is printed on one line, behind
its documentation, as it stands in the source: with the word `readonly` if that is among
the modifiers in front of its name, with its name and question mark, and with the source
from the first token of its annotation on. Operators that the annotation starts with can
be missing, and the word `readonly` always is. -/
theorem flatten_copies_annotations (h : flatten source = .ok text) :
    ∃ file, SourceFile.read source = some file ∧
      ∀ decl ∈ file.interfaces, ∀ hoisted ∈ hoistMembers decl.name decl.members,
        hoisted.print source <:+: text ∧
          ∀ property ∈ hoisted.properties, Inline.ofProperty? property = none →
            property.Stands source ∧ ∃ copy, Copied source property.head copy ∧
              printProperty source hoisted.name property =
                (property.head.docs.elim [] fun span => docLines (span.slice source)) ++
                  [signature source property.head copy] ∧
              innerLine (signature source property.head copy) <:+: hoisted.print source := by
  obtain ⟨file, hread, rfl⟩ := exists_printFrom_of_flatten h
  refine ⟨file, hread, fun decl hdecl hoisted hhoisted =>
    ⟨print_infix_printFrom hdecl hhoisted 0, fun property hproperty hcopied => ?_⟩⟩
  have hstands := SourceFile.stands_of_read hread property
    (SourceFile.mem_properties hdecl (mem_propertiesOfMembers hhoisted hproperty))
  exact ⟨hstands, _, copied_printType hstands hoisted.name hcopied,
    printProperty_eq hstands hoisted.name, signature_infix_print hstands hproperty⟩

/-- A flattened source and one of its extracted interfaces, found by evaluation. -/
theorem exists_hoisted {p : InterfaceDecl → Hoisted → Bool}
    (h : ((flatten source).toOption == some text &&
      (SourceFile.read source).any fun file => file.interfaces.any fun decl =>
        (hoistMembers decl.name decl.members).any (p decl)) = true) :
    flatten source = .ok text ∧ ∃ file, SourceFile.read source = some file ∧
      ∃ decl ∈ file.interfaces, ∃ hoisted ∈ hoistMembers decl.name decl.members,
        p decl hoisted = true := by
  obtain ⟨htext, h⟩ := Bool.and_eq_true_iff.1 h
  obtain ⟨file, hread, h⟩ := (Option.any_eq_true _ _).1 h
  obtain ⟨decl, hdecl, h⟩ := List.any_eq_true.1 h
  exact ⟨eq_ok_of_toOption (eq_of_beq htext), file, hread, decl, hdecl, List.any_eq_true.1 h⟩

/-- A source with an object type that has a read-only array and an optional property. -/
def copiedSource : Text :=
  "interface A \x7b b: \x7b c: readonly string[]; readonly d?: T | U \x7d \x7d"

/-- The source flattened. -/
def copiedText : Text :=
  "export interface A_properties_b \x7b\n    c: string[];\n    readonly d?: T | U;\n\x7d\n\n" ++
    "interface A \x7b b: A_properties_b \x7d"

/-- The line for a property with all of its annotation. -/
def wholeLine (source : Text) (head : PropertyHead) : Text :=
  innerLine (signature source head
    (": " ++ Span.slice ⟨startOf (head.behindColon source), head.span.stop⟩ source))

/-- Of the two properties the array has lost the word in front of it. The source is read
and flattened once, for all that is said of it. -/
theorem exists_copied :
    flatten copiedSource = .ok copiedText ∧
      ∃ file, SourceFile.read copiedSource = some file ∧ ∃ decl ∈ file.interfaces,
        ∃ hoisted ∈ hoistMembers decl.name decl.members,
          (∃ property ∈ hoisted.properties, Inline.ofProperty? property = none ∧
            (property.head.behindName copiedSource).head?.any
              (fun token => token.isSymbol ":") = true ∧
            ¬wholeLine copiedSource property.head <:+: copiedText) ∧
          ∃ property ∈ hoisted.properties, Inline.ofProperty? property = none ∧
            property.head.name = ("d" : Text) := by
  obtain ⟨htext, file, hread, decl, hdecl, hoisted, hhoisted, h⟩ :=
    @exists_hoisted copiedSource copiedText (fun _ hoisted =>
      (hoisted.properties.any fun property => (Inline.ofProperty? property).isNone &&
        ((property.head.behindName copiedSource).head?.any
          (fun token => token.isSymbol ":") &&
          decide (¬wholeLine copiedSource property.head <:+: copiedText))) &&
      hoisted.properties.any fun property => (Inline.ofProperty? property).isNone &&
        property.head.name == ("d" : Text)) (by decide +kernel)
  obtain ⟨harray, hoptional⟩ := Bool.and_eq_true_iff.1 h
  obtain ⟨array, harray, h⟩ := List.any_eq_true.1 harray
  obtain ⟨hcopied, h⟩ := Bool.and_eq_true_iff.1 h
  obtain ⟨hcolon, hmissing⟩ := Bool.and_eq_true_iff.1 h
  obtain ⟨optional, hoptional, h⟩ := List.any_eq_true.1 hoptional
  obtain ⟨hother, hname⟩ := Bool.and_eq_true_iff.1 h
  exact ⟨htext, file, hread, decl, hdecl, hoisted, hhoisted,
    ⟨array, harray, Option.isNone_iff_eq_none.1 hcopied, hcolon, of_decide_eq_true hmissing⟩,
    optional, hoptional, Option.isNone_iff_eq_none.1 hother, eq_of_beq hname⟩

/-- The optional property is copied as it stands. -/
theorem flatten_copies_annotations_whole :
    flatten copiedSource = .ok copiedText ∧ ∃ head copy, head.name = ("d" : Text) ∧
      Copied copiedSource head copy ∧
        innerLine (signature copiedSource head copy) <:+: copiedText := by
  obtain ⟨htext, found, hfound, decl, hdecl, hoisted, hhoisted, -, property, hproperty, hcopied,
    hname⟩ := exists_copied
  obtain ⟨file, hread, hall⟩ := flatten_copies_annotations htext
  obtain rfl : found = file := Option.some.inj (hfound.symm.trans hread)
  obtain ⟨hprinted, hlines⟩ := hall decl hdecl hoisted hhoisted
  obtain ⟨-, copy, hcopy, -, hline⟩ := hlines property hproperty hcopied
  exact ⟨htext, property.head, copy, hname, hcopy, hline.trans hprinted⟩

/-- A copied property need not be printed with all of its annotation. -/
theorem not_copied_whole :
    ¬∀ source text file, flatten source = .ok text → SourceFile.read source = some file →
      ∀ decl ∈ file.interfaces, ∀ hoisted ∈ hoistMembers decl.name decl.members,
        ∀ property ∈ hoisted.properties, Inline.ofProperty? property = none →
          (property.head.behindName source).head?.any (fun token => token.isSymbol ":") = true →
            wholeLine source property.head <:+: text := by
  intro h
  obtain ⟨htext, file, hread, decl, hdecl, hoisted, hhoisted,
    ⟨property, hproperty, hcopied, hcolon, hmissing⟩, -⟩ := exists_copied
  exact hmissing (h copiedSource copiedText file htext hread decl hdecl hoisted hhoisted property
    hproperty hcopied hcolon)

end Flatten

end InterfaceSchema
