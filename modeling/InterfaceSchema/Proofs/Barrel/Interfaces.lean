import InterfaceSchema.Generate
import InterfaceSchema.Proofs.Barrel.Exports
import InterfaceSchema.Proofs.Flatten.Preservation

/-!
# Exported interfaces of flattened sources

The target `types` keeps the flattened source, and with it the heads of its
interfaces, because the types that flattening replaces stand behind the brace
that opens a body. An interface is found among the exports if only blanks stand
between the words of its head and that brace. One that extends another type has
more between its name and the brace, and is missed.
-/

namespace InterfaceSchema

open Barrel Flatten

namespace Barrel

/-- The parts of a head before the name. -/
def Head.front (head : Head) : Text := "export" ++ (head.gap ++ (head.word ++ head.before))

/-- A head is what stands before its name, the name, blanks and a sign. -/
theorem Head.text_eq_front (head : Head) :
    head.text = head.front ++ ((head.name ++ head.behind) ++ [head.sign]) := by
  have hfront : head.front = "export".toList ++ (head.gap ++ (head.word ++ head.before)) := rfl
  rw [Head.text_eq, hfront]
  simp only [List.append_assoc]

/-- An interface whose statement holds a head that opens its body. -/
structure HeadOf (source : Text) (decl : InterfaceDecl) (head : Head) : Prop where
  proper : head.Proper
  name : head.name = decl.name
  sign : head.sign = '\x7b'
  stands : ∃ before after, source = before ++ (head.text ++ after) ∧
    decl.span.start ≤ Text.byteLength before ∧
    Text.byteLength before + Text.byteLength head.front = decl.nameSpan.start

end Barrel

section Placing

variable {source before text after : Text} {position start stop : Nat} {c : Char}

/-- The first character of its kind behind a text stands right behind it or
later. -/
theorem Stands.le_of_not_mem (h : Stands source [c] position)
    (hsource : source = before ++ (text ++ c :: after)) (hmem : c ∉ text)
    (hle : Text.byteLength before ≤ position) :
    Text.byteLength before + Text.byteLength text ≤ position := by
  have hcut : Cut source (Text.byteLength before) := ⟨before, text ++ c :: after, hsource, rfl⟩
  obtain ⟨first, inner, rest, hparts, hfirst, hinner⟩ := hcut.between h.cut_start hle
  obtain ⟨ahead, behind, hstands, hahead⟩ := h
  have hinside : inner ++ rest = text ++ c :: after := by
    have hdrop := Text.dropBytes_byteLength_append first (inner ++ rest)
    rwa [← hparts, hfirst, hsource, Text.dropBytes_byteLength_append, eq_comm] at hdrop
  have hrest : rest = c :: behind := by
    have hdrop := Text.dropBytes_byteLength_append (first ++ inner) rest
    rwa [List.append_assoc, ← hparts, Text.byteLength_append, hfirst, hinner, hstands, ← hahead,
      Text.dropBytes_byteLength_append, eq_comm] at hdrop
  rw [hrest] at hinside
  rcases List.append_eq_append_iff.1 hinside with ⟨more, htext, hbehind⟩ | ⟨more, hinner', -⟩
  · cases more with
    | nil =>
      rw [List.append_nil] at htext
      exact Nat.le_of_eq (by rw [htext, hinner])
    | cons d others =>
      obtain ⟨rfl, -⟩ := List.cons.inj hbehind
      exact absurd (htext ▸ List.mem_append_right _ List.mem_cons_self) hmem
  · rw [hinner', Text.byteLength_append] at hinner
    omega

/-- What stands between two cuts is cut out by the span between them. -/
theorem Span.slice_between (hsource : source = before ++ (text ++ after)) :
    Span.slice ⟨Text.byteLength before, Text.byteLength before + Text.byteLength text⟩ source =
      text := by
  rw [hsource, Span.slice, Text.dropBytes_byteLength_append, Nat.add_sub_cancel_left,
    Text.takeBytes_byteLength_append]

/-- The source up to a cut before all replaced types is kept. -/
theorem prefix_retype (hstart : Cut source start) (hmiddle : Cut source position)
    (hle : start ≤ position) (parent : Text) {list : List Inline}
    (h : InOrder position stop (list.map fun inline => inline.type.span)) :
    Span.slice ⟨start, position⟩ source <+: retype source parent start stop list := by
  cases list with
  | nil =>
    rw [retype, ← Span.slice_append_slice hstart hmiddle hle h]
    exact List.prefix_append _ _
  | cons inline rest =>
    rw [retype, ← Span.slice_append_slice hstart hmiddle hle h.1, List.append_assoc]
    exact List.prefix_append _ _

/-- Every interface is printed in the flattened file. -/
theorem infix_printFrom {decl : InterfaceDecl} {decls : List InterfaceDecl} (hmem : decl ∈ decls)
    (cursor : Nat) :
    retype source decl.name decl.span.start decl.span.stop
      (inlines (propertiesOf decl.members)) <:+: printFrom source cursor decls := by
  induction decls generalizing cursor with
  | nil => exact absurd hmem List.not_mem_nil
  | cons first rest ih =>
    rw [printFrom, printInterface]
    rcases List.mem_cons.1 hmem with rfl | hmem
    · exact ((List.suffix_append _ _).isInfix.trans (List.prefix_append _ _).isInfix).trans
        (List.suffix_append _ _).isInfix
    · have hrest := ih hmem first.span.stop
      exact hrest.trans ((List.suffix_append _ _).trans (List.suffix_append _ _)).isInfix

end Placing

/-- The head of an interface stands in the flattened source. -/
theorem infix_flatten {source text : Text} {file : SourceFile} {decl : InterfaceDecl} {head : Head}
    (hread : SourceFile.read source = some file) (hflatten : flatten source = .ok text)
    (hdecl : decl ∈ file.interfaces) (hhead : HeadOf source decl head) : head.text <:+: text := by
  obtain ⟨rfl, hitems⟩ := SourceFile.read_sound hread
  obtain ⟨behind, hsound⟩ := sound_of_itemsSound hitems hdecl
  obtain ⟨opening, hopening, hstands, hmembers⟩ := hsound.brace
  obtain ⟨before, after, hsource, hstart, hname⟩ := hhead.stands
  have hfront : file.text =
      (before ++ head.front) ++ ((head.name ++ head.behind) ++ '\x7b' :: after) := by
    rw [hsource, head.text_eq_front, hhead.sign]
    simp
  have hbrace : '\x7b' ∉ head.name ++ head.behind := by
    rw [List.mem_append]
    rintro (hmem | hmem)
    · exact absurd (hhead.proper.name.2 _ hmem) (by decide)
    · exact absurd (hhead.proper.behind _ hmem) (by decide)
  have hbefore : Text.byteLength (before ++ head.front) ≤ opening := by
    rw [Text.byteLength_append, hname]
    exact Nat.le_trans hsound.name.le hopening
  have hplace := hstands.le_of_not_mem hfront hbrace hbefore
  have hlength : Text.byteLength head.text =
      Text.byteLength head.front + Text.byteLength (head.name ++ head.behind) + 1 := by
    rw [head.text_eq_front, hhead.sign, Text.byteLength_append, Text.byteLength_append,
      Nat.add_assoc]
    rfl
  have hend : Text.byteLength before + Text.byteLength head.text ≤ opening + 1 := by
    rw [Text.byteLength_append] at hplace
    omega
  have hcut : Cut file.text (Text.byteLength before + Text.byteLength head.text) :=
    ⟨before ++ head.text, after, by rw [hsource, List.append_assoc], Text.byteLength_append _ _⟩
  have hkept := prefix_retype hsound.span.start_cut hcut
    (Nat.le_trans hstart (Nat.le_add_right _ _)) decl.name
    ((inOrder_of_membersSound hmembers).mono_start hend)
  have hslice : head.text <:+ Span.slice
      ⟨decl.span.start, Text.byteLength before + Text.byteLength head.text⟩ file.text := by
    rw [← Span.slice_append_slice hsound.span.start_cut ⟨before, _, hsource, rfl⟩ hstart
      (Nat.le_add_right _ _), Span.slice_between hsource]
    exact List.suffix_append _ _
  rw [eq_printFrom_of_flatten hread hflatten]
  exact hslice.isInfix.trans (hkept.isInfix.trans (infix_printFrom hdecl 0))

/-- An interface of the source whose head is written with blanks only between
its words and the brace of its body is exported by the file of its flattened
source. -/
theorem mem_exports_of_headOf {source text : Text} {file : SourceFile} {decl : InterfaceDecl}
    {head : Head} (hread : SourceFile.read source = some file)
    (hflatten : flatten source = .ok text) (hdecl : decl ∈ file.interfaces)
    (hhead : HeadOf source decl head) :
    decl.name ∈ exports (Fixup.schemaFile .types text) := by
  obtain ⟨before, after, htext⟩ := infix_flatten hread hflatten hdecl hhead
  have hfile : Fixup.schemaFile .types text =
      (Target.types.header ++ "\n\n" ++ before) ++ (head.text ++ after) := by
    rw [Fixup.schemaFile, Fixup.withHeader, ← htext]
    simp only [List.append_assoc]
    rfl
  rw [exports_eq, List.mem_eraseDups, hfile, ← hhead.name]
  exact mem_allExports hhead.proper (List.suffix_append _ _)

/-- An interface behind a documentation comment, with a nested object type and
line breaks around its name. -/
theorem mem_exports_of_headOf_documented :
    let source : Text :=
      "/** d */ export  interface\n\tA_1\n\x7b b: \x7b c: string \x7d \x7d"
    ∃ text, flatten source = .ok text ∧
      "A_1".toList ∈ exports (Fixup.schemaFile .types text) := by
  intro source
  let head : Head :=
    { gap := "  ", word := "interface", before := "\n\t", name := "A_1", behind := "\n",
      sign := '\x7b' }
  have hproper : head.Proper :=
    { gap := ⟨by decide, List.all_eq_true.1 rfl⟩
      word := by decide
      before := ⟨by decide, List.all_eq_true.1 rfl⟩
      name := ⟨by decide, List.all_eq_true.1 rfl⟩
      behind := List.all_eq_true.1 rfl
      sign := .inr rfl }
  have hfound : ((SourceFile.read source).map fun file =>
      file.interfaces.map fun decl => (decl.name, decl.span.start, decl.nameSpan.start)) =
        some [("A_1".toList, 0, 28)] := by decide +kernel
  have hflat : (flatten source).toOption.isSome = true := by decide +kernel
  obtain ⟨file, hread, hdecls⟩ := Option.map_eq_some_iff.1 hfound
  obtain ⟨text, htext⟩ := Option.isSome_iff_exists.1 hflat
  have hflatten : flatten source = .ok text := eq_ok_of_toOption htext
  obtain ⟨decl, others, hlist, hdecl, -⟩ := List.map_eq_cons_iff.1 hdecls
  obtain ⟨hname, hspan⟩ := Prod.mk.inj hdecl
  obtain ⟨hstart, hnameSpan⟩ := Prod.mk.inj hspan
  have hsource : source = "/** d */ " ++ (head.text ++ " b: \x7b c: string \x7d \x7d") := by
    decide +kernel
  have hplace : Text.byteLength "/** d */ " + Text.byteLength head.front = 28 := by decide +kernel
  have hhead : HeadOf source decl head :=
    { proper := hproper
      name := hname.symm
      sign := rfl
      stands := ⟨_, _, hsource, hstart ▸ Nat.zero_le _, hplace.trans hnameSpan.symm⟩ }
  refine ⟨text, hflatten, ?_⟩
  exact hname ▸ mem_exports_of_headOf hread hflatten (hlist ▸ List.mem_cons_self) hhead

/-- An interface that extends another one is not found among the exports. -/
theorem not_mem_exports_of_bases :
    ¬∀ source text file decl, SourceFile.read source = some file → flatten source = .ok text →
      decl ∈ file.interfaces → decl.exported = true → decl.parameters = none →
        Barrel.IsName decl.name → decl.name ∈ exports (Fixup.schemaFile .types text) := by
  intro h
  let source : Text :=
    "export interface B \x7b x: string \x7d\nexport interface A extends B \x7b y: string \x7d"
  have hfound : ((SourceFile.read source).map fun file =>
      file.interfaces.map fun decl => (decl.name, decl.exported, decl.parameters)) =
        some [("B".toList, true, none), ("A".toList, true, none)] := by decide +kernel
  have hflatten : flatten source = .ok source := eq_ok_of_toOption (by decide +kernel)
  have hexports : exports (Fixup.schemaFile .types source) = ["B".toList] := by decide +kernel
  obtain ⟨file, hread, hdecls⟩ := Option.map_eq_some_iff.1 hfound
  have hmem : (("A" : Text), true, none) ∈
      file.interfaces.map fun decl => (decl.name, decl.exported, decl.parameters) := by
    rw [hdecls]
    decide
  obtain ⟨decl, hdecl, hparts⟩ := List.mem_map.1 hmem
  obtain ⟨hname, hrest⟩ := Prod.mk.inj hparts
  obtain ⟨hexported, hparameters⟩ := Prod.mk.inj hrest
  have hexport := h source source file decl hread hflatten hdecl hexported hparameters
    (hname ▸ ⟨by decide, List.all_eq_true.1 rfl⟩)
  rw [hname, hexports] at hexport
  exact absurd hexport (by decide)

end InterfaceSchema
