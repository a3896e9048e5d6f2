import InterfaceSchema.Flatten

/-!
# Hoisting by recursion

Flattening works off a queue of interfaces and puts each extracted one in
front of the interface it came from. The same file is described here without
a queue: the object types below an interface form a tree, and the tree is
printed from its leaves to its root, in source order, in front of the
interface. Text between interfaces is printed as it stands.
-/

namespace InterfaceSchema.Flatten

/-- An interface that comes out of an object type. -/
structure Hoisted where
  name : Text
  properties : List Property

mutual

/-- The interfaces that come out of the members of the interface `parent`,
each behind the ones that come out of itself. -/
def hoistMembers (parent : Text) : List Member → List Hoisted
  | [] => []
  | member :: rest => hoistMember parent member ++ hoistMembers parent rest

/-- The interfaces that come out of a member of the interface `parent`. -/
def hoistMember (parent : Text) : Member → List Hoisted
  | .property ⟨head, some type⟩ => hoistType (Naming.extracted parent head.key) type
  | _ => []

/-- The interfaces that come out of a type, the outermost with this name. -/
def hoistType (name : Text) : TypeExpr → List Hoisted
  | .object members _ => hoistMembers name members ++ [⟨name, propertiesOf members⟩]
  | _ => []

end

/-- The type of a property of the interface `parent` with the colon before
it: an object type is named after the property, any other is copied. -/
def printType (source parent : Text) (property : Property) : Text :=
  match property.type with
  | none => []
  | some type =>
    let written : Text := match type.members? with
      | some _ => Naming.extracted parent property.head.key
      | none => type.span.slice source
    ": " ++ written

/-- The lines for a property of the interface `parent`: its documentation and
its signature. -/
def printProperty (source parent : Text) (property : Property) : List Text :=
  (property.head.docs.elim [] fun span => docLines (span.slice source)) ++
    [(if property.head.readonly then ("readonly " : Text) else []) ++ property.head.name ++
      (if property.head.optional then ['?'] else []) ++ printType source parent property ++ [';']]

/-- A line inside an interface. -/
def innerLine (line : Text) : Text := "    " ++ line ++ "\n"

/-- An extracted interface as it is printed, an empty line behind it. -/
def Hoisted.print (source : Text) (hoisted : Hoisted) : Text :=
  if hoisted.properties.isEmpty then
    "export interface " ++ hoisted.name ++ " \x7b\x7d\n\n"
  else
    "export interface " ++ hoisted.name ++ " \x7b\n" ++
      (hoisted.properties.flatMap (printProperty source hoisted.name)).flatMap innerLine ++
      "\x7d\n\n"

/-- The source from `cursor` to `stop` with the name of the extracted
interface in place of every object type. -/
def retype (source parent : Text) (cursor stop : Nat) : List Inline → Text
  | [] => Span.slice ⟨cursor, stop⟩ source
  | inline :: rest =>
    Span.slice ⟨cursor, inline.type.span.start⟩ source ++
      (Naming.extracted parent inline.head.key ++
        retype source parent inline.type.span.stop stop rest)

/-- An interface of the source behind all interfaces that come out of it. -/
def printInterface (source : Text) (decl : InterfaceDecl) : Text :=
  (hoistMembers decl.name decl.members).flatMap (Hoisted.print source) ++
    retype source decl.name decl.span.start decl.span.stop (inlines (propertiesOf decl.members))

/-- The interfaces in source order, with the text before, between and behind
them from `cursor` on. -/
def printFrom (source : Text) (cursor : Nat) : List InterfaceDecl → Text
  | [] => Span.slice ⟨cursor, Text.byteLength source⟩ source
  | decl :: rest =>
    Span.slice ⟨cursor, decl.span.start⟩ source ++
      (printInterface source decl ++ printFrom source decl.span.stop rest)

/-- The interfaces that come out of an object type in the interface
`parent`, and the one it becomes itself. -/
def Inline.hoist (parent : Text) (inline : Inline) : List Hoisted :=
  hoistMembers (Naming.extracted parent inline.head.key) inline.members ++
    [⟨Naming.extracted parent inline.head.key, propertiesOf inline.members⟩]

/-- A property with an object type is one with these members. -/
theorem Inline.ofProperty?_object (head : PropertyHead) (members : List Member) (span : Span) :
    Inline.ofProperty? ⟨head, some (.object members span)⟩ =
      some ⟨head, .object members span, members⟩ := rfl

/-- What a property with an object type looks like. -/
theorem Inline.eq_of_ofProperty? {property : Property} {inline : Inline}
    (h : Inline.ofProperty? property = some inline) :
    ∃ span, inline.type = .object inline.members span ∧
      property = ⟨inline.head, some inline.type⟩ := by
  obtain ⟨head, type⟩ := property
  cases type with
  | none => simp [Inline.ofProperty?] at h
  | some type =>
    cases type with
    | object members span =>
      rw [Inline.ofProperty?_object] at h
      cases h
      exact ⟨span, rfl, rfl⟩
    | _ => simp [Inline.ofProperty?, TypeExpr.members?] at h

/-- Only a property with an object type has interfaces come out of it. -/
theorem hoistMember_property (parent : Text) (property : Property) :
    hoistMember parent (.property property) =
      ((Inline.ofProperty? property).map (Inline.hoist parent)).getD [] := by
  obtain ⟨head, type⟩ := property
  cases type with
  | none => simp [hoistMember, Inline.ofProperty?]
  | some type =>
    cases type <;>
      simp [hoistMember, hoistType, Inline.ofProperty?, TypeExpr.members?, Inline.hoist]

/-- The interfaces below a body are those below its object types, in order. -/
theorem hoistMembers_eq (parent : Text) (members : List Member) :
    hoistMembers parent members =
      (inlines (propertiesOf members)).flatMap (Inline.hoist parent) := by
  induction members with
  | nil => simp [hoistMembers, inlines, propertiesOf]
  | cons member rest ih =>
    rw [hoistMembers, ih]
    cases member with
    | property property =>
      have hp : propertiesOf (.property property :: rest) = property :: propertiesOf rest := rfl
      rw [hoistMember_property, hp]
      cases h : Inline.ofProperty? property <;> simp [inlines, h]
    | index | mapped | other => rfl

/-- Every object type below a list of properties is printed before the
interface whose property refers to it. -/
def Grounded (list : List Hoisted) : Prop :=
  ∀ before hoisted after, list = before ++ hoisted :: after →
    ∀ inline ∈ inlines hoisted.properties,
      (⟨Naming.extracted hoisted.name inline.head.key, propertiesOf inline.members⟩ : Hoisted) ∈
        before

end InterfaceSchema.Flatten
