import InterfaceSchema.Proofs.Syntax.ListStarts
import InterfaceSchema.Proofs.Syntax.Nesting

/-!
# Lists of types

Parts with signs between them are read as one list, whatever signs stand in front
of the first one, and in the order in which they stand in the source. A single part
is no list. The parts of a list in brackets are never parts of the list around it:
in front of each part stands an operator, if the list does not start with it.

A part is a list of the same kind only if it was read as a whole behind a word or
sign that is left out of its span: `readonly`, or a sign of a union in front of a
part of an intersection. Such lists are not joined.
-/

namespace InterfaceSchema

open Grammar

namespace TypeExpr

mutual

/-- The types in a type, at any depth, each in front of those in itself. -/
def within : TypeExpr → List TypeExpr
  | .keyword _ _ | .literal _ _ | .unsupported _ => []
  | .reference _ types _ | .tuple types _ | .union types _ | .intersection types _ =>
    nodesOfTypes types
  | .array type _ | .paren type _ => type :: within type
  | .object members _ => nodesOfMembers members

/-- Several types and the types in them. -/
def nodesOfTypes : List TypeExpr → List TypeExpr
  | [] => []
  | type :: rest => type :: (within type ++ nodesOfTypes rest)

/-- The types of a member and the types in them. -/
def nodesOfMember : Member → List TypeExpr
  | .property ⟨_, some type⟩ => type :: within type
  | .index key value _ _ => key :: (within key ++ (value :: within value))
  | .property ⟨_, none⟩ | .mapped _ | .other _ => []

/-- The types of several members and the types in them. -/
def nodesOfMembers : List Member → List TypeExpr
  | [] => []
  | member :: rest => nodesOfMember member ++ nodesOfMembers rest

end

/-- A type and the types in it. -/
def nodes (type : TypeExpr) : List TypeExpr := type :: within type

/-- Several types and the types in them are each of them and the types in it. -/
theorem nodesOfTypes_eq (types : List TypeExpr) : nodesOfTypes types = types.flatMap nodes := by
  induction types with
  | nil => rfl
  | cons type rest ih =>
    rw [nodesOfTypes, ih, List.flatMap_cons]
    rfl

/-- The types of several members are those of each of them. -/
theorem nodesOfMembers_eq (members : List Member) :
    nodesOfMembers members = members.flatMap nodesOfMember := by
  induction members with
  | nil => rfl
  | cons member rest ih => rw [nodesOfMembers, ih, List.flatMap_cons]

end TypeExpr

/-- The types in a statement, at any depth. -/
def Item.nodes : Item → List TypeExpr
  | .interfaceItem decl =>
    TypeExpr.nodesOfTypes decl.bases ++ TypeExpr.nodesOfMembers decl.members
  | .aliasItem decl => decl.type.nodes
  | .importItem _ | .otherItem _ => []

/-- The types in a source file, at any depth. -/
def SourceFile.nodes (file : SourceFile) : List TypeExpr := file.items.flatMap Item.nodes

/-- A part of a list that starts at a position: the list starts with it, or an
operator stands in front of it, which is a leading one if the part is a list that
is not joined with the one around it. -/
structure PartStands (source : Text) (same : TypeExpr → Bool) (leading : Token → Bool)
    (start : Nat) (part : TypeExpr) : Prop where
  behind : part.span.start = start ∨ LedBy source Token.isOperator part.span.start
  flat : same part = true → LedBy source leading part.span.start

/-- A list of several parts that stand in order. -/
structure FlatList (source : Text) (same : TypeExpr → Bool) (leading : Token → Bool)
    (start : Nat) (parts : List TypeExpr) : Prop where
  two_le : 2 ≤ parts.length
  ordered : parts.Pairwise fun first second => first.span.stop ≤ second.span.start
  stands : ∀ part ∈ parts, PartStands source same leading start part

/-- A type in brackets: the inner one is what is read right behind the opening
bracket, and the closing one stands right behind it. -/
structure Bracketed (source : Text) (inner : TypeExpr) (span : Span) : Prop where
  opening : Stands source "(" span.start
  closing : ∃ stop, span.stop = stop + 1 ∧ Stands source ")" stop
  inside : ∃ depth setting closing rest, setting.source = source ∧
    readType depth setting (tokensAt source (span.start + 1)) = some (inner, closing :: rest) ∧
      closing.isSymbol ")" = true ∧ closing.stop = span.stop

/-- Lists are flat and in order, and brackets keep them apart. -/
def TypeExpr.ListsFlat (source : Text) : TypeExpr → Prop
  | .union parts span =>
    FlatList source TypeExpr.isUnion Token.leadsUnion span.start parts
  | .intersection parts span =>
    FlatList source TypeExpr.isIntersection Token.leadsIntersection span.start parts
  | .paren inner span => Bracketed source inner span
  | _ => True

section Sound

variable {source : Text}

mutual

/-- The types in a sound type are sound. -/
theorem TypeExpr.Sound.within : (type : TypeExpr) → type.Sound source →
    ∀ node ∈ type.within, node.Sound source
  | .keyword _ _, _ | .literal _ _, _ | .unsupported _, _ => List.forall_mem_nil _
  | .reference _ parts _, ⟨_, hparts⟩ | .tuple parts _, ⟨_, hparts⟩ | .union parts _, ⟨_, hparts⟩
  | .intersection parts _, ⟨_, hparts⟩ => TypesSound.nodes parts hparts
  | .array inner _, ⟨_, _, hinner, _⟩ | .paren inner _, ⟨_, _, hinner, _⟩ =>
    List.forall_mem_cons.2 ⟨hinner, TypeExpr.Sound.within inner hinner⟩
  | .object members _, ⟨_, _, hmembers⟩ => MembersSound.nodes members hmembers

/-- Sound types and the types in them are sound. -/
theorem TypesSound.nodes {start stop : Nat} : (types : List TypeExpr) →
    TypesSound source start stop types → ∀ node ∈ TypeExpr.nodesOfTypes types, node.Sound source
  | [], _ => List.forall_mem_nil _
  | type :: rest, ⟨_, htype, hrest⟩ =>
    List.forall_mem_cons.2 ⟨htype, List.forall_mem_append.2
      ⟨TypeExpr.Sound.within type htype, TypesSound.nodes rest hrest⟩⟩

/-- The types of a sound member are sound. -/
theorem Member.Sound.nodes {start : Nat} : (member : Member) → member.Sound source start →
    ∀ node ∈ TypeExpr.nodesOfMember member, node.Sound source
  | .property ⟨_, none⟩, _ | .mapped _, _ | .other _, _ => List.forall_mem_nil _
  | .property ⟨_, some type⟩, ⟨_, _, htype, _⟩ =>
    List.forall_mem_cons.2 ⟨htype, TypeExpr.Sound.within type htype⟩
  | .index key value _ _, ⟨_, _, _, hkey, _, hvalue, _⟩ =>
    List.forall_mem_cons.2 ⟨hkey, List.forall_mem_append.2
      ⟨TypeExpr.Sound.within key hkey,
        List.forall_mem_cons.2 ⟨hvalue, TypeExpr.Sound.within value hvalue⟩⟩⟩

/-- The types of sound members are sound. -/
theorem MembersSound.nodes {start stop : Nat} : (members : List Member) →
    MembersSound source start stop members →
    ∀ node ∈ TypeExpr.nodesOfMembers members, node.Sound source
  | [], _ => List.forall_mem_nil _
  | member :: rest, ⟨hmember, hrest⟩ =>
    List.forall_mem_append.2
      ⟨Member.Sound.nodes member hmember, MembersSound.nodes rest hrest⟩

end

variable {start stop : Nat}

/-- Sound types stand in order. -/
theorem TypesSound.pairwise {types : List TypeExpr} (h : TypesSound source start stop types) :
    (∀ type ∈ types, start ≤ type.span.start) ∧
      types.Pairwise fun first second => first.span.stop ≤ second.span.start := by
  induction types generalizing start with
  | nil => exact ⟨List.forall_mem_nil _, List.Pairwise.nil⟩
  | cons type rest ih =>
    obtain ⟨hstart, htype, hrest⟩ := h
    obtain ⟨hbehind, hpairwise⟩ := ih hrest
    have hspan := htype.span.le
    refine ⟨List.forall_mem_cons.2 ⟨hstart, fun other hother => ?_⟩,
      List.pairwise_cons.2 ⟨hbehind, hpairwise⟩⟩
    have hle := hbehind other hother
    omega

/-- The types in a sound statement are sound. -/
theorem Item.Sound.nodes {item : Item} (h : item.Sound source start) :
    ∀ node ∈ item.nodes, node.Sound source := by
  cases item with
  | interfaceItem decl =>
    have hdecl : decl.Sound source start := h
    obtain ⟨_, _, -, hbases, hmembers⟩ := hdecl.parts
    exact List.forall_mem_append.2
      ⟨TypesSound.nodes decl.bases hbases, MembersSound.nodes decl.members hmembers⟩
  | aliasItem decl =>
    have hdecl : decl.Sound source start := h
    obtain ⟨_, -, -, htype, -⟩ := hdecl.parts
    exact List.forall_mem_cons.2 ⟨htype, TypeExpr.Sound.within decl.type htype⟩
  | importItem | otherItem => exact List.forall_mem_nil _

end Sound

namespace Grammar

section Parts

variable {source : Text} {depth : Nat} {setting : Setting} {token : Token}
  {tokens rest behind : List Token} {part : TypeExpr} {parts : List TypeExpr} {stop last : Nat}

/-- A sign between two types is the first of the tokens. -/
theorem exists_of_takeBetween {symbol : String}
    (h : takeBetween symbol setting tokens = some rest) :
    ∃ token, tokens = token :: rest ∧ token.isSymbol symbol = true := by
  unfold takeBetween at h
  split at h
  · cases h
  · split at h
    · next token more hsign =>
      cases h
      exact ⟨token, rfl, (Bool.and_eq_true_iff.1 hsign).1⟩
    · cases h

/-- Signs of a union are operators. -/
theorem isOperator_of_bar (h : token.isSymbol "|" = true) : token.isOperator = true := by
  simp [Token.isOperator, h]

/-- Signs of an intersection are operators. -/
theorem isOperator_of_ampersand (h : token.isSymbol "&" = true) : token.isOperator = true := by
  simp [Token.isOperator, h]

/-- The first part of a union. -/
theorem stands_first_union (htokens : Contiguous source tokens)
    (h : readIntersection depth setting (tokens.dropWhile fun token => token.isSymbol "|") =
      some (part, rest)) :
    PartStands source TypeExpr.isUnion Token.leadsUnion (startOf tokens) part where
  behind :=
    (((readersStart depth).intersection h).of_dropWhile fun _ => isOperator_of_bar).first htokens
  flat hunion := ((unionsLed depth).intersection h hunion).of_dropWhile.ledBy htokens

/-- The first part of an intersection. -/
theorem stands_first_intersection (htokens : Contiguous source tokens)
    (h : readPrefixed depth setting (tokens.dropWhile fun token => token.isSymbol "&") =
      some (part, rest)) :
    PartStands source TypeExpr.isIntersection Token.leadsIntersection (startOf tokens) part where
  behind :=
    (((readersStart depth).prefixed h).of_dropWhile fun _ => isOperator_of_ampersand).first htokens
  flat hkind := ((intersectionsLed depth).prefixed h hkind).of_dropWhile.ledBy htokens

/-- The further parts of a union stand behind signs. -/
theorem stands_of_readUnionParts (start : Nat) (hs : setting.source = source)
    (htokens : Contiguous source tokens)
    (h : readUnionParts depth setting stop tokens = some (parts, last, rest)) :
    ∀ part ∈ parts, PartStands source TypeExpr.isUnion Token.leadsUnion start part := by
  induction depth generalizing tokens stop parts with
  | zero =>
    rw [readUnionParts] at h
    cases h
  | succ depth ih =>
    rw [readUnionParts] at h
    split at h
    · next more hmore =>
      obtain ⟨⟨part, behind⟩, hpart, h⟩ := Option.bind_eq_some_iff.1 h
      obtain ⟨⟨others, _, _⟩, hothers, h⟩ := Option.bind_eq_some_iff.1 h
      cases h
      obtain ⟨sign, rfl, hsign⟩ := exists_of_takeBetween hmore
      have hrest : Contiguous source more := Contiguous.of_append [sign] htokens
      have hbehind : Contiguous source behind := ((readersLeave (reading (contiguity source))
        depth).intersection hs (holds_dropWhile _ hrest) _ hpart).2
      have hstart := ((readersStart depth).intersection hpart).of_dropWhile
        fun _ => isOperator_of_bar
      refine List.forall_mem_cons.2 ⟨⟨.inr (hstart.ledBy (isOperator_of_bar hsign) htokens), ?_⟩,
        ih hbehind hothers⟩
      exact fun hunion => ((unionsLed depth).intersection hpart hunion).of_dropWhile.ledBy hrest
    · cases h
      exact List.forall_mem_nil _

/-- The further parts of an intersection stand behind signs. -/
theorem stands_of_readIntersectionParts (start : Nat) (hs : setting.source = source)
    (htokens : Contiguous source tokens)
    (h : readIntersectionParts depth setting stop tokens = some (parts, last, rest)) :
    ∀ part ∈ parts,
      PartStands source TypeExpr.isIntersection Token.leadsIntersection start part := by
  induction depth generalizing tokens stop parts with
  | zero =>
    rw [readIntersectionParts] at h
    cases h
  | succ depth ih =>
    rw [readIntersectionParts] at h
    split at h
    · next more hmore =>
      obtain ⟨⟨part, behind⟩, hpart, h⟩ := Option.bind_eq_some_iff.1 h
      obtain ⟨⟨others, _, _⟩, hothers, h⟩ := Option.bind_eq_some_iff.1 h
      cases h
      obtain ⟨sign, rfl, hsign⟩ := exists_of_takeBetween hmore
      have hrest : Contiguous source more := Contiguous.of_append [sign] htokens
      have hbehind : Contiguous source behind := ((readersLeave (reading (contiguity source))
        depth).prefixed hs (holds_dropWhile _ hrest) _ hpart).2
      have hstart := ((readersStart depth).prefixed hpart).of_dropWhile
        fun _ => isOperator_of_ampersand
      refine List.forall_mem_cons.2
        ⟨⟨.inr (hstart.ledBy (isOperator_of_ampersand hsign) htokens), ?_⟩, ih hbehind hothers⟩
      exact fun hkind =>
        ((intersectionsLed depth).prefixed hpart hkind).of_dropWhile.ledBy hrest
    · cases h
      exact List.forall_mem_nil _

/-- A type in brackets stands in the source between them. -/
theorem bracketed_of_read {opening closing : Token} {inner : TypeExpr}
    (hs : setting.source = source) (htokens : Contiguous source (opening :: tokens))
    (hopening : opening.isSymbol "(" = true)
    (hread : readType depth setting tokens = some (inner, closing :: rest))
    (hclosing : closing.isSymbol ")" = true) :
    Bracketed source inner ⟨opening.start, closing.stop⟩ := by
  have htext {token : Token} {symbol : String} (h : token.isSymbol symbol = true) :
      token.text = symbol.toList := by
    simp only [Token.isSymbol, Bool.and_eq_true, beq_iff_eq] at h
    exact h.2
  obtain ⟨hstands, -, hbehind⟩ := htokens
  have hinside : tokens = tokensAt source opening.stop :=
    hbehind.resolve_left ((readersStart depth).type hread).ne_nil
  have hstop : opening.stop = opening.start + 1 := by
    rw [Token.stop, htext hopening]
    rfl
  have hrest : Contiguous source (closing :: rest) := by
    refine ((readersLeave (reading (contiguity source)) depth).type hs ?_ _ hread).2
    rw [hinside]
    exact contiguous_tokensAt hstands.cut_stop
  have hend : closing.stop = closing.start + 1 := by
    rw [Token.stop, htext hclosing]
    rfl
  refine ⟨htext hopening ▸ hstands, ⟨closing.start, hend, htext hclosing ▸ hrest.1⟩, ?_⟩
  exact ⟨depth, setting, closing, rest, hs, hstop ▸ hinside ▸ hread, hclosing, rfl⟩

end Parts

section Tree

variable {source : Text}

/-- Where the spans in a type are sound, its lists are flat. -/
def FlatWithin (source : Text) (nodes : List TypeExpr) : Prop :=
  ∀ node ∈ nodes, node.Sound source → node.ListsFlat source

/-- Lists are flat in a type and its parts. -/
theorem flatWithin_cons {type : TypeExpr} (htype : type.Sound source → type.ListsFlat source)
    (h : FlatWithin source type.within) : FlatWithin source type.nodes :=
  List.forall_mem_cons.2 ⟨htype, h⟩

/-- Lists are flat in several types. -/
theorem flatWithin_types {types : List TypeExpr}
    (h : ∀ type ∈ types, FlatWithin source type.nodes) :
    FlatWithin source (TypeExpr.nodesOfTypes types) := by
  rw [TypeExpr.nodesOfTypes_eq]
  exact List.forall_mem_flatMap.2 h

/-- Lists are flat in the types of several members. -/
theorem flatWithin_members {members : List Member}
    (h : ∀ member ∈ members, FlatWithin source (TypeExpr.nodesOfMember member)) :
    FlatWithin source (TypeExpr.nodesOfMembers members) := by
  rw [TypeExpr.nodesOfMembers_eq]
  exact List.forall_mem_flatMap.2 h

/-- Lists are flat in all types that are read from contiguous tokens. -/
def flatness (source : Text) : TreeInvariant (contiguity source) where
  Types type := FlatWithin source type.nodes
  Members member := FlatWithin source (TypeExpr.nodesOfMember member)
  Below member := FlatWithin source (TypeExpr.nodesOfMember member)
  keyword _ _ := flatWithin_cons (fun _ => trivial) (List.forall_mem_nil _)
  literal _ _ := flatWithin_cons (fun _ => trivial) (List.forall_mem_nil _)
  unsupported _ := flatWithin_cons (fun _ => trivial) (List.forall_mem_nil _)
  reference h := flatWithin_cons (fun _ => trivial) (flatWithin_types h)
  array h := flatWithin_cons (fun _ => trivial) h
  tuple h := flatWithin_cons (fun _ => trivial) (flatWithin_types h)
  union hs htokens hfirst hparts hne h := by
    refine flatWithin_cons (fun hsound => ?_) (flatWithin_types h)
    have hrest := ((readersLeave (reading (contiguity source)) _).intersection hs
      (holds_dropWhile _ htokens) _ hfirst).2
    refine ⟨?_, hsound.2.pairwise.2, List.forall_mem_cons.2
      ⟨stands_first_union htokens hfirst, stands_of_readUnionParts _ hs hrest hparts⟩⟩
    exact Nat.succ_le_succ (List.length_pos_iff.2 hne)
  intersection hs htokens hfirst hparts hne h := by
    refine flatWithin_cons (fun hsound => ?_) (flatWithin_types h)
    have hrest := ((readersLeave (reading (contiguity source)) _).prefixed hs
      (holds_dropWhile _ htokens) _ hfirst).2
    refine ⟨?_, hsound.2.pairwise.2, List.forall_mem_cons.2
      ⟨stands_first_intersection htokens hfirst,
        stands_of_readIntersectionParts _ hs hrest hparts⟩⟩
    exact Nat.succ_le_succ (List.length_pos_iff.2 hne)
  paren hs htokens hopening hread hclosing h :=
    flatWithin_cons (fun _ => bracketed_of_read hs htokens hopening hread hclosing) h
  object h := flatWithin_cons (fun _ => trivial) (flatWithin_members h)
  bare _ := List.forall_mem_nil _
  typed h := h
  index hkey hvalue := List.forall_mem_append.2 ⟨hkey, hvalue⟩
  mapped _ := List.forall_mem_nil _
  other _ := List.forall_mem_nil _
  member _ _ _ h := h

/-- Lists are flat in a statement. -/
theorem flatWithin_item {item : Item} (h : (flatness source).Items item) :
    FlatWithin source item.nodes := by
  cases item with
  | interfaceItem decl =>
    exact List.forall_mem_append.2 ⟨flatWithin_types h.1, flatWithin_members h.2⟩
  | aliasItem decl => exact h
  | importItem | otherItem => exact List.forall_mem_nil _

end Tree

end Grammar

/-- Lists are flat at any depth of a source file, and a sign in front of a single part
leaves no trace. -/
theorem SourceFile.listsFlat_of_read {source : Text} {file : SourceFile}
    (h : SourceFile.read source = some file) :
    (∀ type ∈ file.nodes, type.ListsFlat source) ∧
      ∀ {depth setting sign tokens type rest}, (sign.isSymbol "|" || sign.isSymbol "&") = true →
        readType depth setting (sign :: tokens) = some (type, rest) →
          StartsWithSign sign type ∨
            ∃ depth, readType depth setting tokens = some (type, rest) := by
  refine ⟨fun type hmem => ?_, readType_of_sign⟩
  obtain ⟨item, hitem, htype⟩ := List.mem_flatMap.1 hmem
  obtain ⟨-, hsound⟩ := SourceFile.read_sound h
  obtain ⟨_, -, hstands⟩ := hsound.of_mem hitem
  exact flatWithin_item ((flatness source).items_of_read contiguous_scan h item hitem) type htype
    (hstands.nodes type htype)

/-- A source with a read-only array between the other parts of a union. -/
def readonlySource : Text := "type T = A | readonly B[] | C"

/-- The parts of a union. -/
def TypeExpr.unionParts : TypeExpr → List TypeExpr
  | .union parts _ => parts
  | _ => []

/-- The read-only type reaches over the last part, so that the union is read with a union
as its part. -/
theorem exists_union_in_union : ∃ file, SourceFile.read readonlySource = some file ∧
    ∃ parts span, .union parts span ∈ file.nodes ∧ ∃ part ∈ parts, part.isUnion = true := by
  have hread : (SourceFile.read readonlySource).any (fun file => file.nodes.any fun node =>
      node.unionParts.any TypeExpr.isUnion) = true := by decide +kernel
  obtain ⟨file, hfile, hnodes⟩ := (Option.any_eq_true _ _).1 hread
  obtain ⟨node, hnode, hparts⟩ := List.any_eq_true.1 hnodes
  obtain ⟨part, hpart, hunion⟩ := List.any_eq_true.1 hparts
  cases node with
  | union parts span => exact ⟨file, hfile, parts, span, hnode, part, hpart, hunion⟩
  | _ => cases hpart

/-- The inner union stands right behind the word. -/
theorem SourceFile.listsFlat_of_read_readonly :
    ∃ file, SourceFile.read readonlySource = some file ∧
      ∃ parts span, .union parts span ∈ file.nodes ∧ ∃ part ∈ parts, part.isUnion = true ∧
        LedBy readonlySource Token.leadsUnion part.span.start := by
  obtain ⟨file, hfile, parts, span, hnode, part, hpart, hunion⟩ := exists_union_in_union
  have hflat := (SourceFile.listsFlat_of_read hfile).1 _ hnode
  exact ⟨file, hfile, parts, span, hnode, part, hpart, hunion,
    (hflat.stands part hpart).flat hunion⟩

/-- Not every part of a union is another kind of type. -/
theorem SourceFile.not_flat_of_read :
    ¬∀ source file, SourceFile.read source = some file → ∀ parts span,
      .union parts span ∈ file.nodes → ∀ part ∈ parts, part.isUnion = false := by
  intro h
  obtain ⟨file, hfile, parts, span, hnode, part, hpart, hunion⟩ := exists_union_in_union
  rw [h readonlySource file hfile parts span hnode part hpart] at hunion
  cases hunion

end InterfaceSchema
