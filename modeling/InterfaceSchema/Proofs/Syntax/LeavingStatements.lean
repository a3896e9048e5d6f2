import InterfaceSchema.Proofs.Syntax.Leaving
import InterfaceSchema.Syntax.Source

/-!
# Types and properties of a source file

If an invariant holds of the tokens of a source, what is known of all types and
members that are read from such tokens is known of those in the source file, in
interfaces and aliases: statements are read one behind the other, and whatever is
read of one leaves such tokens. In particular every property, at any depth, was
read from tokens of which the invariant holds.
-/

namespace InterfaceSchema

/-- The properties in a statement, at any depth. -/
def Item.properties : Item → List Property
  | .interfaceItem decl =>
    TypeExpr.propertiesOfTypes decl.bases ++ TypeExpr.propertiesOfMembers decl.members
  | .aliasItem decl => decl.type.properties
  | .importItem _ | .otherItem _ => []

/-- The properties in a source file, at any depth. -/
def SourceFile.properties (file : SourceFile) : List Property :=
  file.items.flatMap Item.properties

namespace Grammar

variable {source : Text} {inv : TokenInvariant source} {tree : TreeInvariant inv}
  {tokens rest : List Token} {depth : Nat} {setting : Setting} {exported : Bool} {first : Nat}

/-- What is known of the types and members of a statement. -/
def TreeInvariant.Items (tree : TreeInvariant inv) : Item → Prop
  | .interfaceItem decl =>
    (∀ base ∈ decl.bases, tree.Types base) ∧ ∀ member ∈ decl.members, tree.Members member
  | .aliasItem decl => tree.Types decl.type
  | .importItem _ | .otherItem _ => True

/-- Type parameters. -/
theorem leaves_readParameterSpan (tree : TreeInvariant inv) (hs : setting.source = source)
    (htokens : inv.Holds tokens) :
    Leaves inv (fun _ => True) Prod.snd (readParameterSpan depth setting tokens) := by
  unfold readParameterSpan
  split
  · exact ((readersLeave tree depth).follow hs rfl htokens).bind fun _ _ hreach =>
      .some trivial hreach
  · exact .some trivial htokens

/-- The types an interface extends. -/
theorem leaves_readBases (hs : setting.source = source) (htokens : inv.Holds tokens) :
    Leaves inv (fun found => ∀ base ∈ found.1, tree.Types base) Prod.snd
      (readBases depth setting tokens) := by
  induction depth generalizing tokens with
  | zero => exact .none
  | succ depth ih =>
    rw [readBases]
    refine ((readersLeave tree depth).named hs htokens).bindOne fun _ rest hbase hrest => ?_
    dsimp only
    split
    · next hcomma =>
      exact (ih (holds_of_takeSymbol hrest hcomma)).bindOne fun _ _ hbases hrest =>
        .some (List.forall_mem_cons.2 ⟨hbase, hbases⟩) hrest
    · exact .some (List.forall_mem_singleton.2 hbase) hrest

/-- An interface. -/
theorem leaves_readInterface (hs : setting.source = source) (htokens : inv.Holds tokens) :
    Leaves inv (fun found => tree.Items (.interfaceItem found.1)) Prod.snd
      (readInterface depth setting exported first tokens) := by
  have hlines : setting.lines.source = source := hs
  unfold readInterface
  split
  · next word name behind =>
    split
    · refine (leaves_readParameterSpan tree hs htokens.tail.tail).bindOne
        fun parameters rest _ hrest => ?_
      -- whatever it extends, the body follows
      have hbody {bases : List TypeExpr} {rest : List Token}
          (hbases : ∀ base ∈ bases, tree.Types base) (hrest : inv.Holds rest) :
          Leaves inv (fun found => tree.Items (.interfaceItem found.1)) Prod.snd
            (takeSymbol "\x7b" rest >>= fun opened =>
              readBody depth setting.lines opened.2 >>= fun found =>
                some ((⟨name.text, name.span, exported, parameters, bases, found.1,
                  ⟨first, found.2.1.stop⟩⟩ : InterfaceDecl), found.2.2)) := by
        refine (leaves_takeSymbol "\x7b" hrest).bindOne fun _ rest _ hrest => ?_
        refine ((readersLeave tree depth).body hlines hrest).bindList
          fun _ _ rest hmembers hrest => ?_
        exact .some ⟨hbases, hmembers⟩ hrest
      have hnone : ∀ base ∈ ([] : List TypeExpr), tree.Types base := List.forall_mem_nil _
      dsimp only
      split
      · split
        · exact (leaves_readBases hs hrest.tail).bindOne fun _ _ hbases hrest => hbody hbases hrest
        · exact hbody hnone hrest
      · exact hbody hnone hrest
    · exact .none
  · exact .none

/-- An alias. -/
theorem leaves_readAlias (hs : setting.source = source) (htokens : inv.Holds tokens) :
    Leaves inv (fun found => tree.Items (.aliasItem found.1)) Prod.snd
      (readAlias depth setting exported first tokens) := by
  unfold readAlias
  split
  · split
    · refine (leaves_readParameterSpan tree hs htokens.tail.tail).bindOne fun _ rest _ hrest => ?_
      refine (leaves_takeSymbol "=" hrest).bindOne fun _ rest _ hrest => ?_
      refine ((readersLeave tree depth).type hs hrest).bindOne fun _ rest htype hrest => ?_
      exact (leaves_endStatement hrest).bind fun _ _ hreach => .some htype hreach
    · exact .none
  · exact .none

/-- An interface or alias. -/
theorem leaves_readDeclared (hs : setting.source = source) (htokens : inv.Holds tokens) :
    Leaves inv (fun found => tree.Items found.1) Prod.snd
      (readDeclared depth setting exported first tokens) := by
  unfold readDeclared
  split
  · next hread =>
    obtain ⟨hdecl, hrest⟩ := leaves_readInterface hs htokens _ hread
    exact .some hdecl hrest
  · intro found hfound
    obtain ⟨⟨decl, rest⟩, hread, rfl⟩ := Option.map_eq_some_iff.1 hfound
    exact leaves_readAlias hs htokens _ hread

/-- A statement of which only the extent is read. -/
theorem leaves_readOther {part : Part} (hs : setting.source = source)
    (htokens : inv.Holds tokens) :
    Leaves inv (fun found => tree.Items found.1) Prod.snd
      (readOther depth setting part first tokens) :=
  ((readersLeave tree depth).follow hs rfl htokens).bind fun _ _ hreach =>
    .some trivial hreach

/-- A declaration or another statement. -/
theorem leaves_readDeclaration {part : Part} (hs : setting.source = source)
    (htokens : inv.Holds tokens) :
    Leaves inv (fun found => tree.Items found.1) Prod.snd
      (readDeclaration depth setting exported first part tokens) := by
  unfold readDeclaration
  extract_lets bare
  have hbare : inv.Holds bare := by
    dsimp only [bare]
    split
    · split
      · exact htokens.tail
      · exact htokens
    · exact htokens
  split
  · next found hread =>
    intro other hother
    cases hother
    exact leaves_readDeclared hs hbare _ hread
  · exact leaves_readOther hs htokens

/-- What follows the word for an export. -/
theorem leaves_readExported {whole : List Token} {start : Nat} (hs : setting.source = source)
    (hwhole : inv.Holds whole) (htokens : inv.Holds tokens) :
    Leaves inv (fun found => tree.Items found.1) Prod.snd
      (readExported depth setting start first whole tokens) := by
  unfold readExported
  extract_lets declares
  split
  · exact leaves_readDeclaration hs htokens
  split
  · split
    · exact leaves_readDeclaration hs htokens.tail
    · exact leaves_readOther hs hwhole
  · exact .none

/-- A statement. -/
theorem leaves_readStatement (hs : setting.source = source) (htokens : inv.Holds tokens) :
    Leaves inv (fun found => tree.Items found.1) Prod.snd
      (readStatement depth setting tokens) := by
  unfold readStatement
  split
  · exact .none
  next token rest =>
  extract_lets documented
  split
  · exact .some trivial htokens.tail
  split
  · next reach hreach =>
    exact leaves_readExported hs htokens
      ((readersLeave tree depth).follow hs rfl htokens reach hreach).2
  split
  · next reach hreach =>
    exact .some trivial
      ((readersLeave tree depth).follow hs rfl htokens reach hreach).2
  · exact leaves_readDeclaration hs htokens

/-- Statements up to the end of the source. -/
theorem items_of_readStatements {items : List Item} (hs : setting.source = source)
    (htokens : inv.Holds tokens) (hread : readStatements depth setting tokens = some items) :
    ∀ item ∈ items, tree.Items item := by
  induction depth generalizing tokens items with
  | zero => cases hread
  | succ depth ih =>
    unfold readStatements at hread
    split at hread
    · cases hread
    split at hread
    · cases hread
      exact List.forall_mem_nil _
    · obtain ⟨⟨item, rest⟩, hitem, hread⟩ := Option.bind_eq_some_iff.1 hread
      obtain ⟨others, hothers, hread⟩ := Option.bind_eq_some_iff.1 hread
      cases hread
      obtain ⟨hfirst, hrest⟩ := leaves_readStatement hs htokens _ hitem
      exact List.forall_mem_cons.2 ⟨hfirst, ih hrest hothers⟩

/-- The properties of a statement. -/
theorem reads_properties {item : Item} (h : (reading inv).Items item) :
    ∀ property ∈ item.properties, inv.Reads property := by
  cases item with
  | interfaceItem decl =>
    rw [Item.properties, TypeExpr.propertiesOfTypes_eq, TypeExpr.propertiesOfMembers_eq]
    exact List.forall_mem_append.2
      ⟨List.forall_mem_flatMap.2 h.1, List.forall_mem_flatMap.2 h.2⟩
  | aliasItem decl => exact h
  | importItem | otherItem => exact List.forall_mem_nil _

/-- What is known of all types and members is known of those in a source file, if the
invariant holds of the tokens of the source. -/
theorem TreeInvariant.items_of_read (tree : TreeInvariant inv) {file : SourceFile}
    (hscan : inv.Holds (Token.scan source)) (h : SourceFile.read source = some file) :
    ∀ item ∈ file.items, tree.Items item := by
  obtain ⟨items, hitems, hfile⟩ := Option.bind_eq_some_iff.1 h
  cases hfile
  exact items_of_readStatements rfl hscan hitems

end Grammar

/-- Every property in a source file was read from tokens of which the invariant
holds, if it holds of the tokens of the source. -/
theorem TokenInvariant.reads_of_read {source : Text} (inv : TokenInvariant source)
    {file : SourceFile} (hscan : inv.Holds (Token.scan source))
    (h : SourceFile.read source = some file) : ∀ property ∈ file.properties, inv.Reads property :=
  List.forall_mem_flatMap.2 fun item hitem =>
    Grammar.reads_properties ((Grammar.reading inv).items_of_read hscan h item hitem)

end InterfaceSchema
