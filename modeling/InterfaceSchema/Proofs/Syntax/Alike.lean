import InterfaceSchema.Proofs.Dialect.Convertibility

/-!
# Trees that say the same

Two syntax trees are alike if they differ at most in where they stand and in
which comments document them. Whether they are can be computed. Trees that are
alike have the same schemas: a schema does not depend on the places of what it is
made from, only the report of a type without a schema does.
-/

namespace InterfaceSchema

/-- Whether two properties are named and marked alike. -/
def PropertyHead.alike (first second : PropertyHead) : Bool :=
  first.name == second.name && first.optional == second.optional &&
    first.readonly == second.readonly

mutual

/-- Whether two types differ at most in their places and documentation. -/
def TypeExpr.alike : TypeExpr → TypeExpr → Bool
  | .keyword first _, .keyword second _ => first == second
  | .literal first _, .literal second _ => first == second
  | .reference first arguments _, .reference second others _ =>
    first == second && TypeExpr.allAlike arguments others
  | .array first _, .array second _ => TypeExpr.alike first second
  | .tuple first _, .tuple second _ => TypeExpr.allAlike first second
  | .union first _, .union second _ => TypeExpr.allAlike first second
  | .intersection first _, .intersection second _ => TypeExpr.allAlike first second
  | .object first _, .object second _ => Member.allAlike first second
  | .paren first _, .paren second _ => TypeExpr.alike first second
  | .unsupported _, .unsupported _ => true
  | _, _ => false
termination_by structural first => first

/-- Whether lists of types are alike, one by one. -/
def TypeExpr.allAlike : List TypeExpr → List TypeExpr → Bool
  | [], [] => true
  | first :: rest, second :: others => TypeExpr.alike first second && TypeExpr.allAlike rest others
  | _, _ => false
termination_by structural first => first

/-- Whether two declared types are alike, or both are missing. -/
def TypeExpr.optionAlike : Option TypeExpr → Option TypeExpr → Bool
  | none, none => true
  | some first, some second => TypeExpr.alike first second
  | _, _ => false
termination_by structural first => first

/-- Whether two properties are alike. -/
def Property.alike : Property → Property → Bool
  | ⟨head, type⟩, ⟨other, second⟩ => head.alike other && TypeExpr.optionAlike type second
termination_by structural first => first

/-- Whether two members are alike. -/
def Member.alike : Member → Member → Bool
  | .property first, .property second => Property.alike first second
  | .index key value isReadonly _, .index other second isOther _ =>
    isReadonly == isOther && (TypeExpr.alike key other && TypeExpr.alike value second)
  | .mapped _, .mapped _ => true
  | .other _, .other _ => true
  | _, _ => false
termination_by structural first => first

/-- Whether lists of members are alike, one by one. -/
def Member.allAlike : List Member → List Member → Bool
  | [], [] => true
  | first :: rest, second :: others => Member.alike first second && Member.allAlike rest others
  | _, _ => false
termination_by structural first => first

end

/-- Whether two statements are alike; of imports and other statements only the
extent is known. -/
def Item.alike : Item → Item → Bool
  | .interfaceItem first, .interfaceItem second =>
    first.name == second.name && first.exported == second.exported &&
      first.parameters.isSome == second.parameters.isSome &&
      (TypeExpr.allAlike first.bases second.bases && Member.allAlike first.members second.members)
  | .aliasItem first, .aliasItem second =>
    first.name == second.name && first.exported == second.exported &&
      first.parameters.isSome == second.parameters.isSome && first.type.alike second.type
  | .importItem _, .importItem _ => true
  | .otherItem _, .otherItem _ => true
  | _, _ => false

/-- Whether lists of statements are alike, one by one. -/
def Item.allAlike : List Item → List Item → Bool
  | [], [] => true
  | first :: rest, second :: others => Item.alike first second && Item.allAlike rest others
  | _, _ => false

/-- Heads that are alike make fields of the same name with the same marks. -/
theorem PropertyHead.alike_iff {first second : PropertyHead} : first.alike second = true ↔
    first.name = second.name ∧ first.optional = second.optional ∧
      first.readonly = second.readonly := by
  rw [PropertyHead.alike, Bool.and_eq_true, Bool.and_eq_true, beq_iff_eq, beq_iff_eq, beq_iff_eq,
    and_assoc]

/-- Lists of types that are alike are alike one by one. -/
theorem TypeExpr.allAlike_iff {types others : List TypeExpr} :
    TypeExpr.allAlike types others = true ↔
      List.Forall₂ (fun type other => type.alike other = true) types others := by
  induction types generalizing others with
  | nil => cases others <;> simp [TypeExpr.allAlike]
  | cons type rest ih => cases others <;> simp [TypeExpr.allAlike, ih]

/-- Lists of members that are alike are alike one by one. -/
theorem Member.allAlike_iff {members others : List Member} :
    Member.allAlike members others = true ↔
      List.Forall₂ (fun member other => member.alike other = true) members others := by
  induction members generalizing others with
  | nil => cases others <;> simp [Member.allAlike]
  | cons member rest ih => cases others <;> simp [Member.allAlike, ih]

/-- Lists of statements that are alike are alike one by one. -/
theorem Item.allAlike_iff {items others : List Item} :
    Item.allAlike items others = true ↔
      List.Forall₂ (fun item other => item.alike other = true) items others := by
  induction items generalizing others with
  | nil => cases others <;> simp [Item.allAlike]
  | cons item rest ih => cases others <;> simp [Item.allAlike, ih]

/-- Only an index signature is alike to one. -/
theorem Member.isIndex_of_alike {member other : Member} (h : member.alike other = true) :
    Schema.isIndex member = Schema.isIndex other := by
  cases member <;> cases other <;> first | rfl | cases h

/-- Members that are alike hold as many index signatures. -/
theorem Member.countP_isIndex_of_allAlike {members others : List Member}
    (h : Member.allAlike members others = true) :
    members.countP Schema.isIndex = others.countP Schema.isIndex := by
  induction Member.allAlike_iff.1 h with
  | nil => rfl
  | cons halike hrest ih =>
    rw [List.countP_cons, List.countP_cons, Member.isIndex_of_alike halike,
      ih (Member.allAlike_iff.2 hrest)]

namespace Schema

open TypeBox (bind_eq_ok)

/-- Heads that are alike make the same field of a type. -/
theorem fieldOf_alike {head other : PropertyHead} (h : head.alike other = true)
    (type : SchemaType) :
    (⟨head.key, type, head.optional, head.readonly⟩ : Field) =
      ⟨other.key, type, other.optional, other.readonly⟩ := by
  obtain ⟨hname, hoptional, hreadonly⟩ := PropertyHead.alike_iff.1 h
  rw [PropertyHead.key, PropertyHead.key, hname, hoptional, hreadonly]

mutual

/-- Types that are alike have the same schema. -/
theorem ofType_alike {schema : SchemaType} : (first second : TypeExpr) →
    first.alike second = true → ofType first = .ok schema → ofType second = .ok schema
  | .keyword keyword _, second, halike, h => by
    cases second with
    | keyword other _ =>
      obtain rfl : keyword = other := beq_iff_eq.1 halike
      exact h
    | _ => cases halike
  | .literal literal _, second, halike, h => by
    cases second with
    | literal other _ =>
      obtain rfl : literal = other := beq_iff_eq.1 halike
      exact h
    | _ => cases halike
  | .reference name arguments _, second, halike, h => by
    cases second with
    | reference other others _ =>
      obtain ⟨hname, harguments⟩ := Bool.and_eq_true_iff.1 halike
      obtain rfl : name = other := beq_iff_eq.1 hname
      exact ofReference_alike name arguments others harguments h
    | _ => cases halike
  | .array item _, second, halike, h => by
    cases second with
    | array other _ =>
      obtain ⟨found, hitem, h⟩ := bind_eq_ok.1 h
      exact bind_eq_ok.2 ⟨found, ofType_alike item other halike hitem, h⟩
    | _ => cases halike
  | .tuple items _, second, halike, h => by
    cases second with
    | tuple others _ =>
      obtain ⟨found, hitems, h⟩ := bind_eq_ok.1 h
      exact bind_eq_ok.2 ⟨found, ofTypes_alike items others halike hitems, h⟩
    | _ => cases halike
  | .union parts _, second, halike, h => by
    cases second with
    | union others _ =>
      obtain ⟨found, hparts, h⟩ := bind_eq_ok.1 h
      exact bind_eq_ok.2 ⟨found, ofTypes_alike parts others halike hparts, h⟩
    | _ => cases halike
  | .intersection parts _, second, halike, h => by
    cases second with
    | intersection others _ =>
      obtain ⟨found, hparts, h⟩ := bind_eq_ok.1 h
      exact bind_eq_ok.2 ⟨found, ofTypes_alike parts others halike hparts, h⟩
    | _ => cases halike
  | .object members _, second, halike, h => by
    cases second with
    | object others _ =>
      obtain ⟨fields, hfields, h⟩ := bind_eq_ok.1 h
      refine bind_eq_ok.2 ⟨fields, fieldsOf_alike members others halike hfields, ?_⟩
      rw [← Member.countP_isIndex_of_allAlike halike]
      split at h
      · next hrecord =>
        rw [if_pos hrecord]
        exact recordOf_alike members others halike h
      · next hrecord =>
        rw [if_neg hrecord]
        exact h
    | _ => cases halike
  | .paren inner _, second, halike, h => by
    cases second with
    | paren other _ => exact ofType_alike inner other halike h
    | _ => cases halike
  | .unsupported _, _, _, h => nomatch h
termination_by structural first => first

/-- References with arguments that are alike have the same schema. -/
theorem ofReference_alike {schema : SchemaType} {span place : Span} (name : Text) :
    (arguments others : List TypeExpr) → TypeExpr.allAlike arguments others = true →
      ofType (.reference name arguments span) = .ok schema →
        ofType (.reference name others place) = .ok schema
  | [], [], _, h => h
  | [item], [other], halike, h => by
    obtain ⟨hitem, -⟩ := Bool.and_eq_true_iff.1 halike
    rw [ofType] at h ⊢
    split at h
    · next hname =>
      obtain ⟨found, hfound, h⟩ := bind_eq_ok.1 h
      rw [if_pos hname]
      exact bind_eq_ok.2 ⟨found, ofType_alike item other hitem hfound, h⟩
    · next hname =>
      rw [if_neg hname]
      exact h
  | [key, value], [other, another], halike, h => by
    obtain ⟨hkey, hrest⟩ := Bool.and_eq_true_iff.1 halike
    obtain ⟨hvalue, -⟩ := Bool.and_eq_true_iff.1 hrest
    rw [ofType] at h ⊢
    split at h
    · next hname =>
      obtain ⟨first, hfirst, h⟩ := bind_eq_ok.1 h
      obtain ⟨second, hsecond, h⟩ := bind_eq_ok.1 h
      rw [if_pos hname]
      exact bind_eq_ok.2 ⟨first, ofType_alike key other hkey hfirst,
        bind_eq_ok.2 ⟨second, ofType_alike value another hvalue hsecond, h⟩⟩
    · next hname =>
      rw [if_neg hname]
      exact h
  | _ :: _ :: _ :: _, _ :: _ :: _ :: _, _, h => h
  -- lists of different lengths are not alike
  | [], _ :: _, halike, _ | _ :: _, [], halike, _ => nomatch halike
  | [_], _ :: _ :: _, halike, _ | _ :: _ :: _, [_], halike, _
  | [_, _], _ :: _ :: _ :: _, halike, _ | _ :: _ :: _ :: _, [_, _], halike, _ =>
    absurd (TypeExpr.allAlike_iff.1 halike).length_eq (by simp)
termination_by structural first => first

/-- So have lists of types that are alike. -/
theorem ofTypes_alike {schemas : List SchemaType} : (types others : List TypeExpr) →
    TypeExpr.allAlike types others = true → ofTypes types = .ok schemas →
      ofTypes others = .ok schemas
  | [], [], _, h => h
  | [], _ :: _, halike, _ | _ :: _, [], halike, _ => nomatch halike
  | type :: rest, other :: others, halike, h => by
    obtain ⟨htype, hrest⟩ := Bool.and_eq_true_iff.1 halike
    obtain ⟨first, hfirst, h⟩ := bind_eq_ok.1 h
    obtain ⟨found, hfound, h⟩ := bind_eq_ok.1 h
    exact bind_eq_ok.2 ⟨first, ofType_alike type other htype hfirst,
      bind_eq_ok.2 ⟨found, ofTypes_alike rest others hrest hfound, h⟩⟩
termination_by structural first => first

/-- Members that are alike make the same fields. -/
theorem fieldsOf_alike {fields : List Field} : (members others : List Member) →
    Member.allAlike members others = true → fieldsOf members = .ok fields →
      fieldsOf others = .ok fields
  | [], [], _, h => h
  | [], _ :: _, halike, _ | _ :: _, [], halike, _ => nomatch halike
  | .property ⟨head, some type⟩ :: rest, second :: others, halike, h => by
    obtain ⟨hmember, hrest⟩ := Bool.and_eq_true_iff.1 halike
    rcases second with ⟨⟨other, _ | another⟩⟩ | _ | _ | _
    case property.some =>
      obtain ⟨hhead, htype⟩ := Bool.and_eq_true_iff.1 hmember
      obtain ⟨schema, hschema, h⟩ := bind_eq_ok.1 h
      obtain ⟨found, hfound, h⟩ := bind_eq_ok.1 h
      rw [fieldOf_alike hhead] at h
      exact bind_eq_ok.2 ⟨schema, ofType_alike type another htype hschema,
        bind_eq_ok.2 ⟨found, fieldsOf_alike rest others hrest hfound, h⟩⟩
    case property.none => exact absurd (Bool.and_eq_true_iff.1 hmember).2 Bool.false_ne_true
    all_goals cases hmember
  | .property ⟨head, none⟩ :: rest, second :: others, halike, h => by
    obtain ⟨hmember, hrest⟩ := Bool.and_eq_true_iff.1 halike
    rcases second with ⟨⟨other, _ | another⟩⟩ | _ | _ | _
    case property.none =>
      obtain ⟨hhead, -⟩ := Bool.and_eq_true_iff.1 hmember
      obtain ⟨found, hfound, h⟩ := bind_eq_ok.1 h
      rw [fieldOf_alike hhead] at h
      exact bind_eq_ok.2 ⟨found, fieldsOf_alike rest others hrest hfound, h⟩
    case property.some => exact absurd (Bool.and_eq_true_iff.1 hmember).2 Bool.false_ne_true
    all_goals cases hmember
  | .index _ _ _ _ :: rest, second :: others, halike, h
  | .mapped _ :: rest, second :: others, halike, h
  | .other _ :: rest, second :: others, halike, h => by
    obtain ⟨hmember, hrest⟩ := Bool.and_eq_true_iff.1 halike
    have hfields := fieldsOf_alike rest others hrest h
    cases second <;> first | exact hfields | cases hmember
termination_by structural first => first

/-- And they make the same record. -/
theorem recordOf_alike {schema : SchemaType} : (members others : List Member) →
    Member.allAlike members others = true → recordOf members = .ok schema →
      recordOf others = .ok schema
  | [], [], _, h => h
  | [], _ :: _, halike, _ | _ :: _, [], halike, _ => nomatch halike
  | .index key value _ _ :: rest, second :: others, halike, h => by
    obtain ⟨hmember, -⟩ := Bool.and_eq_true_iff.1 halike
    cases second with
    | index other another =>
      obtain ⟨-, htypes⟩ := Bool.and_eq_true_iff.1 hmember
      obtain ⟨hkey, hvalue⟩ := Bool.and_eq_true_iff.1 htypes
      obtain ⟨first, hfirst, h⟩ := bind_eq_ok.1 h
      obtain ⟨second, hsecond, h⟩ := bind_eq_ok.1 h
      exact bind_eq_ok.2 ⟨first, ofType_alike key other hkey hfirst,
        bind_eq_ok.2 ⟨second, ofType_alike value another hvalue hsecond, h⟩⟩
    | _ => cases hmember
  | .property _ :: rest, second :: others, halike, h
  | .mapped _ :: rest, second :: others, halike, h
  | .other _ :: rest, second :: others, halike, h => by
    obtain ⟨hmember, hrest⟩ := Bool.and_eq_true_iff.1 halike
    have hrecord := recordOf_alike rest others hrest h
    cases second <;> first | exact hrecord | cases hmember
termination_by structural first => first

end

/-- Bodies that are alike have the same schema. -/
theorem ofMembers_alike {members others : List Member} {schema : SchemaType}
    (halike : Member.allAlike members others = true) (h : ofMembers members = .ok schema) :
    ofMembers others = .ok schema :=
  ofType_alike (.object members ⟨0, 0⟩) (.object others ⟨0, 0⟩) halike h

/-- Interfaces that are alike declare the same. -/
theorem ofInterface_alike {first second : InterfaceDecl} {declaration : Declaration}
    (halike : (Item.interfaceItem first).alike (.interfaceItem second) = true)
    (h : ofInterface first = .ok declaration) : ofInterface second = .ok declaration := by
  simp only [Item.alike, Bool.and_eq_true, beq_iff_eq] at halike
  obtain ⟨⟨⟨hname, -⟩, hparameters⟩, hbases, hmembers⟩ := halike
  rw [ofInterface] at h ⊢
  cases hfirst : first.parameters with
  | some span =>
    rw [hfirst] at h
    cases h
  | none =>
    have hsecond : second.parameters = none := by simpa [hfirst] using hparameters.symm
    rw [hfirst, hname] at h
    rw [hsecond]
    obtain ⟨bases, hfound, h⟩ := bind_eq_ok.1 h
    obtain ⟨body, hbody, h⟩ := bind_eq_ok.1 h
    exact bind_eq_ok.2 ⟨bases, ofTypes_alike _ _ hbases hfound,
      bind_eq_ok.2 ⟨body, ofMembers_alike hmembers hbody, h⟩⟩

/-- Aliases that are alike declare the same. -/
theorem ofAlias_alike {first second : AliasDecl} {declaration : Declaration}
    (halike : (Item.aliasItem first).alike (.aliasItem second) = true)
    (h : ofAlias first = .ok declaration) : ofAlias second = .ok declaration := by
  simp only [Item.alike, Bool.and_eq_true, beq_iff_eq] at halike
  obtain ⟨⟨⟨hname, -⟩, hparameters⟩, htype⟩ := halike
  rw [ofAlias] at h ⊢
  cases hfirst : first.parameters with
  | some span =>
    rw [hfirst] at h
    cases h
  | none =>
    have hsecond : second.parameters = none := by simpa [hfirst] using hparameters.symm
    rw [hfirst, hname] at h
    rw [hsecond]
    obtain ⟨found, hfound, h⟩ := bind_eq_ok.1 h
    exact bind_eq_ok.2 ⟨found, ofType_alike _ _ htype hfound, h⟩

/-- Statements that are alike declare the same. -/
theorem ofItems_alike {items others : List Item} {declarations : List Declaration}
    (halike : Item.allAlike items others = true) (h : ofItems items = .ok declarations) :
    ofItems others = .ok declarations := by
  induction Item.allAlike_iff.1 halike generalizing declarations with
  | nil => exact h
  | @cons item other rest more hitem hrest ih =>
    have hrest := Item.allAlike_iff.2 hrest
    cases item with
    | interfaceItem decl =>
      obtain ⟨first, hfirst, h⟩ := bind_eq_ok.1 h
      obtain ⟨found, hfound, h⟩ := bind_eq_ok.1 h
      cases other with
      | interfaceItem second =>
        exact bind_eq_ok.2 ⟨first, ofInterface_alike hitem hfirst,
          bind_eq_ok.2 ⟨found, ih hrest hfound, h⟩⟩
      | _ => cases hitem
    | aliasItem decl =>
      obtain ⟨first, hfirst, h⟩ := bind_eq_ok.1 h
      obtain ⟨found, hfound, h⟩ := bind_eq_ok.1 h
      cases other with
      | aliasItem second =>
        exact bind_eq_ok.2 ⟨first, ofAlias_alike hitem hfirst,
          bind_eq_ok.2 ⟨found, ih hrest hfound, h⟩⟩
      | _ => cases hitem
    | importItem | otherItem =>
      have hfound := ih hrest h
      cases other <;> first | exact hfound | cases hitem

end Schema

end InterfaceSchema
