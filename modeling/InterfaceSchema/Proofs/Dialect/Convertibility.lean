import InterfaceSchema.Generate
import Mathlib.Data.List.Forall2

/-!
# Types with a schema

Code for TypeBox is written from the syntax tree, code for the other dialects
from a schema model. Both ways refuse types without a schema, but TypeBox looks
further: a model takes a utility type for a name and asks nothing of its
arguments. A type that TypeBox writes has a schema in the model; a type with a
schema is written if the arguments of its utility types are, and where it has
none of these, TypeBox writes the schema of the model with functions of its own.
-/

namespace InterfaceSchema

namespace TypeBox

/-- Whether a body stands for a record: it holds one index signature and no
property. -/
def isRecord (members : List Member) : Bool :=
  (propertiesOf members).isEmpty && members.countP Schema.isIndex == 1

mutual

/-- The arguments of utility types that are written along with a type. -/
def utilityArguments : TypeExpr → List TypeExpr
  | .reference name arguments _ =>
    if utilityTypes.contains name then arguments
    else if (name = "Array" ∨ name = "ReadonlyArray") ∧ arguments.length = 1 ∨
        name = "Record" ∧ arguments.length = 2 then utilityArgumentsOf arguments
    else []
  | .array item _ => utilityArguments item
  | .tuple items _ => utilityArgumentsOf items
  | .union parts _ => utilityArgumentsOf parts
  | .intersection parts _ => utilityArgumentsOf parts
  | .object members _ =>
    if isRecord members then utilityArgumentsOfRecord members
    else utilityArgumentsOfProperties members
  | .paren inner _ => utilityArguments inner
  | .keyword .. | .literal .. | .unsupported _ => []

/-- The arguments of utility types that are written along with types. -/
def utilityArgumentsOf : List TypeExpr → List TypeExpr
  | [] => []
  | type :: rest => utilityArguments type ++ utilityArgumentsOf rest

/-- The arguments of utility types that are written along with the properties
among the members. -/
def utilityArgumentsOfProperties : List Member → List TypeExpr
  | [] => []
  | .property ⟨_, some type⟩ :: rest => utilityArguments type ++ utilityArgumentsOfProperties rest
  | _ :: rest => utilityArgumentsOfProperties rest

/-- The arguments of utility types that are written along with the first index
signature among the members. -/
def utilityArgumentsOfRecord : List Member → List TypeExpr
  | [] => []
  | .index key value _ _ :: _ => utilityArguments key ++ utilityArguments value
  | _ :: rest => utilityArgumentsOfRecord rest

end

/-- The arguments of utility types that are written along with a body. -/
def utilityArgumentsOfBody (members : List Member) : List TypeExpr :=
  if isRecord members then utilityArgumentsOfRecord members
  else utilityArgumentsOfProperties members

/-- The arguments of utility types that are written along with a statement. -/
def utilityArgumentsOfItem : Item → List TypeExpr
  | .interfaceItem decl => utilityArgumentsOf decl.bases ++ utilityArgumentsOfBody decl.members
  | .aliasItem decl => utilityArguments decl.type
  | .importItem _ | .otherItem _ => []

/-- A schema with marks for being read-only and optional. -/
def wrapped (isReadonly isOptional : Bool) (schema : Text) : Text :=
  match isReadonly, isOptional with
  | true, true => "Type.ReadonlyOptional(" ++ schema ++ ")"
  | true, false => "Type.Readonly(" ++ schema ++ ")"
  | false, true => "Type.Optional(" ++ schema ++ ")"
  | false, false => schema

/-- The entries of an object, one for each field. -/
def fieldEntries : List WrittenField → List Text :=
  Dialect.entries fun field => wrapped field.readonly field.optional field.value

/-- TypeBox as a dialect of schema models. -/
def dialect : Dialect where
  target := .typebox
  imports := some imports
  keyword := keyword
  date := "Type.Date()"
  literal literal := "Type.Literal(" ++ Dialect.literalValue literal ++ ")"
  array item := "Type.Array(" ++ item ++ ")"
  tuple items := "Type.Tuple([" ++ Dialect.commas items ++ "])"
  union parts := "Type.Union([" ++ Dialect.commas parts ++ "])"
  intersection parts := "Type.Intersect([" ++ Dialect.commas parts ++ "])"
  record _ key value := record key value
  object fields := object (fieldEntries fields)
  declaration := declaration

/-- What a declared name stands for, in TypeBox. The types that an interface
extends and its own body are written one on each line. -/
def writeShape : Shape → Text
  | .object bases fields =>
    let body := dialect.object (Dialect.writeFields dialect fields)
    if bases.isEmpty then body
    else "Type.Intersect(" ++
      Layout.block "[" (Dialect.writeTypes dialect bases ++ [body]) "]" ++ ")"
  | .type type => Dialect.writeType dialect type

/-- A translation with steps succeeds if its first step does and the further
ones do from there. -/
theorem bind_eq_ok {ε α β : Type} {first : Except ε α} {next : α → Except ε β} {value : β} :
    (first >>= next) = .ok value ↔ ∃ middle, first = .ok middle ∧ next middle = .ok value := by
  cases first with
  | ok middle => simp [bind, Except.bind]
  | error fault => simp [bind, Except.bind]

/-- There is an entry for each property. -/
theorem length_writeProperties {members : List Member} {entries : List Text}
    (h : writeProperties members = .ok entries) :
    entries.length = (propertiesOf members).length := by
  induction members generalizing entries with
  | nil =>
    cases h
    rfl
  | cons member rest ih =>
    rw [propertiesOf, List.filterMap_cons]
    cases member with
    | property property =>
      obtain ⟨head, type⟩ := property
      cases type with
      | none =>
        obtain ⟨others, hothers, h⟩ := bind_eq_ok.1 h
        cases h
        exact congrArg Nat.succ (ih hothers)
      | some type =>
        obtain ⟨schema, -, h⟩ := bind_eq_ok.1 h
        obtain ⟨others, hothers, h⟩ := bind_eq_ok.1 h
        cases h
        exact congrArg Nat.succ (ih hothers)
    | index | mapped | other => exact ih h

/-- A body is a record if nothing is found for its properties. -/
theorem isRecord_eq {α : Type} {members : List Member} {found : List α}
    (h : found.length = (propertiesOf members).length) :
    (found.isEmpty && members.countP Schema.isIndex == 1) = isRecord members := by
  have hempty : found.isEmpty = (propertiesOf members).isEmpty := by
    rw [Bool.eq_iff_iff, List.isEmpty_iff_length_eq_zero, List.isEmpty_iff_length_eq_zero, h]
  rw [hempty, isRecord]

/-- The entry of a field is that of its property. -/
theorem fieldEntries_cons (head : PropertyHead) (schema : SchemaType) (fields : List Field) :
    fieldEntries
        (dialect.writeFields (⟨head.key, schema, head.optional, head.readonly⟩ :: fields)) =
      entry head (dialect.writeType schema) :: fieldEntries (dialect.writeFields fields) := by
  rw [entry, List.append_assoc]
  rfl

/-- The arguments of a list are those of its item. -/
theorem utilityArguments_list {name : Text} {item : TypeExpr} {span : Span}
    (h : name = "Array" ∨ name = "ReadonlyArray") :
    utilityArguments (.reference name [item] span) = utilityArguments item := by
  have hutility : ¬utilityTypes.contains name = true := by rcases h with rfl | rfl <;> decide
  rw [utilityArguments, if_neg hutility, if_pos (.inl ⟨h, rfl⟩), utilityArgumentsOf]
  exact List.append_nil _

/-- The arguments of a record are those of its keys and values. -/
theorem utilityArguments_record {key value : TypeExpr} {span : Span} :
    utilityArguments (.reference "Record" [key, value] span) =
      utilityArguments key ++ utilityArguments value := by
  rw [utilityArguments, if_neg (by decide), if_pos (.inr ⟨rfl, rfl⟩), utilityArgumentsOf,
    utilityArgumentsOf]
  exact congrArg _ (List.append_nil _)

/-- The arguments of a utility type are all that it is given. -/
theorem utilityArguments_utility {name : Text} {arguments : List TypeExpr} {span : Span}
    (h : utilityTypes.contains name = true) :
    utilityArguments (.reference name arguments span) = arguments := by
  rw [utilityArguments, if_pos h]

mutual

/-- A type that is written has a schema, and without arguments of utility types
it is the schema that is written. -/
theorem exists_ofType {text : Text} : (type : TypeExpr) → writeType type = .ok text →
    ∃ schema, Schema.ofType type = .ok schema ∧
      (utilityArguments type = [] → text = dialect.writeType schema)
  | .keyword word span, h => by
    cases h
    exact ⟨.keyword word, rfl, fun _ => rfl⟩
  | .literal literal span, h => by
    cases h
    exact ⟨.literal literal, rfl, fun _ => rfl⟩
  | .reference name [] span, h => by
    cases h
    refine ⟨_, rfl, fun _ => ?_⟩
    split <;> rfl
  | .reference name [item] span, h => by
    rw [writeType] at h
    rw [Schema.ofType]
    by_cases hlist : name = "Array" ∨ name = "ReadonlyArray"
    · rw [if_pos hlist] at h ⊢
      obtain ⟨written, hitem, h⟩ := bind_eq_ok.1 h
      cases h
      obtain ⟨schema, hschema, heq⟩ := exists_ofType item hitem
      rw [utilityArguments_list hlist]
      exact ⟨.array schema, bind_eq_ok.2 ⟨schema, hschema, rfl⟩,
        fun hfree => by rw [heq hfree]; rfl⟩
    · rw [if_neg hlist] at h ⊢
      refine ⟨.reference name, rfl, fun hfree => ?_⟩
      split at h
      · next hutility => simp [utilityArguments_utility hutility] at hfree
      · cases h
        rfl
  | .reference name (first :: second :: rest) span, h => by
    by_cases hrecord : name = "Record" ∧ rest = []
    · obtain ⟨rfl, rfl⟩ := hrecord
      obtain ⟨key, hkey, h⟩ := bind_eq_ok.1 h
      obtain ⟨value, hvalue, h⟩ := bind_eq_ok.1 h
      cases h
      obtain ⟨keys, hkeys, heqKey⟩ := exists_ofType first hkey
      obtain ⟨values, hvalues, heqValue⟩ := exists_ofType second hvalue
      rw [utilityArguments_record]
      refine ⟨.record keys values, bind_eq_ok.2 ⟨keys, hkeys, bind_eq_ok.2 ⟨values, hvalues, rfl⟩⟩,
        fun hfree => ?_⟩
      obtain ⟨hfirst, hsecond⟩ := List.append_eq_nil_iff.1 hfree
      rw [heqKey hfirst, heqValue hsecond]
      rfl
    · have hname : Schema.ofType (.reference name (first :: second :: rest) span) =
          .ok (.reference name) := by
        cases rest with
        | nil => rw [Schema.ofType, if_neg fun hname => hrecord ⟨hname, rfl⟩]
        | cons third more => rfl
      refine ⟨.reference name, hname, fun hfree => ?_⟩
      rw [writeType, if_neg (by simpa using hrecord)] at h
      split at h
      · next hutility => simp [utilityArguments_utility hutility] at hfree
      · cases h
        rfl
  | .array item span, h => by
    obtain ⟨written, hitem, h⟩ := bind_eq_ok.1 h
    cases h
    obtain ⟨schema, hschema, heq⟩ := exists_ofType item hitem
    exact ⟨.array schema, bind_eq_ok.2 ⟨schema, hschema, rfl⟩, fun hfree => by rw [heq hfree]; rfl⟩
  | .tuple items span, h => by
    obtain ⟨written, hitems, h⟩ := bind_eq_ok.1 h
    cases h
    obtain ⟨schemas, hschemas, heq⟩ := exists_ofTypes items hitems
    exact ⟨.tuple schemas, bind_eq_ok.2 ⟨schemas, hschemas, rfl⟩,
      fun hfree => by rw [heq hfree]; rfl⟩
  | .union parts span, h => by
    obtain ⟨written, hparts, h⟩ := bind_eq_ok.1 h
    cases h
    obtain ⟨schemas, hschemas, heq⟩ := exists_ofTypes parts hparts
    exact ⟨.union schemas, bind_eq_ok.2 ⟨schemas, hschemas, rfl⟩,
      fun hfree => by rw [heq hfree]; rfl⟩
  | .intersection parts span, h => by
    obtain ⟨written, hparts, h⟩ := bind_eq_ok.1 h
    cases h
    obtain ⟨schemas, hschemas, heq⟩ := exists_ofTypes parts hparts
    exact ⟨.intersection schemas, bind_eq_ok.2 ⟨schemas, hschemas, rfl⟩,
      fun hfree => by rw [heq hfree]; rfl⟩
  | .object members span, h => by
    obtain ⟨entries, hentries, h⟩ := bind_eq_ok.1 h
    obtain ⟨fields, hfields, hlength, heq⟩ := exists_fieldsOf members hentries
    have hcount := length_writeProperties hentries
    rw [isRecord_eq hcount] at h
    have hfree : utilityArguments (.object members span) = utilityArgumentsOfBody members := rfl
    rw [hfree, utilityArgumentsOfBody]
    have hschema (schema : SchemaType) (hrest : (if isRecord members then Schema.recordOf members
        else .ok (.object fields)) = .ok schema) :
        Schema.ofType (.object members span) = .ok schema := by
      rw [← isRecord_eq (hlength.trans hcount)] at hrest
      exact bind_eq_ok.2 ⟨fields, hfields, hrest⟩
    by_cases hrecord : isRecord members = true
    · simp only [if_pos hrecord] at h hschema ⊢
      obtain ⟨schema, hbody, heq⟩ := exists_recordOf members h
      exact ⟨schema, hschema schema hbody, heq⟩
    · simp only [if_neg hrecord] at h hschema ⊢
      cases h
      refine ⟨.object fields, hschema _ rfl, fun hfree => ?_⟩
      rw [heq hfree]
      rfl
  | .paren inner span, h => exists_ofType inner h
  | .unsupported span, h => nomatch h

/-- Types that are written have schemas. -/
theorem exists_ofTypes {texts : List Text} : (types : List TypeExpr) →
    writeTypes types = .ok texts → ∃ schemas, Schema.ofTypes types = .ok schemas ∧
      (utilityArgumentsOf types = [] → texts = dialect.writeTypes schemas)
  | [], h => by
    cases h
    exact ⟨[], rfl, fun _ => rfl⟩
  | type :: rest, h => by
    obtain ⟨first, hfirst, h⟩ := bind_eq_ok.1 h
    obtain ⟨others, hothers, h⟩ := bind_eq_ok.1 h
    cases h
    obtain ⟨schema, hschema, heq⟩ := exists_ofType type hfirst
    obtain ⟨schemas, hschemas, heqs⟩ := exists_ofTypes rest hothers
    refine ⟨schema :: schemas,
      bind_eq_ok.2 ⟨schema, hschema, bind_eq_ok.2 ⟨schemas, hschemas, rfl⟩⟩, fun hfree => ?_⟩
    obtain ⟨htype, hrest⟩ := List.append_eq_nil_iff.1 hfree
    rw [heq htype, heqs hrest]
    rfl

/-- Properties that are written are fields. -/
theorem exists_fieldsOf {entries : List Text} : (members : List Member) →
    writeProperties members = .ok entries → ∃ fields, Schema.fieldsOf members = .ok fields ∧
      fields.length = entries.length ∧ (utilityArgumentsOfProperties members = [] →
        entries = fieldEntries (dialect.writeFields fields))
  | [], h => by
    cases h
    exact ⟨[], rfl, rfl, fun _ => rfl⟩
  | .property ⟨head, some type⟩ :: rest, h => by
    obtain ⟨first, hfirst, h⟩ := bind_eq_ok.1 h
    obtain ⟨others, hothers, h⟩ := bind_eq_ok.1 h
    cases h
    obtain ⟨schema, hschema, heq⟩ := exists_ofType type hfirst
    obtain ⟨fields, hfields, hlength, heqs⟩ := exists_fieldsOf rest hothers
    refine ⟨⟨head.key, schema, head.optional, head.readonly⟩ :: fields,
      bind_eq_ok.2 ⟨schema, hschema, bind_eq_ok.2 ⟨fields, hfields, rfl⟩⟩,
      congrArg Nat.succ hlength, fun hfree => ?_⟩
    obtain ⟨htype, hrest⟩ := List.append_eq_nil_iff.1 hfree
    rw [heq htype, heqs hrest, fieldEntries_cons]
  | .property ⟨head, none⟩ :: rest, h => by
    obtain ⟨others, hothers, h⟩ := bind_eq_ok.1 h
    cases h
    obtain ⟨fields, hfields, hlength, heqs⟩ := exists_fieldsOf rest hothers
    refine ⟨⟨head.key, .keyword .any, head.optional, head.readonly⟩ :: fields,
      bind_eq_ok.2 ⟨fields, hfields, rfl⟩, congrArg Nat.succ hlength, fun hfree => ?_⟩
    rw [heqs hfree, fieldEntries_cons]
    rfl
  | .index key value reads span :: rest, h => exists_fieldsOf rest h
  | .mapped span :: rest, h => exists_fieldsOf rest h
  | .other span :: rest, h => exists_fieldsOf rest h

/-- An index signature that is written is a record. -/
theorem exists_recordOf {text : Text} : (members : List Member) →
    writeRecord members = .ok text → ∃ schema, Schema.recordOf members = .ok schema ∧
      (utilityArgumentsOfRecord members = [] → text = dialect.writeType schema)
  | [], h => by
    cases h
    exact ⟨.object [], rfl, fun _ => rfl⟩
  | .index key value reads span :: rest, h => by
    obtain ⟨first, hfirst, h⟩ := bind_eq_ok.1 h
    obtain ⟨second, hsecond, h⟩ := bind_eq_ok.1 h
    cases h
    obtain ⟨keys, hkeys, heqKey⟩ := exists_ofType key hfirst
    obtain ⟨values, hvalues, heqValue⟩ := exists_ofType value hsecond
    refine ⟨.record keys values, bind_eq_ok.2 ⟨keys, hkeys, bind_eq_ok.2 ⟨values, hvalues, rfl⟩⟩,
      fun hfree => ?_⟩
    obtain ⟨hkey, hvalue⟩ := List.append_eq_nil_iff.1 hfree
    rw [heqKey hkey, heqValue hvalue]
    rfl
  | .property ⟨head, some type⟩ :: rest, h => exists_recordOf rest h
  | .property ⟨head, none⟩ :: rest, h => exists_recordOf rest h
  | .mapped span :: rest, h => exists_recordOf rest h
  | .other span :: rest, h => exists_recordOf rest h

end

/-- Without properties nothing is written along with them. -/
theorem utilityArgumentsOfProperties_of_isRecord {members : List Member}
    (h : isRecord members = true) : utilityArgumentsOfProperties members = [] := by
  have hnone : propertiesOf members = [] := by
    rw [isRecord, Bool.and_eq_true] at h
    exact List.isEmpty_iff.1 h.1
  clear h
  induction members with
  | nil => rfl
  | cons member rest ih =>
    rw [propertiesOf, List.filterMap_cons] at hnone
    cases member with
    | property property => cases hnone
    | index | mapped | other => exact ih hnone

/-- A type is written. -/
def Written (type : TypeExpr) : Prop := ∃ text, writeType type = .ok text

/-- Types are written if each of them is. -/
theorem exists_writeTypes_of_forall {types : List TypeExpr} (h : ∀ type ∈ types, Written type) :
    ∃ texts, writeTypes types = .ok texts := by
  induction types with
  | nil => exact ⟨[], rfl⟩
  | cons type rest ih =>
    obtain ⟨text, htext⟩ := h type List.mem_cons_self
    obtain ⟨texts, htexts⟩ := ih fun other hother => h other (List.mem_cons_of_mem _ hother)
    exact ⟨text :: texts, bind_eq_ok.2 ⟨text, htext, bind_eq_ok.2 ⟨texts, htexts, rfl⟩⟩⟩

mutual

/-- A type with a schema is written if the arguments of its utility types
are. -/
theorem written_of_ofType {schema : SchemaType} : (type : TypeExpr) →
    Schema.ofType type = .ok schema → (∀ argument ∈ utilityArguments type, Written argument) →
      Written type
  | .keyword .., _, _ | .literal .., _, _ | .reference _ [] _, _, _ => ⟨_, rfl⟩
  | .reference name [item] span, h, hargs => by
    rw [Written, writeType]
    rw [Schema.ofType] at h
    by_cases hlist : name = "Array" ∨ name = "ReadonlyArray"
    · rw [if_pos hlist] at h ⊢
      rw [utilityArguments_list hlist] at hargs
      obtain ⟨schema, hitem, -⟩ := bind_eq_ok.1 h
      obtain ⟨text, htext⟩ := written_of_ofType item hitem hargs
      exact ⟨_, bind_eq_ok.2 ⟨text, htext, rfl⟩⟩
    · rw [if_neg hlist]
      split
      · next hutility =>
        rw [utilityArguments_utility hutility] at hargs
        obtain ⟨text, htext⟩ := hargs item List.mem_cons_self
        exact ⟨_, bind_eq_ok.2 ⟨text, htext, rfl⟩⟩
      · exact ⟨name, rfl⟩
  | .reference name (first :: second :: rest) span, h, hargs => by
    by_cases hrecord : name = "Record" ∧ rest = []
    · obtain ⟨rfl, rfl⟩ := hrecord
      rw [utilityArguments_record] at hargs
      obtain ⟨keys, hkeys, h⟩ := bind_eq_ok.1 h
      obtain ⟨values, hvalues, -⟩ := bind_eq_ok.1 h
      obtain ⟨hfirst, hsecond⟩ := List.forall_mem_append.1 hargs
      obtain ⟨key, hkey⟩ := written_of_ofType first hkeys hfirst
      obtain ⟨value, hvalue⟩ := written_of_ofType second hvalues hsecond
      exact ⟨_, bind_eq_ok.2 ⟨key, hkey, bind_eq_ok.2 ⟨value, hvalue, rfl⟩⟩⟩
    · rw [Written, writeType, if_neg (by simpa using hrecord)]
      split
      · next hutility =>
        rw [utilityArguments_utility hutility] at hargs
        obtain ⟨hfirst, hmore⟩ := List.forall_mem_cons.1 hargs
        obtain ⟨hsecond, hrest⟩ := List.forall_mem_cons.1 hmore
        obtain ⟨firsts, hfirst⟩ := hfirst
        obtain ⟨seconds, hsecond⟩ := hsecond
        obtain ⟨others, hothers⟩ := exists_writeTypes_of_forall hrest
        exact ⟨_, bind_eq_ok.2 ⟨firsts, hfirst, bind_eq_ok.2 ⟨seconds, hsecond,
          bind_eq_ok.2 ⟨others, hothers, rfl⟩⟩⟩⟩
      · exact ⟨name, rfl⟩
  | .array item _, h, hargs => by
    obtain ⟨schema, hitem, -⟩ := bind_eq_ok.1 h
    obtain ⟨text, htext⟩ := written_of_ofType item hitem hargs
    exact ⟨_, bind_eq_ok.2 ⟨text, htext, rfl⟩⟩
  | .tuple types _, h, hargs | .union types _, h, hargs | .intersection types _, h, hargs => by
    obtain ⟨schemas, hschemas, -⟩ := bind_eq_ok.1 h
    obtain ⟨texts, htexts⟩ := exists_writeTypes_of_ofTypes types hschemas hargs
    exact ⟨_, bind_eq_ok.2 ⟨texts, htexts, rfl⟩⟩
  | .object members span, h, hargs => by
    obtain ⟨fields, hfields, h⟩ := bind_eq_ok.1 h
    have hbody : ∀ argument ∈ utilityArgumentsOfBody members, Written argument := hargs
    have hproperties : ∀ argument ∈ utilityArgumentsOfProperties members, Written argument := by
      rw [utilityArgumentsOfBody] at hbody
      split at hbody
      · next hrecord =>
        rw [utilityArgumentsOfProperties_of_isRecord hrecord]
        exact List.forall_mem_nil _
      · exact hbody
    obtain ⟨entries, hentries⟩ := exists_writeProperties members hfields hproperties
    have hcount := length_writeProperties hentries
    obtain ⟨found, hfound, hlength, -⟩ := exists_fieldsOf members hentries
    cases hfields.symm.trans hfound
    rw [isRecord_eq (hlength.trans hcount)] at h
    have hwritten (text : Text) (hrest : (if isRecord members then writeRecord members
        else .ok (object entries)) = .ok text) : writeType (.object members span) = .ok text := by
      rw [← isRecord_eq hcount] at hrest
      exact bind_eq_ok.2 ⟨entries, hentries, hrest⟩
    rw [utilityArgumentsOfBody] at hbody
    by_cases hrecord : isRecord members = true
    · simp only [if_pos hrecord] at h hbody hwritten
      obtain ⟨text, htext⟩ := exists_writeRecord members h hbody
      exact ⟨text, hwritten text htext⟩
    · simp only [if_neg hrecord] at hwritten
      exact ⟨_, hwritten _ rfl⟩
  | .paren inner _, h, hargs => written_of_ofType inner h hargs
  | .unsupported _, h, _ => nomatch h

/-- Types with schemas are written if the arguments of their utility types
are. -/
theorem exists_writeTypes_of_ofTypes {schemas : List SchemaType} : (types : List TypeExpr) →
    Schema.ofTypes types = .ok schemas →
      (∀ argument ∈ utilityArgumentsOf types, Written argument) →
        ∃ texts, writeTypes types = .ok texts
  | [], _, _ => ⟨[], rfl⟩
  | type :: rest, h, hargs => by
    obtain ⟨schema, hschema, h⟩ := bind_eq_ok.1 h
    obtain ⟨others, hothers, -⟩ := bind_eq_ok.1 h
    obtain ⟨htype, hrest⟩ := List.forall_mem_append.1 hargs
    obtain ⟨text, htext⟩ := written_of_ofType type hschema htype
    obtain ⟨texts, htexts⟩ := exists_writeTypes_of_ofTypes rest hothers hrest
    exact ⟨text :: texts, bind_eq_ok.2 ⟨text, htext, bind_eq_ok.2 ⟨texts, htexts, rfl⟩⟩⟩

/-- Fields are written if the arguments of their utility types are. -/
theorem exists_writeProperties {fields : List Field} : (members : List Member) →
    Schema.fieldsOf members = .ok fields →
      (∀ argument ∈ utilityArgumentsOfProperties members, Written argument) →
        ∃ entries, writeProperties members = .ok entries
  | [], _, _ => ⟨[], rfl⟩
  | .property ⟨head, some type⟩ :: rest, h, hargs => by
    obtain ⟨schema, hschema, h⟩ := bind_eq_ok.1 h
    obtain ⟨others, hothers, -⟩ := bind_eq_ok.1 h
    obtain ⟨htype, hrest⟩ := List.forall_mem_append.1 hargs
    obtain ⟨text, htext⟩ := written_of_ofType type hschema htype
    obtain ⟨entries, hentries⟩ := exists_writeProperties rest hothers hrest
    exact ⟨_, bind_eq_ok.2 ⟨text, htext, bind_eq_ok.2 ⟨entries, hentries, rfl⟩⟩⟩
  | .property ⟨head, none⟩ :: rest, h, hargs => by
    obtain ⟨others, hothers, -⟩ := bind_eq_ok.1 h
    obtain ⟨entries, hentries⟩ := exists_writeProperties rest hothers hargs
    exact ⟨_, bind_eq_ok.2 ⟨entries, hentries, rfl⟩⟩
  | .index .. :: rest, h, hargs => exists_writeProperties rest h hargs
  | .mapped _ :: rest, h, hargs => exists_writeProperties rest h hargs
  | .other _ :: rest, h, hargs => exists_writeProperties rest h hargs

/-- A record is written if the arguments of its utility types are. -/
theorem exists_writeRecord {schema : SchemaType} : (members : List Member) →
    Schema.recordOf members = .ok schema →
      (∀ argument ∈ utilityArgumentsOfRecord members, Written argument) →
        ∃ text, writeRecord members = .ok text
  | [], _, _ => ⟨_, rfl⟩
  | .index key value _ _ :: _, h, hargs => by
    obtain ⟨keys, hkeys, h⟩ := bind_eq_ok.1 h
    obtain ⟨values, hvalues, -⟩ := bind_eq_ok.1 h
    obtain ⟨hkey, hvalue⟩ := List.forall_mem_append.1 hargs
    obtain ⟨first, hfirst⟩ := written_of_ofType key hkeys hkey
    obtain ⟨second, hsecond⟩ := written_of_ofType value hvalues hvalue
    exact ⟨_, bind_eq_ok.2 ⟨first, hfirst, bind_eq_ok.2 ⟨second, hsecond, rfl⟩⟩⟩
  | .property ⟨_, some _⟩ :: rest, h, hargs => exists_writeRecord rest h hargs
  | .property ⟨_, none⟩ :: rest, h, hargs => exists_writeRecord rest h hargs
  | .mapped _ :: rest, h, hargs => exists_writeRecord rest h hargs
  | .other _ :: rest, h, hargs => exists_writeRecord rest h hargs

end

/-- A body that is written has a schema. -/
theorem exists_ofMembers {members : List Member} {text : Text} (h : writeBody members = .ok text) :
    ∃ schema, Schema.ofMembers members = .ok schema ∧
      (utilityArgumentsOfBody members = [] → text = dialect.writeType schema) :=
  exists_ofType (.object members ⟨0, 0⟩) h

/-- A body that stands for no record is an object. -/
theorem exists_fields {members : List Member} {schema : SchemaType}
    (h : Schema.ofMembers members = .ok schema) (hrecord : isRecord members = false)
    {text : Text} (hwritten : writeBody members = .ok text) :
    ∃ fields, schema = .object fields := by
  obtain ⟨fields, hfields, h⟩ := bind_eq_ok.1 h
  obtain ⟨entries, hentries, -⟩ := bind_eq_ok.1 hwritten
  obtain ⟨found, hfound, hlength, -⟩ := exists_fieldsOf members hentries
  cases hfields.symm.trans hfound
  rw [isRecord_eq (hlength.trans (length_writeProperties hentries)), hrecord] at h
  cases h
  exact ⟨fields, rfl⟩

end TypeBox

end InterfaceSchema
