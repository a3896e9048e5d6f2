import InterfaceSchema.Dialect.Yup
import InterfaceSchema.Proofs.Dialect.Upholding
import InterfaceSchema.Proofs.Text.Nested

/-!
# Unions of literals

Yup has a schema for sets of literals, but none for unions. Whether a part of a
union is such a set is read off what was written for the part, by how it starts
and how it ends. No type but a literal or a union of literals is written like
that: most start in another way, and the call that joins the parts of an
intersection closes two parentheses at its end, between which something stands.
-/

namespace InterfaceSchema

namespace SchemaType

/-- A type in which every union has a part, every intersection has two, and
every name is made up of identifiers. -/
inductive Joined : SchemaType → Prop
  | keyword (keyword : Keyword) : Joined (.keyword keyword)
  | date : Joined .date
  | literal (literal : Literal) : Joined (.literal literal)
  | reference {name : Text} : name.IsDotted → Joined (.reference name)
  | array {item : SchemaType} : Joined item → Joined (.array item)
  | tuple {items : List SchemaType} : (∀ item ∈ items, Joined item) → Joined (.tuple items)
  | union {parts : List SchemaType} : parts ≠ [] → (∀ part ∈ parts, Joined part) →
    Joined (.union parts)
  | intersection {parts : List SchemaType} : 2 ≤ parts.length → (∀ part ∈ parts, Joined part) →
    Joined (.intersection parts)
  | object {fields : List Field} : (∀ field ∈ fields, Joined field.type) → Joined (.object fields)
  | record {key value : SchemaType} : Joined key → Joined value → Joined (.record key value)

mutual

/-- What a union is a choice of: its parts, and for parts that are unions
themselves their variants. -/
def variants : SchemaType → List SchemaType
  | .union parts => allVariants parts
  | type => [type]

/-- The variants of types, in order. -/
def allVariants : List SchemaType → List SchemaType
  | [] => []
  | part :: rest => variants part ++ allVariants rest

end

/-- The literal that a type is, if it is one. -/
def literal? : SchemaType → Option Literal
  | .literal value => some value
  | _ => none

/-- The variants of types are those of each of them. -/
theorem allVariants_eq (parts : List SchemaType) : allVariants parts = parts.flatMap variants := by
  induction parts with
  | nil => rfl
  | cons part rest ih => rw [allVariants, ih, List.flatMap_cons]

/-- A union without empty ones has a variant. -/
theorem Joined.variants_ne_nil {type : SchemaType} (h : type.Joined) : type.variants ≠ [] := by
  induction h with
  | union hne _ ih =>
    obtain ⟨part, rest, rfl⟩ := List.exists_cons_of_ne_nil hne
    rw [variants, allVariants]
    exact List.append_ne_nil_of_left_ne_nil (ih part List.mem_cons_self) _
  | _ => exact List.cons_ne_nil _ _

/-- The literals of literals. -/
theorem mapM_literal?_literal (literals : List Literal) :
    (literals.map SchemaType.literal).mapM literal? = some literals := by
  induction literals with
  | nil => rfl
  | cons literal rest ih =>
    rw [List.map_cons, List.mapM_cons, ih]
    rfl

/-- Types of which one is no literal. -/
theorem mapM_literal?_eq_none {types : List SchemaType} {type : SchemaType} (hmem : type ∈ types)
    (h : ∀ literal, type ≠ .literal literal) : types.mapM literal? = none := by
  induction types with
  | nil => cases hmem
  | cons first rest ih =>
    rcases List.mem_cons.1 hmem with rfl | hrest
    · have hnone : type.literal? = none := by
        cases type with
        | literal literal => exact absurd rfl (h literal)
        | _ => rfl
      rw [List.mapM_cons, hnone]
      rfl
    · rw [List.mapM_cons, ih hrest]
      cases first.literal? <;> rfl

end SchemaType

section Options

variable {α β γ : Type}

/-- Each result of an operation that succeeds on all parts is the result for a
part. -/
theorem exists_of_mem_mapM {f : α → Option β} {parts : List α} {results : List β}
    (h : parts.mapM f = some results) :
    ∀ result ∈ results, ∃ part ∈ parts, f part = some result := by
  induction parts generalizing results with
  | nil =>
    cases h
    exact fun result hresult => absurd hresult List.not_mem_nil
  | cons part rest ih =>
    simp only [List.mapM_cons, Option.pure_def, Option.bind_eq_bind, Option.bind_eq_some_iff,
      Option.some.injEq] at h
    obtain ⟨first, hfirst, others, hothers, rfl⟩ := h
    intro result hresult
    rcases List.mem_cons.1 hresult with rfl | hresult
    · exact ⟨part, List.mem_cons_self, hfirst⟩
    · obtain ⟨other, hother, hfound⟩ := ih hothers result hresult
      exact ⟨other, List.mem_cons_of_mem _ hother, hfound⟩

/-- An operation that may fail, on the lists made of items: it succeeds on all of
them one after another if it does so for each item. -/
theorem mapM_flatMap (f : β → Option γ) (g : α → List β) (items : List α) :
    (items.flatMap g).mapM f = (items.mapM fun item => (g item).mapM f).map List.flatten := by
  induction items with
  | nil => rfl
  | cons item rest ih =>
    rw [List.flatMap_cons, List.mapM_append, ih, List.mapM_cons]
    cases (g item).mapM f with
    | none => rfl
    | some first =>
      cases rest.mapM fun item => (g item).mapM f <;> rfl

/-- An operation that may fail, followed by one that does not. -/
theorem mapM_eq_map_mapM {f : α → Option γ} {g : α → Option β} {result : β → γ} {items : List α}
    (h : ∀ item ∈ items, f item = (g item).map result) :
    items.mapM f = (items.mapM g).map (List.map result) := by
  induction items with
  | nil => rfl
  | cons item rest ih =>
    rw [List.mapM_cons, List.mapM_cons, h item List.mem_cons_self,
      ih fun other hother => h other (List.mem_cons_of_mem _ hother)]
    cases g item with
    | none => rfl
    | some found => cases rest.mapM g <;> rfl

/-- There are results if there are items. -/
theorem ne_nil_of_mapM {f : α → Option β} {items : List α} {results : List β}
    (h : items.mapM f = some results) (hitems : items ≠ []) : results ≠ [] := by
  obtain ⟨item, rest, rfl⟩ := List.exists_cons_of_ne_nil hitems
  simp only [List.mapM_cons, Option.pure_def, Option.bind_eq_bind, Option.bind_eq_some_iff,
    Option.some.injEq] at h
  obtain ⟨first, -, others, -, rfl⟩ := h
  exact List.cons_ne_nil _ _

end Options

namespace Text

/-- Joined parts that are joined are all parts joined. -/
theorem joinWith_map_joinWith (separator : Text) {lists : List (List Text)}
    (h : ∀ list ∈ lists, list ≠ []) :
    joinWith separator (lists.map (joinWith separator)) = joinWith separator lists.flatten := by
  induction lists with
  | nil => rfl
  | cons list rest ih =>
    have hlist := h list List.mem_cons_self
    have hrest : ∀ other ∈ rest, other ≠ [] := fun other hother =>
      h other (List.mem_cons_of_mem _ hother)
    cases rest with
    | nil => simp
    | cons other more =>
      have hne : (other :: more).flatten ≠ [] := by
        rw [List.flatten_cons]
        exact List.append_ne_nil_of_left_ne_nil (hrest other List.mem_cons_self) _
      rw [List.flatten_cons, joinWith_append separator hlist hne, ← ih hrest, List.map_cons,
        List.map_cons, joinWith_cons_cons]

end Text

/-- A block starts with its opening line. -/
theorem Layout.prefix_block {opening : Text} (h : Inline opening) (entries : List Text)
    (closing : Text) : opening <+: block opening entries closing := by
  rw [block]
  split
  · exact List.prefix_append _ _
  · simp only [Writer.foldl_lines_eq, Writer.within_allLines_text, Writer.new, Writer.marginLine,
      Writer.margin, List.nil_append, List.append_assoc]
    exact (@trimNewlines_inline _ h [] _).symm ▸ List.prefix_append _ _

namespace Dialect

open SchemaType

/-- A union in `yup` code is the set of the values of its parts, if each of them
is a set, and any value otherwise. -/
theorem yup_union_cases (parts : List Text) :
    (∃ values, parts.mapM yupSetValues? = some values ∧
      yup.union parts = yupSet (commas values)) ∨ yup.union parts = "y.mixed()" := by
  unfold yup
  dsimp only
  cases parts.mapM yupSetValues? with
  | some values => exact .inl ⟨values, rfl, rfl⟩
  | none => exact .inr rfl

/-- The text ends with another character than an opening parenthesis. -/
def Closed (text : Text) : Prop := text.getLast?.any (fun c => c != '(') = true

/-- A name is closed. -/
theorem closed_dotted {name : Text} (hname : name.IsDotted) : Closed name := by
  obtain ⟨last, hlast⟩ := Option.isSome_iff_exists.1 (List.getLast?_isSome.2 hname.ne_nil)
  have hnamed := Text.startsName_of_isDotted hname (List.mem_of_getLast? hlast)
  rw [Closed, hlast, Option.any_some, bne_iff_ne]
  rintro rfl
  exact absurd hnamed (by decide)

/-- A chain of two expressions or more ends with a joint. -/
theorem exists_chain (join : Text → Text → Text) {parts : List Text} (h : 2 ≤ parts.length) :
    ∃ left right, right ∈ parts ∧ chain join parts = join left right := by
  obtain ⟨front, last, rfl⟩ : ∃ front last, parts = front ++ [last] :=
    ⟨parts.dropLast, parts.getLast (by rintro rfl; simp at h),
      (List.dropLast_append_getLast _).symm⟩
  cases front with
  | nil => simp at h
  | cons first rest =>
    refine ⟨rest.foldl join first, last, by simp, ?_⟩
    rw [List.cons_append, chain, List.foldl_append]
    rfl

/-- What is written for an intersection ends with one of its parts, in the call that
joins it to the others. -/
theorem exists_joint {parts : List SchemaType} (h : 2 ≤ parts.length) :
    ∃ left, ∃ part ∈ parts,
      writeType yup (.intersection parts) = left ++ ".concat(" ++ writeType yup part ++ ")" := by
  rw [← List.length_map (writeType yup)] at h
  obtain ⟨left, right, hright, hchain⟩ :=
    exists_chain (fun left right => left ++ ".concat(" ++ right ++ ")") h
  obtain ⟨part, hpart, rfl⟩ := List.mem_map.1 hright
  refine ⟨left, part, hpart, ?_⟩
  rw [writeType, writeTypes_eq]
  exact hchain

/-- What is written for a type is closed. -/
theorem closed_writeType {type : SchemaType} (h : type.Joined) : Closed (writeType yup type) := by
  cases h with
  | keyword keyword => cases keyword <;> rfl
  | date | record => rfl
  | literal literal => exact any_getLast?_append _ (show yupSetEnd.getLast?.any _ = true from rfl)
  | reference hname => exact closed_dotted hname
  | array =>
    exact any_getLast?_append _ (show (").required()" : Text).getLast?.any _ = true from rfl)
  | tuple =>
    exact any_getLast?_append _ (show ("]).required()" : Text).getLast?.any _ = true from rfl)
  | union =>
    rw [writeType]
    rcases yup_union_cases (writeTypes yup _) with ⟨values, _, hunion⟩ | hunion
    · rw [hunion]
      exact any_getLast?_append _ rfl
    · rw [hunion]
      rfl
  | intersection hlength _ =>
    obtain ⟨left, part, -, hjoint⟩ := exists_joint hlength
    rw [hjoint]
    exact any_getLast?_append _ rfl
  | object => exact any_getLast?_append _ (show yupRequired.getLast?.any _ = true from rfl)

/-- The values of a set of literals are found in it. -/
theorem yupSetValues?_yupSet (values : Text) : yupSetValues? (yupSet values) = some values := by
  have hstart : Text.afterStart? yupSetStart (yupSet values) = some (values ++ yupSetEnd) := by
    rw [Text.afterStart?, yupSet, List.append_assoc,
      if_pos (List.isPrefixOf_iff_prefix.2 (List.prefix_append _ _)), List.drop_left]
  rw [yupSetValues?, hstart, Option.bind_some, Text.beforeEnd?,
    if_pos (List.isSuffixOf_iff_suffix.2 (List.suffix_append _ _)), List.length_append,
    Nat.add_sub_cancel, List.take_left]

/-- No values are found in what starts in another way than a set. -/
theorem yupSetValues?_of_start {schema : Text} (h : yupSetStart.isPrefixOf schema = false) :
    yupSetValues? schema = none := by
  rw [yupSetValues?, Text.afterStart?, if_neg (ne_true_of_eq_false h), Option.bind_none]

/-- No values are found in what ends in another way than a set. -/
theorem yupSetValues?_of_end {schema : Text} (h : ¬yupSetEnd <:+ schema) :
    yupSetValues? schema = none := by
  rw [yupSetValues?, Text.afterStart?]
  split
  · rw [Option.bind_some, Text.beforeEnd?, if_neg]
    exact fun hsuffix =>
      h ((List.isSuffixOf_iff_suffix.1 hsuffix).trans (List.drop_suffix _ _))
  · rfl

/-- A union in `yup` code is the set of the values found in its parts, if each of
them is a set, and any value otherwise. -/
theorem yup_union_eq (parts : List Text) : yup.union parts =
    (((parts.mapM yupSetValues?).map commas).map yupSet).getD "y.mixed()" := by
  unfold yup
  dsimp only
  cases parts.mapM yupSetValues? <;> rfl

/-- The values found in a union are those found in its parts. -/
theorem yupSetValues?_union (parts : List Text) :
    yupSetValues? (yup.union parts) = (parts.mapM yupSetValues?).map commas := by
  rw [yup_union_eq]
  cases parts.mapM yupSetValues? with
  | some values => exact yupSetValues?_yupSet _
  | none => rfl

/-- No values are found in two joined parts: parentheses with something between
them end the call. -/
theorem yupSetValues?_joint (left : Text) {right : Text} (h : Closed right) :
    yupSetValues? (left ++ ".concat(" ++ right ++ ")") = none := by
  refine yupSetValues?_of_end fun hsuffix => ?_
  obtain ⟨before, hbefore⟩ := hsuffix
  have hset : (before ++ yupSetEnd).dropLast.getLast? = some '(' := by
    rw [List.dropLast_append_of_ne_nil (show yupSetEnd ≠ [] by decide), List.getLast?_append]
    rfl
  have hjoint : (left ++ ".concat(" ++ right ++ ")").dropLast = left ++ ".concat(" ++ right :=
    List.dropLast_concat
  have hclosed : Closed (left ++ ".concat(" ++ right) := any_getLast?_append _ h
  rw [← hjoint, ← hbefore, Closed, hset] at hclosed
  cases hclosed

/-- The values found in what is written for a type are those of its variants, if
all of them are literals. -/
theorem yupSetValues?_writeType {type : SchemaType} (h : type.Joined) :
    yupSetValues? (writeType yup type) =
      (type.variants.mapM literal?).map fun literals => commas (literals.map literalValue) := by
  induction h with
  | keyword keyword => cases keyword <;> rfl
  | date | record => rfl
  | literal literal =>
    rw [writeType, show (SchemaType.literal literal).variants = [literal].map .literal from rfl,
      mapM_literal?_literal]
    refine (yupSetValues?_yupSet (literalValue literal)).trans ?_
    rw [Option.map_some, List.map_singleton, commas, Text.joinWith_singleton]
  | reference hname =>
    rw [writeType]
    refine yupSetValues?_of_start (eq_false_of_ne_true fun hstart => ?_)
    have hparenthesis := (List.isPrefixOf_iff_prefix.1 hstart).subset
      (show '(' ∈ yupSetStart by decide)
    exact absurd (Text.startsName_of_isDotted hname hparenthesis) (by decide)
  | array | tuple => exact yupSetValues?_of_start rfl
  | object =>
    rw [writeType]
    refine yupSetValues?_of_start ?_
    have hopening : Layout.Inline ("y.object(\x7b" : Text) := ⟨by decide, by decide⟩
    obtain ⟨rest, hrest⟩ := Layout.prefix_block hopening
      (entries (fun field => if field.optional then yupOptional field.value else field.value)
        (writeFields yup _)) "\x7d)"
    change yupSetStart.isPrefixOf (Layout.block _ _ _ ++ yupRequired) = false
    rw [← hrest]
    rfl
  | @intersection parts hlength hparts _ =>
    obtain ⟨left, part, hpart, hjoint⟩ := exists_joint hlength
    rw [hjoint]
    exact yupSetValues?_joint left (closed_writeType (hparts part hpart))
  | @union parts _ hparts ih =>
    rw [writeType, yupSetValues?_union, writeTypes_eq, List.mapM_map, variants, allVariants_eq,
      mapM_flatMap, mapM_eq_map_mapM (f := yupSetValues? ∘ writeType yup) ih, Option.map_map,
      Option.map_map]
    refine Option.map_congr fun lists hlists => ?_
    have hne : ∀ list ∈ lists.map (List.map literalValue), list ≠ [] := by
      refine List.forall_mem_map.2 fun list hlist => ?_
      obtain ⟨part, hpart, hfound⟩ := exists_of_mem_mapM hlists list hlist
      rw [Ne, List.map_eq_nil_iff]
      exact ne_nil_of_mapM hfound (hparts part hpart).variants_ne_nil
    have hjoined := Text.joinWith_map_joinWith ", " hne
    rw [List.map_map, ← List.map_flatten] at hjoined
    exact hjoined

/-- A union is written as the set of the values of its variants, in order, if all
of them are literals, and as any value if one of them is something else. -/
theorem writeType_yup_union {parts : List SchemaType} (h : (SchemaType.union parts).Joined) :
    (∀ literals : List Literal,
      (SchemaType.union parts).variants = literals.map SchemaType.literal →
        writeType yup (.union parts) =
          "y.mixed().oneOf([" ++ Text.joinWith ", " (literals.map literalValue) ++
            "]).required()") ∧
    ((∃ variant ∈ (SchemaType.union parts).variants, ∀ literal, variant ≠ .literal literal) →
      writeType yup (.union parts) = "y.mixed()") := by
  have hvalues := yupSetValues?_writeType h
  rw [writeType, yupSetValues?_union] at hvalues
  rw [writeType, yup_union_eq, hvalues]
  constructor
  · rintro literals hliterals
    rw [hliterals, mapM_literal?_literal]
    rfl
  · rintro ⟨variant, hmem, hvariant⟩
    rw [mapM_literal?_eq_none hmem hvariant]
    rfl

/-- A text like the end of a set is a value as any other one, in nested unions,
too; an intersection with an object is no literal. -/
theorem writeType_yup_union_nested :
    writeType yup (.union [.literal (.string "]).required()"),
        .union [.literal (.number "1"), .literal (.boolean true)]]) =
      "y.mixed().oneOf([']).required()', 1, true]).required()" ∧
    writeType yup (.union [.literal (.string "a"),
        .intersection [.reference "A", .object [⟨"b", .keyword .null, true, false⟩]]]) =
      "y.mixed()" := by
  constructor
  · have hjoined : (SchemaType.union [.literal (.string "]).required()"),
        .union [.literal (.number "1"), .literal (.boolean true)]]).Joined := by
      refine .union (List.cons_ne_nil _ _) ?_
      simp only [List.forall_mem_cons, List.not_mem_nil, false_imp_iff, implies_true, and_true]
      refine ⟨.literal _, .union (List.cons_ne_nil _ _) ?_⟩
      simp only [List.forall_mem_cons, List.not_mem_nil, false_imp_iff, implies_true, and_true]
      exact ⟨.literal _, .literal _⟩
    exact (writeType_yup_union hjoined).1
      [.string "]).required()", .number "1", .boolean true] rfl
  · have hjoined : (SchemaType.union [.literal (.string "a"),
        .intersection [.reference "A", .object [⟨"b", .keyword .null, true, false⟩]]]).Joined := by
      refine .union (List.cons_ne_nil _ _) ?_
      simp only [List.forall_mem_cons, List.not_mem_nil, false_imp_iff, implies_true, and_true]
      refine ⟨.literal _, .intersection (le_refl _) ?_⟩
      simp only [List.forall_mem_cons, List.not_mem_nil, false_imp_iff, implies_true, and_true]
      refine ⟨.reference (Text.isDotted_of_isIdentifier (by decide)), .object ?_⟩
      simp only [List.forall_mem_cons, List.not_mem_nil, false_imp_iff, implies_true, and_true]
      exact .keyword _
    exact (writeType_yup_union hjoined).2
      ⟨_, List.mem_cons_of_mem _ List.mem_cons_self, fun _ heq => by cases heq⟩

end Dialect

end InterfaceSchema
