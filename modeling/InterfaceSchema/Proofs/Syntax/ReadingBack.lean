import InterfaceSchema.Proofs.Syntax.Written

/-!
# Lists of types are read back

A reader reads a type back if it finds the type where its pieces are written,
up to the places. Unions and intersections are read alike, from readers of
their parts, and each level of types reads back what the tighter ones do.
Every token makes room for sixteen more readers within each other.
-/

namespace InterfaceSchema

open Grammar Piece

/-- With enough depth, less the spare one, the reader finds the type again
before one of these signs. -/
def ReadsBack (reader : Nat → Setting → List Token → Option (TypeExpr × List Token)) (spare : Nat)
    (ends : List String) (type : TypeExpr) : Prop :=
  ∀ {setting : Setting} {tokens rest : List Token} {depth : Nat},
    Printed setting type.pieces tokens rest → OpensWith ends rest →
      16 * tokens.length ≤ depth + spare →
        ∃ found, reader depth setting (tokens ++ rest) = some (found, rest) ∧
          found.unplaced = type.unplaced

/-- Types lose their places one by one. -/
theorem allUnplaced_eq_map (types : List TypeExpr) :
    TypeExpr.allUnplaced types = types.map TypeExpr.unplaced := by
  induction types with
  | nil => rfl
  | cons type types ih => rw [TypeExpr.allUnplaced, ih, List.map_cons]

variable {setting : Setting} {tokens rest : List Token} {depth spare : Nat}
  {symbol : String} {ends : List String} {type : TypeExpr} {types : List TypeExpr}

/-- Another sign is not taken. -/
theorem takeSymbol_eq_none (h : OpensWith ends tokens) (hsymbol : symbol ∉ ends) :
    takeSymbol symbol tokens = none := by
  obtain ⟨token, behind, rfl⟩ := h.exists_cons
  rw [takeSymbol, h.isSymbol hsymbol]
  rfl

/-- Another sign does not stand between two types. -/
theorem takeBetween_eq_none (h : OpensWith ends tokens) (hsymbol : symbol ∉ ends) :
    takeBetween symbol setting tokens = none := by
  obtain ⟨token, behind, rfl⟩ := h.exists_cons
  rw [takeBetween, h.isSymbol hsymbol]
  rfl

/-- Where no expression goes on, the sign between two types is taken. -/
theorem takeBetween_eq_some {token : Token} (h : token.isSymbol symbol = true)
    (hconverting : setting.converting = false) :
    takeBetween symbol setting (token :: tokens) = some tokens := by
  rw [takeBetween, h, hconverting]
  rfl

/-- Readers of parts with a sign between them, and of the list of these. -/
structure ListReaders (symbol : String)
    (part whole : Nat → Setting → List Token → Option (TypeExpr × List Token))
    (further : Nat → Setting → Nat → List Token → Option (List TypeExpr × Nat × List Token))
    (wrap : List TypeExpr → Span → TypeExpr) : Prop where
  further_succ : ∀ depth setting stop tokens, further (depth + 1) setting stop tokens =
    match takeBetween symbol setting tokens with
    | some rest => do
      let (found, rest) ← part depth setting (rest.dropWhile fun token => token.isSymbol symbol)
      let (others, stop, rest) ← further depth setting found.span.stop rest
      some (found :: others, stop, rest)
    | none => some ([], stop, tokens)
  whole_succ : ∀ depth setting tokens, whole (depth + 1) setting tokens = do
    let (first, rest) ← part depth setting (tokens.dropWhile fun token => token.isSymbol symbol)
    let (others, stop, rest) ← further depth setting first.span.stop rest
    some (listOf wrap ⟨startOf tokens, stop⟩ (first :: others), rest)
  pieces : ∀ types span, (wrap types span).pieces =
    joined [blank, sign symbol, blank] (TypeExpr.allPieces types)
  unplaced : ∀ types span, (wrap types span).unplaced =
    wrap (TypeExpr.allUnplaced types) .nowhere
  sign : symbol ∈ ["|", "&"]

/-- The readers of unions. -/
theorem unionReaders :
    ListReaders "|" readIntersection readUnion readUnionParts TypeExpr.union where
  further_succ depth setting stop tokens := readUnionParts.eq_2 setting stop tokens depth
  whole_succ depth setting tokens := by rw [readUnion]
  pieces types span := rfl
  unplaced types span := rfl
  sign := by decide

/-- The readers of intersections. -/
theorem intersectionReaders : ListReaders "&" readPrefixed readIntersection
    readIntersectionParts TypeExpr.intersection where
  further_succ depth setting stop tokens := readIntersectionParts.eq_2 setting stop tokens depth
  whole_succ depth setting tokens := by rw [readIntersection]
  pieces types span := rfl
  unplaced types span := rfl
  sign := by decide

namespace ListReaders

variable {part whole : Nat → Setting → List Token → Option (TypeExpr × List Token)}
  {further : Nat → Setting → Nat → List Token → Option (List TypeExpr × Nat × List Token)}
  {wrap : List TypeExpr → Span → TypeExpr}

/-- Further types, each behind the sign, open with it. -/
theorem opens_further {tokens : List Token}
    (h : Spelled
      (types.flatMap fun part => [blank, Piece.sign symbol, blank] ++ part.pieces) tokens)
    (hrest : OpensWith ends rest) : OpensWith (symbol :: ends) (tokens ++ rest) := by
  cases types with
  | nil =>
    obtain rfl := h.eq_nil
    exact hrest.mono (List.subset_cons_self _ _)
  | cons type types => exact opens_of_spelled h List.mem_cons_self rest

/-- The further parts of a list of types are read back. -/
theorem reads_further (h : ListReaders symbol part whole further wrap) (stop : Nat)
    (hends : symbol ∉ ends) (hsubset : symbol :: ends ⊆ separators) (hspare : spare ≤ 8)
    (htypes : ∀ type ∈ types, type.Leading ∧ ReadsBack part (spare + 1) (symbol :: ends) type)
    (hwritten : Printed setting
      (types.flatMap fun part => [blank, Piece.sign symbol, blank] ++ part.pieces) tokens rest)
    (hrest : OpensWith ends rest) (hdepth : 16 * tokens.length + 1 ≤ depth) :
    ∃ found last, further depth setting stop (tokens ++ rest) = some (found, last, rest) ∧
      TypeExpr.allUnplaced found = TypeExpr.allUnplaced types := by
  induction types generalizing tokens depth stop with
  | nil =>
    obtain rfl := hwritten.spelled.eq_nil
    obtain ⟨depth, rfl⟩ := Nat.exists_eq_add_of_le' (by omega : 1 ≤ depth)
    refine ⟨[], stop, ?_, rfl⟩
    rw [h.further_succ, List.nil_append, takeBetween_eq_none hrest hends]
  | cons type types ih =>
    obtain ⟨⟨hleading, hreads⟩, htypes⟩ := List.forall_mem_cons.1 htypes
    rw [List.flatMap_cons, List.append_assoc, List.cons_append, List.cons_append,
      List.cons_append, List.nil_append] at hwritten
    obtain ⟨token, behind, rfl, hface, hbehind⟩ := hwritten.of_blank.exists_token
    obtain ⟨front, last, rfl, hfront, hlast⟩ := hbehind.of_blank.exists_append
    rw [List.length_cons, List.length_append] at hdepth
    obtain ⟨depth, rfl⟩ := Nat.exists_eq_add_of_le' (by omega : 1 ≤ depth)
    have hopens := opens_further hlast.spelled hrest
    have hbegins := hleading hfront.spelled (hopens.mono hsubset)
    have hsign : symbol ∈ ["|", "&", ",", "]", ">", "..."] :=
      List.mem_append_left [",", "]", ">", "..."] h.sign
    obtain ⟨found, hfound, hunplaced⟩ := hreads hfront hopens (by omega : _ ≤ depth + (spare + 1))
    obtain ⟨others, stop, hothers, hall⟩ :=
      ih found.span.stop htypes hlast (by omega : _ ≤ depth)
    refine ⟨found :: others, stop, ?_, ?_⟩
    · rw [h.further_succ, List.cons_append, List.append_assoc,
        takeBetween_eq_some (Token.isSymbol_of_face hface) hwritten.converting]
      dsimp only
      rw [hbegins.dropWhile hsign, hfound]
      dsimp only [Option.bind_eq_bind, Option.bind_some]
      rw [hothers]
      rfl
    · rw [TypeExpr.allUnplaced, TypeExpr.allUnplaced, hunplaced, hall]

/-- Types with the sign between them are read back as a list. -/
theorem reads_joined (h : ListReaders symbol part whole further wrap)
    (hends : symbol ∉ ends) (hsubset : symbol :: ends ⊆ separators) (hspare : spare ≤ 8)
    (htypes : ∀ type ∈ types, type.Leading ∧ ReadsBack part (spare + 1) (symbol :: ends) type)
    (hne : types ≠ [])
    (hwritten : Printed setting
      (joined [blank, Piece.sign symbol, blank] (TypeExpr.allPieces types)) tokens rest)
    (hrest : OpensWith ends rest) (hdepth : 16 * tokens.length ≤ depth + spare) :
    ∃ found span, whole depth setting (tokens ++ rest) = some (listOf wrap span found, rest) ∧
      TypeExpr.allUnplaced found = TypeExpr.allUnplaced types := by
  obtain ⟨type, types, rfl⟩ := List.exists_cons_of_ne_nil hne
  obtain ⟨⟨hleading, hreads⟩, htypes⟩ := List.forall_mem_cons.1 htypes
  rw [joined_cons] at hwritten
  obtain ⟨front, last, rfl, hfront, hlast⟩ := hwritten.exists_append
  have hfront_pos := List.length_pos_iff.2 (hleading.ne_nil hfront.spelled)
  rw [List.length_append] at hdepth
  obtain ⟨depth, rfl⟩ := Nat.exists_eq_add_of_le' (by omega : 1 ≤ depth)
  have hopens := opens_further hlast.spelled hrest
  have hbegins := hleading hfront.spelled (hopens.mono hsubset)
  have hsign : symbol ∈ ["|", "&", ",", "]", ">", "..."] :=
    List.mem_append_left [",", "]", ">", "..."] h.sign
  obtain ⟨found, hfound, hunplaced⟩ := hreads hfront hopens (by omega : _ ≤ depth + (spare + 1))
  obtain ⟨others, stop, hothers, hall⟩ :=
    h.reads_further found.span.stop hends hsubset hspare htypes hlast hrest (by omega : _ ≤ depth)
  refine ⟨found :: others, ⟨startOf (front ++ last ++ rest), stop⟩, ?_, ?_⟩
  · rw [h.whole_succ, List.append_assoc, hbegins.dropWhile hsign, hfound]
    dsimp only [Option.bind_eq_bind, Option.bind_some]
    rw [hothers]
    rfl
  · rw [TypeExpr.allUnplaced, TypeExpr.allUnplaced, hunplaced, hall]

/-- A type that is no such list is read back as itself. -/
theorem reads_single (h : ListReaders symbol part whole further wrap)
    (hends : symbol ∉ ends) (hsubset : symbol :: ends ⊆ separators) (hspare : spare ≤ 8)
    (hleading : type.Leading) (hreads : ReadsBack part (spare + 1) (symbol :: ends) type) :
    ReadsBack whole spare ends type := by
  intro setting tokens rest depth hwritten hrest hdepth
  have hjoined : joined [blank, Piece.sign symbol, blank] (TypeExpr.allPieces [type]) =
      type.pieces := (joined_cons _ type []).trans (List.append_nil _)
  rw [← hjoined] at hwritten
  obtain ⟨found, span, hfound, hall⟩ := h.reads_joined hends hsubset hspare
    (List.forall_mem_singleton.2 ⟨hleading, hreads⟩) (List.cons_ne_nil _ _) hwritten hrest hdepth
  rw [allUnplaced_eq_map, allUnplaced_eq_map, List.map_singleton] at hall
  obtain ⟨item, rfl, hitem⟩ := List.map_eq_singleton_iff.1 hall
  exact ⟨item, hfound, hitem⟩

/-- A list of at least two types is read back. -/
theorem reads_list (h : ListReaders symbol part whole further wrap)
    (hends : symbol ∉ ends) (hsubset : symbol :: ends ⊆ separators) (hspare : spare ≤ 8)
    (hlength : 2 ≤ types.length)
    (htypes : ∀ type ∈ types, type.Leading ∧ ReadsBack part (spare + 1) (symbol :: ends) type)
    (span : Span) : ReadsBack whole spare ends (wrap types span) := by
  intro setting tokens rest depth hwritten hrest hdepth
  rw [h.pieces] at hwritten
  have hne : types ≠ [] := List.ne_nil_of_length_pos (by omega)
  obtain ⟨found, place, hfound, hall⟩ :=
    h.reads_joined hends hsubset hspare htypes hne hwritten hrest hdepth
  have hcount : found.length = types.length := by
    rw [allUnplaced_eq_map, allUnplaced_eq_map] at hall
    simpa using congrArg List.length hall
  have hlist : listOf wrap place found = wrap found place := by
    match found, hcount with
    | [], hcount | [_], hcount => simp at hcount; omega
    | _ :: _ :: _, _ => rfl
  rw [hlist] at hfound
  exact ⟨_, hfound, by rw [h.unplaced, h.unplaced, hall]⟩

end ListReaders

/-- With enough depth, brackets are looked for behind the type that is found
again, before any separator. -/
def ReadsOperand (type : TypeExpr) : Prop :=
  ∀ {setting : Setting} {tokens rest : List Token} {depth : Nat},
    Printed setting type.pieces tokens rest → OpensWith separators rest →
      16 * tokens.length ≤ depth + 4 →
        ∃ left found, depth ≤ left + 1 + tokens.length ∧
          readPostfixed depth setting (tokens ++ rest) =
            readBrackets left setting (startOf (tokens ++ rest)) found rest ∧
          found.unplaced = type.unplaced

/-- What is read back by itself is an operand. -/
theorem readsOperand_of_primary (hleading : type.Leading)
    (h : ReadsBack readPrimary 5 separators type) : ReadsOperand type := by
  intro setting tokens rest depth hwritten hrest hdepth
  have hpos := List.length_pos_iff.2 (hleading.ne_nil hwritten.spelled)
  obtain ⟨depth, rfl⟩ := Nat.exists_eq_add_of_le' (by omega : 1 ≤ depth)
  obtain ⟨found, hfound, hunplaced⟩ := h hwritten hrest (by omega : _ ≤ depth + 5)
  refine ⟨depth, found, by omega, ?_, hunplaced⟩
  rw [readPostfixed, hfound]
  rfl

/-- Empty brackets make an array of what stands before them. -/
theorem readBrackets_array {start : Nat} {opening closing : Token}
    (hopening : opening.face = (.symbol, "[".toList, .none))
    (hclosing : closing.isSymbol "]" = true) :
    readBrackets (depth + 1) setting start type (opening :: closing :: rest) =
      readBrackets depth setting start (.array type ⟨start, closing.stop⟩) rest := by
  have hparts : setting.parts opening = false := by
    rw [Setting.parts, Setting.breaks, Token.endsType_of_face hopening (by decide), Bool.and_false]
    rfl
  rw [readBrackets, Token.isSymbol_of_face hopening, hparts, takeSymbol, hclosing]
  rfl

/-- No brackets are read before another sign. -/
theorem readBrackets_done {start : Nat} (h : OpensWith ends rest) (hends : "[" ∉ ends) :
    readBrackets (depth + 1) setting start type rest = some (type, rest) := by
  obtain ⟨token, behind, rfl⟩ := h.exists_cons
  rw [readBrackets, h.isSymbol hends]
  rfl

/-- An array of an operand is an operand. -/
theorem readsOperand_array (hleading : type.Leading) (h : ReadsOperand type) (span : Span) :
    ReadsOperand (.array type span) := by
  intro setting tokens rest depth hwritten hrest hdepth
  obtain ⟨front, behind, rfl, hfront, hbehind⟩ := hwritten.exists_append
  have hopens : OpensWith separators (behind ++ rest) :=
    opens_of_spelled hbehind.spelled (by decide) rest
  obtain ⟨opening, behind, rfl, hopening, hclosed⟩ := hbehind.exists_token
  obtain ⟨closing, behind, rfl, hclosing, hnone⟩ := hclosed.exists_token
  obtain rfl := hnone.spelled.eq_nil
  have hpos := List.length_pos_iff.2 (hleading.ne_nil hfront.spelled)
  rw [List.length_append, List.length_cons, List.length_singleton] at hdepth
  obtain ⟨left, found, hleft, hfound, hunplaced⟩ := h hfront hopens (by omega : _ ≤ depth + 4)
  obtain ⟨left, rfl⟩ := Nat.exists_eq_add_of_le' (by omega : 1 ≤ left)
  refine ⟨left, .array found ⟨startOf (front ++ ([opening, closing] ++ rest)), closing.stop⟩,
    ?_, ?_, ?_⟩
  · rw [List.length_append, List.length_cons, List.length_singleton]
    omega
  · rw [List.append_assoc, hfound]
    exact readBrackets_array hopening (Token.isSymbol_of_face hclosing)
  · rw [TypeExpr.unplaced, TypeExpr.unplaced, hunplaced]

/-- Where a type begins among tame tokens, no prefix is read before it. -/
theorem readPrefixed_eq (hbegins : Begins tokens) (htame : AllTame setting.source tokens) :
    readPrefixed (depth + 1) setting tokens = readPostfixed depth setting tokens := by
  obtain ⟨first, second, behind, rfl, hleads⟩ := hbegins
  have hword (word : String) (h : word ∈ ["new", "abstract", "readonly", "infer"]) :
      first.isWord word = false := hleads.word word h
  unfold readPrefixed
  dsimp only
  rw [follow_functionType rfl htame, hword "new" (by decide), hword "abstract" (by decide),
    hword "readonly" (by decide), hword "infer" (by decide), hleads.symbol "|" (by decide)]
  exact ite_self _

/-- Operands are read back without prefixes. -/
theorem ReadsOperand.prefixed (h : ReadsOperand type) (hleading : type.Leading) :
    ReadsBack readPrefixed 3 ("&" :: "|" :: closers) type := by
  intro setting tokens rest depth hwritten hrest hdepth
  have hpos := List.length_pos_iff.2 (hleading.ne_nil hwritten.spelled)
  have hopens : OpensWith separators rest := hrest.mono (List.subset_cons_self _ _)
  obtain ⟨depth, rfl⟩ := Nat.exists_eq_add_of_le' (by omega : 1 ≤ depth)
  obtain ⟨left, found, hleft, hfound, hunplaced⟩ := h hwritten hopens (by omega : _ ≤ depth + 4)
  obtain ⟨left, rfl⟩ := Nat.exists_eq_add_of_le' (by omega : 1 ≤ left)
  refine ⟨found, ?_, hunplaced⟩
  rw [readPrefixed_eq (hleading hwritten.spelled hopens) hwritten.tame, hfound,
    readBrackets_done hrest (by decide)]

/-- Types are read back as the unions they are. -/
theorem reads_type (h : ReadsBack readUnion 1 closers type) (hleading : type.Leading) :
    ReadsBack readType 0 closers type := by
  intro setting tokens rest depth hwritten hrest hdepth
  have hpos := List.length_pos_iff.2 (hleading.ne_nil hwritten.spelled)
  obtain ⟨depth, rfl⟩ := Nat.exists_eq_add_of_le' (by omega : 1 ≤ depth)
  obtain ⟨found, hfound, hunplaced⟩ := h hwritten hrest (by omega : _ ≤ depth + 1)
  refine ⟨found, ?_, hunplaced⟩
  obtain ⟨token, behind, rfl⟩ := hrest.exists_cons
  rw [readType, hfound]
  dsimp only [Option.bind_eq_bind, Option.bind_some]
  rw [hrest.isWord]
  rfl

/-- At each level that the type may stand at it is read back. -/
structure ReadAsPrinted (type : TypeExpr) : Prop where
  leading : type.Leading
  operand : type.isList = false → ReadsOperand type
  intersection : type.isUnion = false → ReadsBack readIntersection 2 ("|" :: closers) type
  type : ReadsBack readType 0 closers type

namespace ReadAsPrinted

variable {span : Span}

/-- An intersection or tighter type is read as printed. -/
theorem of_intersection (hleading : type.Leading)
    (hoperand : type.isList = false → ReadsOperand type)
    (h : ReadsBack readIntersection 2 ("|" :: closers) type) : ReadAsPrinted type where
  leading := hleading
  operand := hoperand
  intersection _ := h
  type := reads_type
    (unionReaders.reads_single (by decide) (by decide) (by decide) hleading h) hleading

/-- An operand is read as printed. -/
theorem of_operand (hleading : type.Leading) (h : ReadsOperand type) : ReadAsPrinted type :=
  of_intersection hleading (fun _ => h) (intersectionReaders.reads_single (by decide) (by decide)
    (by decide) hleading (h.prefixed hleading))

/-- An intersection is read as printed if its parts are operands. -/
theorem intersection_of (hlength : 2 ≤ types.length)
    (hleading : (TypeExpr.intersection types span).Leading)
    (hparts : ∀ type ∈ types, type.isList = false)
    (htypes : ∀ type ∈ types, ReadAsPrinted type) :
    ReadAsPrinted (.intersection types span) :=
  of_intersection hleading nofun (intersectionReaders.reads_list (by decide) (by decide) (by decide)
    hlength (fun type h => ⟨(htypes type h).leading,
      ReadsOperand.prefixed ((htypes type h).operand (hparts type h)) (htypes type h).leading⟩)
    span)

/-- A union is read as printed if its parts are no unions. -/
theorem union_of (hlength : 2 ≤ types.length) (hleading : (TypeExpr.union types span).Leading)
    (hparts : ∀ type ∈ types, type.isUnion = false)
    (htypes : ∀ type ∈ types, ReadAsPrinted type) : ReadAsPrinted (.union types span) where
  leading := hleading
  operand := nofun
  intersection := nofun
  type := reads_type (unionReaders.reads_list (by decide) (by decide) (by decide) hlength
    (fun type h => ⟨(htypes type h).leading, (htypes type h).intersection (hparts type h)⟩) span)
      hleading

/-- An array of an operand is read as printed. -/
theorem array_of (hleading : (TypeExpr.array type span).Leading) (hitem : type.isList = false)
    (h : ReadAsPrinted type) : ReadAsPrinted (.array type span) :=
  of_operand hleading (readsOperand_array h.leading (h.operand hitem) span)

end ReadAsPrinted

end InterfaceSchema
