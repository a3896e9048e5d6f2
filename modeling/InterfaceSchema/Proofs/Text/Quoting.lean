import InterfaceSchema.Proofs.Fixup.Scanning
import InterfaceSchema.Proofs.Text.Names
import InterfaceSchema.Proofs.Text.Replacement

/-!
# Quoted text is read back

Text is quoted by putting backslashes before its backslashes, and then before its
single quotes. Reading a literal undoes this, reading a property key undoes the
choice between a bare key and a quoted one, and a scan of code that comes to a
literal leaves it at the quote that closes it.
-/

namespace InterfaceSchema

namespace Text

/-- The name that a property key stands for: what is between its quotes if it
starts with one, and the key as it stands otherwise. -/
def readKey (key : Text) : Text :=
  if key.head? = some '\'' ∨ key.head? = some '"' then unquote key else key

/-- Replacing one character goes character by character. -/
theorem replaceAll_singleton (c : Char) (new text : Text) :
    replaceAll [c] new text = text.flatMap fun d => if d = c then new else [d] := by
  induction text with
  | nil => rfl
  | cons d rest ih =>
    rw [List.flatMap_cons]
    by_cases hd : d = c
    · subst hd
      have hlead := @replaceAll_lead [d] new (List.cons_ne_nil d []) rest
      rw [if_pos rfl, ← ih]
      exact hlead
    · have hnone : ¬[c] <+: d :: rest := fun h => hd (List.cons_prefix_cons.1 h).1.symm
      rw [if_neg hd, replaceAll_cons hnone, ih]
      rfl

/-- Escaping goes character by character. -/
theorem escape_eq_flatMap (text : Text) :
    escape text = text.flatMap fun c => if c = '\\' ∨ c = '\'' then ['\\', c] else [c] := by
  induction text with
  | nil => rfl
  | cons c rest ih =>
    rw [escape, List.flatMap_cons, ih]
    split <;> rfl

/-- Backslashes are doubled first, and quotes get a backslash of their own
then. -/
theorem escape_eq_replaceAll (text : Text) :
    escape text = replaceAll ['\''] ['\\', '\''] (replaceAll ['\\'] ['\\', '\\'] text) := by
  rw [escape_eq_flatMap, replaceAll_singleton, replaceAll_singleton, List.flatMap_assoc]
  refine List.flatMap_congr fun c _ => ?_
  by_cases hslash : c = '\\'
  · subst hslash
    rfl
  by_cases hquote : c = '\''
  · subst hquote
    rfl
  · simp [hslash, hquote]

/-- An identifier does not start with a quote. -/
theorem readKey_of_isIdentifier {name : Text} (h : isIdentifier name = true) :
    readKey name = name := by
  cases name with
  | nil => rfl
  | cons c rest =>
    have hnamed := startsName_of_isDotted (isDotted_of_isIdentifier h) (List.mem_cons_self (a := c))
    have hquote : ¬((c :: rest).head? = some '\'' ∨ (c :: rest).head? = some '"') := by
      rintro (hc | hc) <;> cases hc <;> cases hnamed
    rw [readKey, if_neg hquote]

/-- A property key stands for the name it is written for. -/
theorem readKey_propertyKey (name : Text) : readKey (propertyKey name) = name := by
  rw [propertyKey]
  split
  · next hidentifier => exact readKey_of_isIdentifier hidentifier
  · have hquoted : (quote name).head? = some '\'' := rfl
    rw [readKey, if_pos (.inl hquoted), unquote_quote]

/-- Different names have different keys. -/
theorem propertyKey_injective : Function.Injective propertyKey :=
  Function.LeftInverse.injective readKey_propertyKey

end Text

namespace Calls

/-- What a scan goes through until it stands outside of strings, and what
follows. -/
def untilCode : Place → Text → Option (Text × Text)
  | _, [] => none
  | place, c :: rest =>
    match place.next c with
    | .code _ => some ([c], rest)
    | inside => (untilCode inside rest).map fun found => (c :: found.1, found.2)

/-- Pieces with a text before the first of them. -/
def behind (front : Text) : List Text → List Text
  | [] => [front]
  | piece :: more => (front ++ piece) :: more

variable {place place' : Place} {text : Text} {depth : Nat}

/-- What a scan goes through changes the first piece behind it only. -/
theorem pieces_append (h : through place text = some place') (rest : Text) :
    pieces place (text ++ rest) =
      (pieces place' rest).map fun found => (behind text found.1, found.2) := by
  cases hrest : pieces place' rest with
  | some found =>
    obtain ⟨list, after⟩ := found
    obtain ⟨piece, more, rfl⟩ := List.exists_cons_of_ne_nil (eq_of_pieces hrest).1
    exact pieces_through h hrest
  | none =>
    induction text generalizing place with
    | nil =>
      cases h
      exact hrest
    | cons c text ih =>
      rw [through] at h
      split at h
      · cases h
      · next hopen =>
        have hparen : ¬(place = .code 0 ∧ c = ')') := fun hc => hopen ⟨hc.1, .inl hc.2⟩
        have hcomma : ¬(place = .code 0 ∧ c = ',') := fun hc => hopen ⟨hc.1, by simp [hc.2]⟩
        rw [List.cons_append, pieces, if_neg hparen, if_neg hcomma, ih h]
        rfl

/-- A scan that stands in a literal leaves it at its closing quote. -/
theorem untilCode_escape (value after : Text) :
    untilCode (.quoted '\'' depth) (Text.escape value ++ '\'' :: after) =
      some (Text.escape value ++ ['\''], after) := by
  induction value with
  | nil => rfl
  | cons c rest ih =>
    rw [Text.escape]
    split
    · have hslash : Place.next (.quoted '\'' depth) '\\' = .escaped '\'' depth := rfl
      have hescaped : Place.next (.escaped '\'' depth) c = .quoted '\'' depth := rfl
      rw [List.cons_append, List.cons_append, untilCode, hslash]
      dsimp only
      rw [untilCode, hescaped]
      dsimp only
      rw [ih]
      rfl
    · next hc =>
      obtain ⟨hslash, hquote⟩ := not_or.1 hc
      have hplain : Place.next (.quoted '\'' depth) c = .quoted '\'' depth := by
        rw [Place.next, if_neg hquote, if_neg hslash]
      rw [List.cons_append, untilCode, hplain]
      dsimp only
      rw [ih]
      rfl

/-- A scan that comes to a literal leaves it at its closing quote. -/
theorem untilCode_quote (value after : Text) :
    untilCode (.code depth) (Text.quote value ++ after) = some (Text.quote value, after) := by
  have hopen : Place.next (.code depth) '\'' = .quoted '\'' depth := rfl
  have hquote : Text.quote value ++ after = '\'' :: (Text.escape value ++ '\'' :: after) := by
    rw [Text.quote, List.cons_append, List.append_assoc]
    rfl
  rw [hquote, untilCode, hopen]
  dsimp only
  rw [untilCode_escape]
  rfl

end Calls

/-- Quoted text is read back, property keys are read back and told apart, and a
scan of arguments that comes to quoted text goes on right behind it. -/
theorem quoted_read_back (value after : Text) (depth : Nat) :
    Text.unquote (Text.quote value) = value ∧
      Text.readKey (Text.propertyKey value) = value ∧ Function.Injective Text.propertyKey ∧
      Calls.untilCode (.code depth) (Text.quote value ++ after) = some (Text.quote value, after) ∧
      Calls.pieces (.code depth) (Text.quote value ++ after) =
        (Calls.pieces (.code depth) after).map fun found =>
          (Calls.behind (Text.quote value) found.1, found.2) :=
  ⟨Text.unquote_quote value, Text.readKey_propertyKey value, Text.propertyKey_injective,
    Calls.untilCode_quote value after, Calls.pieces_append (Calls.through_quote value depth) after⟩

end InterfaceSchema
