import InterfaceSchema.Proofs.Syntax.Signatures
import InterfaceSchema.Proofs.Text.Meaning
import InterfaceSchema.Proofs.Text.Quoting

/-!
# Quoted names as keys

The name of a property may stand between quotes. A string literal is read by
taking its quotes off and resolving its escapes; of a name the quotes are taken
off only, and its backslashes are escaped when it is written as a key. So the key
stands for the name as it is spelled, which is what the name stands for only if
there is no backslash in it.
-/

namespace InterfaceSchema

namespace Text

variable {text : Text}

/-- Resolving escapes makes no text longer. -/
theorem length_unescape_le (text : Text) : (unescape text).length ≤ text.length := by
  induction text using unescape.induct with
  | case1 => exact Nat.le_refl _
  | case2 => exact Nat.zero_le _
  | case3 c rest ih =>
    rw [unescape_escaped, List.length_cons, List.length_cons, List.length_cons]
    omega
  | case4 c rest hlast hescape ih =>
    rw [unescape.eq_4 _ _ hlast hescape, List.length_cons, List.length_cons]
    omega

/-- Exactly the texts without backslashes are read as they are. -/
theorem unescape_eq_self_iff : unescape text = text ↔ '\\' ∉ text := by
  constructor
  · intro h hmem
    obtain ⟨before, after, rfl, hbefore⟩ := List.eq_append_cons_of_mem hmem
    rw [unescape_append hbefore, List.append_cancel_left_eq] at h
    cases after with
    | nil => cases h
    | cons c rest =>
      -- two characters are read as one
      have hlength := congrArg List.length h
      have hle := length_unescape_le rest
      rw [unescape_escaped, List.length_cons, List.length_cons, List.length_cons] at hlength
      omega
  · intro h
    have hplain := unescape_append h []
    rwa [List.append_nil, unescape, List.append_nil] at hplain

/-- Quotes of one kind are taken off. -/
theorem stripQuotes_quoted {quote : Char} (hquote : quote = '\'' ∨ quote = '"') (inside : Text) :
    stripQuotes (quote :: (inside ++ [quote])) = inside := by
  have hlast : (quote :: (inside ++ [quote])).getLast? = some quote := by
    rw [← List.cons_append, List.getLast?_concat]
  rw [stripQuotes, hlast]
  dsimp only [List.head?_cons]
  rw [if_pos ⟨by simp, hquote.symm, rfl⟩, List.tail_cons, List.dropLast_concat]

end Text

/-- The key written for a quoted name stands for what is between its quotes, with
all backslashes. This is what the name stands for if there is no backslash. -/
theorem SourceFile.key_of_quoted {source : Text} {file : SourceFile}
    (h : SourceFile.read source = some file) {property : Property}
    (hproperty : property ∈ file.properties)
    (hquote : property.head.name.head? = some '\'' ∨ property.head.name.head? = some '"') :
    ∃ quote inside, (quote = '\'' ∨ quote = '"') ∧
      property.head.name = quote :: (inside ++ [quote]) ∧
      Text.readKey (Text.propertyKey property.head.key) = inside ∧
      (Text.readKey (Text.propertyKey property.head.key) = Text.unquote property.head.name ↔
        '\\' ∉ inside) := by
  obtain ⟨quote, inside, hkind, hname⟩ :=
    (SourceFile.stands_of_read h property hproperty).quoted hquote
  have hkey : Text.readKey (Text.propertyKey property.head.key) = inside := by
    rw [Text.readKey_propertyKey, PropertyHead.key, hname, Text.stripQuotes_quoted hkind]
  refine ⟨quote, inside, hkind, hname, hkey, ?_⟩
  rw [hkey, hname, Text.unquote, List.tail_cons, List.dropLast_concat, eq_comm,
    Text.unescape_eq_self_iff]

/-- The names of the properties of a source file are those of its properties. -/
theorem SourceFile.exists_property {source name : Text} {names : List Text}
    (h : (SourceFile.read source).map
      (fun file => file.properties.map fun property => property.head.name) = some names)
    (hname : name ∈ names) : ∃ file property, SourceFile.read source = some file ∧
      property ∈ file.properties ∧ property.head.name = name := by
  obtain ⟨file, hfile, rfl⟩ := Option.map_eq_some_iff.1 h
  obtain ⟨property, hproperty, hname⟩ := List.mem_map.1 hname
  exact ⟨file, property, hfile, hproperty, hname⟩

/-- A name in double quotes, in an object type, is the key between them. -/
theorem SourceFile.key_of_quoted_nested : ∃ file property,
    SourceFile.read "interface A \x7b b: \x7b \"it's\": string \x7d \x7d" = some file ∧
      property ∈ file.properties ∧ property.head.name = "\"it's\"" ∧
      Text.propertyKey property.head.key = "'it\\'s'" ∧
      Text.readKey (Text.propertyKey property.head.key) = Text.unquote property.head.name := by
  obtain ⟨file, property, hfile, hproperty, hname⟩ :=
    @SourceFile.exists_property "interface A \x7b b: \x7b \"it's\": string \x7d \x7d" "\"it's\""
      ["b".toList, "\"it's\"".toList] (by decide +kernel) (by decide)
  have hquote : property.head.name.head? = some '"' := by
    rw [hname]
    rfl
  obtain ⟨quote, inside, -, hinside, -, hiff⟩ := key_of_quoted hfile hproperty (.inr hquote)
  have hslash : '\\' ∉ inside := by
    have hnone : '\\' ∉ property.head.name := by
      rw [hname]
      decide
    rw [hinside] at hnone
    exact fun hmem => hnone (List.mem_cons_of_mem _ (List.mem_append_left _ hmem))
  refine ⟨file, property, hfile, hproperty, hname, ?_, hiff.2 hslash⟩
  rw [PropertyHead.key, hname]
  decide

/-- A quote in a name that is escaped is read with its backslash from the key
written for the name. -/
theorem SourceFile.key_ne_of_escaped : ∃ file property,
    SourceFile.read "interface A \x7b 'it\\'s': string \x7d" = some file ∧
      property ∈ file.properties ∧ property.head.name = "'it\\'s'" ∧
      Text.propertyKey property.head.key = "'it\\\\\\'s'" ∧
      Text.readKey (Text.propertyKey property.head.key) ≠ Text.unquote property.head.name := by
  obtain ⟨file, property, hfile, hproperty, hname⟩ :=
    @SourceFile.exists_property "interface A \x7b 'it\\'s': string \x7d" "'it\\'s'"
      ["'it\\'s'".toList] (by decide +kernel) (by decide)
  refine ⟨file, property, hfile, hproperty, hname, ?_, ?_⟩
  · rw [PropertyHead.key, hname]
    decide
  · rw [PropertyHead.key, hname]
    decide

end InterfaceSchema
