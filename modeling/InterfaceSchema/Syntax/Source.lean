import InterfaceSchema.Syntax.Grammar

/-!
# Reading source files

A source file is a list of statements. Interfaces and aliases are seen behind
`export`, `export default` and `declare`; such a statement spans all of these
words and a documentation comment right before them. For other exported
declarations the span is that of the declaration alone. A source that is not
well formed is refused as a whole.
-/

namespace InterfaceSchema

namespace Grammar

/-- The type parameters, if there are any: their span and what follows. -/
def readParameterSpan (depth : Nat) (setting : Setting) (tokens : List Token) :
    Option (Option Span × List Token) :=
  match takeSymbol "<" tokens with
  | some (opening, _) => do
    let reach ← follow depth setting (.part .typeParameters) (Reach.before tokens)
    some (some ⟨opening.start, reach.stop⟩, reach.tokens)
  | none => some (none, tokens)

/-- The types an interface extends. -/
def readBases : Nat → Setting → List Token → Option (List TypeExpr × List Token)
  | 0, _, _ => none
  | depth + 1, setting, tokens => do
    let (base, rest) ← readNamed depth setting tokens
    match takeSymbol "," rest with
    | some (_, rest) => do
      let (bases, rest) ← readBases depth setting rest
      some (base :: bases, rest)
    | none => some ([base], rest)

/-- An interface from its keyword on; its statement starts at `start`. -/
def readInterface (depth : Nat) (setting : Setting) (exported : Bool) (start : Nat)
    (tokens : List Token) : Option (InterfaceDecl × List Token) :=
  match tokens with
  | word :: name :: rest =>
    if word.isWord "interface" && name.kind == .word then do
      let (parameters, rest) ← readParameterSpan depth setting rest
      let (bases, rest) ← match rest with
        | word :: more =>
          if word.isWord "extends" then readBases depth setting more else some ([], rest)
        | [] => some ([], rest)
      let (_, rest) ← takeSymbol "\x7b" rest
      let (members, closing, rest) ← readBody depth setting.lines rest
      some (⟨name.text, name.span, exported, parameters, bases, members, ⟨start, closing.stop⟩⟩, rest)
    else none
  | _ => none

/-- An alias from its keyword on; its statement starts at `start`. -/
def readAlias (depth : Nat) (setting : Setting) (exported : Bool) (start : Nat)
    (tokens : List Token) : Option (AliasDecl × List Token) :=
  match tokens with
  | word :: name :: rest =>
    if word.isWord "type" && name.kind == .word && !name.endsType then do
      let (parameters, rest) ← readParameterSpan depth setting rest
      let (_, rest) ← takeSymbol "=" rest
      let (type, rest) ← readType depth setting rest
      let reach ← Reach.endStatement ⟨type.span.stop, rest, false⟩
      some
        (⟨name.text, name.span, exported, parameters, type, ⟨start, reach.stop⟩⟩, reach.tokens)
    else none
  | _ => none

/-- An interface or alias; its statement starts at `start`. -/
def readDeclared (depth : Nat) (setting : Setting) (exported : Bool) (start : Nat)
    (tokens : List Token) : Option (Item × List Token) :=
  match readInterface depth setting exported start tokens with
  | some (decl, rest) => some (.interfaceItem decl, rest)
  | none =>
    (readAlias depth setting exported start tokens).map fun (decl, rest) => (.aliasItem decl, rest)

/-- A part of the grammar as a statement that is not read further. -/
def readOther (depth : Nat) (setting : Setting) (part : Part) (start : Nat) (tokens : List Token) :
    Option (Item × List Token) := do
  let reach ← follow depth setting (.part part) (Reach.before tokens)
  some (.otherItem ⟨start, reach.stop⟩, reach.tokens)

/-- A declaration, or any other statement that the given part of the grammar
covers; an interface or alias starts at `start`. -/
def readDeclaration (depth : Nat) (setting : Setting) (exported : Bool) (start : Nat) (part : Part)
    (tokens : List Token) : Option (Item × List Token) :=
  let bare := match tokens with
    | word :: next :: rest =>
      if word.isWord "declare" && !next.endsType then next :: rest else tokens
    | _ => tokens
  match readDeclared depth setting exported start bare with
  | some found => some found
  | none => readOther depth setting part (startOf tokens) tokens

/-- What follows `export`. The statement starts at `start`, or at
`documented` if it declares an interface or alias. -/
def readExported (depth : Nat) (setting : Setting) (start documented : Nat) (whole : List Token)
    (tokens : List Token) : Option (Item × List Token) :=
  let declares (tokens : List Token) : Bool :=
    (follow depth setting Rules.startsDeclaration (Reach.before tokens)).isSome
  if declares tokens then readDeclaration depth setting true documented .declaration tokens
  else
    match tokens with
    | word :: rest =>
      if word.isWord "default" && declares rest then
        readDeclaration depth setting true documented .declaration rest
      else readOther depth setting .exporting start whole
    | [] => none

/-- A top-level statement. -/
def readStatement (depth : Nat) (setting : Setting) (tokens : List Token) :
    Option (Item × List Token) :=
  match tokens with
  | [] => none
  | token :: rest =>
    let documented := ((docOf token.gap.comments).map Span.start).getD token.start
    if token.kind = .interpreter then some (.otherItem token.span, rest)
    else
      match follow depth setting (.both (.many (.part .decorator)) (.word "export"))
          (Reach.before tokens) with
      | some reach => readExported depth setting token.start documented tokens reach.tokens
      | none =>
        match follow depth setting (.part .importing) (Reach.before tokens) with
        | some reach => some (.importItem ⟨token.start, reach.stop⟩, reach.tokens)
        | none => readDeclaration depth setting false documented .statement tokens

/-- Statements up to the end of the source. -/
def readStatements : Nat → Setting → List Token → Option (List Item)
  | 0, _, _ => none
  | depth + 1, setting, tokens =>
    match tokens with
    | [] => none
    | token :: _ =>
      if token.kind = .finish then some []
      else do
        let (item, rest) ← readStatement depth setting tokens
        let items ← readStatements depth setting rest
        some (item :: items)

end Grammar

/-- The source file with this text, or nothing if the text is not well
formed. -/
def SourceFile.read (text : Text) : Option SourceFile := do
  let items ←
    Grammar.readStatements (Grammar.depthFor text.length) ⟨text, true, false⟩ (Token.scan text)
  some ⟨text, items⟩

end InterfaceSchema
