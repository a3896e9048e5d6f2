import InterfaceSchema.Syntax.Rules
import InterfaceSchema.Syntax.Scan
import InterfaceSchema.Syntax.Tree

/-!
# Reading types and members, and following patterns

Every reader takes what it reads from the front of a list of tokens and
returns it with the tokens that follow, or refuses. From loosest to tightest
a type is a condition, a union, an intersection, a prefixed type, a type with
brackets after it, or a primary type; a function type stands where a prefixed
type may and reaches as far as it can. What is read for its extent alone
follows the patterns of the grammar. The number that comes first in the mutual
readers bounds their depth; `depthFor` gives a number that is enough for a
source.
-/

namespace InterfaceSchema.Grammar

/-- Where something is read. -/
structure Setting where
  source : Text
  /-- Whether a new line may end what is read. -/
  lined : Bool
  /-- Whether an expression goes on behind the type that is read. -/
  converting : Bool

namespace Setting

/-- Inside of brackets, where lines do not matter. -/
def inside (setting : Setting) : Setting := ⟨setting.source, false, false⟩

/-- Among statements or members, where a new line may end one. -/
def lines (setting : Setting) : Setting := ⟨setting.source, true, false⟩

/-- Where a type is read by itself. -/
def plain (setting : Setting) : Setting := { setting with converting := false }

/-- Where a type is read that an expression is converted to. -/
def cast (setting : Setting) : Setting := { setting with converting := true }

/-- Whether what is read may end before the token without a semicolon. -/
def breaks (setting : Setting) (token : Token) : Bool := setting.lined && token.endsType

/-- Whether the brackets that open with this token stand apart from the type
before them. -/
def parts (setting : Setting) (token : Token) : Bool :=
  setting.breaks token && !setting.converting

end Setting

/-- The first token, if it is this symbol. -/
def takeSymbol (symbol : String) : List Token → Option (Token × List Token)
  | [] => none
  | token :: rest => if token.isSymbol symbol then some (token, rest) else none

/-- What follows the sign between two parts of a list of types. Where an
expression goes on behind a type, the same sign twice is its operator. -/
def takeBetween (symbol : String) (setting : Setting) : List Token → Option (List Token)
  | [] => none
  | token :: rest =>
    if token.isSymbol symbol &&
        !(setting.converting &&
          (rest.head?.any fun next => next.isSymbol symbol && next.start == token.stop)) then
      some rest
    else none

/-- Words that are types by themselves, without parts and arguments. -/
def plainWords : List String :=
  ["any", "number", "boolean", "string", "symbol", "object", "void", "unknown", "never", "null",
    "undefined"]

/-- Words that start a type and name none. -/
def typeWords : List String :=
  ["unique", "keyof", "typeof", "infer", "readonly", "new", "abstract", "this", "true", "false",
    "import"]

/-- Whether a token is one of these words. -/
def isOneOf (words : List String) (token : Token) : Bool := words.any token.isWord

/-- Whether the token can be or start a property name. -/
def startsKey (token : Token) : Bool :=
  match token.kind with
  | .word | .string | .number | .privateName => true
  | _ => token.isSymbol "["

/-- The further parts of a dotted name: the name, where it ends, and what
follows it. -/
def readDotted (name : Text) (stop : Nat) : List Token → Text × Nat × List Token
  | dot :: part :: rest =>
    if dot.isSymbol "." && part.kind == .word then
      readDotted (name ++ (dot.compact ++ part.compact)) part.stop rest
    else (name, stop, dot :: part :: rest)
  | rest => (name, stop, rest)

/-- What follows a word in front of a member's name. A word is one only if
the name follows on the same line. -/
def takeModifier (words : List String) : List Token → Option (List Token)
  | token :: next :: rest =>
    if isOneOf words token && (startsKey next || next.isSymbol "*") && !next.endsType then
      some (next :: rest)
    else none
  | _ => none

/-- The modifiers in front of a member. -/
structure Modifiers where
  readonly : Bool
  /-- Whether only a method or an accessor can follow. -/
  method : Bool

/-- The modifiers at the front, which have a fixed order, and what follows
them. -/
def readModifiers (tokens : List Token) : Modifiers × List Token :=
  let rest := (takeModifier ["public", "private", "protected"] tokens).getD tokens
  let rest := (takeModifier ["static"] rest).getD rest
  let rest := (takeModifier ["override"] rest).getD rest
  let (readonly, rest) := match takeModifier ["readonly"] rest with
    | some rest => (true, rest)
    | none => (false, rest)
  let (async, rest) := match takeModifier ["async"] rest with
    | some rest => (true, rest)
    | none => (false, rest)
  match takeSymbol "*" rest with
  | some (_, rest) => (⟨readonly, true⟩, rest)
  | none =>
    match takeModifier ["get", "set"] rest with
    | some rest => (⟨readonly, true⟩, rest)
    | none => (⟨readonly, async⟩, rest)

/-- The documentation comment that ends a run of comments, if one does. -/
def docOf (comments : List Comment) : Option Span :=
  comments.getLast?.bind fun comment => if comment.isDoc then some comment.span else none

/-- A list of parts as one type: a single part stands for itself. -/
def listOf (wrap : List TypeExpr → Span → TypeExpr) (span : Span) : List TypeExpr → TypeExpr
  | [part] => part
  | parts => wrap parts span

/-- Where the first of the tokens starts. -/
def startOf : List Token → Nat
  | [] => 0
  | token :: _ => token.start

/-- What follows the sign before the type of an index signature. -/
def takeClauseColon (tokens : List Token) : Option (List Token) :=
  ([":", "?:", "-?:", "+?:"].findSome? fun (sign : String) =>
    (Reach.before tokens).takeJoined sign.toList).map Reach.tokens

/-- Whether the member that starts here is an index or mapped clause, with
the given mark behind its name. -/
def startsClause (isMark : Token → Bool) (tokens : List Token) : Bool :=
  let bracketed : List Token → Bool
    | opening :: name :: mark :: _ => opening.isSymbol "[" && name.kind == .word && isMark mark
    | _ => false
  match tokens with
  | sign :: word :: rest =>
    bracketed tokens || (sign.isWord "readonly" && bracketed (word :: rest)) ||
      ((sign.isSymbol "-" || sign.isSymbol "+") && word.isWord "readonly" && bracketed rest)
  | _ => false

mutual

/-- A type. -/
def readType : Nat → Setting → List Token → Option (TypeExpr × List Token)
  | 0, _, _ => none
  | depth + 1, setting, tokens => do
    let (left, rest) ← readUnion depth setting tokens
    match rest with
    | token :: more =>
      if token.isWord "extends" && !setting.breaks token then do
        let (_, rest) ← readType depth setting more
        let (_, rest) ← takeSymbol "?" rest
        let (_, rest) ← readType depth setting rest
        let (_, rest) ← takeSymbol ":" rest
        let (last, rest) ← readType depth setting rest
        some (.unsupported ⟨startOf tokens, last.span.stop⟩, rest)
      else some (left, rest)
    | [] => some (left, rest)

/-- A union, an intersection being a union with one part. -/
def readUnion : Nat → Setting → List Token → Option (TypeExpr × List Token)
  | 0, _, _ => none
  | depth + 1, setting, tokens => do
    let (first, rest) ←
      readIntersection depth setting (tokens.dropWhile fun token => token.isSymbol "|")
    let (parts, stop, rest) ← readUnionParts depth setting first.span.stop rest
    some (listOf .union ⟨startOf tokens, stop⟩ (first :: parts), rest)

/-- The further parts of a union and where the last one ends. -/
def readUnionParts :
    Nat → Setting → Nat → List Token → Option (List TypeExpr × Nat × List Token)
  | 0, _, _, _ => none
  | depth + 1, setting, stop, tokens =>
    match takeBetween "|" setting tokens with
    | some rest => do
      let (part, rest) ←
        readIntersection depth setting (rest.dropWhile fun token => token.isSymbol "|")
      let (parts, stop, rest) ← readUnionParts depth setting part.span.stop rest
      some (part :: parts, stop, rest)
    | none => some ([], stop, tokens)

/-- An intersection, a prefixed type being an intersection with one part. -/
def readIntersection : Nat → Setting → List Token → Option (TypeExpr × List Token)
  | 0, _, _ => none
  | depth + 1, setting, tokens => do
    let (first, rest) ←
      readPrefixed depth setting (tokens.dropWhile fun token => token.isSymbol "&")
    let (parts, stop, rest) ← readIntersectionParts depth setting first.span.stop rest
    some (listOf .intersection ⟨startOf tokens, stop⟩ (first :: parts), rest)

/-- The further parts of an intersection and where the last one ends. -/
def readIntersectionParts :
    Nat → Setting → Nat → List Token → Option (List TypeExpr × Nat × List Token)
  | 0, _, _, _ => none
  | depth + 1, setting, stop, tokens =>
    match takeBetween "&" setting tokens with
    | some rest => do
      let (part, rest) ←
        readPrefixed depth setting (rest.dropWhile fun token => token.isSymbol "&")
      let (parts, stop, rest) ← readIntersectionParts depth setting part.span.stop rest
      some (part :: parts, stop, rest)
    | none => some ([], stop, tokens)

/-- A function or constructor type, an inferred or read-only type, or a type
with brackets after it. A read-only type is read as the type itself, which
reaches as far as it can; so does the bound of an inferred type. -/
def readPrefixed : Nat → Setting → List Token → Option (TypeExpr × List Token)
  | 0, _, _ => none
  | depth + 1, setting, tokens =>
    match tokens with
    | [] => none
    | token :: rest =>
      if token.isSymbol "(" || token.isSymbol "<" then
        match follow depth setting (.part .functionType) (Reach.before tokens) with
        | some reach => some (.unsupported ⟨token.start, reach.stop⟩, reach.tokens)
        | none => readPostfixed depth setting tokens
      else if token.isWord "new" || token.isWord "abstract" then do
        let reach ← follow depth setting (.part .constructorType) (Reach.before tokens)
        some (.unsupported ⟨token.start, reach.stop⟩, reach.tokens)
      else if token.isWord "readonly" then readType depth setting rest
      else if token.isWord "infer" then
        match rest with
        | name :: word :: bound =>
          if name.kind != .word then none
          else if word.isWord "extends" && !setting.breaks word then do
            let (limit, rest) ← readType depth setting bound
            some (.unsupported ⟨token.start, limit.span.stop⟩, rest)
          else some (.unsupported ⟨token.start, name.stop⟩, word :: bound)
        | _ => none
      else if token.isSymbol "|" then
        readIntersection depth setting (tokens.dropWhile fun token => token.isSymbol "|")
      else readPostfixed depth setting tokens

/-- A type with brackets after it. -/
def readPostfixed : Nat → Setting → List Token → Option (TypeExpr × List Token)
  | 0, _, _ => none
  | depth + 1, setting, tokens => do
    let (primary, rest) ← readPrimary depth setting tokens
    readBrackets depth setting (startOf tokens) primary rest

/-- The brackets after a type: empty ones make an array of it, others look a
member up. -/
def readBrackets :
    Nat → Setting → Nat → TypeExpr → List Token → Option (TypeExpr × List Token)
  | 0, _, _, _, _ => none
  | depth + 1, setting, start, item, tokens =>
    match tokens with
    | opening :: rest =>
      if opening.isSymbol "[" && !setting.parts opening then
        match takeSymbol "]" rest with
        | some (closing, rest) =>
          readBrackets depth setting start (.array item ⟨start, closing.stop⟩) rest
        | none => do
          let (_, rest) ← readType depth setting.inside rest
          let (closing, rest) ← takeSymbol "]" rest
          readBrackets depth setting start (.unsupported ⟨start, closing.stop⟩) rest
      else some (item, tokens)
    | [] => some (item, tokens)

/-- A type that no operator holds together. -/
def readPrimary : Nat → Setting → List Token → Option (TypeExpr × List Token)
  | 0, _, _ => none
  | depth + 1, setting, tokens =>
    match tokens with
    | [] => none
    | token :: rest =>
      let extent (pattern : Pattern) : Option (TypeExpr × List Token) := do
        let reach ← follow depth setting pattern (Reach.before tokens)
        some (.unsupported ⟨token.start, reach.stop⟩, reach.tokens)
      match token.kind with
      | .string => some (.literal (.string (Text.unquote token.text)) token.span, rest)
      | .number => some (.literal (.number token.text) token.span, rest)
      | .symbol =>
        if token.isSymbol "(" then do
          let (inner, rest) ← readType depth setting.inside rest
          let (closing, rest) ← takeSymbol ")" rest
          some (.paren inner ⟨token.start, closing.stop⟩, rest)
        else if token.isSymbol "[" then do
          let (items, closing, rest) ← readItems depth setting.inside rest
          some (.tuple items ⟨token.start, closing.stop⟩, rest)
        else if token.isSymbol "\x7b" then do
          let (members, closing, rest) ← readBody depth setting.lines rest
          let span : Span := ⟨token.start, closing.stop⟩
          if members.any fun member => match member with | .mapped _ => true | _ => false then
            some (.unsupported span, rest)
          else some (.object members span, rest)
        else if token.isSymbol "-" || token.isSymbol "+" then
          match rest with
          | digits :: rest =>
            if digits.kind = .number then
              some (.literal (.number (token.text ++ digits.compact)) ⟨token.start, digits.stop⟩, rest)
            else none
          | [] => none
        else if token.isSymbol "`" then extent (.template .templateType)
        else if token.isSymbol "?" then do
          let (operand, rest) ← readPostfixed depth setting rest
          some (.unsupported ⟨token.start, operand.span.stop⟩, rest)
        else if token.isSymbol "*" then some (.unsupported token.span, rest)
        else none
      | .word =>
        if token.isWord "true" then some (.literal (.boolean true) token.span, rest)
        else if token.isWord "false" then some (.literal (.boolean false) token.span, rest)
        else if token.isWord "this" then some (.unsupported token.span, rest)
        else if token.isWord "unique" then extent (.both (.word "unique") (.word "symbol"))
        else if token.isWord "keyof" then do
          let (operand, rest) ← readPostfixed depth setting rest
          some (.unsupported ⟨token.start, operand.span.stop⟩, rest)
        else if token.isWord "typeof" then extent (.both (.word "typeof") (.part .queriedValue))
        else if token.isWord "import" then extent (.part .importedType)
        else readReference depth setting tokens
      | _ => none

/-- A named type. -/
def readReference : Nat → Setting → List Token → Option (TypeExpr × List Token)
  | 0, _, _ => none
  | depth + 1, setting, tokens =>
    match tokens with
    | [] => none
    | token :: rest =>
      if isOneOf plainWords token then
        (Keyword.ofWord? token.text).map fun keyword => (.keyword keyword token.span, rest)
      else if isOneOf typeWords token then none
      else readNamed depth setting tokens

/-- A dotted name with type arguments, of any words; a keyword without
arguments names its type. -/
def readNamed : Nat → Setting → List Token → Option (TypeExpr × List Token)
  | 0, _, _ => none
  | depth + 1, setting, tokens =>
    match tokens with
    | [] => none
    | token :: rest =>
      if token.kind = .word then
        let (name, stop, rest) := readDotted token.text token.stop rest
        let arguments? := (takeSymbol "<" rest).bind fun (_, rest) =>
          readArguments depth setting.inside rest
        match arguments? with
        | some (arguments, closing, rest) =>
          some (.reference name arguments ⟨token.start, closing.stop⟩, rest)
        | none =>
          match Keyword.ofWord? name with
          | some keyword => some (.keyword keyword ⟨token.start, stop⟩, rest)
          | none => some (.reference name [] ⟨token.start, stop⟩, rest)
      else none

/-- Types up to the closing angle bracket. -/
def readArguments : Nat → Setting → List Token → Option (List TypeExpr × Token × List Token)
  | 0, _, _ => none
  | depth + 1, setting, tokens => do
    let (argument, rest) ← readType depth setting tokens
    match takeSymbol ">" rest with
    | some (closing, rest) => some ([argument], closing, rest)
    | none => do
      let (_, rest) ← takeSymbol "," rest
      match takeSymbol ">" rest with
      | some (closing, rest) => some ([argument], closing, rest)
      | none => do
        let (arguments, closing, rest) ← readArguments depth setting rest
        some (argument :: arguments, closing, rest)

/-- The elements of a tuple up to its closing bracket. A tuple without
elements may hold a comma. -/
def readItems : Nat → Setting → List Token → Option (List TypeExpr × Token × List Token)
  | 0, _, _ => none
  | depth + 1, setting, tokens =>
    let rest := ((takeSymbol "," tokens).map Prod.snd).getD tokens
    match takeSymbol "]" rest with
    | some (closing, rest) => some ([], closing, rest)
    | none => do
      let (item, rest) ← readItem depth setting tokens
      match takeSymbol "," rest with
      | some (_, more) =>
        if more.head?.any fun next => next.isSymbol "," then none
        else do
          let (items, closing, rest) ← readItems depth setting more
          some (item :: items, closing, rest)
      | none => do
        let (closing, rest) ← takeSymbol "]" rest
        some ([item], closing, rest)

/-- An element of a tuple. A label is dropped; an element that may be absent
or repeated has no schema. -/
def readItem : Nat → Setting → List Token → Option (TypeExpr × List Token)
  | 0, _, _ => none
  | depth + 1, setting, tokens =>
    match tokens with
    | token :: next :: rest =>
      if token.isSymbol "..." then do
        let labelled := next.kind == .word && (rest.head?.any fun mark => mark.isSymbol ":")
        let (item, rest) ← readType depth setting (if labelled then rest.drop 1 else next :: rest)
        some (.unsupported ⟨token.start, item.span.stop⟩, rest)
      else if token.kind == .word && next.isSymbol ":" then readType depth setting rest
      else if token.kind == .word && next.isSymbol "?" &&
          (rest.head?.any fun mark => mark.isSymbol ":") then do
        let (item, rest) ← readType depth setting (rest.drop 1)
        some (.unsupported ⟨token.start, item.span.stop⟩, rest)
      else do
        let (item, rest) ← readType depth setting tokens
        match takeSymbol "?" rest with
        | some (mark, rest) => some (.unsupported ⟨token.start, mark.stop⟩, rest)
        | none => some (item, rest)
    | _ => none

/-- The members between braces, the opening one already read. One separator
may stand before the first member. -/
def readBody : Nat → Setting → List Token → Option (List Member × Token × List Token)
  | 0, _, _ => none
  | depth + 1, setting, tokens =>
    match tokens with
    | token :: next :: rest =>
      if (token.isSymbol ";" || token.isSymbol ",") && !next.isSymbol "\x7d" then
        readMembers depth setting token.gap.comments (next :: rest)
      else readMembers depth setting [] tokens
    | _ => readMembers depth setting [] tokens

/-- Members up to the closing brace; `pending` are the comments since the
member before. Members are separated by a semicolon, a comma or a new line. -/
def readMembers :
    Nat → Setting → List Comment → List Token → Option (List Member × Token × List Token)
  | 0, _, _, _ => none
  | depth + 1, setting, pending, tokens =>
    match tokens with
    | [] => none
    | token :: rest =>
      if token.isSymbol "\x7d" then some ([], token, rest)
      else do
        let docs := docOf (pending ++ token.gap.comments)
        let (member, rest) ← readMember depth setting docs tokens
        match rest with
        | [] => none
        | next :: more =>
          if next.isSymbol ";" || next.isSymbol "," then do
            let (members, closing, rest) ← readMembers depth setting next.gap.comments more
            some (member :: members, closing, rest)
          else if next.endsStatement then do
            let (members, closing, rest) ← readMembers depth setting [] rest
            some (member :: members, closing, rest)
          else none

/-- A member of an object type or interface, documented by `docs`. -/
def readMember : Nat → Setting → Option Span → List Token → Option (Member × List Token)
  | 0, _, _, _ => none
  | depth + 1, setting, docs, tokens =>
    let start := startOf tokens
    if startsClause (fun mark => mark.isSymbol ":") tokens then readIndex depth setting start tokens
    else if startsClause (fun mark => mark.isWord "in") tokens then do
      let reach ← follow depth setting (.part .mappedClause) (Reach.before tokens)
      some (.mapped ⟨start, reach.stop⟩, reach.tokens)
    else
      match follow depth setting (.part .callMember) (Reach.before tokens) with
      | some reach => some (.other ⟨start, reach.stop⟩, reach.tokens)
      | none =>
        let (modifiers, rest) := readModifiers tokens
        match rest with
        | [] => none
        | token :: rest =>
          if token.isSymbol "[" then do
            let reach ← follow depth setting (.part .computedKey) (Reach.before (token :: rest))
            let span : Span := ⟨token.start, reach.stop⟩
            readSignature depth setting docs start modifiers (span.slice setting.source) span
              reach.tokens
          else if startsKey token then
            readSignature depth setting docs start modifiers token.text token.span rest
          else none

/-- What follows the name of a property or method. -/
def readSignature :
    Nat → Setting → Option Span → Nat → Modifiers → Text → Span → List Token →
      Option (Member × List Token)
  | 0, _, _, _, _, _, _, _ => none
  | depth + 1, setting, docs, start, modifiers, name, nameSpan, tokens =>
    let (optional, stop, rest) := match takeSymbol "?" tokens with
      | some (mark, rest) => (true, mark.stop, rest)
      | none => (false, nameSpan.stop, tokens)
    let property (type : Option TypeExpr) (stop : Nat) : Member :=
      .property
        ⟨⟨name, nameSpan, optional, modifiers.readonly, docs, ⟨start, stop⟩⟩, type⟩
    match rest with
    | [] => none
    | token :: more =>
      if modifiers.method || token.isSymbol "<" ||
          (token.isSymbol "(" && !setting.breaks token) then do
        let reach ← follow depth setting (.part .signature) (Reach.before rest)
        some (.other ⟨start, reach.stop⟩, reach.tokens)
      else if token.isSymbol ":" then do
        let (type, rest) ← readType depth setting more
        some (property (some type) type.span.stop, rest)
      else some (property none stop, rest)

/-- An index signature, which starts at `start`. -/
def readIndex : Nat → Setting → Nat → List Token → Option (Member × List Token)
  | 0, _, _, _ => none
  | depth + 1, setting, start, tokens => do
    let words := tokens.takeWhile fun token => !token.isSymbol "["
    let rest := (tokens.dropWhile fun token => !token.isSymbol "[").drop 3
    let (key, rest) ← readType depth setting.inside rest
    let (_, rest) ← takeSymbol "]" rest
    let rest ← takeClauseColon rest
    let (value, rest) ← readType depth setting rest
    some (.index key value (words.any fun token => token.isWord "readonly")
      ⟨start, value.span.stop⟩, rest)

/-- Where a pattern that is followed from a reach on ends. -/
def follow : Nat → Setting → Pattern → Reach → Option Reach
  | 0, _, _, _ => none
  | depth + 1, setting, pattern, reach =>
    match pattern with
    | .nothing => some reach
    | .never => none
    | .word text => reach.take fun token => token.isWord text
    | .wordBut words => reach.take fun token => token.kind == .word && !isOneOf words token
    | .symbol text => reach.take fun token => token.isSymbol text
    | .joined text => reach.takeJoined text.toList
    | .kind kind => reach.take fun token => token.kind == kind
    | .both first second => do
      let reach ← follow depth setting first reach
      follow depth setting second reach
    | .either first second =>
      match follow depth setting first reach with
      | some reach => some reach
      | none => follow depth setting second reach
    | .many each =>
      match follow depth setting each reach with
      | some reach => follow depth setting (.many each) reach
      | none => some reach
    | .whenever test yes no =>
      match follow depth setting test reach with
      | some _ => follow depth setting yes reach
      | none => follow depth setting no reach
    | .sameLine =>
      if reach.tokens.head?.any setting.breaks then none else some reach
    | .sameExpression =>
      if reach.tokens.head?.any fun token => setting.breaks token && token.endsExpression then none
      else some reach
    | .assignable can => some { reach with assignable := can }
    | .assigned => if reach.assignable then some reach else none
    | .inside pattern => follow depth setting.inside pattern reach
    | .lined pattern => follow depth setting.lines pattern reach
    | .part part => follow depth setting part.pattern reach
    | .type => do
      let (type, rest) ← readType depth setting.plain reach.tokens
      some ⟨type.span.stop, rest, false⟩
    | .cast => do
      let (type, rest) ← readType depth setting.cast reach.tokens
      some ⟨type.span.stop, rest, false⟩
    | .tightType => do
      let (type, rest) ← readPrefixed depth setting reach.tokens
      some ⟨type.span.stop, rest, false⟩
    | .members => do
      let (_, closing, rest) ← readBody depth setting.lines reach.tokens
      some ⟨closing.stop, rest, false⟩
    | .regex => do
      let token ← reach.tokens.head?
      let (found, rest) ← Scan.regex? (Text.dropBytes token.start setting.source)
      let stop := token.start + Text.byteLength found
      some ⟨stop, Token.scanRest stop rest, false⟩
    | .template piece => do
      let opened ← reach.take fun token => token.isSymbol "`"
      follow depth setting (.templateRest piece) opened
    | .templateRest piece => do
      let (found, rest) ← Scan.templateText (Text.dropBytes reach.stop setting.source)
      let stop := reach.stop + Text.byteLength found
      let next : Reach := ⟨stop, Token.scanRest stop rest, false⟩
      if found.getLast? = some '`' then some next
      else do
        let inner ← follow depth setting.inside (.part piece) next
        let closed ← inner.take fun token => token.isSymbol "\x7d"
        follow depth setting (.templateRest piece) closed
    | .semicolon => reach.endStatement
    | .settled => reach.settle

end

/-- A depth that is enough for reading a source of this length. -/
def depthFor (length : Nat) : Nat := 256 * length + 1024

end InterfaceSchema.Grammar
