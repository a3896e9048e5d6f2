import InterfaceSchema.Syntax.Rules.Expression

/-!
# Rules for statements

Statements, declarations and the bodies of classes. Which kind of statement
stands at a place is decided by its first words; words that introduce a
declaration only before a name are names themselves elsewhere.
-/

namespace InterfaceSchema.Rules

open Pattern

/-- Words between two operands, which cannot follow a word that introduces a
declaration. -/
def operatorWords : List String := ["in", "instanceof", "as", "satisfies"]

/-- A name on the same line as the word before it. -/
def introducedName : Pattern := .both .sameLine (.wordBut operatorWords)

/-- What stands between the name and the body of a class. -/
def classHead : Pattern :=
  sequence
    [maybe (.part .typeParameters),
      .inside
        (.both
          (optionally
            [.word "extends", list (.both (.part .expression) (maybe (.part .typeArguments)))])
          (optionally [.word "implements", list .type]))]

/-- The members of a class between braces. -/
def classBody : Pattern :=
  sequence [.symbol "\x7b", .lined (.many (.part .classMember)), .symbol "\x7d"]

/-- A member of a class, or a semicolon. -/
def classMember : Pattern :=
  cases
    [(.symbol ";", .symbol ";"),
      (.both (.word "static") (.symbol "\x7b"), .both (.word "static") (.part .block))]
    (.both (.many (.part .decorator))
      (oneOf
        [.part .methodMember, .part .abstractMember,
          .both (.part .indexClause) (.either .semicolon (.symbol ",")), .part .fieldMember]))

/-- A method or accessor with or without a body. -/
def methodMember : Pattern :=
  sequence
    [memberWords, methodWords, .part .key, maybe (.symbol "?"),
      ahead (.either (.symbol "<") (.both .sameLine (.symbol "("))), .part .signature,
      oneOf [.part .block, .semicolon, .symbol ","]]

/-- A method that is left to subclasses. -/
def abstractMember : Pattern :=
  sequence
    [memberWord ["public", "private", "protected"], .word "abstract", memberWord ["override"],
      .either (.symbol "*") (memberWord ["get", "set"]), .part .key, maybe (.symbol "?"),
      ahead (.either (.symbol "<") (.both .sameLine (.symbol "("))), .part .signature,
      .either .semicolon (.symbol ",")]

/-- A field with its type and value. -/
def fieldMember : Pattern :=
  sequence
    [memberWord ["declare"], memberWord ["public", "private", "protected"], memberWord ["declare"],
      memberWord ["static"], memberWord ["override"], memberWord ["abstract"],
      memberWord ["readonly"], memberWord ["abstract"], memberWord ["accessor"], .part .key,
      maybe (.either (.symbol "?") (.symbol "!")), .part .typing,
      optionally [.symbol "=", .part .expression], .either .semicolon (.symbol ",")]

/-- Statements between braces. -/
def block : Pattern :=
  sequence
    [.symbol "\x7b", .lined (.many (.part .statement)), .symbol "\x7d", maybe .settled]

/-- An expression between parentheses. -/
def condition : Pattern := enclosed "(" ")" [.part .expressions]

/-- Whether a declaration starts here. -/
def startsDeclaration : Pattern :=
  oneOf
    [words ["var", "const", "enum", "interface"],
      sequence
        [optionally [.word "async", .sameLine], .word "function", maybe (.symbol "*"), anyWord],
      sequence
        [.many (.part .decorator),
          .either (.both (.word "class") (.wordBut ["extends", "implements"]))
            (.both (.word "abstract") (.word "class"))],
      .both (.word "let")
        (oneOf [introducedName, .symbol "[", .both .sameLine (.symbol "\x7b")]),
      .both (.word "type") introducedName,
      .both (words ["namespace", "module"])
        (.either introducedName (.both .sameLine (.kind .string))),
      sequence [.word "import", anyWord, .symbol "="],
      sequence
        [.word "declare", .sameLine,
          .either
            (words
              ["var", "let", "const", "function", "async", "class", "abstract", "enum", "interface",
                "type", "namespace", "module", "global", "import", "declare"])
            (.symbol "@")]]

/-- A statement of any kind. -/
def statement : Pattern :=
  cases
    [(startsDeclaration,
      .whenever (.word "import") (.either (.part .importing) (.part .declaration))
        (.part .declaration)),
      (.symbol ";", .symbol ";"),
      (objectStart, .either (.both (.part .expressions) .semicolon) (.part .block)),
      (.symbol "\x7b", .part .block),
      (sequence [.many (.part .decorator), .word "export"], .part .exporting),
      (.both (.word "import") (notAhead (.either (.symbol "(") (.symbol "."))), .part .importing),
      (words statementWords, .part .namedStatement),
      (.both (.wordBut statementWords) (.symbol ":"),
        sequence [anyWord, .symbol ":", .part .statement])]
    (.both (.part .expressions) .semicolon)

/-- A statement that its first word names. -/
def namedStatement : Pattern :=
  cases
    [(.word "if",
      sequence
        [.word "if", condition, .part .statement, optionally [.word "else", .part .statement]]),
      (.word "for",
        sequence
          [.word "for", maybe (.word "await"), enclosed "(" ")" [.part .loopHead],
            .part .statement]),
      (words ["while", "with"],
        sequence [words ["while", "with"], condition, .part .statement]),
      (.word "do",
        sequence
          [.word "do", .part .statement, .word "while", condition, maybe .semicolon]),
      (.word "switch",
        sequence
          [.word "switch", condition, .symbol "\x7b", .lined (.many (.part .caseClause)),
            .symbol "\x7d"]),
      (.word "try",
        sequence
          [.word "try", .part .block,
            optionally
              [.word "catch",
                maybe (enclosed "(" ")" [.part .target, .part .typing]), .part .block],
            optionally [.word "finally", .part .block]])]
    (.part .simpleStatement)

/-- A statement without statements in it that its first word names. -/
def simpleStatement : Pattern :=
  cases
    [(words ["break", "continue"],
      sequence [words ["break", "continue"], optionally [.sameLine, anyWord], .semicolon]),
      (.word "debugger", .both (.word "debugger") .semicolon),
      (.word "return",
        sequence [.word "return", optionally [.sameLine, .part .expressions], .semicolon]),
      (.word "throw", sequence [.word "throw", .part .expressions, .semicolon])]
    .never

/-- What stands between the parentheses of a loop. -/
def loopHead : Pattern :=
  .either
    (sequence
      [.either
        (sequence
          [words ["var", "let", "const"], oneOf [.part .objectTarget, .part .arrayTarget, anyWord],
            optionally [.symbol "=", .part .expression]])
        (.either (.part .target) (enclosed "(" ")" [.part .expression])),
        words ["in", "of"], .part .expressions])
    (sequence
      [.either
        (sequence
          [words ["var", "let", "const"], list (.part .binding)]) (maybe (.part .expressions)),
        .symbol ";", maybe (.part .expressions), .symbol ";", maybe (.part .expressions)])

/-- A case with its statements. -/
def caseClause : Pattern :=
  sequence
    [.either (.both (.word "case") (.inside (.part .expressions))) (.word "default"), .symbol ":",
      .many (.part .statement)]

/-- Declared variables. -/
def bindings : Pattern := .both (list (.part .binding)) .semicolon

/-- A variable with its type and value. -/
def binding : Pattern :=
  sequence
    [oneOf [.part .objectTarget, .part .arrayTarget, anyWord], maybe (.symbol "!"),
      .part .typing, optionally [.symbol "=", .part .expression]]

/-- A possibly dotted name of a type with arguments. -/
def typeName : Pattern :=
  sequence
    [anyWord, .many (.both (.symbol ".") anyWord), maybe (.part .typeArguments)]

/-- The members of an interface between braces. -/
def interfaceBody : Pattern := .both (.symbol "\x7b") .members

/-- A member of an enumeration with its value. -/
def enumMember : Pattern := .both (.part .key) (optionally [.symbol "=", .part .expression])

/-- A declaration. -/
def declaration : Pattern :=
  cases
    [(.either (.both (.word "const") (.word "enum")) (.word "enum"),
      sequence
        [maybe (.word "const"), .word "enum", anyWord,
          enclosed "\x7b" "\x7d"
            [optionally [list (.part .enumMember), maybe (.symbol ",")]]]),
      (words ["var", "let", "const"], .both (words ["var", "let", "const"]) (.part .bindings)),
      (words ["async", "function"],
        sequence
          [maybe (.word "async"), .word "function", maybe (.symbol "*"), anyWord, .part .signature,
            .either (.part .block) .semicolon]),
      (.word "interface",
        sequence
          [.word "interface", anyWord, maybe (.part .typeParameters),
            optionally [.word "extends", list (.part .typeName)], .part .interfaceBody]),
      (.word "type",
        sequence
          [.word "type", anyWord, maybe (.part .typeParameters), .symbol "=", .type, .semicolon]),
      (words ["namespace", "module"],
        sequence
          [words ["namespace", "module"],
            .either (.kind .string) (.both anyWord (.many (.both (.symbol ".") anyWord))),
            maybe (.part .block)]),
      (.word "import",
        sequence
          [.word "import", anyWord, .symbol "=", anyWord, .many (.both (.symbol ".") anyWord),
            .semicolon]),
      (.word "declare",
        .both (.word "declare")
          (cases
            [(.word "global", .both (.word "global") (.part .block)),
              (.both (.word "module") (.symbol "."),
                sequence [.word "module", .symbol ".", anyWord, .symbol ":", .type, .semicolon])]
            (.part .declaration)))]
    (sequence
      [.many (.part .decorator),
        .either
          (sequence
            [.word "class", .wordBut ["extends", "implements"], .part .classHead, .part .classBody,
              maybe .settled])
          (sequence
            [.word "abstract", .word "class", anyWord, .part .classHead, .part .classBody])])

/-- A name, or a name written as a string. -/
def exportedName : Pattern := .either anyWord (.kind .string)

/-- A name in a list of imported or exported names, with the name it is given
there. -/
def specifier : Pattern :=
  let renamed := .both exportedName (optionally [.word "as", exportedName])
  let last := ahead (.either (.symbol ",") (.symbol "\x7d"))
  .either (sequence [words ["type", "typeof"], renamed, last]) (.both renamed last)

/-- Names between braces. -/
def exportedNames : Pattern :=
  enclosed "\x7b" "\x7d" [maybe (list (.part .specifier)), maybe (.symbol ",")]

/-- The module that names come from. -/
def origin : Pattern :=
  sequence
    [.word "from", .kind .string,
      optionally [.sameLine, words ["with", "assert"], .part .object]]

/-- What is imported from a module. -/
def imported : Pattern :=
  let whole := sequence [.symbol "*", .word "as", anyWord]
  .both
    (oneOf
      [whole, .part .exportedNames,
        .both anyWord (optionally [.symbol ",", .either whole (.part .exportedNames)])])
    (.part .origin)

/-- An import. -/
def importing : Pattern :=
  let required :=
    sequence [anyWord, .symbol "=", .word "require", enclosed "(" ")" [.kind .string]]
  sequence
    [.word "import",
      oneOf
        [.both (words ["type", "typeof"]) (.either (.part .imported) required), .part .imported,
          required,
          .both (.kind .string) (optionally [.sameLine, words ["with", "assert"], .part .object])],
      .semicolon]

/-- What follows `export`, other than a declaration. -/
def exportedList : Pattern :=
  oneOf
    [sequence
      [maybe (.word "type"), .symbol "*", optionally [.word "as", exportedName], .part .origin,
        .semicolon],
      sequence
        [maybe (.word "type"), .part .exportedNames, maybe (.part .origin), .semicolon],
      sequence [.symbol "=", .part .expression, .semicolon],
      sequence [.word "as", .word "namespace", anyWord, .semicolon]]

/-- An export. -/
def exporting : Pattern :=
  sequence
    [.many (.part .decorator), .word "export",
      cases
        [(startsDeclaration, .part .declaration),
          (.both (.word "default") startsDeclaration,
            .both (.word "default") (.part .declaration)),
          (.word "default", sequence [.word "default", .part .expression, .semicolon])]
        exportedList]

end InterfaceSchema.Rules
