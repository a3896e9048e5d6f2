import InterfaceSchema.Syntax.Rules.Signature

/-!
# Rules for expressions

An expression is read as operands with operators between them; how strongly
an operator binds does not change where the expression ends. What is assigned
to has to be a name, a part of a value, a list or object of such, or stand
between parentheses.
-/

namespace InterfaceSchema.Rules

open Pattern

/-- Signs for operators between two operands, longer ones first. -/
def binarySigns : List String :=
  [">>>", "===", "!==", ">>", ">=", "<<", "<=", "==", "!=", "&&", "||", "??", "**", "+", "-", "*",
    "/", "%", "&", "|", "^", ">", "<"]

/-- Signs for assignments. -/
def assignmentSigns : List String :=
  ["=", ">>>=", ">>=", "<<=", "**=", "&&=", "||=", "??=", "+=", "-=", "*=", "/=", "%=", "&=", "|=",
    "^="]

/-- Expressions with commas between them. -/
def expressions : Pattern := list (.part .expression)

/-- An expression. -/
def expression : Pattern :=
  sequence
    [.part .operand,
      .many (.both (.either (operators binarySigns) (words ["in", "instanceof"])) (.part .operand)),
      maybe (.part .conditional)]

/-- The two cases of a conditional expression. A function in the first case has no
result type if its colon is needed for the second one. -/
def conditional : Pattern :=
  sequence
    [notAhead (.either (.joined "??") (.joined "?.")), .symbol "?",
      .either (.both (.inside (.part .expression)) (.symbol ":"))
        (sequence
          [enclosed "(" ")" [.part .expressions], .many (.part .suffix),
            .many (.both (operators binarySigns) (.part .operand)), .symbol ":"]),
      .part .expression]

/-- An assignment behind what is assigned to. -/
def assignment : Pattern :=
  sequence [.assigned, operators assignmentSigns, .part .expression, .assignable false]

/-- An operand with the operators before it, or an assignment. -/
def operand : Pattern :=
  cases
    [(.word "yield",
      sequence
        [.word "yield",
          oneOf
            [.both (.symbol "*") (.part .expression), .both .sameExpression (.part .expression),
              .nothing],
          .assignable false]),
      (.word "await",
        .either (sequence [.word "await", .part .operand, .assignable false]) (.part .application)),
      (sequence [.word "using", .sameLine, operandName, .symbol "="],
        .both (.word "using") (.part .application)),
      (.either (words ["typeof", "void", "delete"])
        (oneOf (["!", "~", "+", "-", "++", "--"].map .symbol)),
        sequence
          [.either (words ["typeof", "void", "delete"])
            (oneOf (["!", "~", "+", "-", "++", "--"].map .symbol)),
            .part .operand, .assignable false]),
      (.symbol "<",
        .either (.part .application)
          (sequence [.part .typeArguments, .part .operand, .assignable false]))]
    (.part .application)

/-- An operand without operators before it, or an assignment. -/
def application : Pattern :=
  sequence [.part .callee, .many (.part .suffix), maybe assignment]

/-- What is called or constructed. -/
def callee : Pattern :=
  .whenever (.word "new")
    (sequence
      [.word "new", .either (.both (.symbol ".") anyWord) (.part .callee), .assignable false])
    (.part .primary)

/-- An expression that nothing needs to hold together. -/
def primary : Pattern :=
  cases
    [(oneOf [.kind .string, .kind .number, words ["this", "super", "true", "false", "null"]],
      sequence
        [oneOf [.kind .string, .kind .number, words ["this", "super", "true", "false", "null"]],
          .assignable false]),
      (.symbol "(",
        .either (.part .arrow)
          (.both
            (enclosed "(" ")"
              [.part .expression, .either (sequence [.symbol ":", .type])
                (.many (.both (.symbol ",") (.part .expression)))])
            (.assignable true))),
      (.symbol "[", .both (.part .array) (.assignable true)),
      (.symbol "\x7b",
        .both
          (.either (.part .object) (.both (.part .objectTarget) (ahead (.symbol "="))))
          (.assignable true)),
      (.symbol "`", .both (.template .substitution) (.assignable false)),
      (.symbol "/", .both .regex (.assignable false)),
      (.either (.word "function") (sequence [.word "async", .sameLine, .word "function"]),
        .both (.part .function) (.assignable false)),
      (.either (.word "class") (.symbol "@"), .both (.part .classExpression) (.assignable false)),
      (.word "import",
        sequence
          [.word "import", ahead (.either (.symbol "(") (.symbol ".")), .assignable false]),
      (.kind .privateName,
        sequence [.kind .privateName, ahead (.word "in"), .assignable false])]
    (.either (.part .arrow) (.both operandName (.assignable true)))

/-- What may follow an operand: a part of it, a call of it, or a type for it. -/
def suffix : Pattern :=
  cases
    [(.symbol ".", sequence [.symbol ".", partName, .assignable true]),
      (.joined "?.",
        .both (.joined "?.")
          (oneOf
            [.both partName (.assignable true),
              .both (enclosed "[" "]" [.part .expressions]) (.assignable true),
              sequence [maybe (.part .typeArguments), .part .arguments, .assignable false]])),
      (.symbol "[", .both (enclosed "[" "]" [.part .expressions]) (.assignable true)),
      (.symbol "(", .both (.part .arguments) (.assignable false)),
      (.symbol "`", .both (.template .substitution) (.assignable false)),
      (.symbol "<",
        sequence
          [.part .typeArguments, .either (ahead (.joined "==")) (notAhead (.symbol "=")),
            oneOf
              [.part .arguments, .template .substitution, notAhead .sameExpression,
                notAhead
                  (oneOf
                    [.wordBut ["as", "satisfies", "in", "instanceof", "implements", "extends", "of"],
                      .kind .string, .kind .number, .kind .privateName, .symbol "(", .symbol "[",
                      .symbol "+", .symbol "-", .symbol "!", .symbol "~", .symbol "<",
                      .symbol "/", .symbol "@", .symbol "++", .symbol "--"])],
            .assignable false]),
      (.symbol "!", sequence [.sameLine, .symbol "!", .assignable true]),
      (.either (.symbol "++") (.symbol "--"),
        sequence [.sameLine, .either (.symbol "++") (.symbol "--"), .assignable false]),
      (.word "as",
        sequence [.sameLine, .word "as", .either (.word "const") .cast, .assignable false]),
      (.word "satisfies", sequence [.sameLine, .word "satisfies", .cast, .assignable false])]
    .never

/-- A function written with an arrow. -/
def arrow : Pattern :=
  sequence
    [optionally
      [.word "async", .sameLine, ahead (oneOf [anyWord, .symbol "(", .symbol "<"])],
      .either (.both operandName (ahead (.symbol "=>"))) (.part .signature), .symbol "=>",
      .part .arrowBody, .assignable false]

/-- Words that start a statement and can neither start an expression nor be
labels. -/
def statementWords : List String :=
  ["if", "else", "for", "while", "do", "switch", "case", "default", "try", "catch", "finally", "with",
    "break", "continue", "return", "throw", "debugger", "var", "const", "enum", "interface",
    "abstract", "export"]

/-- An opening brace with what an object, but no block, may hold first. -/
def objectStart : Pattern :=
  let name := .wordBut (statementWords ++ operandWords)
  .both (.symbol "\x7b")
    (oneOf
      [.symbol "...", .kind .string, .kind .number, .kind .privateName, .symbol "[",
        .both name (.symbol ":"), .both (words ["get", "set", "async", "static"]) (.part .key),
        sequence [name, .part .signature, .symbol "\x7b"]])

/-- What follows an arrow. -/
def arrowBody : Pattern :=
  cases
    [(objectStart, .either (.part .block) (.part .expression)), (.symbol "\x7b", .part .block)]
    (.part .expression)

/-- Arguments between parentheses, some of which may be left out. -/
def arguments : Pattern := enclosed "(" ")" [list (maybe (.part .argument))]

/-- An argument or item of a list. -/
def argument : Pattern := .both (maybe (.symbol "...")) (.part .expression)

/-- A list. -/
def array : Pattern := enclosed "[" "]" [list (maybe (.part .argument))]

/-- An object. -/
def object : Pattern := enclosed "\x7b" "\x7d" [list (maybe (.part .property))]

/-- A property of an object. -/
def property : Pattern :=
  cases
    [(.symbol "...", .both (.symbol "...") (.part .expression)),
      (.both (.part .key) (.symbol ":"),
        sequence [.part .key, .symbol ":", .part .expression]),
      (.both anyWord (.either (.symbol ",") (.symbol "\x7d")), anyWord)]
    (.part .method)

/-- A word in front of a member's name. -/
def memberWord (texts : List String) : Pattern :=
  optionally
    [words texts, .sameLine,
      ahead
        (oneOf
          [anyWord, .kind .string, .kind .number, .kind .privateName, .symbol "[", .symbol "*"])]

/-- Words in front of the name of any member. -/
def memberWords : Pattern :=
  sequence
    [memberWord ["public", "private", "protected"], memberWord ["static"], memberWord ["override"],
      memberWord ["readonly"]]

/-- Words in front of the name of a method or accessor. -/
def methodWords : Pattern :=
  sequence [memberWord ["async"], .either (.symbol "*") (memberWord ["get", "set"])]

/-- A method with its body. -/
def method : Pattern :=
  sequence
    [memberWords, methodWords, .part .key, maybe (.symbol "?"), .part .signature, .part .block]

/-- The name of a property. -/
def key : Pattern :=
  oneOf [anyWord, .kind .string, .kind .number, .kind .privateName, .part .computedKey]

/-- A name that is computed. -/
def computedKey : Pattern := enclosed "[" "]" [.part .expression]

/-- A function as an expression. -/
def function : Pattern :=
  sequence
    [maybe (.word "async"), .word "function", maybe (.symbol "*"), maybe anyWord, .part .signature,
      .part .block]

/-- A class as an expression. -/
def classExpression : Pattern :=
  sequence
    [.many (.part .decorator), .word "class", maybe (.wordBut ["extends", "implements"]),
      .part .classHead, .part .classBody]

/-- What a value is taken apart into. -/
def target : Pattern :=
  oneOf
    [.part .objectTarget, .part .arrayTarget,
      sequence
        [.either (.word "this") operandName,
          .many
            (oneOf
              [.both (.symbol ".") partName, enclosed "[" "]" [.part .expressions], .symbol "!"])]]

/-- Names for the properties of an object. -/
def objectTarget : Pattern := enclosed "\x7b" "\x7d" [list (maybe (.part .propertyTarget))]

/-- A name for a property of an object. -/
def propertyTarget : Pattern :=
  cases
    [(.symbol "...", .both (.symbol "...") (.part .target)),
      (.both (.part .key) (.symbol ":"), sequence [.part .key, .symbol ":", .part .elementTarget])]
    (sequence
      [oneOf [anyWord, .part .objectTarget, .part .arrayTarget],
        optionally [.symbol "=", .part .expression]])

/-- Names for the items of a list. -/
def arrayTarget : Pattern := enclosed "[" "]" [list (maybe (.part .elementTarget))]

/-- A name with a default. -/
def elementTarget : Pattern :=
  sequence
    [maybe (.symbol "..."), .part .target, optionally [.symbol "=", .part .expression]]

/-- What stands before a class or one of its members. -/
def decorator : Pattern :=
  .both (.symbol "@")
    (.either (enclosed "(" ")" [.part .decoration]) (.part .decoration))

/-- A name, a part of a value, or a call of one. -/
def decoration : Pattern :=
  sequence
    [anyWord, .many (.both (.symbol ".") anyWord),
      optionally [maybe (.part .typeArguments), .part .arguments]]

end InterfaceSchema.Rules
