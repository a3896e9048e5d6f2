import InterfaceSchema.Syntax.Pattern

/-!
# Rules for signatures and types without a schema

Parameters, results and the types that have no schema: functions,
constructors, queried values and imported types. Words that start an operand
cannot name a parameter.
-/

namespace InterfaceSchema.Rules

open Pattern

/-- Words that are no names where an operand may stand. -/
def operandWords : List String :=
  ["function", "class", "new", "typeof", "void", "delete", "super", "this", "true", "false", "null",
    "import"]

/-- A name where an operand may stand. -/
def operandName : Pattern := wordBut operandWords

/-- Type parameters between angle brackets. -/
def typeParameters : Pattern := enclosed "<" ">" [list (.part .typeParameter), maybe (.symbol ",")]

/-- A type parameter with its bound and default. -/
def typeParameter : Pattern :=
  sequence
    [.many (.both (words ["const", "in", "out"]) (ahead (.wordBut ["extends"]))), anyWord,
      optionally [.either (.word "extends") (.symbol ":"), .type], optionally [.symbol "=", .type]]

/-- Type arguments between angle brackets. -/
def typeArguments : Pattern := enclosed "<" ">" [list .type, maybe (.symbol ",")]

/-- Parameters between parentheses. -/
def parameters : Pattern :=
  enclosed "(" ")" [optionally [list (.part .parameter), maybe (.symbol ",")]]

/-- A word in front of a parameter's name. -/
def parameterWord (texts : List String) : Pattern :=
  optionally [words texts, ahead (oneOf [anyWord, .symbol "\x7b", .symbol "[", .symbol "..."])]

/-- A parameter with its type and default. -/
def parameter : Pattern :=
  sequence
    [.many (.part .decorator), parameterWord ["public", "private", "protected"],
      parameterWord ["override"], parameterWord ["readonly"], maybe (.symbol "..."),
      oneOf [.part .objectTarget, .part .arrayTarget, .word "this", operandName],
      maybe (.symbol "?"), .part .typing, optionally [.symbol "=", .part .expression]]

/-- The type of a name, if one is given. -/
def typing : Pattern := optionally [.symbol ":", .type]

/-- What a function returns: a type or a statement about an argument. -/
def result : Pattern :=
  oneOf
    [sequence
      [.word "asserts", .sameLine, .wordBut ["is"], optionally [.sameLine, .word "is", .type]],
      sequence [anyWord, .sameLine, .word "is", .type], .type]

/-- Type parameters, parameters and the result of a function. -/
def signature : Pattern :=
  sequence
    [maybe (.part .typeParameters), .part .parameters, optionally [.symbol ":", .part .result]]

/-- A function type. -/
def functionType : Pattern :=
  sequence [maybe (.part .typeParameters), .part .parameters, .symbol "=>", .part .result]

/-- A constructor type. What it constructs is no list of types. -/
def constructorType : Pattern :=
  sequence
    [maybe (.word "abstract"), .word "new", maybe (.part .typeParameters), .part .parameters,
      .symbol "=>", .tightType]

/-- The name of a part of a value or module. -/
def partName : Pattern := .either anyWord (.kind .privateName)

/-- A value whose type is asked for. -/
def queriedValue : Pattern :=
  sequence
    [.either (.both (.word "import") (.part .arguments)) anyWord,
      .many
        (oneOf
          [.both (.either (.symbol ".") (.joined "?.")) partName,
            sequence
              [.sameLine, maybe (.joined "?."),
                enclosed "[" "]"
                  [oneOf
                    [words ["any", "number", "boolean", "string", "symbol", "object"],
                      .kind .string, .kind .number]]],
            .both .sameLine (.part .arguments)]),
      maybe (.part .typeArguments)]

/-- A type of an imported module. -/
def importedType : Pattern :=
  sequence
    [.word "import", .either (.both (.symbol ".") partName) (.part .arguments),
      .many (.either (.both (.symbol ".") partName) (.part .arguments)),
      maybe (.part .typeArguments)]

/-- What stands before the type of an index or mapped clause. -/
def clauseColon : Pattern := oneOf [.symbol ":", .joined "?:", .joined "-?:", .joined "+?:"]

/-- The word in front of an index or mapped clause. -/
def clauseWord : Pattern := optionally [maybe (.either (.symbol "-") (.symbol "+")), .word "readonly"]

/-- An index signature. -/
def indexClause : Pattern :=
  sequence
    [clauseWord, enclosed "[" "]" [anyWord, .symbol ":", .type], clauseColon, .type]

/-- A mapped clause, which stands for the properties it lists. -/
def mappedClause : Pattern :=
  sequence
    [clauseWord, enclosed "[" "]" [anyWord, .word "in", .type, optionally [.word "as", .type]],
      clauseColon, .type]

/-- A call or construct signature. -/
def callMember : Pattern :=
  oneOf
    [.both (ahead (.either (.symbol "(") (.symbol "<"))) (.part .signature),
      sequence
        [maybe (.word "abstract"), .word "new", .sameLine,
          ahead (.either (.symbol "(") (.symbol "<")), .part .signature]]

end InterfaceSchema.Rules
