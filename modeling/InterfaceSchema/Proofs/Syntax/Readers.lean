import InterfaceSchema.Proofs.Syntax.Spans

/-!
# Sound readers

The readers of types, members and patterns call each other, so that their
soundness is one statement, with a field for every reader, that is proved by
one induction on the depth. Where a pattern is followed from the front of a
list of tokens, comments may stand before the first of them; what the pattern
covers starts with that token only if the pattern goes over a token before
anything else, which is read off the pattern.
-/

namespace InterfaceSchema

/-- How a pattern starts. -/
inductive Front where
  /-- With a token. -/
  | takes
  /-- With a token, or it ends where it starts. -/
  | may
  /-- In any way. -/
  | free
deriving DecidableEq, Repr

/-- The start of a pattern that starts in one of two ways. -/
def Front.join : Front → Front → Front
  | .takes, .takes => .takes
  | .free, _ | _, .free => .free
  | _, _ => .may

/-- How a pattern starts, as far as it shows in this many steps. -/
def Pattern.front : Nat → Pattern → Front
  | 0, _ => .free
  | steps + 1, pattern =>
    match pattern with
    | .never | .word _ | .wordBut _ | .symbol _ | .joined _ | .kind _ => .takes
    | .type | .cast | .tightType | .regex | .template _ => .takes
    | .nothing | .sameLine | .sameExpression | .assignable _ | .assigned => .may
    | .both first second =>
      match front steps first with
      | .takes => .takes
      | .may => front steps second
      | .free => .free
    | .either first second => (front steps first).join (front steps second)
    | .many each =>
      match front steps each with
      | .free => .free
      | _ => .may
    | .whenever _ yes no => (front steps yes).join (front steps no)
    | .inside pattern | .lined pattern => front steps pattern
    | .part piece => front steps piece.pattern
    | .members | .templateRest _ | .semicolon | .settled => .free

open Grammar

/-- The reach goes on over a token at least, from the first of the tokens on. -/
def Onward (source : Text) (tokens : List Token) (reach : Reach) : Prop :=
  reach.Placed source ∧ tokens ≠ [] ∧ startOf tokens ≤ reach.stop

/-- What a pattern that starts in this way comes to before the tokens. -/
def Front.Holds (source : Text) (tokens : List Token) (reach : Reach) : Front → Prop
  | .takes => Onward source tokens reach
  | .may =>
    Onward source tokens reach ∨ (reach.tokens = tokens ∧ reach.stop = startOf tokens)
  | .free => True

namespace Grammar

/-- A reader of types that reads soundly. -/
def ReadsTypes (source : Text)
    (reader : Setting → List Token → Option (TypeExpr × List Token)) : Prop :=
  ∀ {setting : Setting} {start : Nat} {tokens rest : List Token} {type : TypeExpr},
    reader setting tokens = some (type, rest) → setting.source = source →
      Placed source start tokens → TypeRead source tokens type rest

/-- A reader of the further parts of a type that reads soundly: they stand
between the given position and the one returned. -/
def ReadsParts (source : Text)
    (reader : Setting → Nat → List Token → Option (List TypeExpr × Nat × List Token)) : Prop :=
  ∀ {setting : Setting} {start stop : Nat} {tokens rest : List Token} {types : List TypeExpr},
    reader setting start tokens = some (types, stop, rest) → setting.source = source →
      Cut source start → Placed source start tokens →
        TypesSound source start stop types ∧ Cut source stop ∧ Placed source stop rest

/-- A reader of what stands behind a type that reads soundly: the type goes on
from the given start. -/
def ReadsOn (source : Text)
    (reader : Setting → Nat → TypeExpr → List Token → Option (TypeExpr × List Token)) : Prop :=
  ∀ {setting : Setting} {start : Nat} {tokens rest : List Token} {item type : TypeExpr},
    reader setting start item tokens = some (type, rest) → setting.source = source →
      Cut source start → start ≤ item.span.start → item.Sound source →
        Placed source item.span.stop tokens →
          type.Sound source ∧ start ≤ type.span.start ∧ Placed source type.span.stop rest

/-- A reader of a list up to a bracket that reads soundly. -/
def ReadsLists {α : Type} (source : Text) (inOrder : Nat → Nat → List α → Prop)
    (reader : Setting → List Token → Option (List α × Token × List Token)) : Prop :=
  ∀ {setting : Setting} {start : Nat} {tokens rest : List Token} {list : List α} {closing : Token},
    reader setting tokens = some (list, closing, rest) → setting.source = source →
      Placed source start tokens → ListRead source inOrder start list closing rest

/-- A reader of members that reads soundly behind the comments since the
member before. -/
def ReadsMembers (source : Text)
    (reader : Setting → List Comment → List Token → Option (List Member × Token × List Token)) :
    Prop :=
  ∀ {setting : Setting} {start middle : Nat} {pending : List Comment} {tokens rest : List Token}
    {members : List Member} {closing : Token},
    reader setting pending tokens = some (members, closing, rest) → setting.source = source →
      CommentsPlaced source start middle pending → Placed source middle tokens →
        ListRead source (MembersSound source) start members closing rest

/-- A reader of a member, given its documentation, that reads soundly. -/
def ReadsMember (source : Text)
    (reader : Setting → Option Span → List Token → Option (Member × List Token)) : Prop :=
  ∀ {setting : Setting} {start middle : Nat} {docs : Option Span} {tokens rest : List Token}
    {member : Member},
    reader setting docs tokens = some (member, rest) → setting.source = source →
      Placed source middle tokens → SpanBetween source start (startOf tokens) docs →
        MemberRead source start member rest

/-- A reader of what stands behind the name of a member that reads soundly;
the member starts before its name. -/
def ReadsSignature (source : Text)
    (reader : Setting → Option Span → Nat → Modifiers → Text → Span → List Token →
      Option (Member × List Token)) : Prop :=
  ∀ {setting : Setting} {start first : Nat} {docs : Option Span} {modifiers : Modifiers}
    {name : Text} {span : Span} {tokens rest : List Token} {member : Member},
    reader setting docs first modifiers name span tokens = some (member, rest) →
      setting.source = source → Cut source first → first ≤ span.start → span.Sound source →
        SpanBetween source start first docs → Placed source span.stop tokens →
          MemberRead source start member rest

/-- A reader of an index signature, given its start, that reads soundly. -/
def ReadsIndex (source : Text)
    (reader : Setting → Nat → List Token → Option (Member × List Token)) : Prop :=
  ∀ {setting : Setting} {start middle : Nat} {tokens rest : List Token} {member : Member},
    reader setting (startOf tokens) tokens = some (member, rest) → setting.source = source →
      start ≤ startOf tokens → Placed source middle tokens → MemberRead source start member rest

/-- Following patterns is sound: from a reach with all comments behind it, to
one that is not before it. -/
def FollowsOn (source : Text)
    (following : Setting → Pattern → Reach → Option Reach) : Prop :=
  ∀ {setting : Setting} {pattern : Pattern} {reach next : Reach},
    following setting pattern reach = some next → setting.source = source →
      reach.Placed source → next.Placed source ∧ reach.stop ≤ next.stop

/-- Following patterns is sound before the first of the tokens as well, as
far as it shows how they start. -/
def FollowsFirst (source : Text)
    (following : Setting → Pattern → Reach → Option Reach) : Prop :=
  ∀ {setting : Setting} {pattern : Pattern} {reach next : Reach} {start : Nat} (steps : Nat),
    following setting pattern reach = some next → setting.source = source →
      Placed source start reach.tokens → reach.stop = startOf reach.tokens →
        Front.Holds source reach.tokens next (pattern.front steps)

/-- All readers of this depth read soundly. -/
structure ReadersSound (source : Text) (depth : Nat) : Prop where
  type : ReadsTypes source (readType depth)
  union : ReadsTypes source (readUnion depth)
  unionParts : ReadsParts source (readUnionParts depth)
  intersection : ReadsTypes source (readIntersection depth)
  intersectionParts : ReadsParts source (readIntersectionParts depth)
  prefixed : ReadsTypes source (readPrefixed depth)
  postfixed : ReadsTypes source (readPostfixed depth)
  brackets : ReadsOn source (readBrackets depth)
  primary : ReadsTypes source (readPrimary depth)
  reference : ReadsTypes source (readReference depth)
  named : ReadsTypes source (readNamed depth)
  arguments : ReadsLists source (TypesSound source) (readArguments depth)
  items : ReadsLists source (TypesSound source) (readItems depth)
  item : ReadsTypes source (readItem depth)
  body : ReadsLists source (MembersSound source) (readBody depth)
  members : ReadsMembers source (readMembers depth)
  member : ReadsMember source (readMember depth)
  signature : ReadsSignature source (readSignature depth)
  index : ReadsIndex source (readIndex depth)
  followOn : FollowsOn source (follow depth)
  followFirst : FollowsFirst source (follow depth)

end Grammar

end InterfaceSchema
