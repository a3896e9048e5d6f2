import InterfaceSchema.Proofs.Syntax.Following
import InterfaceSchema.Proofs.Syntax.MemberReaders

/-!
# Tokens that readers leave

Readers take tokens from the front of a list and leave the others; only in
templates and behind regular expressions the source is cut into tokens anew.
What is kept wherever tokens are taken and wherever such a cut is made is an
invariant: all readers leave tokens of which it holds. What is known of every
type that is put together from such tokens, and of every member that is read
from them, is known of all types and members that are read, such as that each
property was read from tokens of which the invariant holds. This is proved once
for all invariants, by one induction on the depth.
-/

namespace InterfaceSchema

open Grammar

namespace TypeExpr

mutual

/-- The properties in a type, at any depth, each in front of those in its own
type. -/
def properties : TypeExpr → List Property
  | .keyword _ _ | .literal _ _ | .unsupported _ => []
  | .reference _ types _ | .tuple types _ | .union types _ | .intersection types _ =>
    propertiesOfTypes types
  | .array type _ | .paren type _ => properties type
  | .object members _ => propertiesOfMembers members

/-- The properties in several types. -/
def propertiesOfTypes : List TypeExpr → List Property
  | [] => []
  | type :: rest => properties type ++ propertiesOfTypes rest

/-- The properties in the types of a member. -/
def propertiesBelow : Member → List Property
  | .property ⟨_, some type⟩ => properties type
  | .index key value _ _ => properties key ++ properties value
  | .property ⟨_, none⟩ | .mapped _ | .other _ => []

/-- The properties in several members, and those that they are. -/
def propertiesOfMembers : List Member → List Property
  | [] => []
  | member :: rest =>
    member.property?.toList ++ (propertiesBelow member ++ propertiesOfMembers rest)

end

/-- The properties in several types are those in each of them. -/
theorem propertiesOfTypes_eq (types : List TypeExpr) :
    propertiesOfTypes types = types.flatMap properties := by
  induction types with
  | nil => rfl
  | cons type rest ih => rw [propertiesOfTypes, ih, List.flatMap_cons]

/-- The properties in several members are those in each of them. -/
theorem propertiesOfMembers_eq (members : List Member) : propertiesOfMembers members =
    members.flatMap fun member => member.property?.toList ++ propertiesBelow member := by
  induction members with
  | nil => rfl
  | cons member rest ih => rw [propertiesOfMembers, ih, List.flatMap_cons, List.append_assoc]

end TypeExpr

/-- Whether the pattern starts no template in the middle of its text. -/
def Pattern.isWhole : Pattern → Bool
  | .templateRest _ => false
  | .both first second | .either first second => first.isWhole && second.isWhole
  | .whenever _ yes no => yes.isWhole && no.isWhole
  | .many pattern | .inside pattern | .lined pattern => pattern.isWhole
  | _ => true

/-- No piece of the grammar starts in the middle of a template. -/
theorem isWhole_pattern (part : Part) : part.pattern.isWhole = true := by
  cases part <;> rfl

/-- What is kept wherever tokens of a source are taken and wherever the source is
cut into tokens anew. -/
structure TokenInvariant (source : Text) where
  Holds : List Token → Prop
  /-- Where the text of a template goes on. -/
  Resumes : Nat → Prop
  tail : ∀ {token rest}, Holds (token :: rest) → Holds rest
  /-- Comments beside the token before are taken. -/
  settled : ∀ {token rest}, Holds (token :: rest) →
    Holds ({ token with gap := { token.gap with beside := [] } } :: rest)
  regex : ∀ {token rest found left}, Holds (token :: rest) →
    Scan.regex? (Text.dropBytes token.start source) = some (found, left) →
      Holds (Token.scanRest (token.start + Text.byteLength found) left)
  opened : ∀ {token rest}, Holds (token :: rest) → token.isSymbol "`" = true →
    Resumes token.stop
  closed : ∀ {token rest position}, Resumes position → Holds (token :: rest) →
    token.isSymbol "\x7d" = true → Resumes token.stop
  template : ∀ {position found left}, Resumes position →
    Scan.templateText (Text.dropBytes position source) = some (found, left) →
      Holds (Token.scanRest (position + Text.byteLength found) left)

namespace TokenInvariant

variable {source : Text} {inv : TokenInvariant source} {tokens rest : List Token}

/-- The invariant holds without the tokens at the front. -/
theorem Holds.of_suffix (h : inv.Holds tokens) (hsuffix : rest <:+ tokens) : inv.Holds rest := by
  obtain ⟨before, rfl⟩ := hsuffix
  induction before with
  | nil => exact h
  | cons token before ih => exact ih (inv.tail h)

/-- The invariant holds without the first token. -/
theorem Holds.tail {token : Token} (h : inv.Holds (token :: tokens)) : inv.Holds tokens :=
  inv.tail h

/-- The property was read from tokens of which the invariant holds. -/
def Reads (inv : TokenInvariant source) (property : Property) : Prop :=
  ∃ depth setting docs tokens rest, setting.source = source ∧ inv.Holds tokens ∧
    readMember depth setting docs tokens = some (.property property, rest)

/-- All properties in a type were read from such tokens. -/
def Types (inv : TokenInvariant source) (type : TypeExpr) : Prop :=
  ∀ property ∈ type.properties, inv.Reads property

/-- All properties in the types of a member were. -/
def Below (inv : TokenInvariant source) (member : Member) : Prop :=
  ∀ property ∈ TypeExpr.propertiesBelow member, inv.Reads property

/-- A member is one that was, or none, and so are all properties in its
types. -/
def Members (inv : TokenInvariant source) (member : Member) : Prop :=
  ∀ property ∈ member.property?.toList ++ TypeExpr.propertiesBelow member, inv.Reads property

end TokenInvariant

variable {source : Text} {inv : TokenInvariant source} {tokens rest : List Token} {depth : Nat}

/-- What is found, if anything is, is fine and leaves tokens of which the
invariant holds. -/
def Leaves {α : Type} (inv : TokenInvariant source) (fine : α → Prop) (behind : α → List Token)
    (result : Option α) : Prop :=
  ∀ found, result = some found → fine found ∧ inv.Holds (behind found)

namespace Leaves

variable {α β γ : Type} {fine : α → Prop} {fair : β → Prop} {behind : α → List Token}
  {after : β → List Token}

/-- Nothing leaves anything. -/
theorem none : Leaves inv fine behind (none : Option α) :=
  fun _ h => absurd h.symm (Option.some_ne_none _)

/-- What is found leaves the tokens behind it. -/
theorem some {found : α} (hfine : fine found) (h : inv.Holds (behind found)) :
    Leaves inv fine behind (some found) := by
  rintro _ ⟨⟩
  exact ⟨hfine, h⟩

/-- What is found behind something else. -/
theorem bind {first : Option α} {next : α → Option β} (hfirst : Leaves inv fine behind first)
    (hnext : ∀ found, fine found → inv.Holds (behind found) → Leaves inv fair after (next found)) :
    Leaves inv fair after (first >>= next) := by
  intro found h
  obtain ⟨middle, hmiddle, hfound⟩ := Option.bind_eq_some_iff.1 h
  obtain ⟨hfine, hbehind⟩ := hfirst middle hmiddle
  exact hnext middle hfine hbehind found hfound

/-- What is found behind one thing. -/
theorem bindOne {fine : α × List Token → Prop} {first : Option (α × List Token)}
    {next : α × List Token → Option β} (hfirst : Leaves inv fine Prod.snd first)
    (hnext : ∀ found rest, fine (found, rest) → inv.Holds rest →
      Leaves inv fair after (next (found, rest))) :
    Leaves inv fair after (first >>= next) :=
  hfirst.bind fun found => hnext found.1 found.2

/-- What is found behind several things and what ends them. -/
theorem bindList {fine : α × γ × List Token → Prop} {first : Option (α × γ × List Token)}
    {next : α × γ × List Token → Option β}
    (hfirst : Leaves inv fine (fun found => found.2.2) first)
    (hnext : ∀ found ending rest, fine (found, ending, rest) → inv.Holds rest →
      Leaves inv fair after (next (found, ending, rest))) :
    Leaves inv fair after (first >>= next) :=
  hfirst.bind fun found => hnext found.1 found.2.1 found.2.2

end Leaves

namespace Grammar

variable {setting : Setting}

/-- A symbol is taken from the front. -/
theorem leaves_takeSymbol (symbol : String) (h : inv.Holds tokens) :
    Leaves inv (fun _ => True) Prod.snd (takeSymbol symbol tokens) := by
  unfold takeSymbol
  split
  · exact .none
  · split
    · exact .some trivial h.tail
    · exact .none

/-- What a symbol at the front leaves. -/
theorem holds_of_takeSymbol {symbol : String} {token : Token} (h : inv.Holds tokens)
    (htake : takeSymbol symbol tokens = some (token, rest)) : inv.Holds rest :=
  (leaves_takeSymbol symbol h _ htake).2

/-- What the sign between two types leaves. -/
theorem holds_of_takeBetween {symbol : String} (h : inv.Holds tokens)
    (htake : takeBetween symbol setting tokens = some rest) : inv.Holds rest := by
  unfold takeBetween at htake
  split at htake
  · cases htake
  · split at htake
    · cases htake
      exact h.tail
    · cases htake

/-- What signs at the front leave. -/
theorem holds_dropWhile (p : Token → Bool) (h : inv.Holds tokens) :
    inv.Holds (tokens.dropWhile p) :=
  h.of_suffix (List.dropWhile_suffix p)

/-- What the further parts of a dotted name leave. -/
theorem holds_readDotted (name : Text) (stop : Nat) (h : inv.Holds tokens) :
    inv.Holds (readDotted name stop tokens).2.2 := by
  fun_induction readDotted name stop tokens with
  | case1 name stop dot part more hdot ih => exact ih h.tail.tail
  | case2 | case3 => exact h

/-- The reach goes over one token. -/
theorem leaves_take {reach : Reach} {accept : Token → Bool} (h : inv.Holds reach.tokens) :
    Leaves inv (fun _ => True) Reach.tokens (reach.take accept) := by
  intro next hnext
  obtain ⟨token, htokens, -⟩ := exists_of_take hnext
  rw [htokens] at h
  exact ⟨trivial, h.tail⟩

/-- The reach goes over symbols that make up a text. -/
theorem leaves_takeJoined {reach : Reach} {text : Text} (h : inv.Holds reach.tokens) :
    Leaves inv (fun _ => True) Reach.tokens (reach.takeJoined text) := by
  unfold Reach.takeJoined
  generalize reach.tokens = tokens at h
  fun_induction Reach.takeJoined.go reach text reach.stop tokens true with
  | case1 | case4 => exact .none
  | case2 => exact .some trivial h.tail
  | case3 => next ih => exact ih h.tail

/-- The sign before the type of an index signature is taken. -/
theorem leaves_takeClauseColon (h : inv.Holds tokens) :
    Leaves inv (fun _ => True) id (takeClauseColon tokens) := by
  intro rest hrest
  obtain ⟨reach, hreach, rfl⟩ := Option.map_eq_some_iff.1 hrest
  obtain ⟨sign, -, htake⟩ := List.exists_of_findSome?_eq_some hreach
  exact leaves_takeJoined h reach htake

/-- The end of a statement needs no semicolon. -/
theorem leaves_settle {reach : Reach} (h : inv.Holds reach.tokens) :
    Leaves inv (fun _ => True) Reach.tokens reach.settle := by
  unfold Reach.settle
  split
  · exact .none
  · next token rest htokens =>
    rw [htokens] at h
    split
    · exact .some trivial (inv.settled h)
    · exact .none

/-- The end of a statement is taken. -/
theorem leaves_endStatement {reach : Reach} (h : inv.Holds reach.tokens) :
    Leaves inv (fun _ => True) Reach.tokens reach.endStatement := by
  intro next hnext
  rcases Option.or_eq_some_iff.1 hnext with hnext | ⟨-, hnext⟩
  · exact leaves_take h next hnext
  · exact leaves_settle h next hnext

/-- A reader of one thing, which is fine. -/
def LeavesOne {α : Type} (inv : TokenInvariant source) (fine : α → Prop)
    (reader : Setting → List Token → Option (α × List Token)) : Prop :=
  ∀ {setting : Setting} {tokens : List Token}, setting.source = source → inv.Holds tokens →
    Leaves inv (fun found => fine found.1) Prod.snd (reader setting tokens)

/-- A reader of several things, each of which is fine, and of what ends them. -/
def LeavesList {α β : Type} (inv : TokenInvariant source) (fine : α → Prop)
    (reader : Setting → List Token → Option (List α × β × List Token)) : Prop :=
  ∀ {setting : Setting} {tokens : List Token}, setting.source = source → inv.Holds tokens →
    Leaves inv (fun found => ∀ item ∈ found.1, fine item) (fun found => found.2.2)
      (reader setting tokens)

/-- What is known of all types and members that are read from tokens of which an
invariant holds, as it is known of those put together from such. -/
structure TreeInvariant (inv : TokenInvariant source) where
  Types : TypeExpr → Prop
  Members : Member → Prop
  /-- What is known of a member because of the types in it. -/
  Below : Member → Prop
  keyword : ∀ keyword span, Types (.keyword keyword span)
  literal : ∀ literal span, Types (.literal literal span)
  unsupported : ∀ span, Types (.unsupported span)
  reference : ∀ {name types span}, (∀ type ∈ types, Types type) →
    Types (.reference name types span)
  array : ∀ {item span}, Types item → Types (.array item span)
  tuple : ∀ {items span}, (∀ item ∈ items, Types item) → Types (.tuple items span)
  /-- A union is read with more than one part. -/
  union : ∀ {depth setting tokens first rest parts stop behind}, setting.source = source →
    inv.Holds tokens →
    readIntersection depth setting (tokens.dropWhile fun token => token.isSymbol "|") =
      some (first, rest) →
    readUnionParts depth setting first.span.stop rest = some (parts, stop, behind) →
    parts ≠ [] → (∀ part ∈ first :: parts, Types part) →
      Types (.union (first :: parts) ⟨startOf tokens, stop⟩)
  /-- An intersection is read with more than one part. -/
  intersection : ∀ {depth setting tokens first rest parts stop behind},
    setting.source = source → inv.Holds tokens →
    readPrefixed depth setting (tokens.dropWhile fun token => token.isSymbol "&") =
      some (first, rest) →
    readIntersectionParts depth setting first.span.stop rest = some (parts, stop, behind) →
    parts ≠ [] → (∀ part ∈ first :: parts, Types part) →
      Types (.intersection (first :: parts) ⟨startOf tokens, stop⟩)
  /-- A type in brackets is read right behind the opening one. -/
  paren : ∀ {depth setting opening tokens inner closing rest}, setting.source = source →
    inv.Holds (opening :: tokens) → opening.isSymbol "(" = true →
    readType depth setting tokens = some (inner, closing :: rest) →
    closing.isSymbol ")" = true → Types inner →
      Types (.paren inner ⟨opening.start, closing.stop⟩)
  object : ∀ {members span}, (∀ member ∈ members, Members member) →
    Types (.object members span)
  bare : ∀ head, Below (.property ⟨head, none⟩)
  typed : ∀ {head type}, Types type → Below (.property ⟨head, some type⟩)
  index : ∀ {key value readonly span}, Types key → Types value →
    Below (.index key value readonly span)
  mapped : ∀ span, Below (.mapped span)
  other : ∀ span, Below (.other span)
  /-- A member is read. -/
  member : ∀ {depth setting docs tokens member rest}, setting.source = source →
    inv.Holds tokens → readMember depth setting docs tokens = some (member, rest) →
    Below member → Members member

variable {tree : TreeInvariant inv}

/-- All readers of this depth leave tokens of which the invariant holds, and what
they read keeps what is known of types and members. -/
structure ReadersLeave (tree : TreeInvariant inv) (depth : Nat) : Prop where
  type : LeavesOne inv tree.Types (readType depth)
  union : LeavesOne inv tree.Types (readUnion depth)
  unionParts : ∀ stop, LeavesList inv tree.Types fun setting => readUnionParts depth setting stop
  intersection : LeavesOne inv tree.Types (readIntersection depth)
  intersectionParts :
    ∀ stop, LeavesList inv tree.Types fun setting => readIntersectionParts depth setting stop
  prefixed : LeavesOne inv tree.Types (readPrefixed depth)
  postfixed : LeavesOne inv tree.Types (readPostfixed depth)
  brackets : ∀ start item, tree.Types item →
    LeavesOne inv tree.Types fun setting => readBrackets depth setting start item
  primary : LeavesOne inv tree.Types (readPrimary depth)
  reference : LeavesOne inv tree.Types (readReference depth)
  named : LeavesOne inv tree.Types (readNamed depth)
  arguments : LeavesList inv tree.Types (readArguments depth)
  items : LeavesList inv tree.Types (readItems depth)
  item : LeavesOne inv tree.Types (readItem depth)
  body : LeavesList inv tree.Members (readBody depth)
  members : ∀ pending,
    LeavesList inv tree.Members fun setting => readMembers depth setting pending
  member : ∀ docs, LeavesOne inv tree.Members fun setting => readMember depth setting docs
  signature : ∀ docs start modifiers name span, LeavesOne inv tree.Below fun setting =>
    readSignature depth setting docs start modifiers name span
  index : ∀ start, LeavesOne inv tree.Below fun setting => readIndex depth setting start
  follow : ∀ {setting : Setting} {pattern : Pattern} {reach : Reach}, setting.source = source →
    pattern.isWhole = true → inv.Holds reach.tokens →
      Leaves inv (fun _ => True) Reach.tokens (follow depth setting pattern reach)
  followRest : ∀ {setting : Setting} {piece : Part} {reach : Reach}, setting.source = source →
    inv.Resumes reach.stop →
      Leaves inv (fun _ => True) Reach.tokens
        (Grammar.follow depth setting (.templateRest piece) reach)

section Reading

variable {types : List TypeExpr} {type : TypeExpr}

/-- The parts of a type with parts. -/
theorem types_of_parts (htype : type.properties = TypeExpr.propertiesOfTypes types)
    (h : ∀ part ∈ types, inv.Types part) : inv.Types type := by
  intro property hproperty
  rw [htype, TypeExpr.propertiesOfTypes_eq, List.mem_flatMap] at hproperty
  obtain ⟨part, hpart, hproperty⟩ := hproperty
  exact h part hpart property hproperty

/-- The members of an object type. -/
theorem types_object {members : List Member} {span : Span}
    (h : ∀ member ∈ members, inv.Members member) : inv.Types (.object members span) := by
  intro property hproperty
  rw [TypeExpr.properties, TypeExpr.propertiesOfMembers_eq, List.mem_flatMap] at hproperty
  obtain ⟨member, hmember, hproperty⟩ := hproperty
  exact h member hmember property hproperty

/-- A member that is a property was read from the tokens given, and everything in
its type before that. -/
theorem members_of_read {docs : Option Span} {member : Member} (hs : setting.source = source)
    (htokens : inv.Holds tokens)
    (hread : readMember depth setting docs tokens = some (member, rest))
    (hbelow : inv.Below member) : inv.Members member := by
  refine List.forall_mem_append.2 ⟨fun property hproperty => ?_, hbelow⟩
  cases member with
  | property found =>
    obtain rfl : property = found := by simpa [Member.property?] using hproperty
    exact ⟨depth, setting, docs, tokens, rest, hs, htokens, hread⟩
  | index | mapped | other => simp [Member.property?] at hproperty

end Reading

/-- Every property is read from tokens of which the invariant holds. -/
def reading (inv : TokenInvariant source) : TreeInvariant inv where
  Types := inv.Types
  Members := inv.Members
  Below := inv.Below
  keyword _ _ := by simp [TokenInvariant.Types, TypeExpr.properties]
  literal _ _ := by simp [TokenInvariant.Types, TypeExpr.properties]
  unsupported _ := by simp [TokenInvariant.Types, TypeExpr.properties]
  reference := types_of_parts (by rw [TypeExpr.properties])
  array h := by rwa [TokenInvariant.Types, TypeExpr.properties]
  tuple := types_of_parts (by rw [TypeExpr.properties])
  union _ _ _ _ _ := types_of_parts (by rw [TypeExpr.properties])
  intersection _ _ _ _ _ := types_of_parts (by rw [TypeExpr.properties])
  paren _ _ _ _ _ h := by rwa [TokenInvariant.Types, TypeExpr.properties]
  object := types_object
  bare _ := by simp [TokenInvariant.Below, TypeExpr.propertiesBelow]
  typed h := by rwa [TokenInvariant.Below, TypeExpr.propertiesBelow]
  index hkey hvalue := by
    rw [TokenInvariant.Below, TypeExpr.propertiesBelow]
    exact List.forall_mem_append.2 ⟨hkey, hvalue⟩
  mapped _ := by simp [TokenInvariant.Below, TypeExpr.propertiesBelow]
  other _ := by simp [TokenInvariant.Below, TypeExpr.propertiesBelow]
  member := members_of_read

namespace ReadersLeave

variable (h : ReadersLeave tree depth)

include h

/-- A type. -/
theorem readType : LeavesOne inv tree.Types (Grammar.readType (depth + 1)) := by
  intro setting tokens hs htokens
  rw [Grammar.readType]
  refine (h.union hs htokens).bindOne fun left rest hleft hrest => ?_
  dsimp only
  split
  · split
    · refine (h.type hs hrest.tail).bindOne fun _ rest _ hrest => ?_
      refine (leaves_takeSymbol "?" hrest).bindOne fun _ rest _ hrest => ?_
      refine (h.type hs hrest).bindOne fun _ rest _ hrest => ?_
      refine (leaves_takeSymbol ":" hrest).bindOne fun _ rest _ hrest => ?_
      exact (h.type hs hrest).bindOne fun _ rest _ hrest => .some (tree.unsupported _) hrest
    · exact .some hleft hrest
  · exact .some hleft hrest

/-- A union. -/
theorem readUnion : LeavesOne inv tree.Types (Grammar.readUnion (depth + 1)) := by
  intro setting tokens hs htokens found hfound
  rw [Grammar.readUnion] at hfound
  obtain ⟨⟨first, rest⟩, hfirst, hfound⟩ := Option.bind_eq_some_iff.1 hfound
  obtain ⟨⟨parts, stop, behind⟩, hparts, hfound⟩ := Option.bind_eq_some_iff.1 hfound
  cases hfound
  obtain ⟨htype, hrest⟩ := h.intersection hs (holds_dropWhile _ htokens) _ hfirst
  obtain ⟨htypes, hbehind⟩ := h.unionParts _ hs hrest _ hparts
  refine ⟨?_, hbehind⟩
  cases parts with
  | nil => exact htype
  | cons part more =>
    exact tree.union hs htokens hfirst hparts (List.cons_ne_nil _ _)
      (List.forall_mem_cons.2 ⟨htype, htypes⟩)

/-- The further parts of a union. -/
theorem readUnionParts (stop : Nat) :
    LeavesList inv tree.Types fun setting => Grammar.readUnionParts (depth + 1) setting stop := by
  intro setting tokens hs htokens
  dsimp only
  rw [Grammar.readUnionParts]
  split
  · next more hmore =>
    have hmore := holds_of_takeBetween htokens hmore
    refine (h.intersection hs (holds_dropWhile _ hmore)).bindOne fun _ rest hpart hrest => ?_
    exact (h.unionParts _ hs hrest).bindList fun _ _ rest hparts hrest =>
      .some (List.forall_mem_cons.2 ⟨hpart, hparts⟩) hrest
  · exact .some (List.forall_mem_nil _) htokens

/-- An intersection. -/
theorem readIntersection : LeavesOne inv tree.Types (Grammar.readIntersection (depth + 1)) := by
  intro setting tokens hs htokens found hfound
  rw [Grammar.readIntersection] at hfound
  obtain ⟨⟨first, rest⟩, hfirst, hfound⟩ := Option.bind_eq_some_iff.1 hfound
  obtain ⟨⟨parts, stop, behind⟩, hparts, hfound⟩ := Option.bind_eq_some_iff.1 hfound
  cases hfound
  obtain ⟨htype, hrest⟩ := h.prefixed hs (holds_dropWhile _ htokens) _ hfirst
  obtain ⟨htypes, hbehind⟩ := h.intersectionParts _ hs hrest _ hparts
  refine ⟨?_, hbehind⟩
  cases parts with
  | nil => exact htype
  | cons part more =>
    exact tree.intersection hs htokens hfirst hparts (List.cons_ne_nil _ _)
      (List.forall_mem_cons.2 ⟨htype, htypes⟩)

/-- The further parts of an intersection. -/
theorem readIntersectionParts (stop : Nat) : LeavesList inv tree.Types fun setting =>
    Grammar.readIntersectionParts (depth + 1) setting stop := by
  intro setting tokens hs htokens
  dsimp only
  rw [Grammar.readIntersectionParts]
  split
  · next more hmore =>
    have hmore := holds_of_takeBetween htokens hmore
    refine (h.prefixed hs (holds_dropWhile _ hmore)).bindOne fun _ rest hpart hrest => ?_
    exact (h.intersectionParts _ hs hrest).bindList fun _ _ rest hparts hrest =>
      .some (List.forall_mem_cons.2 ⟨hpart, hparts⟩) hrest
  · exact .some (List.forall_mem_nil _) htokens

/-- What a pattern covers. -/
theorem readExtent (hs : setting.source = source) (htokens : inv.Holds tokens)
    (pattern : Pattern) (hpattern : pattern.isWhole = true) (start : Nat) :
    Leaves inv (fun found => tree.Types found.1) Prod.snd (do
      let reach ← Grammar.follow depth setting pattern (Reach.before tokens)
      Option.some (TypeExpr.unsupported ⟨start, reach.stop⟩, reach.tokens)) :=
  (h.follow hs hpattern htokens).bind fun _ _ hreach => .some (tree.unsupported _) hreach

/-- A member of which a pattern covers the extent. -/
theorem readExtentMember {fine : Member → Prop} {wrap : Span → Member}
    (hfine : ∀ span, fine (wrap span)) (hs : setting.source = source) (htokens : inv.Holds tokens)
    (pattern : Pattern) (hpattern : pattern.isWhole = true) (start : Nat) :
    Leaves inv (fun found => fine found.1) Prod.snd (do
      let reach ← Grammar.follow depth setting pattern (Reach.before tokens)
      Option.some (wrap ⟨start, reach.stop⟩, reach.tokens)) :=
  (h.follow hs hpattern htokens).bind fun _ _ hreach => .some (hfine _) hreach

/-- A prefixed type. -/
theorem readPrefixed : LeavesOne inv tree.Types (Grammar.readPrefixed (depth + 1)) := by
  intro setting tokens hs htokens
  unfold Grammar.readPrefixed
  split
  · exact .none
  next token rest =>
  have hrest := htokens.tail
  split
  · split
    · next reach hreach =>
      exact .some (tree.unsupported _) (h.follow hs rfl htokens reach hreach).2
    · exact h.postfixed hs htokens
  split
  · exact h.readExtent hs htokens _ rfl _
  split
  · exact h.type hs hrest
  split
  · split
    · split
      · exact .none
      · split
        · exact (h.type hs hrest.tail.tail).bindOne fun _ rest _ hrest =>
            .some (tree.unsupported _) hrest
        · exact .some (tree.unsupported _) hrest.tail
    · exact .none
  split
  · exact h.intersection hs (holds_dropWhile _ htokens)
  · exact h.postfixed hs htokens

/-- A type with brackets behind it. -/
theorem readPostfixed : LeavesOne inv tree.Types (Grammar.readPostfixed (depth + 1)) := by
  intro setting tokens hs htokens
  rw [Grammar.readPostfixed]
  exact (h.primary hs htokens).bindOne fun _ rest hprimary hrest =>
    h.brackets _ _ hprimary hs hrest

/-- The brackets behind a type. -/
theorem readBrackets (start : Nat) (item : TypeExpr) (hitem : tree.Types item) :
    LeavesOne inv tree.Types fun setting =>
      Grammar.readBrackets (depth + 1) setting start item := by
  intro setting tokens hs htokens
  have hinside : setting.inside.source = source := hs
  dsimp only
  unfold Grammar.readBrackets
  split
  · next opening rest =>
    split
    · split
      · next closing behind hclosing =>
        exact h.brackets _ _ (tree.array hitem) hs (holds_of_takeSymbol htokens.tail hclosing)
      · refine (h.type hinside htokens.tail).bindOne fun _ rest _ hrest => ?_
        refine (leaves_takeSymbol "]" hrest).bindOne fun _ rest _ hrest => ?_
        exact h.brackets _ _ (tree.unsupported _) hs hrest
    · exact .some hitem htokens
  · exact .some hitem htokens

/-- An operator and the type it stands before. -/
theorem readOperand (hs : setting.source = source) (htokens : inv.Holds tokens)
    (start : Nat) : Leaves inv (fun found => tree.Types found.1) Prod.snd (do
      let (operand, rest) ← Grammar.readPostfixed depth setting tokens
      Option.some (TypeExpr.unsupported ⟨start, operand.span.stop⟩, rest)) :=
  (h.postfixed hs htokens).bindOne fun _ _ _ hrest => .some (tree.unsupported _) hrest

/-- A type that no operator holds together. -/
theorem readPrimary : LeavesOne inv tree.Types (Grammar.readPrimary (depth + 1)) := by
  intro setting tokens hs htokens
  have hinside : setting.inside.source = source := hs
  have hlines : setting.lines.source = source := hs
  have hliteral {literal : Literal} {span : Span} : tree.Types (.literal literal span) :=
    tree.literal _ _
  unfold Grammar.readPrimary
  split
  · exact .none
  next token rest =>
  have hrest := htokens.tail
  dsimp only
  split
  · exact .some hliteral hrest
  · exact .some hliteral hrest
  · split
    · next hopening =>
      intro found hfound
      obtain ⟨⟨inner, behind⟩, hread, hfound⟩ := Option.bind_eq_some_iff.1 hfound
      obtain ⟨⟨closing, left⟩, hclosing, hfound⟩ := Option.bind_eq_some_iff.1 hfound
      cases hfound
      obtain ⟨hinner, hbehind⟩ := h.type hinside hrest _ hread
      obtain ⟨rfl, hsymbol⟩ := eq_of_takeSymbol hclosing
      exact ⟨tree.paren hinside htokens hopening hread hsymbol hinner, hbehind.tail⟩
    split
    · exact (h.items hinside hrest).bindList fun _ _ rest hitems hrest =>
        .some (tree.tuple hitems) hrest
    split
    · refine (h.body hlines hrest).bindList fun _ _ rest hmembers hrest => ?_
      dsimp only
      split
      · exact .some (tree.unsupported _) hrest
      · exact .some (tree.object hmembers) hrest
    split
    · split
      · split
        · exact .some hliteral hrest.tail
        · exact .none
      · exact .none
    split
    · exact h.readExtent hs htokens _ rfl _
    split
    · exact h.readOperand hs hrest _
    split
    · exact .some (tree.unsupported _) hrest
    · exact .none
  · split
    · exact .some hliteral hrest
    split
    · exact .some hliteral hrest
    split
    · exact .some (tree.unsupported _) hrest
    split
    · exact h.readExtent hs htokens _ rfl _
    split
    · exact h.readOperand hs hrest _
    split
    · exact h.readExtent hs htokens _ rfl _
    split
    · exact h.readExtent hs htokens _ rfl _
    · exact h.reference hs htokens
  · exact .none

/-- A named type. -/
theorem readReference : LeavesOne inv tree.Types (Grammar.readReference (depth + 1)) := by
  intro setting tokens hs htokens
  unfold Grammar.readReference
  split
  · exact .none
  split
  · intro found hfound
    obtain ⟨keyword, -, rfl⟩ := Option.map_eq_some_iff.1 hfound
    exact ⟨tree.keyword _ _, htokens.tail⟩
  split
  · exact .none
  · exact h.named hs htokens

/-- A name with type arguments. -/
theorem readNamed : LeavesOne inv tree.Types (Grammar.readNamed (depth + 1)) := by
  intro setting tokens hs htokens
  have hinside : setting.inside.source = source := hs
  unfold Grammar.readNamed
  split
  · exact .none
  next token rest =>
  split
  · have hdotted := holds_readDotted token.text token.stop htokens.tail
    dsimp only
    split
    · next arguments closing behind hbehind =>
      obtain ⟨⟨_, left⟩, hleft, harguments⟩ := Option.bind_eq_some_iff.1 hbehind
      obtain ⟨htypes, hrest⟩ :=
        h.arguments hinside (holds_of_takeSymbol hdotted hleft) _ harguments
      exact .some (tree.reference htypes) hrest
    · split
      · exact .some (tree.keyword _ _) hdotted
      · exact .some (tree.reference (List.forall_mem_nil _)) hdotted
  · exact .none

/-- Type arguments. -/
theorem readArguments : LeavesList inv tree.Types (Grammar.readArguments (depth + 1)) := by
  intro setting tokens hs htokens
  rw [Grammar.readArguments]
  refine (h.type hs htokens).bindOne fun _ rest hargument hrest => ?_
  dsimp only
  split
  · next hclosing =>
    exact .some (List.forall_mem_singleton.2 hargument) (holds_of_takeSymbol hrest hclosing)
  · refine (leaves_takeSymbol "," hrest).bindOne fun _ rest _ hrest => ?_
    dsimp only
    split
    · next hclosing =>
      exact .some (List.forall_mem_singleton.2 hargument) (holds_of_takeSymbol hrest hclosing)
    · exact (h.arguments hs hrest).bindList fun _ _ rest harguments hrest =>
        .some (List.forall_mem_cons.2 ⟨hargument, harguments⟩) hrest

/-- The elements of a tuple. -/
theorem readItems : LeavesList inv tree.Types (Grammar.readItems (depth + 1)) := by
  intro setting tokens hs htokens
  rw [Grammar.readItems]
  have hcomma : inv.Holds (((takeSymbol "," tokens).map Prod.snd).getD tokens) := by
    cases htake : takeSymbol "," tokens with
    | none => exact htokens
    | some found => exact holds_of_takeSymbol htokens htake
  dsimp only
  split
  · next hclosing =>
    exact .some (List.forall_mem_nil _) (holds_of_takeSymbol hcomma hclosing)
  · refine (h.item hs htokens).bindOne fun _ rest hitem hrest => ?_
    dsimp only
    split
    · next hbehind =>
      have hmore := holds_of_takeSymbol hrest hbehind
      split
      · exact .none
      · exact (h.items hs hmore).bindList fun _ _ rest hitems hrest =>
          .some (List.forall_mem_cons.2 ⟨hitem, hitems⟩) hrest
    · exact (leaves_takeSymbol "]" hrest).bindOne fun _ rest _ hrest =>
        .some (List.forall_mem_singleton.2 hitem) hrest

/-- An element of a tuple. -/
theorem readItem : LeavesOne inv tree.Types (Grammar.readItem (depth + 1)) := by
  intro setting tokens hs htokens
  unfold Grammar.readItem
  split
  · next token next rest =>
    have hrest := htokens.tail.tail
    have hdrop : inv.Holds (rest.drop 1) := hrest.of_suffix (List.drop_suffix 1 rest)
    split
    · refine Leaves.bindOne (h.type hs ?_) fun _ rest _ hrest => .some (tree.unsupported _) hrest
      split
      · exact hdrop
      · exact htokens.tail
    split
    · exact h.type hs hrest
    split
    · exact (h.type hs hdrop).bindOne fun _ rest _ hrest => .some (tree.unsupported _) hrest
    · refine (h.type hs htokens).bindOne fun _ rest hitem hrest => ?_
      dsimp only
      split
      · next hmark => exact .some (tree.unsupported _) (holds_of_takeSymbol hrest hmark)
      · exact .some hitem hrest
  · exact .none

/-- A body. -/
theorem readBody : LeavesList inv tree.Members (Grammar.readBody (depth + 1)) := by
  intro setting tokens hs htokens
  unfold Grammar.readBody
  split
  · split
    · exact h.members _ hs htokens.tail
    · exact h.members _ hs htokens
  · exact h.members _ hs htokens

/-- Members. -/
theorem readMembers (pending : List Comment) :
    LeavesList inv tree.Members fun setting => Grammar.readMembers (depth + 1) setting pending := by
  intro setting tokens hs htokens
  dsimp only
  unfold Grammar.readMembers
  split
  · exact .none
  split
  · exact .some (List.forall_mem_nil _) htokens.tail
  · refine (h.member _ hs htokens).bindOne fun _ rest hmember hrest => ?_
    dsimp only
    split
    · exact .none
    split
    · exact (h.members _ hs hrest.tail).bindList fun _ _ rest hmembers hrest =>
        .some (List.forall_mem_cons.2 ⟨hmember, hmembers⟩) hrest
    split
    · exact (h.members _ hs hrest).bindList fun _ _ rest hmembers hrest =>
        .some (List.forall_mem_cons.2 ⟨hmember, hmembers⟩) hrest
    · exact .none

/-- What stands behind the name of a member. -/
theorem readSignature (docs : Option Span) (start : Nat) (modifiers : Modifiers) (name : Text)
    (span : Span) : LeavesOne inv tree.Below fun setting =>
      Grammar.readSignature (depth + 1) setting docs start modifiers name span := by
  intro setting tokens hs htokens
  dsimp only
  rw [Grammar.readSignature]
  split
  next optional stop rest hmark =>
  have hrest : inv.Holds rest := by
    split at hmark
    · next htake =>
      cases hmark
      exact holds_of_takeSymbol htokens htake
    · cases hmark
      exact htokens
  dsimp only
  split
  · exact .none
  split
  · exact h.readExtentMember tree.other hs hrest _ rfl _
  split
  · exact (h.type hs hrest.tail).bindOne fun _ rest htype hrest => .some (tree.typed htype) hrest
  · exact .some (tree.bare _) hrest

/-- An index signature. -/
theorem readIndex (start : Nat) :
    LeavesOne inv tree.Below fun setting => Grammar.readIndex (depth + 1) setting start := by
  intro setting tokens hs htokens
  have hinside : setting.inside.source = source := hs
  dsimp only
  rw [Grammar.readIndex]
  have hkey : inv.Holds ((tokens.dropWhile fun token => !token.isSymbol "[").drop 3) :=
    (holds_dropWhile _ htokens).of_suffix (List.drop_suffix 3 _)
  refine (h.type hinside hkey).bindOne fun _ rest hkey hrest => ?_
  refine (leaves_takeSymbol "]" hrest).bindOne fun _ rest _ hrest => ?_
  refine (leaves_takeClauseColon hrest).bind fun rest _ hrest => ?_
  exact (h.type hs hrest).bindOne fun _ rest hvalue hrest =>
    .some (tree.index hkey hvalue) hrest

/-- A member. -/
theorem readMember (docs : Option Span) :
    LeavesOne inv tree.Members fun setting => Grammar.readMember (depth + 1) setting docs := by
  intro setting tokens hs htokens
  suffices hbelow : Leaves inv (fun found => tree.Below found.1) Prod.snd
      (Grammar.readMember (depth + 1) setting docs tokens) by
    intro found hfound
    obtain ⟨hmember, hrest⟩ := hbelow found hfound
    exact ⟨tree.member hs htokens hfound hmember, hrest⟩
  rw [Grammar.readMember]
  dsimp only
  split
  · exact h.index _ hs htokens
  split
  · exact h.readExtentMember tree.mapped hs htokens _ rfl _
  split
  · next reach hreach => exact .some (tree.other _) (h.follow hs rfl htokens reach hreach).2
  have hmodifiers : inv.Holds (readModifiers tokens).2 :=
    htokens.of_suffix (readModifiers_suffix tokens)
  split
  · exact .none
  next token rest hname =>
  rw [hname] at hmodifiers
  split
  · exact (h.follow hs rfl hmodifiers).bind fun _ _ hreach => h.signature _ _ _ _ _ hs hreach
  split
  · exact h.signature _ _ _ _ _ hs hmodifiers.tail
  · exact .none

/-- Where a pattern leads. -/
theorem follow_whole {pattern : Pattern} {reach : Reach} (hs : setting.source = source)
    (hwhole : pattern.isWhole = true) (htokens : inv.Holds reach.tokens) :
    Leaves inv (fun _ => True) Reach.tokens (Grammar.follow (depth + 1) setting pattern reach) := by
  have hinside : setting.inside.source = source := hs
  have hlines : setting.lines.source = source := hs
  have hplain : setting.plain.source = source := hs
  have hcast : setting.cast.source = source := hs
  cases pattern with
  | never =>
    rw [Grammar.follow]
    exact .none
  | word | wordBut | symbol | kind =>
    rw [Grammar.follow]
    exact leaves_take htokens
  | joined =>
    rw [Grammar.follow]
    exact leaves_takeJoined htokens
  | nothing | assignable =>
    rw [Grammar.follow]
    exact .some trivial htokens
  | sameLine | sameExpression | assigned =>
    rw [Grammar.follow]
    split
    · first | exact .none | exact .some trivial htokens
    · first | exact .none | exact .some trivial htokens
  | both first second =>
    obtain ⟨hfirst, hsecond⟩ := Bool.and_eq_true_iff.1 hwhole
    rw [Grammar.follow]
    exact (h.follow hs hfirst htokens).bind fun _ _ hreach => h.follow hs hsecond hreach
  | either first second =>
    obtain ⟨hfirst, hsecond⟩ := Bool.and_eq_true_iff.1 hwhole
    rw [Grammar.follow]
    split
    · next next hnext => exact .some trivial (h.follow hs hfirst htokens next hnext).2
    · exact h.follow hs hsecond htokens
  | many each =>
    have heach : each.isWhole = true := hwhole
    rw [Grammar.follow]
    split
    · next next hnext => exact h.follow hs hwhole (h.follow hs heach htokens next hnext).2
    · exact .some trivial htokens
  | whenever test yes no =>
    obtain ⟨hyes, hno⟩ := Bool.and_eq_true_iff.1 hwhole
    rw [Grammar.follow]
    split
    · exact h.follow hs hyes htokens
    · exact h.follow hs hno htokens
  | inside pattern =>
    rw [Grammar.follow]
    exact h.follow hinside hwhole htokens
  | lined pattern =>
    rw [Grammar.follow]
    exact h.follow hlines hwhole htokens
  | part part =>
    rw [Grammar.follow]
    exact h.follow hs (isWhole_pattern part) htokens
  | type =>
    rw [Grammar.follow]
    exact (h.type hplain htokens).bindOne fun _ rest _ hrest => .some trivial hrest
  | cast =>
    rw [Grammar.follow]
    exact (h.type hcast htokens).bindOne fun _ rest _ hrest => .some trivial hrest
  | tightType =>
    rw [Grammar.follow]
    exact (h.prefixed hs htokens).bindOne fun _ rest _ hrest => .some trivial hrest
  | members =>
    rw [Grammar.follow]
    exact (h.body hlines htokens).bindList fun _ _ rest _ hrest => .some trivial hrest
  | regex =>
    rw [Grammar.follow, hs]
    intro next hnext
    simp only [Option.bind_eq_bind, Option.bind_eq_some_iff, Prod.exists,
      Option.some.injEq] at hnext
    obtain ⟨token, hhead, found, left, hregex, rfl⟩ := hnext
    obtain ⟨behind, hbehind⟩ := List.head?_eq_some_iff.1 hhead
    rw [hbehind] at htokens
    exact ⟨trivial, inv.regex htokens hregex⟩
  | template piece =>
    rw [Grammar.follow]
    intro next hnext
    obtain ⟨opened, hopened, hnext⟩ := Option.bind_eq_some_iff.1 hnext
    obtain ⟨token, heq, haccept, hstop⟩ := exists_of_take hopened
    rw [heq] at htokens
    exact h.followRest hs (hstop ▸ inv.opened htokens haccept) next hnext
  | templateRest piece => cases hwhole
  | semicolon =>
    rw [Grammar.follow]
    exact leaves_endStatement htokens
  | settled =>
    rw [Grammar.follow]
    exact leaves_settle htokens

/-- Where the rest of a template leads. -/
theorem follow_templateRest {piece : Part} {reach : Reach} (hs : setting.source = source)
    (hresumes : inv.Resumes reach.stop) : Leaves inv (fun _ => True) Reach.tokens
      (Grammar.follow (depth + 1) setting (.templateRest piece) reach) := by
  have hinside : setting.inside.source = source := hs
  rw [Grammar.follow, hs]
  intro next hnext
  obtain ⟨⟨found, left⟩, htext, hnext⟩ := Option.bind_eq_some_iff.1 hnext
  have htokens := inv.template hresumes htext
  dsimp only at hnext
  split at hnext
  · cases hnext
    exact ⟨trivial, htokens⟩
  · obtain ⟨inner, hinner, hnext⟩ := Option.bind_eq_some_iff.1 hnext
    obtain ⟨closed, hclosed, hnext⟩ := Option.bind_eq_some_iff.1 hnext
    obtain ⟨-, hbehind⟩ := h.follow hinside rfl htokens inner hinner
    obtain ⟨token, heq, haccept, hstop⟩ := exists_of_take hclosed
    rw [heq] at hbehind
    exact h.followRest hs (hstop ▸ inv.closed hresumes hbehind haccept) next hnext

end ReadersLeave

/-- All readers leave tokens of which the invariant holds, and what they read keeps
what is known of types and members, whatever the depth. -/
theorem readersLeave (tree : TreeInvariant inv) (depth : Nat) : ReadersLeave tree depth := by
  induction depth with
  | zero =>
    -- nothing is read at depth zero
    constructor <;>
      simp [LeavesOne, LeavesList, Leaves, readType, readUnion, readUnionParts, readIntersection,
        readIntersectionParts, readPrefixed, readPostfixed, readBrackets, readPrimary,
        readReference, readNamed, readArguments, readItems, readItem, readBody, readMembers,
        readMember, readSignature, readIndex, follow]
  | succ depth h =>
    exact
      { type := h.readType
        union := h.readUnion
        unionParts := h.readUnionParts
        intersection := h.readIntersection
        intersectionParts := h.readIntersectionParts
        prefixed := h.readPrefixed
        postfixed := h.readPostfixed
        brackets := h.readBrackets
        primary := h.readPrimary
        reference := h.readReference
        named := h.readNamed
        arguments := h.readArguments
        items := h.readItems
        item := h.readItem
        body := h.readBody
        members := h.readMembers
        member := h.readMember
        signature := h.readSignature
        index := h.readIndex
        follow := h.follow_whole
        followRest := h.follow_templateRest }

end Grammar

end InterfaceSchema
