import InterfaceSchema.Json.Document
import Mathlib.Algebra.Order.Field.Rat

/-!
# What JSON texts spell

A JSON text spells a tree: a null, a truth value, a number, a string, or a list or
object of trees. The grammar relates the front of a text to the tree spelled there and
to what is left of the text. Blanks may stand around everything, characters may be
escaped, one number has many numerals, and the members of an object come in any order.
-/

namespace InterfaceSchema.Json

mutual

/-- A JSON value. -/
inductive Tree where
  | null
  | flag (value : Bool)
  | number (value : ℚ)
  | text (value : Text)
  | list (items : List Tree)
  | object (members : List TreeMember)

/-- A member of an object. -/
structure TreeMember where
  key : Text
  value : Tree

end

/-- The exponent of a numeral. -/
structure NumeralExponent where
  mark : Char
  /-- The sign in front of the digits, if there is one. -/
  sign : Option Char
  digits : Text

/-- A number as it is spelled. -/
structure Numeral where
  negative : Bool
  whole : Text
  fraction : Option Text
  exponent : Option NumeralExponent

/-- Digits, one at least. -/
def AreDigits (text : Text) : Prop := text ≠ [] ∧ ∀ c ∈ text, c.isDigit = true

namespace NumeralExponent

/-- The exponent is spelled as the grammar says. -/
structure Sound (exponent : NumeralExponent) : Prop where
  mark : exponent.mark = 'e' ∨ exponent.mark = 'E'
  sign : exponent.sign = none ∨ exponent.sign = some '+' ∨ exponent.sign = some '-'
  digits : AreDigits exponent.digits

/-- The exponent in a numeral. -/
def spelling (exponent : NumeralExponent) : Text :=
  exponent.mark :: (exponent.sign.toList ++ exponent.digits)

/-- The exponent as a number. -/
def value (exponent : NumeralExponent) : ℤ :=
  if exponent.sign = some '-' then -digitsValue exponent.digits else digitsValue exponent.digits

end NumeralExponent

namespace Numeral

/-- The numeral is spelled as the grammar says: a whole number other than zero starts
with another digit. -/
structure Sound (numeral : Numeral) : Prop where
  whole : AreDigits numeral.whole
  zero : numeral.whole.head? = some '0' → numeral.whole = ['0']
  fraction : ∀ digits, numeral.fraction = some digits → AreDigits digits
  exponent : ∀ exponent, numeral.exponent = some exponent → exponent.Sound

/-- The fraction behind its point. -/
def fractionSpelling (numeral : Numeral) : Text :=
  match numeral.fraction with
  | some digits => '.' :: digits
  | none => []

/-- The exponent behind its mark. -/
def exponentSpelling (numeral : Numeral) : Text :=
  match numeral.exponent with
  | some exponent => exponent.spelling
  | none => []

/-- The numeral in a text. -/
def spelling (numeral : Numeral) : Text :=
  (if numeral.negative then ['-'] else []) ++
    (numeral.whole ++ (numeral.fractionSpelling ++ numeral.exponentSpelling))

/-- The number that the numeral stands for. -/
def value (numeral : Numeral) : ℚ :=
  let fraction := numeral.fraction.getD []
  let exponent := (numeral.exponent.map NumeralExponent.value).getD 0
  (if numeral.negative then -1 else 1) *
    (digitsValue (numeral.whole ++ fraction) * 10 ^ (exponent - fraction.length))

/-- The parts of the numeral as they are read, apart from where an exponent gets too
great. -/
def parts (numeral : Numeral) : NumberParts :=
  ⟨numeral.negative, numeral.whole, numeral.fraction,
    numeral.exponent.map fun exponent => ⟨exponent.value, none⟩⟩

/-- The numeral is a number of 64 bits or in the range of doubles. -/
def InRange (numeral : Numeral) : Prop :=
  (∃ n span, numeral.parts.value ⟨0, 0⟩ = .integer n span) ∨
    ∃ shown span, numeral.parts.value ⟨0, 0⟩ = .decimal shown span

end Numeral

/-- The text starts with blanks before the rest. -/
def Skips (text rest : Text) : Prop :=
  ∃ blanks, text = blanks ++ rest ∧ ∀ c ∈ blanks, isBlank c = true

/-- The escapes that stand for one character each. -/
def simpleEscapes : List (Char × Char) :=
  [('"', '"'), ('\\', '\\'), ('/', '/'), ('b', '\x08'), ('f', '\x0c'), ('n', '\n'), ('r', '\r'),
    ('t', '\t')]

/-- The front of the text spells a string, up to its closing quote. -/
inductive SpellsText : Text → Text → Text → Prop where
  | nil {rest : Text} : SpellsText ('"' :: rest) [] rest
  | plain {c : Char} {text value rest : Text} (hquote : c ≠ '"') (hslash : c ≠ '\\')
      (hcontrol : 32 ≤ c.toNat) (h : SpellsText text value rest) :
      SpellsText (c :: text) (c :: value) rest
  | escape {mark c : Char} {text value rest : Text} (hescape : (mark, c) ∈ simpleEscapes)
      (h : SpellsText text value rest) : SpellsText ('\\' :: mark :: text) (c :: value) rest
  /-- A character by its UTF-16 unit. -/
  | unit {c : Char} {digits text value rest : Text} (hlength : digits.length = 4)
      (hdigits : Text.hexNumber? 4 digits = some c.toNat) (h : SpellsText text value rest) :
      SpellsText ('\\' :: 'u' :: (digits ++ text)) (c :: value) rest
  /-- A character by its two UTF-16 units. -/
  | pair {c : Char} {lead trail : Nat} {first second text value rest : Text}
      (hfirst : first.length = 4) (hlead : Text.hexNumber? 4 first = some lead)
      (hsecond : second.length = 4) (htrail : Text.hexNumber? 4 second = some trail)
      (hleading : 0xD800 ≤ lead ∧ lead ≤ 0xDBFF) (htrailing : 0xDC00 ≤ trail ∧ trail ≤ 0xDFFF)
      (hc : c.toNat = 0x10000 + (lead - 0xD800) * 0x400 + (trail - 0xDC00))
      (h : SpellsText text value rest) :
      SpellsText ('\\' :: 'u' :: (first ++ ('\\' :: 'u' :: (second ++ text)))) (c :: value) rest

mutual

/-- The front of the text spells the tree. Numerals out of range are allowed if
`lenient` holds. -/
inductive Spells (lenient : Bool) : Text → Tree → Text → Prop where
  | null {rest : Text} : Spells lenient ("null" ++ rest) .null rest
  | flag {rest : Text} (value : Bool) :
      Spells lenient ((if value then "true" else "false").toList ++ rest) (.flag value) rest
  | number {numeral : Numeral} {rest : Text} (h : numeral.Sound)
      (hrange : lenient = true ∨ numeral.InRange) :
      Spells lenient (numeral.spelling ++ rest) (.number numeral.value) rest
  | text {text value rest : Text} (h : SpellsText text value rest) :
      Spells lenient ('"' :: text) (.text value) rest
  | emptyList {text rest : Text} (h : Skips text (']' :: rest)) :
      Spells lenient ('[' :: text) (.list []) rest
  | list {text first rest : Text} {items : List Tree} (hskip : Skips text first)
      (h : SpellsItems lenient first items rest) : Spells lenient ('[' :: text) (.list items) rest
  | emptyObject {text rest : Text} (h : Skips text ('\x7d' :: rest)) :
      Spells lenient ('\x7b' :: text) (.object []) rest
  /-- The members may stand in any order. -/
  | object {text first rest : Text} {spelled members : List TreeMember} (hskip : Skips text first)
      (h : SpellsMembers lenient first spelled rest) (horder : members.Perm spelled) :
      Spells lenient ('\x7b' :: text) (.object members) rest

/-- The front of the text spells items with commas between them, up to the closing
bracket. -/
inductive SpellsItems (lenient : Bool) : Text → List Tree → Text → Prop where
  | last {text after rest : Text} {item : Tree} (hitem : Spells lenient text item after)
      (hclose : Skips after (']' :: rest)) : SpellsItems lenient text [item] rest
  | more {text after next first rest : Text} {item : Tree} {items : List Tree}
      (hitem : Spells lenient text item after) (hcomma : Skips after (',' :: next))
      (hskip : Skips next first) (h : SpellsItems lenient first items rest) :
      SpellsItems lenient text (item :: items) rest

/-- The front of the text spells members with commas between them, up to the closing
brace. -/
inductive SpellsMembers (lenient : Bool) : Text → List TreeMember → Text → Prop where
  | last {text key after next first behind rest : Text} {value : Tree}
      (hkey : SpellsText text key after) (hcolon : Skips after (':' :: next))
      (hskip : Skips next first) (hvalue : Spells lenient first value behind)
      (hclose : Skips behind ('\x7d' :: rest)) :
      SpellsMembers lenient ('"' :: text) [⟨key, value⟩] rest
  | more {text key after next first behind later second rest : Text} {value : Tree}
      {members : List TreeMember} (hkey : SpellsText text key after)
      (hcolon : Skips after (':' :: next)) (hskip : Skips next first)
      (hvalue : Spells lenient first value behind) (hcomma : Skips behind (',' :: later))
      (hagain : Skips later second) (h : SpellsMembers lenient second members rest) :
      SpellsMembers lenient ('"' :: text) (⟨key, value⟩ :: members) rest

end

/-- The text spells the tree, with blanks around it. -/
def IsTextOf (lenient : Bool) (tree : Tree) (text : Text) : Prop :=
  ∃ first rest, Skips text first ∧ Spells lenient first tree rest ∧ Skips rest []

mutual

/-- The value holds the tree, wherever it stands in its text and in whatever order the
members of objects come. Numbers out of range are allowed if `lenient` holds. -/
def Tells (lenient : Bool) : Tree → Value → Prop
  | .null, value => ∃ span, value = .null span
  | .flag flag, value => ∃ span, value = .flag flag span
  | .number _, value =>
    (∃ n span, value = .integer n span) ∨ (∃ shown span, value = .decimal shown span) ∨
      lenient = true ∧ ∃ fault span, value = .refused fault none span
  | .text text, value => ∃ span, value = .text text span
  | .list items, value => ∃ values span, value = .list values span ∧ TellsItems lenient items values
  | .object members, value => ∃ entries span matched, value = .table entries span ∧
      matched.Perm entries ∧ TellsMembers lenient members matched

/-- The values hold the items, one each. -/
def TellsItems (lenient : Bool) : List Tree → List Value → Prop
  | [], values => values = []
  | item :: items, values => ∃ value rest, values = value :: rest ∧ Tells lenient item value ∧
      TellsItems lenient items rest

/-- The entries hold the members, one each. -/
def TellsMembers (lenient : Bool) : List TreeMember → List Entry → Prop
  | [], entries => entries = []
  | ⟨key, tree⟩ :: members, entries => ∃ afterKey value rest,
      entries = ⟨.ok key, afterKey, value⟩ :: rest ∧ Tells lenient tree value ∧
        TellsMembers lenient members rest

end

namespace Tree

mutual

/-- How deep lists and objects are nested. -/
def depth : Tree → Nat
  | .null | .flag _ | .number _ | .text _ => 0
  | .list items => 1 + depthOfItems items
  | .object members => 1 + depthOfMembers members

/-- How deep the deepest of the items is. -/
def depthOfItems : List Tree → Nat
  | [] => 0
  | item :: items => max (depth item) (depthOfItems items)

/-- How deep the value of the deepest of the members is. -/
def depthOfMembers : List TreeMember → Nat
  | [] => 0
  | ⟨_, value⟩ :: members => max (depth value) (depthOfMembers members)

end

mutual

/-- The property holds of the keys of every object in the tree. -/
def Everywhere (p : List Text → Prop) : Tree → Prop
  | .null | .flag _ | .number _ | .text _ => True
  | .list items => EverywhereInItems p items
  | .object members => p (members.map TreeMember.key) ∧ EverywhereInMembers p members

/-- The same for all of the items. -/
def EverywhereInItems (p : List Text → Prop) : List Tree → Prop
  | [] => True
  | item :: items => Everywhere p item ∧ EverywhereInItems p items

/-- The same for the values of all of the members. -/
def EverywhereInMembers (p : List Text → Prop) : List TreeMember → Prop
  | [] => True
  | ⟨_, value⟩ :: members => Everywhere p value ∧ EverywhereInMembers p members

end

/-- No object of the tree has two members whose keys get the same name. -/
def DistinctBy (name : Text → Text) (tree : Tree) : Prop :=
  tree.Everywhere fun keys => (keys.map name).Nodup

variable {p : List Text → Prop} {name : Text → Text} {items : List Tree}
  {members : List TreeMember}

/-- What holds everywhere in a list holds everywhere in its items. -/
theorem everywhere_list :
    (Tree.list items).Everywhere p ↔ ∀ item ∈ items, item.Everywhere p := by
  rw [Everywhere]
  induction items with
  | nil => simp [EverywhereInItems]
  | cons item items ih => simp [EverywhereInItems, ih]

/-- What holds everywhere in an object holds of its keys and everywhere in its values. -/
theorem everywhere_object : (Tree.object members).Everywhere p ↔
    p (members.map TreeMember.key) ∧ ∀ member ∈ members, member.value.Everywhere p := by
  have hmembers : EverywhereInMembers p members ↔
      ∀ member ∈ members, member.value.Everywhere p := by
    induction members with
    | nil => simp [EverywhereInMembers]
    | cons member members ih =>
      obtain ⟨key, value⟩ := member
      simp [EverywhereInMembers, ih]
  rw [Everywhere, hmembers]

/-- The items of a list without repeated keys are such trees. -/
theorem distinctBy_list :
    (Tree.list items).DistinctBy name ↔ ∀ item ∈ items, item.DistinctBy name := everywhere_list

/-- No name is given twice in an object without repeated keys, nor in its values. -/
theorem distinctBy_object : (Tree.object members).DistinctBy name ↔
    (members.map fun member => name member.key).Nodup ∧
      ∀ member ∈ members, member.value.DistinctBy name := by
  rw [DistinctBy, everywhere_object, List.map_map]
  rfl

end Tree

end InterfaceSchema.Json
