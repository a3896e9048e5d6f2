import InterfaceSchema.Path

/-!
# Module specifiers

A module is named by the path to its file, seen from a directory and without
the extension. In finished code every relative specifier without an extension
gets the extension `.js`.
-/

namespace InterfaceSchema.Specifier

/-- How many components two lists have in common at their start. -/
def commonLength : List Component → List Component → Nat
  | a :: as, b :: bs => if a = b then commonLength as bs + 1 else 0
  | _, _ => 0

/-- The specifier of the module in the file `target`, seen from the directory
`base`. -/
def ofPath (base target : Path) : Text :=
  let start := base.components
  let goal := target.withoutExtension.components
  let common := commonLength start goal
  let steps := (start.drop common).map (fun _ => Component.up) ++ goal.drop common
  "./" ++ Text.joinWith "/" (steps.map Component.text)

/-- Whether a character is a single or double quote. -/
def isQuote (c : Char) : Bool := c == '\'' || c == '"'

/-- A specifier in code, with what stands around it. -/
structure Found where
  /-- The word `from`, blanks and the opening quote. -/
  lead : Text
  specifier : Text
  /-- The closing quote. -/
  quote : Char

/-- Whether text starts like the path part of a specifier: at most two dots,
a slash and some further character. -/
def startsPath : Text → Bool
  | '/' :: c :: _ => !isQuote c
  | '.' :: '/' :: c :: _ => !isQuote c
  | '.' :: '.' :: '/' :: c :: _ => !isQuote c
  | _ => false

/-- The specifier that starts right here with the word `from`, and what
follows its closing quote. -/
def atFrom? (text : Text) : Option (Found × Text) :=
  match text with
  | 'f' :: 'r' :: 'o' :: 'm' :: rest =>
    let blanks := rest.takeWhile Text.isBlank
    match blanks, rest.dropWhile Text.isBlank with
    | _ :: _, quote :: inside =>
      if isQuote quote && startsPath inside then
        let specifier := inside.takeWhile fun c => !isQuote c
        match inside.dropWhile fun c => !isQuote c with
        | closing :: more => some (⟨"from" ++ blanks ++ [quote], specifier, closing⟩, more)
        | [] => none
      else none
    | _, _ => none
  | _ => none

/-- Whether a specifier is relative to the directory of its file. -/
def isRelative (specifier : Text) : Bool :=
  List.isPrefixOf ['.', '/'] specifier || List.isPrefixOf ['.', '.', '/'] specifier

/-- Whether the last segment of a specifier has a dot with something after
it. -/
def hasExtension (specifier : Text) : Bool :=
  let last := (specifier.reverse.takeWhile (· != '/')).reverse
  last.dropLast.contains '.'

/-- The specifier with the extension it lacks. -/
def completed (specifier : Text) : Text :=
  if isRelative specifier && !hasExtension specifier then specifier ++ ".js" else specifier

/-- The text with all specifiers completed. The number bounds the
recursion. -/
def completeFrom : Nat → Text → Text
  | 0, text => text
  | _, [] => []
  | count + 1, c :: rest =>
    match atFrom? (c :: rest) with
    | some (found, more) =>
      found.lead ++ (completed found.specifier ++ (found.quote :: completeFrom count more))
    | none => c :: completeFrom count rest

/-- The code with all specifiers completed, unless none of them lacks
anything. -/
def complete? (code : Text) : Option Text :=
  let fixed := completeFrom code.length code
  if fixed = code then none else some fixed

end InterfaceSchema.Specifier
