import InterfaceSchema.Text.Blank

/-!
# Indented code

A writer collects lines of code and puts the current indentation before each
of them. `block` lays out entries between an opening and a closing line: one
level deeper, separated by commas, every line of an entry of its own.
-/

namespace InterfaceSchema

/-- What one level of indentation consists of. -/
inductive Indent where
  /-- Blanks; widths other than 2, 4 and 8 count as 4. -/
  | spaces (width : Nat)
  /-- One tab. -/
  | tab
deriving DecidableEq, Repr

namespace Indent

/-- Indentation of schema code. -/
def schema : Indent := .spaces 2

/-- Indentation of extracted interfaces. -/
def extracted : Indent := .spaces 4

/-- Indentation of barrel files. -/
def barrel : Indent := .tab

/-- The text of one level. -/
def unit : Indent → Text
  | .spaces 2 => "  "
  | .spaces 8 => "        "
  | .spaces _ => "    "
  | .tab => "\t"

end Indent

/-- Code written so far, and how far the next line is indented. -/
structure Writer where
  /-- What one level of indentation consists of. -/
  indent : Indent
  /-- Current number of levels. -/
  level : Nat
  /-- The code written so far. -/
  text : Text

namespace Writer

/-- Nothing written, no indentation. -/
def new (indent : Indent) : Writer := ⟨indent, 0, []⟩

/-- The text of `level` levels of indentation. -/
def margin (indent : Indent) : Nat → Text
  | 0 => []
  | level + 1 => indent.unit ++ margin indent level

/-- Add an indented line. -/
def line (w : Writer) (content : Text) : Writer :=
  { w with text := w.text ++ (margin w.indent w.level ++ (content ++ ['\n'])) }

/-- Add an empty line without indentation. -/
def blank (w : Writer) : Writer := { w with text := w.text ++ ['\n'] }

/-- One level deeper. -/
def deeper (w : Writer) : Writer := { w with level := w.level + 1 }

/-- One level back, but never before the margin. -/
def back (w : Writer) : Writer := { w with level := w.level - 1 }

/-- Add a line for each of the contents. -/
def allLines (w : Writer) (contents : List Text) : Writer := contents.foldl line w

/-- Add an opening line, what `body` adds one level deeper, and a closing
line. -/
def within (w : Writer) (opening closing : Text) (body : Writer → Writer) : Writer :=
  (body (w.line opening).deeper).back.line closing

end Writer

namespace Layout

/-- The entries with a comma after each but the last. -/
def separated : List Text → List Text
  | [] => []
  | [entry] => [entry]
  | entry :: rest => (entry ++ [',']) :: separated rest

/-- The opening line, one entry after another on indented lines of their
own, and the closing line; opening and closing side by side if there is no
entry. No line feed follows. -/
def block (opening : Text) (entries : List Text) (closing : Text) : Text :=
  if entries.isEmpty then opening ++ closing
  else Text.trimNewlines <| Writer.text <|
    (Writer.new .schema).within opening closing fun w =>
      (separated entries).foldl (fun w entry => w.allLines (Text.lines entry)) w

end Layout

end InterfaceSchema
