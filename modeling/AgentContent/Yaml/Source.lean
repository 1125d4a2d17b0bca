/-!
# AgentContent.Yaml.Source

The text of a settings document: characters that know where they stand. All line breaks of two
characters and those that only move the carriage are line feeds here.

* `Source.ofText?`: the placed characters of a text, unless it has a control character.
-/

namespace AgentContent
namespace Yaml

structure Place where
  line : Nat := 0
  column : Nat := 0
  index : Nat := 0

abbrev Source := List (Char × Place)

def isBreak (c : Char) : Bool :=
  c = '\n' || c = '\u2028' || c = '\u2029'

/-- A space or a tab. -/
def isGap (c : Char) : Bool :=
  c = ' ' || c = '\t'

/-- A letter, a digit, an underscore or a hyphen. -/
def isNameChar (c : Char) : Bool :=
  c.isAlphanum || c = '_' || c = '-'

/-- Characters that a document may have. -/
def isAllowed (c : Char) : Bool :=
  c = '\t' || c = '\n' || c = '\r' || (' ' ≤ c && c ≤ '~') || c = '\u0085' ||
    ('\u00a0' ≤ c && c ≠ '\ufffe' && c ≠ '\uffff')

def unifyBreaks : List Char → List Char
  | '\r' :: '\n' :: rest => '\n' :: unifyBreaks rest
  | '\r' :: rest => '\n' :: unifyBreaks rest
  | '\u0085' :: rest => '\n' :: unifyBreaks rest
  | c :: rest => c :: unifyBreaks rest
  | [] => []

/-- The place behind a character. -/
def Place.after (p : Place) (c : Char) : Place :=
  if isBreak c then ⟨p.line + 1, 0, p.index + 1⟩ else ⟨p.line, p.column + 1, p.index + 1⟩

def placed (p : Place) : List Char → Source
  | [] => []
  | c :: rest => (c, p) :: placed (p.after c) rest

/-- The characters without the mark that some texts start with. -/
def dropByteOrderMark : List Char → List Char
  | '\ufeff' :: rest => rest
  | cs => cs

namespace Source

def ofText? (text : String) : Option Source :=
  let cs := dropByteOrderMark text.toList
  if cs.all isAllowed then some (placed {} (unifyBreaks cs)) else none

def chars (s : Source) : List Char :=
  s.map (·.1)

def next? : Source → Option Char
  | [] => none
  | (c, _) :: _ => some c

/-- There is white space next, or nothing. -/
def atGap : Source → Bool
  | [] => true
  | (c, _) :: _ => isGap c || isBreak c

/-- The line is at its end. -/
def atBreak : Source → Bool
  | [] => true
  | (c, _) :: _ => isBreak c

def takeWhile (p : Char → Bool) (s : Source) : List Char :=
  chars (List.takeWhile (fun e => p e.1) s)

def dropWhile (p : Char → Bool) (s : Source) : Source :=
  List.dropWhile (fun e => p e.1) s

def dropGaps (s : Source) : Source :=
  s.dropWhile isGap

/-- The rest of a line that has nothing more than a comment, from its end. -/
def endOfLine? (s : Source) : Option Source :=
  let s := s.dropGaps
  let s := if s.next? = some '#' then s.dropWhile (!isBreak ·) else s
  if s.atBreak then some s else none

/-- A line of its own starts with three of the character here, and white space follows them. -/
def startsRule (c : Char) (s : Source) : Bool :=
  match s with
  | (a, p) :: (b, _) :: (d, _) :: rest => p.column = 0 && a = c && b = c && d = c && atGap rest
  | _ => false

/-- The mark of the start or of the end of a document is next. -/
def startsDocumentMark (s : Source) : Bool :=
  s.startsRule '-' || s.startsRule '.'

end Source
end Yaml
end AgentContent
