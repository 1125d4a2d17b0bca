import AgentContent.Number.Numeral
import AgentContent.Yaml.Source

/-!
# AgentContent.Yaml.Scalar

Texts inside a settings document: plain ones, quoted ones, and blocks of lines. White space with a
line break in it folds: one break is a space, more are one break less.

* `readPlain`, `readSingle`, `readDouble`: texts in the flow of a line.
* `readBlock`: lines below the line of their indicator.
-/

namespace AgentContent
namespace Yaml

inductive Style where
  | plain
  | quoted
  | literal
  | folded
  deriving DecidableEq

structure Scalar where
  text : String
  style : Style

/-- White space inside a text: what stands before the first line break, that break, and the breaks
after it. -/
structure Gap where
  spaces : List Char := []
  broken : Bool := false
  first : Option Char := none
  more : List Char := []

namespace Gap

/-- The gap with one more space or break. -/
def add (g : Gap) (c : Char) : Gap :=
  if isBreak c then
    if g.broken then { g with more := g.more ++ [c] } else ⟨[], true, some c, []⟩
  else if g.broken then g
  else { g with spaces := g.spaces ++ [c] }

/-- The gap that a break makes which does not count. -/
def escaped : Gap where
  broken := true

def isEmpty (g : Gap) : Bool :=
  g.spaces.isEmpty && !g.broken

/-- What the gap leaves in the text. -/
def fold (g : Gap) : List Char :=
  if g.broken then
    if g.first = some '\n' then if g.more.isEmpty then [' '] else g.more
    else g.first.toList ++ g.more
  else g.spaces

end Gap

/-- Marks of lists and mappings in the flow of a line. -/
def isFlowMark (c : Char) : Bool :=
  c = ',' || c = '[' || c = ']' || c = '\x7b' || c = '\x7d'

/-- A plain text ends here. -/
def endsPlain (inFlow : Bool) (c : Char) (rest : Source) : Bool :=
  (c = ':' && rest.atGap) || (inFlow && isFlowMark c)

/-- A colon that stands where it may not. -/
def misplacedColon (inFlow : Bool) (c : Char) (rest : Source) : Bool :=
  inFlow && c = ':' && rest.next?.any fun d => isFlowMark d || d = '?'

/-- The characters of a plain text, whether a line break follows them, and the rest. Outside of flow
it ends at the first line that is not indented to `column`. -/
def readPlain (inFlow : Bool) (column : Nat) (g : Gap) (s : Source) :
    Option (List Char × Bool × Source) :=
  match s with
  | [] => some ([], g.broken, [])
  | (c, p) :: rest =>
    if isGap c || isBreak c then
      if c = '\t' && g.broken && p.column < column then none
      else readPlain inFlow column (g.add c) rest
    else if !g.isEmpty && ((!inFlow && p.column < column) || c = '#' ||
        Source.startsDocumentMark ((c, p) :: rest)) then
      some ([], g.broken, (c, p) :: rest)
    else if misplacedColon inFlow c rest then none
    else if endsPlain inFlow c rest then some ([], g.broken, (c, p) :: rest)
    else
      match readPlain inFlow column {} rest with
      | none => none
      | some (cs, broken, rest) => some (g.fold ++ c :: cs, broken, rest)

/-- The characters up to the closing apostrophe; two of them are one that does not close. -/
def readSingle (g : Gap) (s : Source) : Option (List Char × Source) :=
  match s with
  | [] => none
  | ('\'', _) :: ('\'', _) :: rest =>
    match readSingle {} rest with
    | none => none
    | some (cs, rest) => some (g.fold ++ '\'' :: cs, rest)
  | ('\'', _) :: rest => some (g.fold, rest)
  | (c, p) :: rest =>
    if isGap c || isBreak c then readSingle (g.add c) rest
    else if Source.startsDocumentMark ((c, p) :: rest) then none
    else
      match readSingle {} rest with
      | none => none
      | some (cs, rest) => some (g.fold ++ c :: cs, rest)

/-- What a backslash and a character stand for. -/
def simpleEscape? : Char → Option Char
  | '0' => some '\x00'
  | 'a' => some '\x07'
  | 'b' => some '\x08'
  | 't' => some '\t'
  | '\t' => some '\t'
  | 'n' => some '\n'
  | 'v' => some '\x0b'
  | 'f' => some '\x0c'
  | 'r' => some '\r'
  | 'e' => some '\x1b'
  | ' ' => some ' '
  | '"' => some '"'
  | '/' => some '/'
  | '\\' => some '\\'
  | 'N' => some '\u0085'
  | '_' => some '\u00a0'
  | 'L' => some '\u2028'
  | 'P' => some '\u2029'
  | _ => none

/-- How many digits follow a backslash and this character. -/
def escapeDigits? : Char → Option Nat
  | 'x' => some 2
  | 'u' => some 4
  | 'U' => some 8
  | _ => none

/-- The character that exactly `count` hexadecimal digits name. -/
def charOfDigits? (count : Nat) (s : Source) : Option Char :=
  let cs := Source.chars (s.take count)
  if cs.length = count then
    match readHex? cs with
    | some n => if n < 0xD800 || (0xDFFF < n && n ≤ 0x10FFFF) then some (Char.ofNat n) else none
    | none => none
  else none

/-- The characters up to the closing quotation mark. -/
def readDouble (g : Gap) (s : Source) : Option (List Char × Source) :=
  match s with
  | [] => none
  | ('"', _) :: rest => some (g.fold, rest)
  | ('\\', _) :: (c, _) :: rest =>
    if isBreak c then
      match readDouble .escaped rest with
      | none => none
      | some (cs, rest) => some (g.fold ++ cs, rest)
    else
      match simpleEscape? c, escapeDigits? c with
      | some d, _ =>
        match readDouble {} rest with
        | none => none
        | some (cs, rest) => some (g.fold ++ d :: cs, rest)
      | none, some count =>
        match charOfDigits? count rest, readDouble {} (rest.drop count) with
        | some d, some (cs, rest) => some (g.fold ++ d :: cs, rest)
        | _, _ => none
      | none, none => none
  | (c, p) :: rest =>
    if isGap c || isBreak c then readDouble (g.add c) rest
    else if Source.startsDocumentMark ((c, p) :: rest) then none
    else
      match readDouble {} rest with
      | none => none
      | some (cs, rest) => some (g.fold ++ c :: cs, rest)
termination_by s.length
decreasing_by all_goals simp; try omega

/-- What becomes of the line breaks at the end of a block. -/
inductive Chomping where
  | strip
  | clip
  | keep
  deriving DecidableEq

/-- How the lines of a block are read: line breaks between lines folded or kept, and the column at
which lines start. -/
structure Block where
  folded : Bool
  chomping : Chomping
  column : Nat

/-- The line breaks that have been read before a line of a block. -/
structure Breaks where
  first : Option Char := none
  more : List Char := []
  afterIndented : Bool := false

/-- What the breaks leave between two lines. Lines that start with white space do not fold. -/
def Block.join (b : Block) (breaks : Breaks) (indented : Bool) : List Char :=
  if b.folded && breaks.first = some '\n' && !breaks.afterIndented && !indented then
    if breaks.more.isEmpty then [' '] else breaks.more
  else breaks.first.toList ++ breaks.more

/-- What the breaks leave behind the last line. -/
def Block.tail (b : Block) (breaks : Breaks) : List Char :=
  match b.chomping with
  | .strip => []
  | .clip => breaks.first.toList
  | .keep => breaks.first.toList ++ breaks.more

mutual
/-- The lines of a block from white space before a line. -/
def blockLines (b : Block) (breaks : Breaks) (s : Source) : Option (List Char × Source) :=
  match s with
  | [] => some (b.tail breaks, [])
  | (c, p) :: rest =>
    if c = ' ' && p.column < b.column then blockLines b breaks rest
    else if c = '\t' && p.column < b.column then none
    else if isBreak c then blockLines b { breaks with more := breaks.more ++ [c] } rest
    else if p.column = b.column then
      match blockLine b (isGap c) rest with
      | none => none
      | some (cs, rest) => some (b.join breaks (isGap c) ++ c :: cs, rest)
    else some (b.tail breaks, (c, p) :: rest)

/-- The lines of a block from inside a line, which may have started with white space. -/
def blockLine (b : Block) (indented : Bool) (s : Source) : Option (List Char × Source) :=
  match s with
  | [] => some (b.tail {}, [])
  | (c, _) :: rest =>
    if isBreak c then blockLines b ⟨some c, [], indented⟩ rest
    else
      match blockLine b indented rest with
      | none => none
      | some (cs, rest) => some (c :: cs, rest)
end

/-- The largest column that leading lines without text reach, and the column of the first text. -/
def leadingColumn? (most : Nat) (s : Source) : Option Nat :=
  match s with
  | [] => some most
  | (c, p) :: rest =>
    if c = ' ' then leadingColumn? most rest
    else if c = '\t' then none
    else if isBreak c then leadingColumn? (max most p.column) rest
    else some (max most p.column)

/-- The chomping indicator. -/
def chomping? : Char → Option Chomping
  | '+' => some .keep
  | '-' => some .strip
  | _ => none

/-- The indentation indicator. -/
def increment? (c : Char) : Option Nat :=
  if '1' ≤ c && c ≤ '9' then some (c.toNat - '0'.toNat) else none

/-- The indicators of a block, each at most once and in any order, and the rest of their line. -/
def blockHeader (s : Source) : Chomping × Option Nat × Source :=
  match s with
  | [] => (.clip, none, [])
  | (c, p) :: rest =>
    match chomping? c, increment? c with
    | some k, _ =>
      match rest with
      | [] => (k, none, [])
      | (d, q) :: rest =>
        match increment? d with
        | some n => (k, some n, rest)
        | none => (k, none, (d, q) :: rest)
    | none, some n =>
      match rest with
      | [] => (.clip, some n, [])
      | (d, q) :: rest =>
        match chomping? d with
        | some k => (k, some n, rest)
        | none => (.clip, some n, (d, q) :: rest)
    | none, none => (.clip, none, (c, p) :: rest)

/-- The text of a block behind its indicator, inside of something whose lines start at `indent`. -/
def readBlock (folded : Bool) (indent : Option Nat) (s : Source) : Option (Scalar × Source) :=
  let (chomping, increment, rest) := blockHeader s
  match rest.endOfLine? with
  | none => none
  | some rest =>
    let rest := rest.drop 1
    let least := indent.elim 1 (· + 1)
    let column? := match increment with
      | some n => some (indent.getD 0 + n)
      | none => (leadingColumn? 0 rest).map (max least)
    match column? with
    | none => none
    | some column =>
      match blockLines ⟨folded, chomping, column⟩ {} rest with
      | none => none
      | some (cs, rest) =>
        some (⟨String.ofList cs, if folded then .folded else .literal⟩, rest)

end Yaml
end AgentContent
