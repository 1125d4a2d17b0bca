import AgentContent.Text.Word

/-!
# AgentContent.Text.Pattern

Search patterns: characters, classes in brackets, anchors, groups, alternatives and repetitions.

* `Pattern.Expr`: what a pattern says.
* `Pattern.Expr.run`: from the rests of a text at which matching has come so far, those after the
  expression. A rest is known by its length.
* `Pattern.ofText?`: reads a pattern; `Pattern.finds` looks for it anywhere in a text.
-/

namespace AgentContent
namespace Pattern

inductive ClassItem where
  | range (low high : Char)
  | word (negated : Bool)
  | digit (negated : Bool)
  | space (negated : Bool)

inductive Expr where
  | empty
  | one (negated : Bool) (items : List ClassItem)
  | start
  | stop
  | seq (first second : Expr)
  | either (first second : Expr)
  | times (body : Expr) (least : Nat) (most : Option Nat)

def ClassItem.holds (c : Char) : ClassItem → Bool
  | .range low high => low ≤ c && c ≤ high
  | .word negated => isWordChar c != negated
  | .digit negated => isDecimalDigit c != negated
  | .space negated => isBlank c != negated

/-- The rests of a text, each once. -/
def addRest (rests : List (List Char)) (rest : List Char) : List (List Char) :=
  if rests.any fun r => r.length = rest.length then rests else rest :: rests

def union (xs ys : List (List Char)) : List (List Char) :=
  ys.foldl addRest xs

def iterate (f : List (List Char) → List (List Char)) : Nat → List (List Char) → List (List Char)
  | 0, rests => rests
  | n + 1, rests => iterate f n (f rests)

/-- The rests after at most `n` further rounds. -/
def upTo (f : List (List Char) → List (List Char)) : Nat → List (List Char) → List (List Char)
  | 0, rests => rests
  | n + 1, rests => union rests (upTo f n (f rests))

/-- The rest without its first character, if that passes. -/
def step? (test : Char → Bool) : List Char → Option (List Char)
  | [] => none
  | c :: rest => if test c then some rest else none

/-- The rests after an expression in a text of `size` characters. A text has one rest more than
characters, so that many rounds of a repetition find all that it can reach. -/
def Expr.run (size : Nat) : Expr → List (List Char) → List (List Char)
  | .empty, rests => rests
  | .one negated items, rests => rests.filterMap (step? fun c => items.any (·.holds c) != negated)
  | .start, rests => rests.filter fun r => r.length = size
  | .stop, rests => rests.filter List.isEmpty
  | .seq a b, rests => b.run size (a.run size rests)
  | .either a b, rests => union (a.run size rests) (b.run size rests)
  | .times a least most, rests =>
    upTo (a.run size) (match most with
      | some m => min (m - least) (size + 1)
      | none => size + 1) (iterate (a.run size) least rests)

/-- All rests of a text, itself and the empty one included. -/
def rests : List Char → List (List Char)
  | [] => [[]]
  | c :: cs => (c :: cs) :: rests cs

/-- A class of one kind of characters behind a backslash. -/
def escapedClass? : Char → Option ClassItem
  | 'w' => some (.word false)
  | 'W' => some (.word true)
  | 'd' => some (.digit false)
  | 'D' => some (.digit true)
  | 's' => some (.space false)
  | 'S' => some (.space true)
  | _ => none

/-- The character that one behind a backslash stands for. -/
def escapedChar? (c : Char) : Option Char :=
  match c with
  | 'n' => some '\n'
  | 't' => some '\t'
  | 'r' => some '\r'
  | 'f' => some '\x0c'
  | 'v' => some '\x0b'
  | 'a' => some '\x07'
  | c =>
    if c.toNat < 128 && !c.isAlphanum && c != '<' && c != '>' then some c else none

def ofChar (c : Char) : Expr :=
  .one false [.range c c]

/-- Any character but the end of a line. -/
def anyChar : Expr :=
  .one true [.range '\n' '\n']

/-- A character of a class in brackets: itself or behind a backslash. -/
def classChar? : List Char → Option (Char × List Char)
  | '\\' :: c :: rest => (escapedChar? c).map fun c => (c, rest)
  | '\\' :: [] => none
  | '[' :: _ => none
  | c :: rest => some (c, rest)
  | [] => none

/-- The items of a class up to its closing bracket; a bracket in front is an item. -/
def readItems (fuel : Nat) (first : Bool) (done : List ClassItem) (cs : List Char) :
    Option (List ClassItem × List Char) :=
  match fuel, cs with
  | 0, _ => none
  | _ + 1, [] => none
  | fuel + 1, ']' :: rest =>
    if first then readItems fuel false (.range ']' ']' :: done) rest else some (done, rest)
  | fuel + 1, cs =>
    match cs with
    | '&' :: '&' :: _ => none
    | '~' :: '~' :: _ => none
    | '\\' :: c :: rest =>
      match escapedClass? c with
      | some item =>
        match rest with
        | '-' :: ']' :: _ => readItems fuel false (item :: done) rest
        | '-' :: _ => none
        | _ => readItems fuel false (item :: done) rest
      | none => readRange fuel done cs
    | '-' :: '-' :: _ => if first then readRange fuel done cs else none
    | _ => readRange fuel done cs
where
  /-- A character, or two with a hyphen in their middle. -/
  readRange (fuel : Nat) (done : List ClassItem) (cs : List Char) :
      Option (List ClassItem × List Char) :=
    match classChar? cs with
    | none => none
    | some (low, '-' :: ']' :: rest) => readItems fuel false (.range low low :: done) ('-' :: ']' :: rest)
    | some (low, '-' :: rest) =>
      match classChar? rest with
      | none => none
      | some (high, rest) =>
        if low ≤ high then readItems fuel false (.range low high :: done) rest else none
    | some (low, rest) => readItems fuel false (.range low low :: done) rest

/-- A class behind its opening bracket. -/
def readClass (cs : List Char) : Option (Expr × List Char) :=
  let (negated, cs) :=
    match cs with
    | '^' :: rest => (true, rest)
    | rest => (false, rest)
  (readItems (cs.length + 1) true [] cs).map fun r => (.one negated r.1, r.2)

/-- The bounds of a repetition behind its opening brace. -/
def readBounds (cs : List Char) : Option ((Nat × Option Nat) × List Char) :=
  match readNumber cs with
  | none => none
  | some (least, '\x7d' :: rest) => some ((least, some least), rest)
  | some (least, ',' :: '\x7d' :: rest) => some ((least, none), rest)
  | some (least, ',' :: rest) =>
    match readNumber rest with
    | some (most, '\x7d' :: rest) => if least ≤ most then some ((least, some most), rest) else none
    | _ => none
  | _ => none
where
  /-- One digit or more. -/
  readNumber (cs : List Char) : Option (Nat × List Char) :=
    let ds := cs.takeWhile Char.isDigit
    if ds.isEmpty then none
    else some (ds.foldl (fun n c => 10 * n + (c.toNat - '0'.toNat)) 0, cs.dropWhile Char.isDigit)

/-- The repetition marks after an expression. -/
def readMarks (fuel : Nat) (e : Expr) (cs : List Char) : Option (Expr × List Char) :=
  match fuel, cs with
  | fuel + 1, '*' :: rest => readMarks fuel (.times e 0 none) (dropLazy rest)
  | fuel + 1, '+' :: rest => readMarks fuel (.times e 1 none) (dropLazy rest)
  | fuel + 1, '?' :: rest => readMarks fuel (.times e 0 (some 1)) (dropLazy rest)
  | fuel + 1, '\x7b' :: rest =>
    match readBounds rest with
    | none => none
    | some ((least, most), rest) => readMarks fuel (.times e least most) (dropLazy rest)
  | _, _ => some (e, cs)
where
  /-- A mark may ask for few repetitions rather than many; where a match is does not matter. -/
  dropLazy : List Char → List Char
    | '?' :: rest => rest
    | rest => rest

/-- The body of a group: a group may be marked as one that is not remembered, or have a name. -/
def groupBody? : List Char → Option (List Char)
  | '?' :: ':' :: rest => some rest
  | '?' :: 'P' :: '<' :: rest => afterName rest
  | '?' :: '<' :: rest => afterName rest
  | '?' :: _ => none
  | rest => some rest
where
  afterName (cs : List Char) : Option (List Char) :=
    let name := cs.takeWhile fun c => c.isAlphanum || c = '_'
    match name, cs.drop name.length with
    | c :: _, '>' :: rest => if c.isDigit then none else some rest
    | _, _ => none

mutual
/-- Alternatives up to the end of the group or the text. -/
def readEither (fuel : Nat) (cs : List Char) : Option (Expr × List Char) :=
  match fuel with
  | 0 => none
  | fuel + 1 =>
    match readSeq fuel cs with
    | none => none
    | some (e, '|' :: rest) =>
      match readEither fuel rest with
      | none => none
      | some (f, rest) => some (.either e f, rest)
    | some (e, rest) => some (e, rest)

/-- Expressions one after the other. -/
def readSeq (fuel : Nat) (cs : List Char) : Option (Expr × List Char) :=
  match fuel with
  | 0 => none
  | fuel + 1 =>
    match cs with
    | [] => some (.empty, [])
    | '|' :: _ => some (.empty, cs)
    | ')' :: _ => some (.empty, cs)
    | _ =>
      match (readAtom fuel cs).bind fun r => readMarks (r.2.length + 1) r.1 r.2 with
      | none => none
      | some (e, rest) =>
        match readSeq fuel rest with
        | none => none
        | some (f, rest) => some (.seq e f, rest)

/-- One expression without the marks behind it. -/
def readAtom (fuel : Nat) (cs : List Char) : Option (Expr × List Char) :=
  match fuel with
  | 0 => none
  | fuel + 1 =>
    match cs with
    | '(' :: rest =>
      match (groupBody? rest).bind (readEither fuel) with
      | some (e, ')' :: rest) => some (e, rest)
      | _ => none
    | '[' :: rest => readClass rest
    | '.' :: rest => some (anyChar, rest)
    | '^' :: rest => some (.start, rest)
    | '$' :: rest => some (.stop, rest)
    | '\\' :: c :: rest =>
      match escapedClass? c with
      | some item => some (.one false [item], rest)
      | none => (escapedChar? c).map fun c => (ofChar c, rest)
    | '*' :: _ => none
    | '+' :: _ => none
    | '?' :: _ => none
    | '\x7b' :: _ => none
    | '\\' :: [] => none
    | c :: rest => some (ofChar c, rest)
    | [] => none
end

end Pattern

/-- A pattern and the text it is written as. -/
structure Pattern where
  text : String
  expr : Pattern.Expr

namespace Pattern

/-- Reads a pattern. Every call takes a character or leads to a call that does. -/
def ofText? (text : String) : Option Pattern :=
  let cs := text.toList
  match readEither (3 * cs.length + 3) cs with
  | some (e, []) => some ⟨text, e⟩
  | _ => none

/-- The pattern matches somewhere in the text. -/
def finds (p : Pattern) (text : String) : Bool :=
  let cs := text.toList
  !(p.expr.run cs.length (rests cs)).isEmpty

end Pattern

end AgentContent
