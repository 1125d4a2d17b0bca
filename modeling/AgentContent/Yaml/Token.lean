import AgentContent.Yaml.Scalar

/-!
# AgentContent.Yaml.Token

The words of a settings document: indicators, texts, and the starts and ends of indented blocks,
which nothing but the columns of the lines shows. That a text is the key of a mapping shows only
at the colon behind it: until then it is kept in mind where a key may have started.

* `Token.scan`: the words of a source.
-/

namespace AgentContent
namespace Yaml

inductive Token where
  | version
  | tagDirective (handle space : String)
  | documentStart
  | documentEnd
  | blockSequence
  | blockMapping
  | blockEnd
  | flowSequence
  | flowSequenceEnd
  | flowMapping
  | flowMappingEnd
  | blockEntry
  | flowEntry
  | key
  | value
  | alias (name : String)
  | anchor (name : String)
  | tag (handle rest : String)
  | scalar (value : Scalar)

namespace Token

/-- A place where a key may have started: the words before it, and whether it has to be a key. -/
structure KeyMark where
  number : Nat
  place : Place
  required : Bool

/-- What has been read so far: the words, the columns of the open blocks from the inside, whether a
key may start here, and where one may have started, here and in the flow collections around. -/
structure Scan where
  tokens : Array Token := #[]
  columns : List Nat := []
  keyAllowed : Bool := true
  mark : Option KeyMark := none
  outer : List (Option KeyMark) := []

namespace Scan

def inFlow (k : Scan) : Bool :=
  !k.outer.isEmpty

def push (k : Scan) (t : Token) : Scan :=
  { k with tokens := k.tokens.push t }

def insert (k : Scan) (number : Nat) (t : Token) : Scan :=
  { k with tokens := k.tokens.insertIdxIfInBounds number t }

def allowKey (k : Scan) (allowed : Bool) : Scan :=
  { k with keyAllowed := allowed }

/-- Starts a block at a column, unless one is open there. -/
def openBlock (k : Scan) (number column : Nat) (t : Token) : Scan :=
  if k.inFlow || k.columns.head?.any (column ≤ ·) then k
  else { k.insert number t with columns := column :: k.columns }

/-- Ends the blocks that start to the right of a column. -/
def closeColumns (column : Nat) (tokens : Array Token) : List Nat → Array Token × List Nat
  | [] => (tokens, [])
  | c :: rest =>
    if column < c then closeColumns column (tokens.push .blockEnd) rest else (tokens, c :: rest)

def closeBlocks (k : Scan) (column : Nat) : Scan :=
  if k.inFlow then k
  else
    let (tokens, columns) := closeColumns column k.tokens k.columns
    { k with tokens := tokens, columns := columns }

/-- Ends all blocks. -/
def closeAll (k : Scan) : Scan :=
  if k.inFlow then k
  else { k with tokens := k.tokens ++ k.columns.map (fun _ => Token.blockEnd), columns := [] }

/-- Forgets the place where a key may have started, unless it had to be one. -/
def dropMark (k : Scan) : Option Scan :=
  if k.mark.any (·.required) then none else some { k with mark := none }

/-- Keeps a place in mind where a key may start. -/
def setMark (k : Scan) (p : Place) : Option Scan :=
  if k.keyAllowed then
    match k.dropMark with
    | none => none
    | some k =>
      some { k with mark := some ⟨k.tokens.size, p, !k.inFlow && k.columns.head? = some p.column⟩ }
  else some k

/-- A key that starts at the mark has to be on one line and to be short. -/
def KeyMark.isPast (m : KeyMark) (p : Place) : Bool :=
  m.place.line < p.line || m.place.index + 1024 < p.index

/-- Marks that are not past. A mark that has to be a key does not pass. -/
def freshMark (p : Place) : Option KeyMark → Option (Option KeyMark)
  | none => some none
  | some m => if KeyMark.isPast m p then if m.required then none else some none else some (some m)

def dropPast (k : Scan) (p : Place) : Option Scan :=
  match freshMark p k.mark, k.outer.mapM (freshMark p) with
  | some mark, some outer => some { k with mark := mark, outer := outer }
  | _, _ => none

/-- Goes into a flow collection. -/
def enterFlow (k : Scan) : Scan :=
  { k with mark := none, outer := k.mark :: k.outer }

/-- Leaves a flow collection. -/
def leaveFlow (k : Scan) : Scan :=
  match k.outer with
  | [] => k
  | mark :: outer => { k with mark := mark, outer := outer }

end Scan

/-- The source at the next word, and whether a key may start there. White space and comments are
passed over; a tab is white space only where no key may start. A new line lets a key start. -/
def skip (inFlow keyAllowed inComment : Bool) (s : Source) : Bool × Source :=
  match s with
  | [] => (keyAllowed, [])
  | (c, p) :: rest =>
    if isBreak c then skip inFlow (keyAllowed || !inFlow) false rest
    else if inComment || c = ' ' || (c = '\t' && (inFlow || !keyAllowed)) then
      skip inFlow keyAllowed inComment rest
    else if c = '#' then skip inFlow keyAllowed true rest
    else (keyAllowed, (c, p) :: rest)

/-- The name of an anchor, which white space or a mark ends. -/
def readName (s : Source) : Option (String × Source) :=
  let name := s.takeWhile isNameChar
  let rest := s.dropWhile isNameChar
  if !name.isEmpty && (rest.atGap || rest.next?.any "?:,]\x7d%@\x60".toList.contains) then
    some (String.ofList name, rest)
  else none

/-- Characters of a tag besides those of names. -/
def isTagMark (c : Char) : Bool :=
  ";/?:@&=+$.%!~*'()".toList.contains c

def isTagChar (c : Char) : Bool :=
  isNameChar c || isTagMark c

/-- Characters of a tag that is written in full. -/
def isFullTagChar (c : Char) : Bool :=
  isTagChar c || c = ',' || c = '[' || c = ']'

/-- The bytes of a part of a tag, in which a percent sign and two digits stand for a byte. -/
def tagBytes? (cs : List Char) : Option (List UInt8) :=
  match cs with
  | [] => some []
  | '%' :: a :: b :: rest =>
    match readHex? [a, b], tagBytes? rest with
    | some n, some bs => some (UInt8.ofNat n :: bs)
    | _, _ => none
  | '%' :: _ => none
  | c :: rest => (tagBytes? rest).map (UInt8.ofNat c.toNat :: ·)

def tagText? (cs : List Char) : Option String :=
  (tagBytes? cs).bind fun bs => String.fromUTF8? ⟨bs.toArray⟩

/-- The handle in front of a tag: an exclamation mark, or a name between two. -/
def readHandle (s : Source) : Option (List Char × Source) :=
  match s with
  | ('!', _) :: rest =>
    let name := Source.takeWhile isNameChar rest
    match Source.dropWhile isNameChar rest with
    | ('!', _) :: rest => some ('!' :: name ++ ['!'], rest)
    | rest => some ('!' :: name, rest)
  | _ => none

/-- A tag that is written in full ends with its bracket. -/
def readFullTag (s : Source) : Option (Token × Source) :=
  let cs := s.takeWhile isFullTagChar
  match s.dropWhile isFullTagChar with
  | ('>', _) :: rest => if cs.isEmpty then none else (tagText? cs).map fun t => (.tag "" t, rest)
  | _ => none

/-- The tag at an exclamation mark. -/
def readTag (s : Source) : Option (Token × Source) :=
  match s with
  | ('!', _) :: ('<', _) :: rest => readFullTag rest
  | s =>
    match readHandle s with
    | none => none
    | some (handle, rest) =>
      let cs := rest.takeWhile isTagChar
      let after := rest.dropWhile isTagChar
      if 1 < handle.length && handle.getLast? = some '!' then
        if cs.isEmpty then none
        else (tagText? cs).map fun t => (.tag (String.ofList handle) t, after)
      else
        match tagText? (handle.drop 1 ++ cs) with
        | none => none
        | some "" => some (.tag "" "!", after)
        | some t => some (.tag "!" t, after)

/-- A whole number of at most nine digits. -/
def readVersionPart (s : Source) : Option (Nat × Source) :=
  let ds := s.takeWhile Char.isDigit
  if ds.isEmpty || 9 < ds.length then none
  else some (natOfDigits ds, s.dropWhile Char.isDigit)

/-- The version that a document asks for has to be 1.1 or 1.2. -/
def readVersion (s : Source) : Option (Token × Source) :=
  match readVersionPart s.dropGaps with
  | some (1, ('.', _) :: rest) =>
    match readVersionPart rest with
    | some (n, rest) => if n = 1 || n = 2 then some (.version, rest) else none
    | none => none
  | _ => none

/-- A handle and the text that it stands for. -/
def readTagDirective (s : Source) : Option (Token × Source) :=
  match readHandle s.dropGaps with
  | none => none
  | some (handle, rest) =>
    let text := rest.dropGaps
    let cs := text.takeWhile isFullTagChar
    if (1 < handle.length && handle.getLast? ≠ some '!') || !rest.next?.any isGap || cs.isEmpty ||
        !(text.dropWhile isFullTagChar).atGap then none
    else
      (tagText? cs).map fun t =>
        (.tagDirective (String.ofList handle) t, text.dropWhile isFullTagChar)

/-- The directive behind a percent sign. Nothing but a comment may follow it. -/
def readDirective (s : Source) : Option (Token × Source) :=
  let rest := s.dropWhile isNameChar
  let found :=
    if !rest.atGap then none
    else if s.takeWhile isNameChar = "YAML".toList then readVersion rest
    else if s.takeWhile isNameChar = "TAG".toList then readTagDirective rest
    else none
  match found with
  | none => none
  | some (t, rest) => rest.endOfLine?.map fun rest => (t, rest)

/-- Adds a word at which no key starts. -/
def Scan.plain (k : Scan) (keyAllowed : Bool) (t : Token) (rest : Source) : Option (Scan × Source) :=
  match k.dropMark with
  | none => none
  | some k => some ((k.push t).allowKey keyAllowed, rest)

/-- Adds a word at which a key may start, none right behind it. -/
def Scan.starting (k : Scan) (p : Place) (t : Token) (keyAllowed : Bool) (rest : Source) :
    Option (Scan × Source) :=
  match k.setMark p with
  | none => none
  | some k => some ((k.push t).allowKey keyAllowed, rest)

/-- Adds a word that stands at the start of a line, outside of everything. -/
def Scan.between (k : Scan) (t : Token) (rest : Source) : Option (Scan × Source) :=
  k.closeAll.plain false t rest

/-- Starts a flow collection. -/
def Scan.openFlow (k : Scan) (p : Place) (t : Token) (rest : Source) : Option (Scan × Source) :=
  match k.setMark p with
  | none => none
  | some k => some ((k.enterFlow.push t).allowKey true, rest)

/-- Ends a flow collection. -/
def Scan.closeFlow (k : Scan) (t : Token) (rest : Source) : Option (Scan × Source) :=
  match k.dropMark with
  | none => none
  | some k => some ((k.leaveFlow.push t).allowKey false, rest)

/-- Adds an indicator that starts a block where it is the first of its column. -/
def Scan.indicator (k : Scan) (p : Place) (block t : Token) (keyAllowed : Bool) (rest : Source) :
    Option (Scan × Source) :=
  if k.inFlow then k.plain keyAllowed t rest
  else if k.keyAllowed then (k.openBlock k.tokens.size p.column block).plain keyAllowed t rest
  else none

/-- Adds a colon: what started at the mark is a key. -/
def Scan.colon (k : Scan) (p : Place) (rest : Source) : Option (Scan × Source) :=
  match k.mark with
  | some m =>
    let k := (k.insert m.number .key).openBlock m.number m.place.column .blockMapping
    some ({ k.push .value with mark := none, keyAllowed := false }, rest)
  | none => k.indicator p .blockMapping .value (!k.inFlow) rest

/-- A plain text may start with the character. -/
def startsPlain (inFlow : Bool) (c : Char) (rest : Source) : Bool :=
  !(isGap c || "-?:,[]\x7b\x7d#&*!|>'\"%@\x60".toList.contains c) ||
    (c = '-' && !rest.next?.any isGap) || (!inFlow && (c = '?' || c = ':') && !rest.atGap)

/-- Adds the word at a character. -/
def word (k : Scan) (c : Char) (p : Place) (rest : Source) : Option (Scan × Source) :=
  let s := (c, p) :: rest
  if p.column = 0 && c = '%' then
    (readDirective rest).bind fun (t, rest) => k.between t rest
  else if Source.startsRule '-' s then k.between .documentStart (rest.drop 2)
  else if Source.startsRule '.' s then k.between .documentEnd (rest.drop 2)
  else if c = '[' then k.openFlow p .flowSequence rest
  else if c = '\x7b' then k.openFlow p .flowMapping rest
  else if c = ']' then k.closeFlow .flowSequenceEnd rest
  else if c = '\x7d' then k.closeFlow .flowMappingEnd rest
  else if c = ',' then k.plain true .flowEntry rest
  else if c = '-' && rest.atGap then k.indicator p .blockSequence .blockEntry true rest
  else if c = '?' && (k.inFlow || rest.atGap) then
    k.indicator p .blockMapping .key (!k.inFlow) rest
  else if c = ':' && (k.inFlow || rest.atGap) then k.colon p rest
  else if c = '*' then (readName rest).bind fun (n, rest) => k.starting p (.alias n) false rest
  else if c = '&' then (readName rest).bind fun (n, rest) => k.starting p (.anchor n) false rest
  else if c = '!' then
    (readTag s).bind fun (t, rest) =>
      if rest.atGap || (k.inFlow && rest.next? = some ',') then k.starting p t false rest else none
  else if (c = '|' || c = '>') && !k.inFlow then
    (readBlock (c = '>') k.columns.head? rest).bind fun (v, rest) => k.plain true (.scalar v) rest
  else if c = '\'' then
    (readSingle {} rest).bind fun (cs, rest) =>
      k.starting p (.scalar ⟨String.ofList cs, .quoted⟩) false rest
  else if c = '"' then
    (readDouble {} rest).bind fun (cs, rest) =>
      k.starting p (.scalar ⟨String.ofList cs, .quoted⟩) false rest
  else if startsPlain k.inFlow c rest then
    (readPlain k.inFlow (k.columns.head?.elim 0 (· + 1)) {} s).bind fun (cs, broken, rest) =>
      k.starting p (.scalar ⟨String.ofList cs, .plain⟩) broken rest
  else none

/-- All words, in at most `fuel` of them and of the white space between them. -/
def scanFrom (fuel : Nat) (k : Scan) (s : Source) : Option (List Token) :=
  match fuel with
  | 0 => none
  | fuel + 1 =>
    let (keyAllowed, s) := skip k.inFlow k.keyAllowed false s
    match s with
    | [] => (k.closeAll.dropMark).map (·.tokens.toList)
    | (c, p) :: rest =>
      match ((k.allowKey keyAllowed).dropPast p).bind fun k =>
          word (k.closeBlocks p.column) c p rest with
      | none => none
      | some (k, s) => scanFrom fuel k s

/-- The words of a source. Every word takes a character or more. -/
def scan (s : Source) : Option (List Token) :=
  scanFrom (s.length + 1) {} s

end Token
end Yaml
end AgentContent
