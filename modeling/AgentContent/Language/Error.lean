import AgentContent.Ontology.Error

/-!
# AgentContent.Language.Error

What content languages refuse: messages that do not say how they are to be read, texts that say
nothing, and content that has no text.

* `Failure`: a reported error, or a request for more memory than there can be, which is reported to
  nobody.
* `CodecError`: what becomes of either where a language is used.
-/

namespace AgentContent

/-! ## Memory -/

/-- The bytes that one allocation can have at most. -/
def maxCapacity : Nat := 0x7FFFFFFFFFFFFFFF

/-- Why a computation ends without a value: it reports an error, or it asks for more memory at once
than `maxCapacity` and panics. A panic unwinds through all callers. -/
inductive Failure (ε : Type) where
  | reported (error : ε)
  | capacityOverflow

def Failure.map {ε δ : Type} (f : ε → δ) : Failure ε → Failure δ
  | .reported e => .reported (f e)
  | .capacityOverflow => .capacityOverflow

/-! ## Errors -/

/-- What is wrong with a text, at some place of it. -/
inductive Fault where
  | variableWithoutName
  | keywordWithoutName
  | unterminatedString
  | emptyLength
  | lengthTooLarge
  | noQuoteAfterLength
  | truncatedBytes
  | badPayload
  | contentNotOpened
  | notParenthesised
  | trailing
  | emptyContent
  | unexpectedEnd
  | missingClose
  | missingCloseAfter (type : String)
  | unexpectedClose
  | unexpectedKeyword (name : String)
  | noHead
  | referentAndProposition (type : String)
  | tooManyArguments (type : String)
  | badSchema (error : OntologyError)
  | undisplayable (text : String)
  | other (reason : String)

def Fault.message : Fault → String
  | .variableWithoutName => "variable without a name"
  | .keywordWithoutName => "slot keyword without a name"
  | .unterminatedString => "unterminated string"
  | .emptyLength => "invalid byte-sequence length: cannot parse integer from empty string"
  | .lengthTooLarge => "invalid byte-sequence length: number too large to fit in target type"
  | .noQuoteAfterLength => "expected '\"' after byte-sequence length"
  | .truncatedBytes => "truncated byte sequence"
  | .badPayload => "invalid base64 payload"
  | .contentNotOpened => "content must start with '('"
  | .notParenthesised => "expected a parenthesised content element"
  | .trailing => "unexpected input after content"
  | .emptyContent => "empty content"
  | .unexpectedEnd => "unexpected end of content"
  | .missingClose => "missing ')'"
  | .missingCloseAfter type => "missing ')' after " ++ type
  | .unexpectedClose => "unexpected ')'"
  | .unexpectedKeyword name => "unexpected slot keyword :" ++ name
  | .noHead => "expected a type name or operator"
  | .referentAndProposition type => type ++ " takes a variable and a proposition"
  | .tooManyArguments type => "too many positional arguments for " ++ type
  | .badSchema e => e.message
  | .undisplayable text => "cannot decode " ++ text
  | .other reason => reason

/-- A fault and the byte at which it is seen. -/
structure ParseError where
  offset : Nat
  fault : Fault

/-- What a symbol that cannot be written stands for. -/
inductive Symbol where
  | typeName
  | slotName
  | variableName

def Symbol.label : Symbol → String
  | .typeName => "type name"
  | .slotName => "slot name"
  | .variableName => "variable name"

/-- Why a content has no text. `capacityOverflow` is the panic over a text that is too long. -/
inductive EncodeError where
  | emptyList
  | nestedList
  | noSymbol (what : Symbol) (name : String)
  | notFinite (value : Binary64)
  | notFiniteJson (value : Binary64)
  | capacityOverflow
  | other (reason : String)

def EncodeError.message : EncodeError → String
  | .emptyList => "empty content element list"
  | .nestedList => "content element lists cannot be nested"
  | .noSymbol what name => what.label ++ " " ++ quoted name ++ " is not an SL symbol"
  | .notFinite x => String.ofList (FloatStyle.plain.write x) ++ " has no SL form"
  | .notFiniteJson x => String.ofList (FloatStyle.plain.write x) ++ " has no JSON form"
  | .capacityOverflow => "capacity overflow"
  | .other reason => reason

/-- The two slots for content that a message has. -/
inductive Carrier where
  | text
  | bytes
  deriving DecidableEq

def Carrier.label : Carrier → String
  | .text => "string"
  | .bytes => "byte-sequence"

/-- What comes of reading or writing content instead of a result. All but `capacityOverflow` are
errors that the caller gets; that one is a panic, which ends the call without an answer. -/
inductive CodecError where
  | unknownLanguage (name : String)
  | missingLanguage
  | incompatibleContent (language : String) (expected : Carrier)
  | missingContent
  | parse (error : ParseError)
  | encode (error : EncodeError)
  | notDocument
  | capacityOverflow

def CodecError.ofEncode : EncodeError → CodecError
  | .capacityOverflow => .capacityOverflow
  | e => .encode e

def CodecError.ofDecode : Failure ParseError → CodecError
  | .reported e => .parse e
  | .capacityOverflow => .capacityOverflow

/-- The text of an error. What is wrong with a data document is not told. -/
def CodecError.message : CodecError → String
  | .unknownLanguage name => "unknown language: " ++ name
  | .missingLanguage => "message does not declare a content language"
  | .incompatibleContent language expected =>
    "language " ++ language ++ " expects " ++ expected.label ++ " content"
  | .missingContent => "message has no content"
  | .parse e => "parse error at offset " ++ toString e.offset ++ ": " ++ e.fault.message
  | .encode e => "encode error: " ++ e.message
  | .notDocument => "json error"
  | .capacityOverflow => "capacity overflow"

end AgentContent
