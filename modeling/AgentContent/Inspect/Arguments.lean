/-!
# AgentContent.Inspect.Arguments

The command line of the inspection tool.

* `Request.ofArguments`: what a command line asks for. Every option is given at most once; the
  environment stands in for two of them.
* `helpText`: the options with the values that the environment has for them.
-/

namespace AgentContent
namespace Inspect

/-- Options that take a value, and the input. -/
inductive Setting where
  | config
  | language
  | ontology
  | input
  deriving DecidableEq

/-- What an option is for: a value, or an answer at once. -/
inductive Switch where
  | value (setting : Setting)
  | help
  | version

def Switch.ofLong? : String → Option Switch
  | "config" => some (.value .config)
  | "language" => some (.value .language)
  | "ontology" => some (.value .ontology)
  | "help" => some .help
  | "version" => some .version
  | _ => none

def Switch.ofShort? : Char → Option Switch
  | 'c' => some (.value .config)
  | 'l' => some (.value .language)
  | 'o' => some (.value .ontology)
  | 'h' => some .help
  | 'V' => some .version
  | _ => none

/-- What the environment has for the tool. -/
structure Environment where
  config : Option String := none
  language : Option String := none
  defaultLanguage : Option String := none

structure Arguments where
  config : Option String := none
  language : Option String := none
  ontology : Option String := none
  input : Option String := none
  deriving DecidableEq

namespace Arguments

def get? (a : Arguments) : Setting → Option String
  | .config => a.config
  | .language => a.language
  | .ontology => a.ontology
  | .input => a.input

def put (a : Arguments) (value : String) : Setting → Arguments
  | .config => { a with config := some value }
  | .language => { a with language := some value }
  | .ontology => { a with ontology := some value }
  | .input => { a with input := some value }

/-- The value can be one of the setting: paths are not empty. -/
def accepts (value : String) : Setting → Bool
  | .config => value ≠ ""
  | .language => true
  | .ontology => true
  | .input => value ≠ ""

/-- The arguments with a value that is given for the first time. -/
def give? (a : Arguments) (k : Setting) (value : String) : Option Arguments :=
  if (a.get? k).isSome || !accepts value k then none else some (a.put value k)

/-- The arguments with what the environment has for those that are not given. -/
def withEnvironment? (e : Environment) (a : Arguments) : Option Arguments :=
  let config := a.config.or e.config
  if config = some "" then none
  else some { a with config := config, language := a.language.or e.language }

end Arguments

/-- What a command line asks for. -/
inductive Request where
  | inspect (arguments : Arguments)
  | help
  | version
  | refused

/-- An argument, by its form. -/
inductive Word where
  | endOfOptions
  | long (name : String) (value : Option String)
  | short (letter : Char) (value : Option String)
  | plain (value : String)

/-- The parts of a text around the first equals sign. -/
def splitValue (cs : List Char) : String × Option String :=
  let name := String.ofList (cs.takeWhile (· ≠ '='))
  match cs.dropWhile (· ≠ '=') with
  | [] => (name, none)
  | _ :: value => (name, some (String.ofList value))

/-- The form of an argument. A hyphen alone is plain. -/
def Word.ofChars : List Char → Word
  | ['-', '-'] => .endOfOptions
  | '-' :: '-' :: cs => .long (splitValue cs).1 (splitValue cs).2
  | ['-', c] => .short c none
  | '-' :: c :: '=' :: value => .short c (some (String.ofList value))
  | '-' :: c :: value => .short c (some (String.ofList value))
  | cs => .plain (String.ofList cs)

def Word.isPlain : Word → Bool
  | .plain _ => true
  | _ => false

namespace Request

/-- The request when all arguments are read. -/
def finish (e : Environment) (a : Arguments) : Request :=
  match a.withEnvironment? e with
  | none => .refused
  | some a => .inspect a

/-- Arguments behind the end of the options, which are inputs. -/
def ofInputs (e : Environment) (a : Arguments) : List String → Request
  | [] => finish e a
  | value :: rest =>
    match a.give? .input value with
    | none => .refused
    | some a => ofInputs e a rest

/-- The request of the arguments that are left. The value of an option is attached to it or the
next argument, which then is a plain one. -/
def ofRest (e : Environment) (a : Arguments) : List String → Request
  | [] => finish e a
  | arg :: rest =>
    match Word.ofChars arg.toList with
    | .endOfOptions => ofInputs e a rest
    | .plain value =>
      match a.give? .input value with
      | none => .refused
      | some a => ofRest e a rest
    | .long name attached =>
      match Switch.ofLong? name, attached with
      | none, _ => .refused
      | some .help, none => .help
      | some .version, none => .version
      | some .help, some _ => .refused
      | some .version, some _ => .refused
      | some (.value k), attached => ofValue e a k attached rest
    | .short letter attached =>
      match Switch.ofShort? letter with
      | none => .refused
      | some .help => .help
      | some .version => .version
      | some (.value k) => ofValue e a k attached rest
where
  /-- The request from the value of an option on. -/
  ofValue (e : Environment) (a : Arguments) (k : Setting) (attached : Option String)
      (rest : List String) : Request :=
    match attached, rest with
    | some value, rest =>
      match a.give? k value with
      | none => .refused
      | some a => ofRest e a rest
    | none, [] => .refused
    | none, value :: rest =>
      if (Word.ofChars value.toList).isPlain then
        match a.give? k value with
        | none => .refused
        | some a => ofRest e a rest
      else .refused

def ofArguments (e : Environment) (args : List String) : Request :=
  ofRest e {} args

end Request

/-- The remark on a variable of the environment and its value. -/
def environmentNote (name : String) (value : Option String) : String :=
  " [env: " ++ name ++ "=" ++ value.getD "" ++ "]"

def helpText (e : Environment) : String :=
  String.intercalate "\n" [
    "Command-line tool that decodes, validates and prints JADE message content",
    "",
    "Usage: jade-inspect [OPTIONS] [FILE]",
    "",
    "Arguments:",
    "  [FILE]  Input file; standard input when absent",
    "",
    "Options:",
    "  -c, --config <FILE>    Path to the configuration file" ++
      environmentNote "JADE_CONTENT_CONFIG" e.config,
    "  -l, --language <NAME>  Content language of the input (overrides \x60inspect.language\x60)" ++
      environmentNote "JADE_INSPECT_LANGUAGE" e.language,
    "  -o, --ontology <NAME>  Ontology declared on the decoded message",
    "  -h, --help             Print help",
    "  -V, --version          Print version",
    ""]

def versionText : String :=
  "jade-inspect 0.1.0\n"

end Inspect
end AgentContent
