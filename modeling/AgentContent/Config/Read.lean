import AgentContent.Config.Basic
import AgentContent.Text.Basic
import AgentContent.Yaml.Node

/-!
# AgentContent.Config.Read

Settings from the text of a settings document. What is not given takes its default; members that
have no meaning do not count, those that have one may not be given twice.

* `Config.ofText?`: the configuration of a text.
-/

namespace AgentContent

namespace Yaml.Node

/-- The text of a scalar, as it is written. -/
def text? (root n : Node) : Option String :=
  match follow root n with
  | .scalar _ v => some v.text
  | _ => none

/-- A truth value, in a plain text or in a block that its tag marks as one. -/
def truth? (root n : Node) : Option Bool :=
  match follow root n with
  | .scalar tag v =>
    if v.style = .plain || (v.style = .literal && tag = some "tag:yaml.org,2002:bool") then
      if ["true", "True", "TRUE"].contains v.text then some true
      else if ["false", "False", "FALSE"].contains v.text then some false
      else none
    else none
  | _ => none

/-- The words for nothing. -/
def isNullText (text : String) : Bool :=
  ["null", "Null", "NULL", "~"].contains text

/-- A text that may be left open by a plain scalar. -/
def optionalText? (root n : Node) : Option (Option String) :=
  match follow root n with
  | .scalar tag v =>
    if v.style ≠ .plain then some (some v.text)
    else
      match tag with
      | none => some (if v.text = "" || isNullText v.text then none else some v.text)
      | some t =>
        if t = "tag:yaml.org,2002:null" then if isNullText v.text then some none else none
        else some (some v.text)
  | _ => none

/-- The members of a mapping by their names. -/
def membersOf? (root : Node) : List (Node × Node) → Option (List (String × Node))
  | [] => some []
  | (k, v) :: rest =>
    match text? root k, membersOf? root rest with
    | some name, some members => some ((name, v) :: members)
    | _, _ => none

/-- The members of a mapping, in which none of the known names is given twice. A plain scalar
without a text is a mapping without members. -/
def members? (known : List String) (root n : Node) : Option (List (String × Node)) :=
  match follow root n with
  | .mapping entries =>
    match membersOf? root entries with
    | none => none
    | some members =>
      if known.all fun name => (members.filter fun m => m.1 = name).length ≤ 1 then some members
      else none
  | .scalar _ v => if v.style = .plain && v.text = "" then some [] else none
  | _ => none

/-- The value of a member, a default when it is missing. -/
def member? {α : Type} (read : Node → Option α) (name : String) (default : α)
    (members : List (String × Node)) : Option α :=
  match members.lookup name with
  | none => some default
  | some n => read n

end Yaml.Node

open Yaml.Node (members? member? truth? text? optionalText?)

def ContentSettings.ofNode? (root n : Yaml.Node) : Option ContentSettings := do
  let ms ← members? ["validation_mode", "reject_undeclared_slots", "default_language"] root n
  let validationMode ← member? (truth? root) "validation_mode" true ms
  let rejectUndeclaredSlots ← member? (truth? root) "reject_undeclared_slots" false ms
  let defaultLanguage ← member? (optionalText? root) "default_language" none ms
  some ⟨validationMode, rejectUndeclaredSlots, defaultLanguage⟩

def LogSettings.ofNode? (root n : Yaml.Node) : Option LogSettings := do
  let ms ← members? ["level", "json"] root n
  let level ← member? (text? root) "level" "info" ms
  let json ← member? (truth? root) "json" false ms
  some ⟨level, json⟩

def InspectSettings.ofNode? (root n : Yaml.Node) : Option InspectSettings := do
  let ms ← members? ["language", "ontology", "pretty"] root n
  let language ← member? (text? root) "language" "fipa-sl" ms
  let ontology ← member? (optionalText? root) "ontology" none ms
  let pretty ← member? (truth? root) "pretty" true ms
  some ⟨language, ontology, pretty⟩

namespace Config

def ofNode? (root : Yaml.Node) : Option Config := do
  let ms ← members? ["content", "logging", "inspect"] root root
  let content ← member? (ContentSettings.ofNode? root) "content" {} ms
  let logging ← member? (LogSettings.ofNode? root) "logging" {} ms
  let inspect ← member? (InspectSettings.ofNode? root) "inspect" {} ms
  some ⟨content, logging, inspect⟩

/-- The configuration that a text gives. A blank text gives the defaults. -/
def ofText? (text : String) : Option Config :=
  if text.toList.all isBlank then some {} else (Yaml.Node.read? text).bind ofNode?

end Config

end AgentContent
