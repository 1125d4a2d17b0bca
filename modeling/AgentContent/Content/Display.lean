import AgentContent.Content.Basic
import AgentContent.Number.Shortest
import AgentContent.Text.Escaped
import AgentContent.Time.Rfc3339

/-!
# AgentContent.Content.Display

The text of a value in messages and displays: slots behind their names, elements and parts one
after the other, a question mark before a variable and two before a meta-variable.
-/

namespace AgentContent

def Primitive.display : Primitive → String
  | .string s => quoted s
  | .boolean b => if b then "true" else "false"
  | .integer n => toString n
  | .float x => String.ofList (FloatStyle.display.write x)
  | .date t => t.toDisplay
  | .bytes bs => "#" ++ toString bs.length ++ "bytes"

namespace Content

mutual
def display : Content → String
  | .primitive p => p.display
  | .slotted _ type slots => "(" ++ type ++ displaySlots slots ++ ")"
  | .aggregate type elements _ => "(" ++ type ++ displayAll elements ++ ")"
  | .variable slots isMeta => (if isMeta then "??" else "?") ++ variableName slots
  | .ire type referent proposition =>
    "(" ++ type ++ " " ++ referent.display ++ " " ++ proposition.display ++ ")"
  | .list [] => "()"
  | .list (c :: rest) => "(" ++ c.display ++ displayAll rest ++ ")"

def displayAll : List Content → String
  | [] => ""
  | c :: rest => " " ++ c.display ++ displayAll rest

def displaySlots : List (String × Content) → String
  | [] => ""
  | (k, c) :: rest => " :" ++ k ++ " " ++ c.display ++ displaySlots rest
end

end Content
end AgentContent
