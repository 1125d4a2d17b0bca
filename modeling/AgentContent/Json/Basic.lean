import AgentContent.Number.Numeral
import AgentContent.Number.Shortest

/-!
# AgentContent.Json.Basic

Data documents. Members of an object keep the order of the text; `Json.sorted` is the form in which
they are in the order of their names, the last of two members of one name counting.

Integers of 64 bits, signed or not, stay integers; every other number is a float.
-/

namespace AgentContent

inductive Json where
  | null
  | bool (value : Bool)
  | integer (value : Int)
  | float (value : Binary64)
  | string (value : String)
  | array (items : List Json)
  | object (members : List (String × Json))
  deriving Inhabited

namespace Json

/-- The value of the first member of the name. -/
def member? (name : String) : List (String × Json) → Option Json
  | [] => none
  | (k, v) :: rest => if k = name then some v else member? name rest

theorem sizeOf_lt_of_member? {name : String} {members : List (String × Json)} {v : Json}
    (h : member? name members = some v) : sizeOf v < sizeOf members := by
  induction members with
  | nil => simp [member?] at h
  | cons m rest ih =>
    obtain ⟨k, w⟩ := m
    simp only [member?] at h
    split at h
    · cases h; simp; omega
    · have := ih h; simp; omega

/-- How often a member of the name occurs. -/
def occurrences (name : String) (members : List (String × Json)) : Nat :=
  (members.filter fun m => m.1 = name).length

/-- None of the names occurs twice. -/
def once (names : List String) (members : List (String × Json)) : Bool :=
  names.all fun n => occurrences n members ≤ 1

/-- A member put in its place among members in the order of their names. -/
def insertSorted (name : String) (value : Json) : List (String × Json) → List (String × Json)
  | [] => [(name, value)]
  | (k, v) :: rest =>
    if name = k then (k, value) :: rest
    else if name < k then (name, value) :: (k, v) :: rest
    else (k, v) :: insertSorted name value rest

def sortMembers (members : List (String × Json)) : List (String × Json) :=
  members.foldl (fun done m => insertSorted m.1 m.2 done) []

mutual
/-- All objects of the document with their members in the order of the names. -/
def sorted : Json → Json
  | .array items => .array (sortedItems items)
  | .object members => .object (sortMembers (sortedMembers members))
  | v => v

def sortedItems : List Json → List Json
  | [] => []
  | v :: rest => v.sorted :: sortedItems rest

def sortedMembers : List (String × Json) → List (String × Json)
  | [] => []
  | (k, v) :: rest => (k, v.sorted) :: sortedMembers rest
end

def string? : Json → Option String
  | .string s => some s
  | _ => none

def bool? : Json → Option Bool
  | .bool b => some b
  | _ => none

def array? : Json → Option (List Json)
  | .array items => some items
  | _ => none

/-- An integer of 64 bits with a sign. -/
def int64? : Json → Option Int
  | .integer n => if fitsInt64 n then some n else none
  | _ => none

/-- Any number, integers rounded. -/
def float? : Json → Option Binary64
  | .integer n => some (.ofInt n)
  | .float x => some x
  | _ => none

/-- An integer between 0 and 255. -/
def byte? : Json → Option UInt8
  | .integer n => if 0 ≤ n && n ≤ 255 then some (UInt8.ofNat n.toNat) else none
  | _ => none

def bytes? (items : List Json) : Option (List UInt8) :=
  items.mapM byte?

end Json

end AgentContent
