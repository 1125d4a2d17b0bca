import AgentContent.Json.Basic

/-!
# AgentContent.AgentId.Basic

Agent identifiers: a name, addresses, and resolvers that are identifiers themselves.

* `AgentId.toJson`, `AgentId.ofJson?`: the identifier as a data document; addresses and resolvers
  may be missing.
-/

namespace AgentContent

inductive AgentId where
  | mk (name : String) (addresses : List String) (resolvers : List AgentId)
  deriving Inhabited

namespace AgentId

def name : AgentId → String
  | mk name _ _ => name

def addresses : AgentId → List String
  | mk _ addresses _ => addresses

def resolvers : AgentId → List AgentId
  | mk _ _ resolvers => resolvers

def withAddress (a : AgentId) (address : String) : AgentId :=
  mk a.name (a.addresses ++ [address]) a.resolvers

def withResolver (a resolver : AgentId) : AgentId :=
  mk a.name a.addresses (a.resolvers ++ [resolver])

/-- The part of the name before the platform. -/
def localName (a : AgentId) : String :=
  String.ofList (a.name.toList.takeWhile (· ≠ '@'))

mutual
def same : AgentId → AgentId → Bool
  | mk n as rs, mk n' as' rs' => n = n' && as = as' && sameAll rs rs'

def sameAll : List AgentId → List AgentId → Bool
  | [], [] => true
  | a :: as, b :: bs => a.same b && sameAll as bs
  | _, _ => false
end

mutual
def toJson : AgentId → Json
  | mk name addresses resolvers =>
    .object [("name", .string name), ("addresses", .array (addresses.map .string)),
      ("resolvers", .array (allToJson resolvers))]

def allToJson : List AgentId → List Json
  | [] => []
  | a :: rest => a.toJson :: allToJson rest
end

/-- A list of strings. -/
def addressesOf? : Json → Option (List String)
  | .array items => items.mapM Json.string?
  | _ => none

def addressesMember? (members : List (String × Json)) : Option (List String) :=
  match Json.member? "addresses" members with
  | none => some []
  | some v => addressesOf? v

mutual
/-- Reads an object with a name, or a list that starts with one. Members that have no meaning do
not count, those that have one may not be given twice. -/
def ofJson? (v : Json) : Option AgentId :=
  match v with
  | .object members =>
    if Json.once ["name", "addresses", "resolvers"] members then
      match (Json.member? "name" members).bind Json.string?, addressesMember? members,
        resolversMember? members with
      | some name, some addresses, some resolvers => some (mk name addresses resolvers)
      | _, _, _ => none
    else none
  | .array [.string name] => some (mk name [] [])
  | .array [.string name, addresses] => (addressesOf? addresses).map fun as => mk name as []
  | .array [.string name, addresses, .array resolvers] =>
    match addressesOf? addresses, allOfJson? resolvers with
    | some as, some rs => some (mk name as rs)
    | _, _ => none
  | _ => none
termination_by sizeOf v

def resolversMember? (members : List (String × Json)) : Option (List AgentId) :=
  match _h : Json.member? "resolvers" members with
  | none => some []
  | some (.array items) => allOfJson? items
  | some _ => none
termination_by sizeOf members
decreasing_by have := Json.sizeOf_lt_of_member? _h; simp at this; omega

def allOfJson? (items : List Json) : Option (List AgentId) :=
  match items with
  | [] => some []
  | v :: rest =>
    match ofJson? v, allOfJson? rest with
    | some a, some as => some (a :: as)
    | _, _ => none
termination_by sizeOf items
end

end AgentId

end AgentContent
