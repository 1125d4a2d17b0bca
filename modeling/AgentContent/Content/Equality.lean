import AgentContent.Content.Basic

/-!
# AgentContent.Content.Equality

Structural equality of content, and digests: equal contents have equal ones.

* `Content.same`: the order of slots, the case of their names and the templates of aggregates do not
  count; floats are equal when their bits are.
* `Content.digest`: the digest of a content by any hash function on sequences of feeds. Slots are
  taken in the order of their folded names, and templates of elements are left out.
* `mixing`: a hash function.
-/

namespace AgentContent
namespace Content

mutual
def same : Content → Content → Bool
  | .primitive p, .primitive q => p = q
  | .slotted r t xs, .slotted r' t' ys => r = r' && t = t' && xs.length = ys.length && sameSlots xs ys
  | .aggregate t xs _, .aggregate t' ys _ => t = t' && sameAll xs ys
  | .variable xs m, .variable ys m' => xs.length = ys.length && sameSlots xs ys && m = m'
  | .ire t v p, .ire t' v' p' => t = t' && v.same v' && p.same p'
  | .list xs, .list ys => sameAll xs ys
  | _, _ => false

def sameAll : List Content → List Content → Bool
  | [], [] => true
  | c :: xs, d :: ys => c.same d && sameAll xs ys
  | _, _ => false

/-- Every entry on the left has an equal one of its name on the right. -/
def sameSlots : List (String × Content) → List (String × Content) → Bool
  | [], _ => true
  | (k, c) :: xs, ys =>
    (match Slots.get? k ys with
      | some d => c.same d
      | none => false) && sameSlots xs ys
end

end Content

/-! ## Digests -/

/-- What is fed into a hash function. -/
inductive Feed where
  | number (n : Nat)
  | text (s : String)
  | digest (d : UInt64)
  deriving DecidableEq

abbrev HashFunction := List Feed → UInt64

def Primitive.feeds : Primitive → List Feed
  | .string s => [.number 0, .text s]
  | .boolean b => [.number 1, .number b.toNat]
  | .integer n => [.number 2, .number n.natAbs, .number (if n < 0 then 1 else 0)]
  | .float x => [.number 3, .digest x.bits]
  | .date t =>
    [.number 4, .number t.year.natAbs, .number (if t.year < 0 then 1 else 0), .number t.month,
      .number t.day, .number t.hour, .number t.minute, .number t.second, .number t.nano]
  | .bytes bs => .number 5 :: .number bs.length :: bs.map fun b => .number b.toNat

namespace Content

def Kind.feed : Kind → Feed
  | .primitive => .number 0
  | .concept => .number 1
  | .agentAction => .number 2
  | .predicate => .number 3
  | .aggregate => .number 4
  | .variable => .number 5
  | .ire => .number 6
  | .contentElementList => .number 7

def roleKind : Role → Kind
  | .concept => .concept
  | .agentAction => .agentAction
  | .predicate => .predicate

/-- Slots in the order of their folded names. -/
def slotFeeds (digests : List (String × UInt64)) : List Feed :=
  let keyed := digests.map fun e => (foldName e.1, e.2)
  let sorted := keyed.mergeSort fun a b => a.1 ≤ b.1
  .number digests.length :: sorted.flatMap fun e => [.text e.1, .digest e.2]

def slottedFeeds (role : Role) (type : String) (digests : List (String × UInt64)) : List Feed :=
  (roleKind role).feed :: .text type :: slotFeeds digests

def aggregateFeeds (type : String) (digests : List UInt64) : List Feed :=
  Kind.aggregate.feed :: .text type :: .number digests.length :: digests.map .digest

def variableFeeds (isMeta : Bool) (digests : List (String × UInt64)) : List Feed :=
  Kind.variable.feed :: .number isMeta.toNat :: slotFeeds digests

def ireFeeds (type : String) (referent proposition : UInt64) : List Feed :=
  [Kind.ire.feed, .text type, .digest referent, .digest proposition]

def listFeeds (digests : List UInt64) : List Feed :=
  Kind.contentElementList.feed :: .number digests.length :: digests.map .digest

mutual
def digest (h : HashFunction) : Content → UInt64
  | .primitive p => h (Kind.primitive.feed :: p.feeds)
  | .slotted role type slots => h (slottedFeeds role type (digestSlots h slots))
  | .aggregate type elements _ => h (aggregateFeeds type (digestAll h elements))
  | .variable slots isMeta => h (variableFeeds isMeta (digestSlots h slots))
  | .ire type referent proposition =>
    h (ireFeeds type (digest h referent) (digest h proposition))
  | .list elements => h (listFeeds (digestAll h elements))

def digestAll (h : HashFunction) : List Content → List UInt64
  | [] => []
  | c :: rest => digest h c :: digestAll h rest

def digestSlots (h : HashFunction) : List (String × Content) → List (String × UInt64)
  | [] => []
  | (k, c) :: rest => (k, digest h c) :: digestSlots h rest
end

end Content

def mixStep (acc : UInt64) (n : Nat) : UInt64 :=
  let mixed : UInt64 := acc ^^^ UInt64.ofNat n
  let spread : UInt64 := mixed * 1099511628211
  spread ^^^ (spread >>> 29)

/-- A hash function that takes the feeds one after the other. -/
def mixing : HashFunction := fun feeds =>
  feeds.foldl (fun acc f =>
    match f with
    | .number n => mixStep (mixStep acc 1) n
    | .text s => s.toList.foldl (fun a c => mixStep a c.toNat) (mixStep (mixStep acc 2) s.length)
    | .digest d => mixStep (mixStep acc 3) d.toNat) 14695981039346656037

end AgentContent
