/-!
# AgentContent.Schema.Kind

The kinds of schemas. Each kind has a root schema named after it, and a value of some kind may
stand where the root of a kind that accepts it is asked for.

* `accepts_refl`, `accepts_trans`: accepting is a preorder on kinds.
-/

namespace AgentContent

inductive SchemaKind where
  | object
  | contentElement
  | term
  | primitive
  | concept
  | agentAction
  | predicate
  | aggregate
  | variable
  | ire
  | contentElementList
  deriving DecidableEq

namespace SchemaKind

def all : List SchemaKind :=
  [.object, .contentElement, .term, .primitive, .concept, .agentAction, .predicate, .aggregate,
    .variable, .ire, .contentElementList]

/-- The name of the kind and of its root schema. -/
def rootName : SchemaKind → String
  | .object => "Object"
  | .contentElement => "ContentElement"
  | .term => "Term"
  | .primitive => "Primitive"
  | .concept => "Concept"
  | .agentAction => "AgentAction"
  | .predicate => "Predicate"
  | .aggregate => "Aggregate"
  | .variable => "Variable"
  | .ire => "IRE"
  | .contentElementList => "ContentElementList"

/-- Values of the kind may fill slots of terms. -/
def isTerm : SchemaKind → Bool
  | .term | .primitive | .concept | .agentAction | .aggregate | .variable | .ire => true
  | _ => false

/-- Values of the kind have named slots. -/
def isSlotted : SchemaKind → Bool
  | .concept | .agentAction | .predicate => true
  | _ => false

/-- The first kind's values comprise those of the second. -/
def accepts (k other : SchemaKind) : Bool :=
  match k with
  | .object => true
  | .contentElement =>
    match other with
    | .contentElement | .predicate | .agentAction | .ire | .contentElementList => true
    | _ => false
  | .term => other.isTerm
  | .concept =>
    match other with
    | .concept | .agentAction => true
    | _ => false
  | k => k = other

theorem accepts_refl (k : SchemaKind) : k.accepts k = true := by
  cases k <;> rfl

theorem accepts_trans {j k l : SchemaKind} (hjk : j.accepts k = true) (hkl : k.accepts l = true) :
    j.accepts l = true := by
  cases j with
  | object => rfl
  | contentElement => cases k <;> cases hjk <;> cases l <;> first | rfl | cases hkl
  | term => cases k <;> cases hjk <;> cases l <;> first | rfl | cases hkl
  | concept => cases k <;> cases hjk <;> cases l <;> first | rfl | cases hkl
  | _ =>
    obtain rfl := of_decide_eq_true hjk
    exact hkl

/-- Only what stands for something unknown is of a kind that stands for it. -/
theorem eq_of_accepts {k l : SchemaKind} (hk : k = .variable ∨ k = .ire)
    (h : k.accepts l = true) : l = k := by
  rcases hk with rfl | rfl
  · exact (of_decide_eq_true h).symm
  · exact (of_decide_eq_true h).symm

end SchemaKind

end AgentContent
