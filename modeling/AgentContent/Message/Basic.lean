import AgentContent.AgentId.Basic
import AgentContent.Language.Error
import AgentContent.Text.Basic

/-!
# AgentContent.Message.Basic

Messages between agents: the act that they perform, who takes part, and one place for content, which
holds text or bytes.

* `Message.reply`: an answer in the same conversation, to whom the message asks to reply.
-/

namespace AgentContent

inductive Performative where
  | acceptProposal
  | agree
  | cancel
  | cfp
  | confirm
  | disconfirm
  | failure
  | inform
  | informIf
  | informRef
  | notUnderstood
  | propagate
  | propose
  | proxy
  | queryIf
  | queryRef
  | refuse
  | rejectProposal
  | request
  | requestWhen
  | requestWhenever
  | subscribe
  deriving DecidableEq

namespace Performative

def all : List Performative :=
  [.acceptProposal, .agree, .cancel, .cfp, .confirm, .disconfirm, .failure, .inform, .informIf,
    .informRef, .notUnderstood, .propagate, .propose, .proxy, .queryIf, .queryRef, .refuse,
    .rejectProposal, .request, .requestWhen, .requestWhenever, .subscribe]

def display : Performative → String
  | .acceptProposal => "ACCEPT-PROPOSAL"
  | .agree => "AGREE"
  | .cancel => "CANCEL"
  | .cfp => "CFP"
  | .confirm => "CONFIRM"
  | .disconfirm => "DISCONFIRM"
  | .failure => "FAILURE"
  | .inform => "INFORM"
  | .informIf => "INFORM-IF"
  | .informRef => "INFORM-REF"
  | .notUnderstood => "NOT-UNDERSTOOD"
  | .propagate => "PROPAGATE"
  | .propose => "PROPOSE"
  | .proxy => "PROXY"
  | .queryIf => "QUERY-IF"
  | .queryRef => "QUERY-REF"
  | .refuse => "REFUSE"
  | .rejectProposal => "REJECT-PROPOSAL"
  | .request => "REQUEST"
  | .requestWhen => "REQUEST-WHEN"
  | .requestWhenever => "REQUEST-WHENEVER"
  | .subscribe => "SUBSCRIBE"

/-- The name in data documents. -/
def tag (p : Performative) : String :=
  foldName p.display

def ofTag? (tag : String) : Option Performative :=
  all.find? fun p => p.tag = tag

end Performative

inductive Payload where
  | text (value : String)
  | bytes (value : List UInt8)
  deriving DecidableEq

def Payload.carrier : Payload → Carrier
  | .text _ => .text
  | .bytes _ => .bytes

structure Message where
  performative : Performative
  sender : Option AgentId := none
  receivers : List AgentId := []
  replyTo : List AgentId := []
  language : Option String := none
  ontology : Option String := none
  encoding : Option String := none
  protocol : Option String := none
  conversationId : Option String := none
  content : Option Payload := none

namespace Message

def text? (m : Message) : Option String :=
  match m.content with
  | some (.text s) => some s
  | _ => none

def bytes? (m : Message) : Option (List UInt8) :=
  match m.content with
  | some (.bytes bs) => some bs
  | _ => none

/-- An answer: to the agents that the message names for replies, else to its sender. -/
def reply (m : Message) (performative : Performative) : Message where
  performative := performative
  receivers := if m.replyTo.isEmpty then m.sender.toList else m.replyTo
  language := m.language
  ontology := m.ontology
  protocol := m.protocol
  conversationId := m.conversationId

end Message

end AgentContent
