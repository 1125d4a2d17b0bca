import AgentContent.Proofs.Manager.State

/-!
# AgentContent.Proofs.Manager.Run

Runs of calls on the manager of an agent, with the messages of the agent beside it.

* `Call`, `Reply`: what an agent may ask of its manager, in any order, and what it is told.
* `Service.remembering`: the calls as the manager answers them, from merged ontologies that it
  remembers.
* `Service.anew`: the same calls by a manager that remembers nothing and merges at each call.
* `Agent.run_remembering`: no run can tell the two apart.
-/

namespace AgentContent
namespace Manager

/-! ## Calls without anything remembered -/

def fillAnew (m : Manager) (msg : Message) (c : Content) : Except ContentError Message :=
  match m.resolved msg with
  | .error e => .error e
  | .ok (_, l, o) => m.put l o msg c

def fillObjectAnew (m : Manager) (msg : Message) (T : AppClass) (v : Json) :
    Except ContentError Message :=
  match m.resolved msg with
  | .error e => .error e
  | .ok (_, l, o) =>
    match o.fromObject T v with
    | .error e => .error (.ontology e)
    | .ok content => m.put l o msg content

def extractAnew (m : Manager) (msg : Message) : Except ContentError Content :=
  match m.resolved msg with
  | .error e => .error e
  | .ok (name, l, o) => m.take name l o msg.content

def extractObjectAnew (m : Manager) (msg : Message) (T : AppClass) : Except ContentError Json :=
  match m.resolved msg with
  | .error e => .error e
  | .ok (name, l, o) =>
    match m.take name l o msg.content with
    | .error e => .error e
    | .ok content =>
      match o.toObject T content with
      | .error e => .error (.ontology e)
      | .ok v => .ok v

def ontologyForAnew (m : Manager) (language : String) (ontology : Option String) :
    Except ContentError Ontology :=
  match m.requireLanguage language with
  | .error e => .error e
  | .ok l => m.merge l ontology

theorem ontologyFor_fst {m : Manager} (hm : m.Coherent) (language : String)
    (ontology : Option String) :
    (m.ontologyFor language ontology).1 = m.ontologyForAnew language ontology := by
  unfold ontologyFor ontologyForAnew
  cases hl : m.requireLanguage language with
  | error e => rfl
  | ok l =>
    obtain ⟨hsound, hlanguage⟩ := requireLanguage_eq_ok_iff.1 hl
    rcases merged_of_coherent hm hsound hlanguage ontology with
      ⟨e, hmerged, hmerge⟩ | ⟨o, m', hmerged, hmerge, -, -⟩
    · simp only [hmerged, hmerge]
    · simp only [hmerged, hmerge]

/-! Only the registries, the flags and the default language count for them. -/

namespace Alike

variable {m m' : Manager} (h : Alike m m')

include h

theorem fillAnew (msg : Message) (c : Content) : m.fillAnew msg c = m'.fillAnew msg c := by
  simp only [Manager.fillAnew, h.resolved, h.put]

theorem fillObjectAnew (msg : Message) (T : AppClass) (v : Json) :
    m.fillObjectAnew msg T v = m'.fillObjectAnew msg T v := by
  simp only [Manager.fillObjectAnew, h.resolved, h.put]

theorem extractAnew (msg : Message) : m.extractAnew msg = m'.extractAnew msg := by
  simp only [Manager.extractAnew, h.resolved, h.take]

theorem extractObjectAnew (msg : Message) (T : AppClass) :
    m.extractObjectAnew msg T = m'.extractObjectAnew msg T := by
  simp only [Manager.extractObjectAnew, h.resolved, h.take]

theorem ontologyForAnew (language : String) (ontology : Option String) :
    m.ontologyForAnew language ontology = m'.ontologyForAnew language ontology := by
  simp only [Manager.ontologyForAnew, h.requireLanguage, h.merge]

end Alike
end Manager

/-! ## Agents -/

/-- What the calls give that need the ontology of a message: the result and the manager after it. -/
structure Service where
  fill : Manager → Message → Content → Except ContentError Message × Manager
  fillObject : Manager → Message → AppClass → Json → Except ContentError Message × Manager
  extract : Manager → Message → Except ContentError Content × Manager
  extractObject : Manager → Message → AppClass → Except ContentError Json × Manager
  ontologyFor : Manager → String → Option String → Except ContentError Ontology × Manager

/-- The calls as the manager answers them. -/
def Service.remembering : Service where
  fill := Manager.fill
  fillObject := Manager.fillObject
  extract := Manager.extract
  extractObject := Manager.extractObject
  ontologyFor := Manager.ontologyFor

/-- The calls by merging what is registered each time. -/
def Service.anew : Service where
  fill m msg c := (m.fillAnew msg c, m)
  fillObject m msg T v := (m.fillObjectAnew msg T v, m)
  extract m msg := (m.extractAnew msg, m)
  extractObject m msg T := (m.extractObjectAnew msg T, m)
  ontologyFor m language ontology := (m.ontologyForAnew language ontology, m)

/-- A call of an agent; `edit` is what the agent itself does to one of its messages, and `poison` is
a thread that panics in the middle of a call. -/
inductive Call where
  | registerLanguage (l : Language)
  | registerLanguageAs (name : String) (l : Language)
  | registerOntology (o : Ontology)
  | registerOntologyAs (name : String) (o : Ontology)
  | setValidating (on : Bool)
  | setStrict (on : Bool)
  | poison
  | flags
  | languageNames
  | ontologyNames
  | language (name : String)
  | ontology (name : String)
  | ontologyFor (language : String) (ontology : Option String)
  | fill (id : Nat) (c : Content)
  | fillObject (id : Nat) (T : AppClass) (v : Json)
  | extract (id : Nat)
  | extractObject (id : Nat) (T : AppClass)
  | edit (id : Nat) (msg : Message)

inductive Reply where
  | done (result : Except ContentError Unit)
  | flags (validating strict : Bool)
  | names (result : Except ContentError (List String))
  | language (result : Except ContentError (Option Language))
  | ontology (result : Except ContentError (Option Ontology))
  | merged (result : Except ContentError Ontology)
  | content (result : Except ContentError Content)
  | data (result : Except ContentError Json)

/-- An agent's manager and its messages by their numbers. -/
structure Agent where
  manager : Manager
  messages : Nat → Message

namespace Agent

def withMessage (a : Agent) (id : Nat) (msg : Message) : Agent :=
  { a with messages := fun i => if i = id then msg else a.messages i }

/-- After a registration; one that fails changes nothing. -/
def registered (a : Agent) : Except ContentError Manager → Reply × Agent
  | .ok m => (.done (.ok ()), { a with manager := m })
  | .error e => (.done (.error e), a)

/-- After a message was to be filled; it stays as it was when that fails. -/
def filled (a : Agent) (id : Nat) : Except ContentError Message × Manager → Reply × Agent
  | (.ok msg, m) => (.done (.ok ()), { a with manager := m }.withMessage id msg)
  | (.error e, m) => (.done (.error e), { a with manager := m })

def perform (s : Service) (a : Agent) : Call → Reply × Agent
  | .registerLanguage l => a.registered (a.manager.registerLanguage l)
  | .registerLanguageAs name l => a.registered (a.manager.registerLanguageAs name l)
  | .registerOntology o => a.registered (a.manager.registerOntology o)
  | .registerOntologyAs name o => a.registered (a.manager.registerOntologyAs name o)
  | .setValidating on => (.done (.ok ()), { a with manager := { a.manager with validating := on } })
  | .setStrict on => (.done (.ok ()), { a with manager := { a.manager with strict := on } })
  | .flags => (.flags a.manager.validating a.manager.strict, a)
  | .poison => (.done (.ok ()), { a with manager := a.manager.poison })
  | .languageNames => (.names a.manager.languageNames, a)
  | .ontologyNames => (.names a.manager.ontologyNames, a)
  | .language name => (.language (a.manager.lookUpLanguage name), a)
  | .ontology name => (.ontology (a.manager.lookUpOntology name), a)
  | .ontologyFor language ontology =>
    let (r, m) := s.ontologyFor a.manager language ontology
    (.merged r, { a with manager := m })
  | .fill id c => a.filled id (s.fill a.manager (a.messages id) c)
  | .fillObject id T v => a.filled id (s.fillObject a.manager (a.messages id) T v)
  | .extract id =>
    let (r, m) := s.extract a.manager (a.messages id)
    (.content r, { a with manager := m })
  | .extractObject id T =>
    let (r, m) := s.extractObject a.manager (a.messages id) T
    (.data r, { a with manager := m })
  | .edit id msg => (.done (.ok ()), a.withMessage id msg)

/-- What each call of a run is answered, and what the messages are after it. -/
def run (s : Service) (a : Agent) : List Call → List (Reply × (Nat → Message))
  | [] => []
  | call :: rest =>
    let (r, a) := a.perform s call
    (r, a.messages) :: run s a rest

/-! ## Two agents side by side -/

/-- The first agent remembers only what it would merge anew; the second has the same registries,
flags and messages, whatever it remembers. -/
structure Mirrors (a b : Agent) : Prop where
  coherent : a.manager.Coherent
  alike : b.manager.Alike a.manager
  messages : b.messages = a.messages

namespace Mirrors

variable {a b : Agent}

theorem withMessage (h : Mirrors a b) (id : Nat) (msg : Message) :
    Mirrors (a.withMessage id msg) (b.withMessage id msg) := by
  refine ⟨h.coherent, h.alike, ?_⟩
  simp only [Agent.withMessage, h.messages]

theorem withManager (h : Mirrors a b) {m m' : Manager} (hm : m.Coherent) (halike : m'.Alike m) :
    Mirrors { a with manager := m } { b with manager := m' } :=
  ⟨hm, halike, h.messages⟩

/-- Both agents are told the same and stay side by side. -/
def Agree (x y : Reply × Agent) : Prop :=
  x.1 = y.1 ∧ Mirrors x.2 y.2

theorem registered (h : Mirrors a b) {r r' : Except ContentError Manager}
    (hr : (∃ e, r = .error e ∧ r' = .error e) ∨
      ∃ m m', r = .ok m ∧ r' = .ok m' ∧ m.Coherent ∧ m'.Alike m) :
    Agree (a.registered r) (b.registered r') := by
  rcases hr with ⟨e, rfl, rfl⟩ | ⟨m, m', rfl, rfl, hm, halike⟩
  · exact ⟨rfl, h⟩
  · exact ⟨rfl, h.withManager hm halike⟩

theorem filled (h : Mirrors a b) (id : Nat) {r r' : Except ContentError Message} {m m' : Manager}
    (hr : r = r') (hm : m.Coherent) (halike : m'.Alike m) :
    Agree (a.filled id (r, m)) (b.filled id (r', m')) := by
  subst hr
  cases r with
  | error e => exact ⟨rfl, h.withManager hm halike⟩
  | ok msg => exact ⟨rfl, (h.withManager hm halike).withMessage id msg⟩

theorem told (h : Mirrors a b) {α : Type} (reply : α → Reply) {x y : α × Manager}
    (hr : x.1 = y.1) (hm : x.2.Coherent) (halike : y.2.Alike x.2) :
    Agree (reply x.1, { a with manager := x.2 }) (reply y.1, { b with manager := y.2 }) :=
  ⟨congrArg reply hr, h.withManager hm halike⟩

theorem registerLanguageAs (h : Mirrors a b) (name : String) (l : Language) :
    Agree (a.registered (a.manager.registerLanguageAs name l))
      (b.registered (b.manager.registerLanguageAs name l)) := by
  refine h.registered ?_
  simp only [Manager.registerLanguageAs, Manager.lock, h.alike.poisoned]
  split
  · exact .inl ⟨_, rfl, rfl⟩
  · split
    · exact .inl ⟨_, rfl, rfl⟩
    · refine .inr ⟨_, _, rfl, rfl, Manager.coherent_of_merges_nil rfl, ?_⟩
      exact { h.alike with languages := by rw [h.alike.languages], poisoned := rfl }

theorem registerOntologyAs (h : Mirrors a b) (name : String) (o : Ontology) :
    Agree (a.registered (a.manager.registerOntologyAs name o))
      (b.registered (b.manager.registerOntologyAs name o)) := by
  refine h.registered ?_
  simp only [Manager.registerOntologyAs, Manager.lock, h.alike.poisoned]
  split
  · exact .inl ⟨_, rfl, rfl⟩
  · split
    · exact .inl ⟨_, rfl, rfl⟩
    · refine .inr ⟨_, _, rfl, rfl, Manager.coherent_of_merges_nil rfl, ?_⟩
      exact { h.alike with ontologies := by rw [h.alike.ontologies], poisoned := rfl }

/-- No call tells the agents apart, whether it succeeds or not. -/
theorem perform (h : Mirrors a b) (call : Call) :
    Agree (a.perform .remembering call) (b.perform .anew call) := by
  have hm := h.coherent
  have halike := h.alike
  cases call with
  | registerLanguage l => exact h.registerLanguageAs l.name l
  | registerLanguageAs name l => exact h.registerLanguageAs name l
  | registerOntology o => exact h.registerOntologyAs o.name o
  | registerOntologyAs name o => exact h.registerOntologyAs name o
  | setValidating on => exact ⟨rfl, h.withManager hm { halike with validating := rfl }⟩
  | setStrict on => exact ⟨rfl, h.withManager hm { halike with strict := rfl }⟩
  | poison => exact ⟨rfl, h.withManager hm { halike with poisoned := rfl }⟩
  | flags =>
    refine ⟨?_, h⟩
    simp only [Agent.perform, halike.validating, halike.strict]
  | languageNames =>
    refine ⟨?_, h⟩
    simp only [Agent.perform, Manager.languageNames, halike.lock, halike.languages]
  | ontologyNames =>
    refine ⟨?_, h⟩
    simp only [Agent.perform, Manager.ontologyNames, halike.lock, halike.ontologies]
  | language name =>
    refine ⟨?_, h⟩
    simp only [Agent.perform, Manager.lookUpLanguage, halike.lock, halike.language?]
  | ontology name =>
    refine ⟨?_, h⟩
    simp only [Agent.perform, Manager.lookUpOntology, halike.lock, Manager.ontology?,
      halike.ontologies]
  | ontologyFor language ontology =>
    obtain ⟨hsame, hcoherent⟩ := Manager.ontologyFor_snd hm language ontology
    refine h.told .merged ?_ hcoherent (halike.trans hsame.symm)
    exact (Manager.ontologyFor_fst hm language ontology).trans
      (halike.symm.ontologyForAnew language ontology)
  | fill id c =>
    obtain ⟨hsame, hcoherent⟩ := Manager.fill_snd hm (a.messages id) c
    refine h.filled id ?_ hcoherent (halike.trans hsame.symm)
    rw [h.messages]
    exact (Manager.fill_fst hm (a.messages id) c).trans (halike.symm.fillAnew (a.messages id) c)
  | fillObject id T v =>
    obtain ⟨hsame, hcoherent⟩ := Manager.fillObject_snd hm (a.messages id) T v
    refine h.filled id ?_ hcoherent (halike.trans hsame.symm)
    rw [h.messages]
    exact (Manager.fillObject_fst hm (a.messages id) T v).trans
      (halike.symm.fillObjectAnew (a.messages id) T v)
  | extract id =>
    obtain ⟨hsame, hcoherent⟩ := Manager.extract_snd hm (a.messages id)
    refine h.told .content ?_ hcoherent (halike.trans hsame.symm)
    rw [h.messages]
    exact (Manager.extract_fst hm (a.messages id)).trans
      (halike.symm.extractAnew (a.messages id))
  | extractObject id T =>
    obtain ⟨hsame, hcoherent⟩ := Manager.extractObject_snd hm (a.messages id) T
    refine h.told .data ?_ hcoherent (halike.trans hsame.symm)
    rw [h.messages]
    exact (Manager.extractObject_fst hm (a.messages id) T).trans
      (halike.symm.extractObjectAnew (a.messages id) T)
  | edit id msg => exact ⟨rfl, h.withMessage id msg⟩

theorem run (h : Mirrors a b) (calls : List Call) :
    a.run .remembering calls = b.run .anew calls := by
  induction calls generalizing a b with
  | nil => rfl
  | cons call rest ih =>
    obtain ⟨hreply, hnext⟩ := h.perform call
    simp only [Agent.run, hreply, hnext.messages, ih hnext]

end Mirrors

/-- Whatever an agent asks of its manager and in whatever order, each call is answered and leaves
the messages as if the manager merged at each call what is registered then. -/
theorem run_remembering (settings : ContentSettings) (messages : Nat → Message)
    (calls : List Call) :
    run .remembering ⟨.ofSettings settings, messages⟩ calls =
      run .anew ⟨.ofSettings settings, messages⟩ calls :=
  Mirrors.run ⟨Manager.coherent_of_merges_nil rfl, .refl _, rfl⟩ calls

end Agent
end AgentContent
