import AgentContent.Proofs.Manager.Interleaving
import AgentContent.Proofs.Manager.Json

/-!
# AgentContent.Proofs.Manager.Fill

Filling a message is all or nothing, and whatever else is wrong, the answer is the objection of the
first stage that has one.

* `Call`: calls that work on a message in place. What they did before a failure stays done.
* `on_fillInto`, `on_extractFrom` and their likes: in place, calls do what `Manager.fill` and
  `Manager.extract` say.
* `Possible`, `Possible.backed`: in every state of a manager, shared or not, what is remembered for
  an ontology is of one that is registered.
* `Stage`, `objection`: the stages of filling, and what each by itself objects to.
* `error?_fill`: the first objection is the answer.
* `fill_all_or_nothing`: a failure leaves the whole message as it was, a success changes its content
  only.
* `fill_poisoned_or_lax`: where a thread has panicked, the objection is none of the message or its
  content; where nothing is validated, undeclared slots pass.
-/

namespace AgentContent

/-- A language writes into the content slot that it uses. -/
theorem Language.carrier_of_encode {l : Language} {o : Ontology} {c : Content} {p : Payload}
    (h : l.encode o c = .ok p) : p.carrier = l.carrier := by
  unfold encode at h
  split at h
  · split at h <;> cases h
    rfl
  · split at h <;> cases h
    rfl
  · cases h
    rfl
  · split at h <;> cases h
    rfl
  · split at h <;> cases h
    rfl

namespace Manager

/-! ## Calls in place -/

/-- A manager and the message that it works on. -/
structure Desk where
  manager : Manager
  message : Message

/-- A call reads and writes the desk. When it fails, the desk stays as the call has left it. -/
abbrev Call (α : Type) := ExceptT ContentError (StateM Desk) α

/-- The answer of a call, and the desk after it. -/
def Call.on {α : Type} (x : Call α) (desk : Desk) : Except ContentError α × Desk :=
  x.run.run desk

def answer {α : Type} (r : Except ContentError α) : Call α :=
  ExceptT.mk (pure r)

def findLanguage : Call (String × Language) := do
  let desk ← get
  answer (desk.manager.resolveLanguage desk.message)

def findOntology (name : String) (l : Language) : Call Ontology := do
  let desk ← get
  let (o, m) ← answer (desk.manager.merged name l desk.message.ontology)
  set { desk with manager := m }
  return o

def setContent (p : Payload) : Call Unit :=
  modify fun desk => { desk with message := { desk.message with content := some p } }

/-- Checks content, writes it in the language, and sets it. -/
def putInto (l : Language) (o : Ontology) (c : Content) : Call Unit := do
  if c.isContentElement then
    let desk ← get
    answer (desk.manager.check o c)
    let p ← answer ((l.encode o c).mapError .codec)
    setContent p
  else throw (.ontology (.notContentElement c))

/-- The language and the ontology of the message. -/
def findBoth : Call (String × Language × Ontology) := do
  let (name, l) ← findLanguage
  let o ← findOntology name l
  return (name, l, o)

def fillInto (c : Content) : Call Unit := do
  let (_, l, o) ← findBoth
  putInto l o c

def fillObjectInto (T : AppClass) (v : Json) : Call Unit := do
  let (_, l, o) ← findBoth
  let c ← answer ((o.fromObject T v).mapError .ontology)
  putInto l o c

def extractFrom : Call Content := do
  let (name, l, o) ← findBoth
  let desk ← get
  answer (desk.manager.take name l o desk.message.content)

def extractObjectFrom (T : AppClass) : Call Json := do
  let (name, l, o) ← findBoth
  let desk ← get
  let c ← answer (desk.manager.take name l o desk.message.content)
  answer ((o.toObject T c).mapError .ontology)

/-- A filled message takes the place of the one on the desk. -/
def settle (msg : Message) :
    Except ContentError Message × Manager → Except ContentError Unit × Desk
  | (.error e, m) => (.error e, ⟨m, msg⟩)
  | (.ok filled, m) => (.ok (), ⟨m, filled⟩)

section

variable {α β : Type}

theorem on_bind (x : Call α) (f : α → Call β) (desk : Desk) : (x >>= f).on desk =
    match x.on desk with
    | (.ok a, desk) => (f a).on desk
    | (.error e, desk) => (.error e, desk) := by
  show (ExceptT.bindCont f <| Prod.fst (x.on desk)) (Prod.snd (x.on desk)) = _
  rcases x.on desk with ⟨r, desk'⟩
  cases r with
  | error e => rfl
  | ok a => rfl

theorem on_answer (r : Except ContentError α) (desk : Desk) : (answer r).on desk = (r, desk) := rfl

theorem on_get (desk : Desk) : (get : Call Desk).on desk = (.ok desk, desk) := rfl

theorem on_findLanguage (desk : Desk) :
    findLanguage.on desk = (desk.manager.resolveLanguage desk.message, desk) := rfl

theorem on_findOntology (name : String) (l : Language) (desk : Desk) :
    (findOntology name l).on desk =
      match desk.manager.merged name l desk.message.ontology with
      | .error e => (.error e, desk)
      | .ok (o, m) => (.ok o, { desk with manager := m }) := by
  simp only [findOntology, on_bind, on_get, on_answer]
  cases desk.manager.merged name l desk.message.ontology with
  | error e => rfl
  | ok r => rfl

theorem on_findBoth (desk : Desk) : findBoth.on desk =
    match desk.manager.resolve desk.message with
    | .error e => (.error e, desk)
    | .ok (name, l, o, m) => (.ok (name, l, o), { desk with manager := m }) := by
  simp only [findBoth, resolve, on_bind, on_findLanguage, on_findOntology]
  cases desk.manager.resolveLanguage desk.message with
  | error e => rfl
  | ok r =>
    obtain ⟨name, l⟩ := r
    simp only
    cases desk.manager.merged name l desk.message.ontology with
    | error e => rfl
    | ok r => rfl

/-- Nothing is written before everything is known. -/
theorem on_putInto (m : Manager) (l : Language) (o : Ontology) (msg : Message) (c : Content) :
    (putInto l o c).on ⟨m, msg⟩ = settle msg (m.put l o msg c, m) := by
  unfold putInto put
  by_cases helement : c.isContentElement = true
  · rw [if_pos helement, if_pos helement]
    simp only [on_bind, on_get, on_answer]
    cases m.check o c with
    | error e => rfl
    | ok u =>
      cases l.encode o c with
      | error e => rfl
      | ok p => rfl
  · rw [if_neg helement, if_neg helement]
    rfl

theorem on_fillInto (m : Manager) (msg : Message) (c : Content) :
    (fillInto c).on ⟨m, msg⟩ = settle msg (m.fill msg c) := by
  simp only [fillInto, on_bind, on_findBoth, fill]
  cases m.resolve msg with
  | error e => rfl
  | ok r =>
    obtain ⟨name, l, o, m'⟩ := r
    exact on_putInto m' l o msg c

theorem on_fillObjectInto (m : Manager) (msg : Message) (T : AppClass) (v : Json) :
    (fillObjectInto T v).on ⟨m, msg⟩ = settle msg (m.fillObject msg T v) := by
  simp only [fillObjectInto, on_bind, on_findBoth, on_answer, fillObject]
  cases m.resolve msg with
  | error e => rfl
  | ok r =>
    obtain ⟨name, l, o, m'⟩ := r
    simp only
    cases o.fromObject T v with
    | error e => rfl
    | ok c => exact on_putInto m' l o msg c

/-- Reading writes nothing. -/
theorem on_extractFrom (m : Manager) (msg : Message) :
    extractFrom.on ⟨m, msg⟩ = ((m.extract msg).1, ⟨(m.extract msg).2, msg⟩) := by
  simp only [extractFrom, on_bind, on_findBoth, on_get, on_answer, extract]
  cases m.resolve msg with
  | error e => rfl
  | ok r => rfl

theorem on_extractObjectFrom (m : Manager) (msg : Message) (T : AppClass) :
    (extractObjectFrom T).on ⟨m, msg⟩ =
      ((m.extractObject msg T).1, ⟨(m.extractObject msg T).2, msg⟩) := by
  simp only [extractObjectFrom, on_bind, on_findBoth, on_get, on_answer, extractObject]
  cases m.resolve msg with
  | error e => rfl
  | ok r =>
    obtain ⟨name, l, o, m'⟩ := r
    simp only
    cases m'.take name l o msg.content with
    | error e => rfl
    | ok c =>
      simp only
      cases o.toObject T c with
      | error e => rfl
      | ok w => rfl

end

/-! ## The states of a manager -/

/-- The states of a manager, of one caller or of many that share it. -/
inductive Possible : Manager → Prop where
  | alone {m : Manager} (h : Reachable m) : Possible m
  | shared (settings : ContentSettings) (turns : List Turn) :
    Possible ((System.start settings).run turns).manager

/-- What is remembered for a language that is registered is a merge with some language, of the
ontology that is registered now. -/
def Backed (m : Manager) : Prop :=
  ∀ name l ontology o, m.language? name = some l →
    m.merges.lookup (mergeKey name ontology) = some o → ∃ l', m.merge l' ontology = .ok o

theorem Coherent.backed {m : Manager} (h : m.Coherent) : m.Backed :=
  fun name l ontology o hl hlookup => ⟨l, h name l ontology o hl hlookup⟩

theorem Possible.backed {m : Manager} (h : Possible m) : m.Backed := by
  cases h with
  | alone h => exact h.coherent.backed
  | shared settings turns =>
    intro name l ontology o _ hlookup
    obtain ⟨l', -, hmerge⟩ := (System.traced_run settings turns).merges name ontology o hlookup
    exact ⟨l', hmerge⟩

/-! ## Stages -/

/-- What has to be right before a message is filled: that a language is named for it, that no thread
has panicked in the registries, and so on to the writing of its content. -/
inductive Stage where
  | naming
  | registry
  | language
  | ontology
  | element
  | validation
  | declaration
  | encoding

/-- The stages in the order in which they are looked at. -/
def Stage.all : List Stage :=
  [.naming, .registry, .language, .ontology, .element, .validation, .declaration, .encoding]

/-- The stages that are about the message and its content, in their order. -/
def Stage.ofMessage : List Stage :=
  [.naming, .language, .ontology, .element, .validation, .declaration, .encoding]

def error? {ε α : Type} : Except ε α → Option ε
  | .error e => some e
  | .ok _ => none

def validationError (m : Manager) (o : Ontology) (c : Content) : Option ContentError :=
  if m.validating then (error? (o.validateContent c)).map .ontology else none

def declarationError (m : Manager) (o : Ontology) (c : Content) : Option ContentError :=
  if m.validating && m.strict then
    match o.schema c.typeName with
    | .error _ => none
    | .ok s => (error? (o.checkUndeclared s c)).map .ontology
  else none

/-- The language and the ontology of a message, if it has both. -/
def terms? (m : Manager) (msg : Message) : Option (Language × Ontology) :=
  match m.resolve msg with
  | .error _ => none
  | .ok (_, l, o, _) => some (l, o)

/-- What a stage objects to, whatever the others say. The last three ask the language and the
ontology of the message, and without them nothing is wrong. -/
def objection (m : Manager) (msg : Message) (c : Content) : Stage → Option ContentError
  | .naming =>
    if (msg.language.or m.defaultLanguage).isSome then none else some (.codec .missingLanguage)
  | .registry => if m.poisoned then some .registryPoisoned else none
  | .language =>
    match msg.language.or m.defaultLanguage with
    | none => none
    | some name =>
      if (m.language? name).isSome then none else some (.codec (.unknownLanguage name))
  | .ontology =>
    match msg.ontology with
    | none => none
    | some name =>
      if (m.ontology? name).isSome then none else some (.ontology (.unknownOntology name))
  | .element => if c.isContentElement then none else some (.ontology (.notContentElement c))
  | .validation => (m.terms? msg).bind fun t => m.validationError t.2 c
  | .declaration => (m.terms? msg).bind fun t => m.declarationError t.2 c
  | .encoding => (m.terms? msg).bind fun t => (error? (t.1.encode t.2 c)).map .codec

section

variable {m : Manager} {msg : Message}

/-- The first three stages are the search for the language. -/
theorem error?_resolveLanguage (m : Manager) (msg : Message) (c : Content) :
    error? (m.resolveLanguage msg) = (m.objection msg c .naming).or
      ((m.objection msg c .registry).or (m.objection msg c .language)) := by
  unfold objection resolveLanguage requireLanguage lookUpLanguage lock
  cases msg.language.or m.defaultLanguage with
  | none => rfl
  | some name =>
    simp only
    cases m.poisoned with
    | true => rfl
    | false =>
      cases m.language? name with
      | none => rfl
      | some l => rfl

/-- Whether a merge fails does not depend on the language. -/
theorem objection_ontology (m : Manager) (msg : Message) (c : Content) (l : Language) :
    m.objection msg c .ontology = error? (m.merge l msg.ontology) := by
  unfold objection merge
  cases msg.ontology with
  | none => rfl
  | some name =>
    simp only
    cases m.ontology? name with
    | none => rfl
    | some o => rfl

/-- With a language, the ontology is all that can be missing, also when the answer is remembered. -/
theorem resolve_of_language (hm : m.Backed) (c : Content) {name : String} {l : Language}
    (hl : m.resolveLanguage msg = .ok (name, l)) :
    (∃ e, m.resolve msg = .error e ∧ m.objection msg c .ontology = some e) ∨
      ∃ o m', m.resolve msg = .ok (name, l, o, m') ∧ m.objection msg c .ontology = none ∧
        m'.Alike m := by
  obtain ⟨hsound, hlanguage⟩ := sound_and_language?_of_resolveLanguage hl
  simp only [resolve, hl, merged, lock_of_sound hsound]
  cases hlookup : m.merges.lookup (mergeKey name msg.ontology) with
  | some o =>
    obtain ⟨l', hmerge⟩ := hm name l msg.ontology o hlanguage hlookup
    refine .inr ⟨o, m, rfl, ?_, .refl m⟩
    rw [objection_ontology m msg c l', hmerge, error?]
  | none =>
    rw [objection_ontology m msg c l]
    cases m.merge l msg.ontology with
    | error e => exact .inl ⟨e, rfl, rfl⟩
    | ok o => exact .inr ⟨o, _, rfl, rfl, rfl, rfl, rfl, rfl, rfl, rfl⟩

theorem error?_check (m : Manager) (o : Ontology) (c : Content) :
    error? (m.check o c) = (m.validationError o c).or (m.declarationError o c) := by
  unfold check validationError declarationError Ontology.validateContent
  cases m.validating with
  | false => rfl
  | true =>
    cases o.schema c.typeName with
    | error e => rfl
    | ok s =>
      simp only [if_true, Bool.true_and]
      cases o.validate s c with
      | error e => rfl
      | ok u =>
        cases m.strict with
        | false => rfl
        | true =>
          simp only [if_true]
          cases o.checkUndeclared s c with
          | error e => rfl
          | ok u => rfl

theorem error?_put (m : Manager) (l : Language) (o : Ontology) (msg : Message) (c : Content) :
    error? (m.put l o msg c) = (m.objection msg c .element).or ((m.validationError o c).or
      ((m.declarationError o c).or ((error? (l.encode o c)).map .codec))) := by
  have hcheck := error?_check m o c
  unfold put objection
  cases c.isContentElement with
  | false => rfl
  | true =>
    simp only [if_true, Option.none_or]
    rw [← Option.or_assoc, ← hcheck]
    cases m.check o c with
    | error e => rfl
    | ok u =>
      cases l.encode o c with
      | error e => rfl
      | ok p => rfl

theorem findSome?_all {α : Type} (f : Stage → Option α) : Stage.all.findSome? f =
    ((f .naming).or ((f .registry).or (f .language))).or ((f .ontology).or ((f .element).or
      ((f .validation).or ((f .declaration).or (f .encoding))))) := by
  have hcons : ∀ s rest, List.findSome? f (s :: rest) = (f s).or (rest.findSome? f) := by
    intro s rest
    rw [List.findSome?_cons]
    cases f s with
    | none => rfl
    | some a => rfl
  simp only [Stage.all, hcons, List.findSome?_nil, Option.or_none, Option.or_assoc]

/-- The answer is the objection of the first stage that has one. -/
theorem error?_fill (hm : m.Backed) (msg : Message) (c : Content) :
    error? (m.fill msg c).1 = Stage.all.findSome? (m.objection msg c) := by
  unfold fill
  rw [findSome?_all, ← error?_resolveLanguage]
  cases hl : m.resolveLanguage msg with
  | error e =>
    have hresolve : m.resolve msg = .error e := by simp only [resolve, hl]
    rw [hresolve]
    rfl
  | ok r =>
    obtain ⟨name, l⟩ := r
    rcases resolve_of_language hm c hl with
      ⟨e, hresolve, hontology⟩ | ⟨o, m', hresolve, hontology, halike⟩
    · rw [hresolve, hontology]
      rfl
    · have hterms : m.terms? msg = some (l, o) := by rw [terms?, hresolve]
      have hvalid : m.objection msg c .validation = m.validationError o c := by
        rw [objection, hterms, Option.bind_some]
      have hdeclared : m.objection msg c .declaration = m.declarationError o c := by
        rw [objection, hterms, Option.bind_some]
      have hencoded : m.objection msg c .encoding = (error? (l.encode o c)).map .codec := by
        rw [objection, hterms, Option.bind_some]
      rw [hresolve, hontology, hvalid, hdeclared, hencoded]
      show error? (m'.put l o msg c) = _
      rw [halike.put, error?_put]
      rfl

end

/-! ## All or nothing -/

/-- A failure leaves the whole message as it was. After a success it has content of the kind that
its language uses, and is the same in all else. -/
def AllOrNothing (m : Manager) (msg : Message) (r : Except ContentError Unit × Desk) : Prop :=
  (∃ e, r.1 = .error e ∧ r.2.message = msg) ∨
    (r.1 = .ok () ∧ ∃ name l p, m.resolveLanguage msg = .ok (name, l) ∧ p.carrier = l.carrier ∧
      r.2.message = { msg with content := some p })

theorem resolveLanguage_of_resolve {m m' : Manager} {msg : Message} {name : String} {l : Language}
    {o : Ontology} (h : m.resolve msg = .ok (name, l, o, m')) :
    m.resolveLanguage msg = .ok (name, l) := by
  unfold resolve at h
  split at h
  · cases h
  · rename_i hl
    split at h
    · cases h
    · cases h
      exact hl

theorem allOrNothing_fillInto (m : Manager) (msg : Message) (c : Content) :
    AllOrNothing m msg ((fillInto c).on ⟨m, msg⟩) := by
  rw [on_fillInto, fill]
  cases hresolve : m.resolve msg with
  | error e => exact .inl ⟨e, rfl, rfl⟩
  | ok r =>
    obtain ⟨name, l, o, m'⟩ := r
    simp only
    cases hput : m'.put l o msg c with
    | error e => exact .inl ⟨e, rfl, rfl⟩
    | ok filled =>
      obtain ⟨-, -, p, hp, rfl⟩ := put_eq_ok_iff.1 hput
      exact .inr ⟨rfl, name, l, p, resolveLanguage_of_resolve hresolve,
        Language.carrier_of_encode hp, rfl⟩

/-- An object is filled in as its content is, if there are a language and an ontology, and it has
content by that ontology. -/
theorem fillObject_eq (m : Manager) (msg : Message) (T : AppClass) (v : Json) :
    m.fillObject msg T v =
      match m.resolve msg with
      | .error e => (.error e, m)
      | .ok (_, _, o, m') =>
        match o.fromObject T v with
        | .error e => (.error (.ontology e), m')
        | .ok c => m.fill msg c := by
  unfold fillObject fill
  cases m.resolve msg with
  | error e => rfl
  | ok r => rfl

theorem allOrNothing_fillObjectInto (m : Manager) (msg : Message) (T : AppClass) (v : Json) :
    AllOrNothing m msg ((fillObjectInto T v).on ⟨m, msg⟩) := by
  rw [on_fillObjectInto, fillObject_eq]
  cases m.resolve msg with
  | error e => exact .inl ⟨e, rfl, rfl⟩
  | ok r =>
    obtain ⟨name, l, o, m'⟩ := r
    simp only
    cases o.fromObject T v with
    | error e => exact .inl ⟨.ontology e, rfl, rfl⟩
    | ok c =>
      simp only
      rw [← on_fillInto]
      exact allOrNothing_fillInto m msg c

/-- In whatever state a manager is, poisoned or not, filling a message with content or with an object
is all or nothing. The answer to content is the objection of the first stage that has one, whatever
later ones object to, and there is no error without an objection. Reading leaves the message
alone. -/
theorem fill_all_or_nothing {m : Manager} (hm : Possible m) (msg : Message) (c : Content)
    (T : AppClass) (v : Json) :
    AllOrNothing m msg ((fillInto c).on ⟨m, msg⟩) ∧
      AllOrNothing m msg ((fillObjectInto T v).on ⟨m, msg⟩) ∧
      error? ((fillInto c).on ⟨m, msg⟩).1 = Stage.all.findSome? (m.objection msg c) ∧
      (extractFrom.on ⟨m, msg⟩).2.message = msg ∧
      ((extractObjectFrom T).on ⟨m, msg⟩).2.message = msg := by
  refine ⟨allOrNothing_fillInto m msg c, allOrNothing_fillObjectInto m msg T v, ?_, ?_, ?_⟩
  · rw [← error?_fill hm.backed, on_fillInto]
    rcases m.fill msg c with ⟨r, m'⟩
    cases r with
    | error e => rfl
    | ok filled => rfl
  · rw [on_extractFrom]
  · rw [on_extractObjectFrom]

/-- A message in a language that the depot does not know, on a vocabulary that it does not know
either. -/
def unspoken : Message :=
  { depotMessage with
    language := some "latin", ontology := some "zoo", content := some (.text "salve") }

/-- The vocabulary is unknown as well, and a bare term is no content, but the answer is about the
language, and what the message said before stays. -/
theorem fill_unspoken :
    depotManager.objection unspoken (.ofBool true) .ontology =
        some (.ontology (.unknownOntology "zoo")) ∧
      depotManager.objection unspoken (.ofBool true) .element =
        some (.ontology (.notContentElement (.ofBool true))) ∧
      error? ((fillInto (.ofBool true)).on ⟨depotManager, unspoken⟩).1 =
        some (.codec (.unknownLanguage "latin")) ∧
      ((fillInto (.ofBool true)).on ⟨depotManager, unspoken⟩).2.message = unspoken := by
  obtain ⟨hwhole, -, herror, -⟩ := fill_all_or_nothing (.alone reachable_depotManager) unspoken
    (.ofBool true) .bool (.bool true)
  refine ⟨rfl, rfl, herror, ?_⟩
  rcases hwhole with ⟨e, -, hmessage⟩ | ⟨hok, -⟩
  · exact hmessage
  · rw [hok] at herror
    cases herror

/-- The depot when it validates nothing, although it is strict. -/
def laxDepot : Manager :=
  { depotManager with validating := false }

/-- A depot says nothing of seals. -/
def sealed : Content :=
  .slotted .predicate "holds" [("seal", .ofBool true)]

/-- After a panic the answer is about the registries, and what is wrong with the message itself is
not told, although its language is unknown. Where nothing is validated, a slot passes that is not
declared, although such slots are to be refused. -/
theorem fill_poisoned_or_lax :
    (Possible depotManager.poison ∧
      error? ((fillInto (.ofBool true)).on ⟨depotManager.poison, unspoken⟩).1 =
        some .registryPoisoned ∧
      Stage.ofMessage.findSome? (depotManager.poison.objection unspoken (.ofBool true)) =
        some (.codec (.unknownLanguage "latin"))) ∧
    Possible laxDepot ∧ laxDepot.strict = true ∧
      depot.checkUndeclared holds sealed = .error (.undeclaredSlot "holds" "seal") ∧
      error? ((fillInto sealed).on ⟨laxDepot, depotMessage⟩).1 = none := by
  refine ⟨⟨.alone (.step reachable_depotManager (.poison _)), ?_, rfl⟩,
    .alone (.step reachable_depotManager (.setFlags _ false true)), rfl, ?_, ?_⟩
  · rw [on_fillInto]
    rfl
  · rw [sealed, Ontology.checkUndeclared, Ontology.checkUndeclaredSlots, Ontology.containsSlot,
      Ontology.slot?_of_supers_nil rfl]
    rfl
  · rw [on_fillInto]
    rfl

end Manager
end AgentContent
