import AgentContent.Manager.Basic
import AgentContent.Proofs.Content.Slots

/-!
# AgentContent.Proofs.Manager.State

The states of a manager. What it remembers of merged ontologies never shows: every state that calls
lead to remembers only what it would merge anew.

* `Registry.get?_put`: what is found after an entry was put in place.
* `Manager.lock_eq_ok_iff`: what comes out of the registries was done there, and they were sound.
* `Manager.Step`, `Manager.Reachable`: the calls, and the states that they lead to.
* `Manager.Step.of_poisoned`: after a panic in the registries they stay as they are.
* `Manager.Coherent`: what is remembered is what a merge gives.
* `Manager.resolved`: the language and the ontology of a message without anything remembered.
* `Manager.fill_fst`, `Manager.extract_fst` and their likes: calls answer by `resolved` alone.
-/

namespace AgentContent

theorem Registry.get?_congr {α : Type} {a b : String} (h : sameName a b = true) (r : Registry α) :
    Registry.get? a r = Registry.get? b r := by
  simp only [Registry.get?, sameName_congr_right h]

theorem Registry.get?_put {α : Type} (name : String) (value : α) (key : String) (r : Registry α) :
    Registry.get? key (Registry.put name value r) =
      if sameName name key then some value else Registry.get? key r := by
  rw [Registry.get?, Registry.put, List.find?_cons]
  cases hname : sameName name key with
  | true => rfl
  | false =>
    have hother : (fun e : String × α => decide ((!sameName e.1 name) = true ∧
        sameName e.1 key = true)) = fun e => sameName e.1 key := by
      funext e
      cases hkey : sameName e.1 key with
      | true =>
        have hne : sameName e.1 name = false := by
          rw [sameName_congr_left hkey, sameName_comm, hname]
        simp [hne]
      | false => simp
    simp only [List.find?_filter, hother, Registry.get?, Bool.false_eq_true, if_false]

namespace Manager

/-! ## Calls -/

/-- One call, whether it succeeds or not, a change of the flags, or a thread that panics. -/
inductive Step : Manager → Manager → Prop where
  | registerLanguage {m m' : Manager} {name : String} {l : Language}
    (h : m.registerLanguageAs name l = .ok m') : Step m m'
  | registerOntology {m m' : Manager} {name : String} {o : Ontology}
    (h : m.registerOntologyAs name o = .ok m') : Step m m'
  | setFlags (m : Manager) (validating strict : Bool) :
    Step m { m with validating := validating, strict := strict }
  | poison (m : Manager) : Step m m.poison
  | fill (m : Manager) (msg : Message) (c : Content) : Step m (m.fill msg c).2
  | fillObject (m : Manager) (msg : Message) (c : AppClass) (v : Json) :
    Step m (m.fillObject msg c v).2
  | extract (m : Manager) (msg : Message) : Step m (m.extract msg).2
  | extractObject (m : Manager) (msg : Message) (c : AppClass) : Step m (m.extractObject msg c).2
  | ontologyFor (m : Manager) (language : String) (ontology : Option String) :
    Step m (m.ontologyFor language ontology).2

/-- The states of a manager that is made from settings. -/
inductive Reachable : Manager → Prop where
  | start (s : ContentSettings) : Reachable (ofSettings s)
  | step {m m' : Manager} (h : Reachable m) (hs : Step m m') : Reachable m'

/-- The registries and the flags are the same. -/
structure Alike (m m' : Manager) : Prop where
  languages : m.languages = m'.languages
  ontologies : m.ontologies = m'.ontologies
  poisoned : m.poisoned = m'.poisoned
  validating : m.validating = m'.validating
  strict : m.strict = m'.strict
  defaultLanguage : m.defaultLanguage = m'.defaultLanguage

namespace Alike

variable {m m' m'' : Manager}

theorem refl (m : Manager) : Alike m m :=
  ⟨rfl, rfl, rfl, rfl, rfl, rfl⟩

theorem symm (h : Alike m m') : Alike m' m :=
  ⟨h.languages.symm, h.ontologies.symm, h.poisoned.symm, h.validating.symm, h.strict.symm,
    h.defaultLanguage.symm⟩

theorem trans (h : Alike m m') (k : Alike m' m'') : Alike m m'' :=
  ⟨h.languages.trans k.languages, h.ontologies.trans k.ontologies,
    h.poisoned.trans k.poisoned, h.validating.trans k.validating, h.strict.trans k.strict,
    h.defaultLanguage.trans k.defaultLanguage⟩

theorem lock (h : Alike m m') {α : Type} (inside : Except ContentError α) :
    m.lock inside = m'.lock inside := by
  rw [Manager.lock, h.poisoned, Manager.lock]

theorem language? (h : Alike m m') (name : String) : m.language? name = m'.language? name := by
  rw [Manager.language?, h.languages, Manager.language?]

theorem merge (h : Alike m m') (l : Language) (ontology : Option String) :
    m.merge l ontology = m'.merge l ontology := by
  simp only [Manager.merge, Manager.ontology?, h.ontologies]

theorem requireLanguage (h : Alike m m') (name : String) :
    m.requireLanguage name = m'.requireLanguage name := by
  simp only [Manager.requireLanguage, lookUpLanguage, h.lock, h.language?]

theorem resolveLanguage (h : Alike m m') (msg : Message) :
    m.resolveLanguage msg = m'.resolveLanguage msg := by
  simp only [Manager.resolveLanguage, h.defaultLanguage, h.requireLanguage]

theorem check (h : Alike m m') (o : Ontology) (c : Content) : m.check o c = m'.check o c := by
  simp only [Manager.check, h.validating, h.strict]

theorem put (h : Alike m m') (l : Language) (o : Ontology) (msg : Message) (c : Content) :
    m.put l o msg c = m'.put l o msg c := by
  simp only [Manager.put, h.check]

theorem take (h : Alike m m') (name : String) (l : Language) (o : Ontology) (p : Option Payload) :
    m.take name l o p = m'.take name l o p := by
  simp only [Manager.take, h.check]

end Alike

/-! ## The registries -/

section

variable {m : Manager} {α : Type} {inside : Except ContentError α}

theorem lock_of_sound (h : m.poisoned = false) (inside : Except ContentError α) :
    m.lock inside = inside := by
  rw [lock, h]
  rfl

theorem lock_eq_ok_iff {a : α} : m.lock inside = .ok a ↔ m.poisoned = false ∧ inside = .ok a := by
  unfold lock
  cases m.poisoned with
  | true => simp
  | false => simp

/-- A language that is found is registered, and a panic has not been there before. -/
theorem requireLanguage_eq_ok_iff {name : String} {l : Language} :
    m.requireLanguage name = .ok l ↔ m.poisoned = false ∧ m.language? name = some l := by
  unfold requireLanguage lookUpLanguage lock
  cases m.poisoned with
  | true => simp
  | false => cases m.language? name <;> simp

theorem sound_and_language?_of_resolveLanguage {msg : Message} {name : String} {l : Language}
    (h : m.resolveLanguage msg = .ok (name, l)) :
    m.poisoned = false ∧ m.language? name = some l := by
  unfold resolveLanguage at h
  split at h
  · cases h
  · split at h
    · cases h
    · rename_i hl
      cases h
      exact requireLanguage_eq_ok_iff.1 hl

/-- A registration gives the name to the language and drops what is remembered. -/
theorem registerLanguageAs_eq_ok_iff {m' : Manager} {name : String} {l : Language} :
    m.registerLanguageAs name l = .ok m' ↔ isEmptyName name = false ∧ m.poisoned = false ∧
      { m with languages := Registry.put name l m.languages, merges := [] } = m' := by
  unfold registerLanguageAs
  cases isEmptyName name with
  | true => simp
  | false => simp [lock_eq_ok_iff]

theorem registerOntologyAs_eq_ok_iff {m' : Manager} {name : String} {o : Ontology} :
    m.registerOntologyAs name o = .ok m' ↔ isEmptyName name = false ∧ m.poisoned = false ∧
      { m with ontologies := Registry.put name o m.ontologies, merges := [] } = m' := by
  unfold registerOntologyAs
  cases isEmptyName name with
  | true => simp
  | false => simp [lock_eq_ok_iff]

theorem requireLanguage_of_poisoned (h : m.poisoned = true) (name : String) :
    m.requireLanguage name = .error .registryPoisoned := by
  rw [requireLanguage, lookUpLanguage, lock, if_pos h]

/-- Where the registries are poisoned, no message has a language, and the answer is about them unless
the message names none in the first place. -/
theorem resolve_of_poisoned (h : m.poisoned = true) (msg : Message) :
    ∃ e, m.resolve msg = .error e ∧ (e = .codec .missingLanguage ∨ e = .registryPoisoned) := by
  unfold resolve resolveLanguage
  cases msg.language.or m.defaultLanguage with
  | none => exact ⟨_, rfl, .inl rfl⟩
  | some name =>
    simp only [requireLanguage_of_poisoned h]
    exact ⟨_, rfl, .inr rfl⟩

/-- From then on only the flags change, whatever is called. -/
theorem Step.of_poisoned {m' : Manager} (hs : Step m m') (h : m.poisoned = true) :
    m' = { m with validating := m'.validating, strict := m'.strict } := by
  cases hs with
  | registerLanguage hr =>
    obtain ⟨-, hsound, -⟩ := registerLanguageAs_eq_ok_iff.1 hr
    rw [h] at hsound
    cases hsound
  | registerOntology hr =>
    obtain ⟨-, hsound, -⟩ := registerOntologyAs_eq_ok_iff.1 hr
    rw [h] at hsound
    cases hsound
  | setFlags validating strict => rfl
  | poison => rw [Manager.poison, ← h]
  | fill msg c =>
    obtain ⟨e, he, -⟩ := resolve_of_poisoned h msg
    rw [Manager.fill, he]
  | fillObject msg c v =>
    obtain ⟨e, he, -⟩ := resolve_of_poisoned h msg
    rw [Manager.fillObject, he]
  | extract msg =>
    obtain ⟨e, he, -⟩ := resolve_of_poisoned h msg
    rw [Manager.extract, he]
  | extractObject msg c =>
    obtain ⟨e, he, -⟩ := resolve_of_poisoned h msg
    rw [Manager.extractObject, he]
  | ontologyFor language ontology =>
    rw [Manager.ontologyFor, requireLanguage_of_poisoned h]

end

/-! ## What is remembered -/

/-- What is remembered for names is what a merge for them gives. -/
def Coherent (m : Manager) : Prop :=
  ∀ name l ontology o, m.language? name = some l →
    m.merges.lookup (mergeKey name ontology) = some o → m.merge l ontology = .ok o

theorem coherent_of_merges_nil {m : Manager} (h : m.merges = []) : m.Coherent := by
  intro name l ontology o _ hm
  rw [h] at hm
  cases hm

theorem language?_congr (m : Manager) {a b : String} (h : foldName a = foldName b) :
    m.language? a = m.language? b :=
  Registry.get?_congr (sameName_iff.2 h) _

theorem merge_congr (m : Manager) (l : Language) {a b : Option String}
    (h : a.map foldName = b.map foldName) {o : Ontology} (ho : m.merge l a = .ok o) :
    m.merge l b = .ok o := by
  cases a with
  | none =>
    cases b with
    | none => exact ho
    | some b => cases h
  | some a =>
    cases b with
    | none => cases h
    | some b =>
      have hab : m.ontology? a = m.ontology? b :=
        Registry.get?_congr (sameName_iff.2 (Option.some.inj h)) _
      simp only [merge, hab] at ho ⊢
      cases hb : m.ontology? b with
      | none => rw [hb] at ho; cases ho
      | some d => rw [hb] at ho; exact ho

/-- A merge that is remembered keeps the state coherent. -/
theorem Coherent.remember {m : Manager} (hm : m.Coherent) {name : String}
    {ontology : Option String} {o : Ontology}
    (ho : ∀ l, m.language? name = some l → m.merge l ontology = .ok o) :
    Coherent { m with merges := (mergeKey name ontology, o) :: m.merges } := by
  intro name' l' ontology' o' hl' hlookup
  by_cases hkey : mergeKey name' ontology' = mergeKey name ontology
  · have hname : foldName name' = foldName name := congrArg Prod.fst hkey
    have hontology : ontology'.map foldName = ontology.map foldName := congrArg Prod.snd hkey
    simp only [List.lookup_cons, hkey, beq_self_eq_true, Option.some.injEq] at hlookup
    cases hlookup
    have hl := (language?_congr m hname).symm.trans hl'
    exact merge_congr m l' hontology.symm (ho l' hl)
  · rw [List.lookup_cons, beq_false_of_ne hkey] at hlookup
    exact hm name' l' ontology' o' hl' hlookup

theorem merged_of_coherent {m : Manager} (hm : m.Coherent) (hsound : m.poisoned = false)
    {name : String} {l : Language} (hl : m.language? name = some l) (ontology : Option String) :
    (∃ e, m.merged name l ontology = .error e ∧ m.merge l ontology = .error e) ∨
      ∃ o m', m.merged name l ontology = .ok (o, m') ∧ m.merge l ontology = .ok o ∧
        m'.Alike m ∧ m'.Coherent := by
  rw [merged, lock_of_sound hsound]
  cases hlookup : m.merges.lookup (mergeKey name ontology) with
  | some o => exact .inr ⟨o, m, rfl, hm name l ontology o hl hlookup, .refl m, hm⟩
  | none =>
    cases ho : m.merge l ontology with
    | error e => exact .inl ⟨e, rfl, rfl⟩
    | ok o =>
      refine .inr ⟨o, { m with merges := (mergeKey name ontology, o) :: m.merges }, rfl, rfl,
        ⟨rfl, rfl, rfl, rfl, rfl, rfl⟩, hm.remember fun l' hl' => ?_⟩
      · rw [hl] at hl'
        cases hl'
        exact ho

/-- The language and the ontology of a message, merged anew. -/
def resolved (m : Manager) (msg : Message) : Except ContentError (String × Language × Ontology) :=
  match m.resolveLanguage msg with
  | .error e => .error e
  | .ok (name, l) =>
    match m.merge l msg.ontology with
    | .error e => .error e
    | .ok o => .ok (name, l, o)

theorem Alike.resolved {m m' : Manager} (h : Alike m m') (msg : Message) :
    m.resolved msg = m'.resolved msg := by
  simp only [Manager.resolved, h.resolveLanguage, h.merge]

theorem resolve_of_coherent {m : Manager} (hm : m.Coherent) (msg : Message) :
    (∃ e, m.resolve msg = .error e ∧ m.resolved msg = .error e) ∨
      ∃ name l o m', m.resolve msg = .ok (name, l, o, m') ∧ m.resolved msg = .ok (name, l, o) ∧
        m'.Alike m ∧ m'.Coherent := by
  unfold resolve resolved
  cases hl : m.resolveLanguage msg with
  | error e => exact Or.inl ⟨e, rfl, rfl⟩
  | ok r =>
    obtain ⟨name, l⟩ := r
    obtain ⟨hsound, hlanguage⟩ := sound_and_language?_of_resolveLanguage hl
    rcases merged_of_coherent hm hsound hlanguage msg.ontology with
      ⟨e, hmerged, hmerge⟩ | ⟨o, m', hmerged, hmerge, halike, hcoherent⟩
    · simp only [hmerged, hmerge]
      exact Or.inl ⟨e, rfl, rfl⟩
    · simp only [hmerged, hmerge]
      exact Or.inr ⟨name, l, o, m', rfl, rfl, halike, hcoherent⟩

/-! ## Answers of calls -/

section

variable {m : Manager} (hm : m.Coherent) (msg : Message)

include hm

theorem fill_fst (c : Content) : (m.fill msg c).1 =
    match m.resolved msg with
    | .error e => .error e
    | .ok (_, l, o) => m.put l o msg c := by
  unfold fill
  rcases resolve_of_coherent hm msg with ⟨e, hr, hr'⟩ | ⟨name, l, o, m', hr, hr', halike, -⟩
  · rw [hr, hr']
  · rw [hr, hr']
    exact halike.put l o msg c

theorem fill_snd (c : Content) : (m.fill msg c).2.Alike m ∧ (m.fill msg c).2.Coherent := by
  unfold fill
  rcases resolve_of_coherent hm msg with ⟨e, hr, -⟩ | ⟨name, l, o, m', hr, -, halike, hcoherent⟩
  · rw [hr]
    exact ⟨.refl m, hm⟩
  · rw [hr]
    exact ⟨halike, hcoherent⟩

theorem fillObject_fst (c : AppClass) (v : Json) : (m.fillObject msg c v).1 =
    match m.resolved msg with
    | .error e => .error e
    | .ok (_, l, o) =>
      match o.fromObject c v with
      | .error e => .error (.ontology e)
      | .ok content => m.put l o msg content := by
  unfold fillObject
  rcases resolve_of_coherent hm msg with ⟨e, hr, hr'⟩ | ⟨name, l, o, m', hr, hr', halike, -⟩
  · rw [hr, hr']
  · rw [hr, hr']
    simp only
    cases o.fromObject c v with
    | error e => rfl
    | ok content => exact halike.put l o msg content

theorem fillObject_snd (c : AppClass) (v : Json) :
    (m.fillObject msg c v).2.Alike m ∧ (m.fillObject msg c v).2.Coherent := by
  unfold fillObject
  rcases resolve_of_coherent hm msg with ⟨e, hr, -⟩ | ⟨name, l, o, m', hr, -, halike, hcoherent⟩
  · rw [hr]
    exact ⟨.refl m, hm⟩
  · rw [hr]
    simp only
    cases o.fromObject c v <;> exact ⟨halike, hcoherent⟩

theorem extract_fst : (m.extract msg).1 =
    match m.resolved msg with
    | .error e => .error e
    | .ok (name, l, o) => m.take name l o msg.content := by
  unfold extract
  rcases resolve_of_coherent hm msg with ⟨e, hr, hr'⟩ | ⟨name, l, o, m', hr, hr', halike, -⟩
  · rw [hr, hr']
  · rw [hr, hr']
    exact halike.take name l o msg.content

theorem extract_snd : (m.extract msg).2.Alike m ∧ (m.extract msg).2.Coherent := by
  unfold extract
  rcases resolve_of_coherent hm msg with ⟨e, hr, -⟩ | ⟨name, l, o, m', hr, -, halike, hcoherent⟩
  · rw [hr]
    exact ⟨.refl m, hm⟩
  · rw [hr]
    exact ⟨halike, hcoherent⟩

theorem extractObject_fst (c : AppClass) : (m.extractObject msg c).1 =
    match m.resolved msg with
    | .error e => .error e
    | .ok (name, l, o) =>
      match m.take name l o msg.content with
      | .error e => .error e
      | .ok content =>
        match o.toObject c content with
        | .error e => .error (.ontology e)
        | .ok v => .ok v := by
  unfold extractObject
  rcases resolve_of_coherent hm msg with ⟨e, hr, hr'⟩ | ⟨name, l, o, m', hr, hr', halike, -⟩
  · rw [hr, hr']
  · rw [hr, hr']
    simp only [halike.take]
    cases m.take name l o msg.content with
    | error e => rfl
    | ok content =>
      simp only
      cases o.toObject c content <;> rfl

theorem extractObject_snd (c : AppClass) :
    (m.extractObject msg c).2.Alike m ∧ (m.extractObject msg c).2.Coherent := by
  unfold extractObject
  rcases resolve_of_coherent hm msg with ⟨e, hr, -⟩ | ⟨name, l, o, m', hr, -, halike, hcoherent⟩
  · rw [hr]
    exact ⟨.refl m, hm⟩
  · rw [hr]
    simp only
    cases m'.take name l o msg.content with
    | error e => exact ⟨halike, hcoherent⟩
    | ok content =>
      simp only
      cases o.toObject c content <;> exact ⟨halike, hcoherent⟩

omit msg in
theorem ontologyFor_snd (language : String) (ontology : Option String) :
    (m.ontologyFor language ontology).2.Alike m ∧ (m.ontologyFor language ontology).2.Coherent := by
  unfold ontologyFor
  cases hl : m.requireLanguage language with
  | error e => exact ⟨.refl m, hm⟩
  | ok l =>
    obtain ⟨hsound, hlanguage⟩ := requireLanguage_eq_ok_iff.1 hl
    rcases merged_of_coherent hm hsound hlanguage ontology with
      ⟨e, hr, -⟩ | ⟨o, m', hr, -, halike, hcoherent⟩
    · simp only [hr]
      exact ⟨.refl m, hm⟩
    · simp only [hr]
      exact ⟨halike, hcoherent⟩

end

/-! ## Runs -/

theorem Step.coherent {m m' : Manager} (h : Step m m') (hm : m.Coherent) : m'.Coherent := by
  cases h with
  | registerLanguage h =>
    obtain ⟨-, -, rfl⟩ := registerLanguageAs_eq_ok_iff.1 h
    exact coherent_of_merges_nil rfl
  | registerOntology h =>
    obtain ⟨-, -, rfl⟩ := registerOntologyAs_eq_ok_iff.1 h
    exact coherent_of_merges_nil rfl
  | setFlags validating strict => exact hm
  | poison => exact hm
  | fill msg c => exact (fill_snd hm msg c).2
  | fillObject msg c v => exact (fillObject_snd hm msg c v).2
  | extract msg => exact (extract_snd hm msg).2
  | extractObject msg c => exact (extractObject_snd hm msg c).2
  | ontologyFor language ontology => exact (ontologyFor_snd hm language ontology).2

theorem Reachable.coherent {m : Manager} (h : Reachable m) : m.Coherent := by
  induction h with
  | start s => exact coherent_of_merges_nil rfl
  | step _ hs ih => exact hs.coherent ih

end Manager
end AgentContent
