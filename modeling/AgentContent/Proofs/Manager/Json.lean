import AgentContent.Proofs.Content.Json
import AgentContent.Proofs.Manager.State
import AgentContent.Proofs.Ontology.Equality

/-!
# AgentContent.Proofs.Manager.Json

Messages in the language of data documents.

* `Language.encodeJson_ok_iff`: which content has a document.
* `Language.decodeJson_encodeJson`: the content of the document.
* `Manager.fill_eq_ok_iff`: what a filled message is.
* `Manager.extract_fill_json`: what is filled in comes back.
-/

namespace AgentContent
namespace Language

/-- A content has a document when no float in it is infinite or no number. -/
theorem encodeJson_ok_iff {c : Content} (hv : c.Each true Content.FiniteVariable) (pretty : Bool) :
    (∃ text, encodeJson pretty c = .ok text) ↔ c.Each true Content.Finite := by
  rw [← Content.nonFinite?_eq_none_iff hv, encodeJson]
  cases c.nonFinite? with
  | none => simp
  | some x => simp

theorem decodeJson_encodeJson {c : Content} (hf : c.Each true Content.Fits)
    (hv : c.Each true Content.FiniteVariable) (he : c.Each true Content.ExactFloat)
    (hd : c.toJson.depth ≤ Json.maxDepth) {pretty : Bool} {text : String}
    (h : encodeJson pretty c = .ok text) : decodeJson (bytesOf text) = .ok c := by
  have hx : c.Each true Content.Finite := (encodeJson_ok_iff hv pretty).1 ⟨text, h⟩
  have hexact := Content.exact_toJson hf he hx
  have hdoc : Json.ofBytes? (bytesOf text) = some c.toJson := by
    unfold encodeJson at h
    split at h
    · cases h
    · cases h
      cases pretty with
      | true => exact Json.ofBytes?_pretty hexact hd
      | false => exact Json.ofBytes?_compact hexact hd
  rw [decodeJson, hdoc, Option.bind_some, Content.ofJson?_toJson hf]

end Language

namespace Manager

open Ontology

theorem put_eq_ok_iff {m : Manager} {l : Language} {o : Ontology} {msg msg' : Message}
    {c : Content} : m.put l o msg c = .ok msg' ↔
      c.isContentElement = true ∧ m.check o c = .ok () ∧
        ∃ p, l.encode o c = .ok p ∧ msg' = { msg with content := some p } := by
  unfold put
  constructor
  · intro h
    split at h
    · rename_i helement
      split at h
      · cases h
      · rename_i hcheck
        split at h
        · cases h
        · rename_i p hp
          cases h
          exact ⟨helement, hcheck, p, hp, rfl⟩
    · cases h
  · rintro ⟨helement, hcheck, p, hp, rfl⟩
    rw [if_pos helement, hcheck]
    simp only [hp]

/-- A message is filled when its language and its ontology are known, the content is a content
element that passes the checks, and the language has a payload for it. -/
theorem fill_eq_ok_iff {m : Manager} (hm : m.Coherent) {msg msg' : Message} {c : Content} :
    (m.fill msg c).1 = .ok msg' ↔ ∃ name l o p, m.resolved msg = .ok (name, l, o) ∧
      c.isContentElement = true ∧ m.check o c = .ok () ∧ l.encode o c = .ok p ∧
        msg' = { msg with content := some p } := by
  rw [fill_fst hm]
  cases hr : m.resolved msg with
  | error e => simp
  | ok r =>
    obtain ⟨name, l, o⟩ := r
    simp only [put_eq_ok_iff]
    constructor
    · rintro ⟨helement, hcheck, p, hp, rfl⟩
      exact ⟨name, l, o, p, rfl, helement, hcheck, hp, rfl⟩
    · rintro ⟨name', l', o', p, heq, helement, hcheck, hp, rfl⟩
      cases heq
      exact ⟨helement, hcheck, p, hp, rfl⟩

theorem take_of_decode {m : Manager} {name : String} {l : Language} {o : Ontology} {p : Payload}
    {c : Content} (hd : l.decode o name p = .ok c) (hc : m.check o c = .ok ()) :
    m.take name l o (some p) = .ok c := by
  simp only [take, hd, hc]

theorem resolveLanguage_of_resolved {m : Manager} {msg : Message} {name : String} {l : Language}
    {o : Ontology} (h : m.resolved msg = .ok (name, l, o)) :
    m.resolveLanguage msg = .ok (name, l) := by
  unfold resolved at h
  split at h
  · cases h
  · rename_i hl
    split at h
    · cases h
    · cases h
      exact hl

/-- What the payload of a message says does not matter for what language and ontology it has. -/
theorem resolved_content (m : Manager) (msg : Message) (p : Option Payload) :
    m.resolved { msg with content := p } = m.resolved msg := rfl

/-- Data documents lose nothing. A content has a document exactly when no float in it is infinite or
no number; and what is filled into a message in such a language comes back as it was, from any
state of a manager with the same registries and flags. -/
theorem extract_fill_json :
    (∀ (pretty : Bool) (c : Content), c.Each true Content.StringVariable →
      ((∃ text, Language.encodeJson pretty c = .ok text) ↔ c.Each true Content.Finite)) ∧
    (∀ (m m' : Manager) (msg msg' : Message) (c : Content) (name : String) (pretty : Bool),
      Reachable m → Reachable m' → m'.Alike m →
      m.resolveLanguage msg = .ok (name, .json pretty) →
      c.Each true Content.Fits → c.Each true Content.FiniteVariable →
      c.Each true Content.ExactFloat → c.toJson.depth ≤ Json.maxDepth →
      (m.fill msg c).1 = .ok msg' → (m'.extract msg').1 = .ok c) := by
  constructor
  · intro pretty c hv
    have hv' : c.Each true Content.FiniteVariable := fun d hd =>
      Content.finiteVariable_of_stringVariable (hv d hd)
    exact Language.encodeJson_ok_iff hv' pretty
  · intro m m' msg msg' c name pretty hm hm' halike hlanguage hf hv he hd hfill
    obtain ⟨name', l, o, p, hr, -, hcheck, hp, rfl⟩ := (fill_eq_ok_iff hm.coherent).1 hfill
    have hl := resolveLanguage_of_resolved hr
    rw [hlanguage] at hl
    cases hl
    have hdecode : (Language.json pretty).decode o name p = .ok c := by
      unfold Language.encode at hp
      split at hp
      · rename_i heq; cases heq
      · rename_i heq
        cases heq
        split at hp
        · rename_i text htext
          cases hp
          exact Language.decodeJson_encodeJson hf hv he hd htext
        · cases hp
      · rename_i heq; cases heq
      · rename_i heq; cases heq
      · rename_i heq; cases heq
    have hcheck' : m'.check o c = .ok () := by rw [halike.check, hcheck]
    rw [extract_fst hm'.coherent, halike.resolved, resolved_content, hr]
    exact take_of_decode hdecode hcheck'

def tons : Binary64 := Binary64.ofDecimal false 25 (-1)

def holds : Schema where
  name := "holds"
  kind := .predicate
  slots := [⟨"what", TypeName.set, false⟩]

/-- A vocabulary of what a depot holds. -/
def depot : Ontology where
  name := "depot"
  own := { schemas := [
    holds,
    { name := TypeName.set, kind := .aggregate },
    { name := TypeName.float, kind := .primitive },
    .root .variable] }

/-- A depot that holds two tons and a half, and something unknown. -/
def held : Content :=
  .slotted .predicate "Holds" [("What",
    .aggregate TypeName.set [.ofFloat tons, .freeVariable "x" true] (some (.ofBool true)))]

/-- A manager that knows the vocabulary and data documents, and refuses undeclared slots. -/
def depotManager : Manager where
  languages := [("json", .json false)]
  ontologies := [("depot", depot)]
  strict := true

def depotMessage : Message where
  performative := .inform
  language := some "JSON"
  ontology := some "DEPOT"

theorem reachable_depotManager : Reachable depotManager := by
  have hl : Step (ofSettings {}) { languages := [("json", .json false)] } :=
    @Step.registerLanguage (ofSettings {}) _ "json" (.json false) rfl
  have ho : Step { languages := [("json", .json false)] }
      { languages := [("json", .json false)], ontologies := [("depot", depot)] } :=
    @Step.registerOntology _ _ "depot" depot rfl
  exact .step (.step (.step (.start {}) hl) ho) (.setFlags _ true true)

theorem check_held : depotManager.check depot held = .ok () := by
  have hslots : depot.slots holds = .ok [⟨"what", TypeName.set, false⟩] :=
    slots_of_supers_nil rfl (by decide)
  have hvalid : depot.validateContent held = .ok () := by
    refine validateContent_eq_ok_iff.2 ⟨_, rfl, validate_slotted_eq_ok_iff.2 ⟨_, hslots, ?_⟩⟩
    refine List.forall_mem_singleton.2 (.inr ⟨_, { name := TypeName.set, kind := .aggregate }, [],
      rfl, ?_, ?_, ?_, rfl⟩)
    · exact fitting_eq_ok_iff.2 ⟨_, rfl, rfl, rfl, rfl⟩
    · refine validate_aggregate_eq_ok_iff.2 ⟨rfl, ?_⟩
      refine List.forall_mem_cons.2 ⟨?_, List.forall_mem_singleton.2 ?_⟩
      · refine validateContent_eq_ok_iff.2 ⟨_, rfl, validate_primitive_eq_ok_iff.2 ⟨_, rfl, rfl⟩⟩
      · refine validateContent_eq_ok_iff.2 ⟨_, rfl, ?_⟩
        rw [Content.freeVariable, validate]
        rfl
    · exact facetsOf_of_supers_nil rfl "what"
  have hdeclared : depot.Declared held := by
    refine ⟨_, rfl, ?_⟩
    rw [held, checkUndeclared, checkUndeclaredSlots_eq_ok_iff]
    refine List.forall_mem_singleton.2 ⟨?_, _, rfl, ?_⟩
    · rw [containsSlot, slot?_of_supers_nil rfl]
      rfl
    · rw [checkUndeclared, checkUndeclaredAll_eq_ok_iff]
      refine List.forall_mem_cons.2 ⟨⟨_, rfl, ?_⟩, List.forall_mem_singleton.2 ⟨_, rfl, ?_⟩⟩
      · rw [Content.ofFloat, checkUndeclared]
      · rw [Content.freeVariable, checkUndeclared]
  obtain ⟨s, hs, hv⟩ := validateContent_eq_ok_iff.1 hvalid
  obtain ⟨t, ht, hd⟩ := hdeclared
  rw [hs] at ht
  cases ht
  simp only [check, depotManager, hs, hv, hd, if_true]

theorem finite_held : held.Each true Content.Finite := by decide +kernel

theorem fill_held : (depotManager.fill depotMessage held).1 =
    .ok { depotMessage with content := some (.bytes (Language.bytesOf held.toJson.compact)) } := by
  have hnone : held.nonFinite? = none := (Content.nonFinite?_eq_none_iff (by decide)).2 finite_held
  refine (fill_eq_ok_iff reachable_depotManager.coherent).2
    ⟨"JSON", .json false, depot, _, rfl, rfl, check_held, ?_, rfl⟩
  rw [Language.encode, Language.encodeJson, hnone]
  rfl

theorem exact_tons : Json.Exact (.float tons) := by
  have hfinite : tons.isFinite = true := by decide +kernel
  have htext : FloatStyle.data.write tons = "2.5".toList := by decide +kernel
  have hvalue : scaledTen? 25 (-1) = some tons := by decide +kernel
  have hscan : Json.Token.scanNumber "2.5".toList =
    (Json.Token.number? false ['2'] (some ['5']) none).map fun v => (v, []) := rfl
  have hnumber : Json.Token.number? false ['2'] (some ['5']) none =
    (scaledTen? 25 (-1)).map .float := rfl
  show Json.Token.scanNumber (Json.writeFloat tons) = _
  rw [Json.writeFloat, hfinite, if_pos rfl, htext, hscan, hnumber, hvalue]
  rfl

theorem exactFloat_held : held.Each true Content.ExactFloat := by
  show ∀ c ∈ [held, .aggregate TypeName.set [.ofFloat tons, .freeVariable "x" true]
    (some (.ofBool true)), .ofFloat tons, .freeVariable "x" true, .ofString "x", .ofBool true],
    c.ExactFloat
  simp only [List.forall_mem_cons]
  exact ⟨trivial, trivial, fun _ => exact_tons, trivial, trivial, trivial, List.forall_mem_nil _⟩

theorem extract_fill_held :
    (∃ text, Language.encodeJson false held = .ok text) ∧
      ((depotManager.fill depotMessage held).2.extract { depotMessage with
        content := some (.bytes (Language.bytesOf held.toJson.compact)) }).1 = .ok held := by
  constructor
  · exact (extract_fill_json.1 false held (by decide)).2 finite_held
  · exact extract_fill_json.2 depotManager _ depotMessage _ held "JSON" false
      reachable_depotManager (.step reachable_depotManager (.fill _ _ _))
      (fill_snd reachable_depotManager.coherent depotMessage held).1 rfl (by decide) (by decide)
      exactFloat_held (by decide) fill_held

end Manager
end AgentContent
