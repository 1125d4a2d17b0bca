import AgentContent.Proofs.Manager.Json
import AgentContent.Proofs.Sl.Built
import AgentContent.Proofs.Vocabulary.Basic

/-!
# AgentContent.Proofs.Manager.Object

Objects in messages of the two standard languages.

* `Language.decode_encode_standard`: content of known values that is written is finite, and an
  equal one is read.
* `Manager.check_of_same`: the checks do not tell equal contents apart.
* `Manager.extractObject_fillObject`: what is read from a message is what conversion alone gives.
-/

namespace AgentContent

open Ontology

namespace Language

variable {o : Ontology} {c : Content} {p : Payload}

theorem decode_encode_sl {vocabulary : Ontology} (hb : c.Each false (Built o))
    (hp : c.Each false Content.Portable) (hv : o.validateContent c = .ok ())
    (hm : c.isContentElement = true) (h : (sl vocabulary).encode o c = .ok p) (name : String) :
    c.Each false Content.Finite ∧ ∃ d, (sl vocabulary).decode o name p = .ok d ∧
      d.same c = true ∧ d.Each false Content.Keyed := by
  simp only [encode, encodeSl] at h
  cases htext : Sl.encode o c with
  | error e =>
    rw [htext] at h
    cases h
  | ok text =>
    rw [htext] at h
    cases h
    obtain ⟨hfinite, d, hd, hsame, hkeyed⟩ := Sl.decode_encode_of_built hb hp hv hm htext
    exact ⟨hfinite, d, by simp only [decode, decodeSl, hd], hsame, hkeyed⟩

theorem fits_of_built (hb : Built o c) (hp : c.Portable) : c.Fits := by
  cases c with
  | primitive p =>
    cases p with
    | integer n => exact hb
    | bytes bs => exact hp
    | _ => trivial
  | slotted role type slots => exact hb.1
  | «variable» slots isMeta => exact hb.elim
  | _ => trivial

theorem decode_encode_json {pretty : Bool} (hb : c.Each false (Built o))
    (hp : c.Each false Content.Portable) (he : c.Each true Content.ExactFloat)
    (hd : c.toJson.depth ≤ Json.maxDepth) (h : (json pretty).encode o c = .ok p) (name : String) :
    c.Each false Content.Finite ∧ (json pretty).decode o name p = .ok c := by
  have hfits : c.Each true Content.Fits :=
    each_with_templates hb fun d hd => fits_of_built (hb d hd) (hp d hd)
  have hvariable : c.Each true Content.FiniteVariable :=
    each_with_templates hb fun d hd => finiteVariable_of_built (hb d hd)
  simp only [encode] at h
  cases htext : encodeJson pretty c with
  | error e =>
    rw [htext] at h
    cases h
  | ok text =>
    rw [htext] at h
    cases h
    refine ⟨((encodeJson_ok_iff hvariable pretty).1 ⟨text, htext⟩).without, ?_⟩
    exact decodeJson_encodeJson hfits hvariable he hd htext

/-- The semantic language loses the order and the spelling of slots, data documents lose nothing. -/
theorem decode_encode_standard {l : Language}
    (hstandard : l = .sl Vocabulary.operators ∨ ∃ pretty, l = .json pretty)
    (hb : c.Each false (Built o)) (hp : c.Each false Content.Portable)
    (hjson : ∀ pretty, l = .json pretty →
      c.Each true Content.ExactFloat ∧ c.toJson.depth ≤ Json.maxDepth)
    (hv : o.validateContent c = .ok ()) (hm : c.isContentElement = true)
    (h : l.encode o c = .ok p) (name : String) :
    c.Each false Content.Finite ∧
      ∃ d, l.decode o name p = .ok d ∧ d.same c = true ∧ d.Each false Content.Keyed := by
  rcases hstandard with rfl | ⟨pretty, rfl⟩
  · exact decode_encode_sl hb hp hv hm h name
  · obtain ⟨hfloat, hdepth⟩ := hjson pretty rfl
    obtain ⟨hfinite, hdecode⟩ := decode_encode_json hb hp hfloat hdepth h name
    have hkeyed : c.Each false Content.Keyed := fun d hd => keyed_of_built (hb d hd)
    exact ⟨hfinite, c, hdecode, Content.same_refl hkeyed, hkeyed⟩

end Language

namespace Manager

variable {m : Manager} {o : Ontology}

theorem check_eq_ok_iff (hm : m.validating = true) {c : Content} :
    m.check o c = .ok () ↔
      o.validateContent c = .ok () ∧ (m.strict = true → o.Declared c) := by
  rw [check, if_pos hm, validateContent, Declared]
  cases o.schema c.typeName with
  | error e => simp
  | ok s =>
    cases hv : o.validate s c with
    | error e => simp [hv]
    | ok u =>
      by_cases hs : m.strict = true
      · cases hd : o.checkUndeclared s c with
        | error e => simp [hv, hs, hd]
        | ok u => simp [hv, hs, hd]
      · simp [hv, hs]

/-- The checks do not tell equal contents apart, unless a rule of an application looks closer. -/
theorem check_of_same (hm : m.validating = true) (ho : o.Plain) {c d : Content}
    (h : c.same d = true) (hc : c.Each false Content.Keyed) (hd : d.Each false Content.Keyed) :
    m.check o c = .ok () ↔ m.check o d = .ok () := by
  rw [check_eq_ok_iff hm, check_eq_ok_iff hm, validateContent_of_same ho h hc hd]
  simp only [Declared, Content.typeName_of_same h, checkUndeclared_of_same h hc hd]

/-- An ontology over the basic one has aggregates and no rules of an application also together with
the vocabulary of a standard language. -/
theorem hasSequence_and_plain {l : Language} {d : Ontology}
    (hstandard : l = .sl Vocabulary.operators ∨ ∃ pretty, l = .json pretty)
    (hkeeps : d.Keeps Vocabulary.basic) (hplain : d.Plain) :
    (combine (some d) l.vocabulary?).HasSequence ∧ (combine (some d) l.vocabulary?).Plain := by
  rcases hstandard with rfl | ⟨pretty, rfl⟩
  · refine ⟨(hkeeps.compose _ _).hasSequence, Plain.compose ?_ _⟩
    simp [hplain, Vocabulary.plain_operators]
  · exact ⟨hkeeps.hasSequence, hplain⟩

theorem resolved_of_ontology {msg : Message} {name ontology : String} {l : Language} {d : Ontology}
    (hl : m.resolveLanguage msg = .ok (name, l)) (ho : msg.ontology = some ontology)
    (hd : m.ontology? ontology = some d) :
    m.resolved msg = .ok (name, l, combine (some d) l.vocabulary?) := by
  simp only [resolved, hl, ho, merge, hd]

/-- A message is filled with an object when its content passes the checks and has a payload. -/
theorem exists_of_fillObject (hm : m.Coherent) {msg msg' : Message} {name : String} {l : Language}
    (hr : m.resolved msg = .ok (name, l, o)) {T : AppClass} {v : Json}
    (h : (m.fillObject msg T v).1 = .ok msg') :
    ∃ s a p, o.schemaFor T = .ok s ∧ o.externalise s v = .ok a ∧ a.isContentElement = true ∧
      m.check o a = .ok () ∧ l.encode o a = .ok p ∧ msg' = { msg with content := some p } := by
  rw [fillObject_fst hm, hr] at h
  simp only at h
  split at h
  · cases h
  · rename_i a ha
    obtain ⟨helement, hcheck, p, hp, rfl⟩ := put_eq_ok_iff.1 h
    unfold fromObject at ha
    split at ha
    · cases ha
    · rename_i s hs
      exact ⟨s, a, p, hs, ha, helement, hcheck, hp, rfl⟩

theorem find?_of_schemaFor {T : AppClass} {s : Schema} (h : o.schemaFor T = .ok s) :
    o.find? s.name = some s := by
  unfold schemaFor at h
  split at h
  · rename_i t ht
    cases h
    obtain ⟨name, -, hname⟩ := Option.bind_eq_some_iff.1 ht
    exact find?_name hname
  · cases h

theorem toObject_of_internalise {T : AppClass} {s : Schema} {c : Content} {w : Json}
    (hs : o.schemaFor T = .ok s) (hw : o.internalise s c = .ok w) :
    (∀ u, T.accept? w = some u → o.toObject T c = .ok u) ∧
      (T.accept? w = none → o.toObject T c = .error (.conversion T.label .notOfClass)) := by
  simp only [toObject, hs, hw]
  constructor
  · intro u hu
    simp only [hu]
  · intro hu
    simp only [hu]

theorem extractObject_of_take (hm : m.Coherent) {msg : Message} {name : String} {l : Language}
    (hr : m.resolved msg = .ok (name, l, o)) {T : AppClass} {s : Schema} {c : Content} {w : Json}
    (ht : m.take name l o msg.content = .ok c) (hs : o.schemaFor T = .ok s)
    (hw : o.internalise s c = .ok w) :
    (∀ u, T.accept? w = some u → (m.extractObject msg T).1 = .ok u) ∧
      (T.accept? w = none →
        (m.extractObject msg T).1 = .error (.ontology (.conversion T.label .notOfClass))) := by
  obtain ⟨hsome, hnone⟩ := toObject_of_internalise hs hw
  rw [extractObject_fst hm, hr]
  simp only [ht]
  constructor
  · intro u hu
    simp only [hsome u hu]
  · intro hu
    simp only [hnone hu]

/-- An object that is filled into a message of a standard language comes back as what conversion to
content and back makes of it: writing, reading and checking again in between do not show. The
content, if there is any, only has dates and byte sequences that a text can hold, and floats and a
depth that data documents carry. -/
theorem extractObject_fillObject {m m' : Manager} (hm : Reachable m) (hm' : Reachable m')
    (halike : m'.Alike m) (hvalidating : m.validating = true) {msg msg' : Message}
    {name ontology : String} {l : Language} {d : Ontology}
    (hlanguage : m.resolveLanguage msg = .ok (name, l))
    (hstandard : l = .sl Vocabulary.operators ∨ ∃ pretty, l = .json pretty)
    (hontology : msg.ontology = some ontology) (hd : m.ontology? ontology = some d)
    (hkeeps : d.Keeps Vocabulary.basic) (hplain : d.Plain) {T : AppClass} {v : Json}
    (hcontent : ∀ a, (combine (some d) l.vocabulary?).fromObject T v = .ok a →
      a.Each false Content.Portable ∧ ∀ pretty, l = .json pretty →
        a.Each true Content.ExactFloat ∧ a.toJson.depth ≤ Json.maxDepth)
    (hfill : (m.fillObject msg T v).1 = .ok msg') :
    ∃ s a w, (combine (some d) l.vocabulary?).schemaFor T = .ok s ∧
      (combine (some d) l.vocabulary?).externalise s v = .ok a ∧
      (combine (some d) l.vocabulary?).internalise s a = .ok w ∧
      (∀ u, T.accept? w = some u → (m'.extractObject msg' T).1 = .ok u) ∧
      (T.accept? w = none →
        (m'.extractObject msg' T).1 = .error (.ontology (.conversion T.label .notOfClass))) := by
  have hr := resolved_of_ontology hlanguage hontology hd
  obtain ⟨hseq, ho⟩ := hasSequence_and_plain hstandard hkeeps hplain
  -- from here on only these two facts about the merged ontology count
  generalize combine (some d) l.vocabulary? = o at hr hseq ho hcontent ⊢
  obtain ⟨s, a, p, hs, ha, helement, hcheck, hp, rfl⟩ :=
    exists_of_fillObject hm.coherent hr hfill
  have hbuilt : a.Each false (Built o) := built_externalise hseq (find?_of_schemaFor hs) ha
  have hvalid := ((check_eq_ok_iff hvalidating).1 hcheck).1
  obtain ⟨hportable, hjson⟩ := hcontent a (by simp only [fromObject, hs, ha])
  have hkeyed : a.Each false Content.Keyed := fun c hc => keyed_of_built (hbuilt c hc)
  obtain ⟨hfinite, c, hdecode, hsame, hkeyed'⟩ :=
    Language.decode_encode_standard hstandard hbuilt hportable hjson hvalid helement hp name
  obtain ⟨w, hw⟩ := exists_toData hbuilt hvalid hfinite s none
  have hw' : o.internalise s c = .ok w := (toData_of_same hsame hkeyed' hkeyed s none w).2 hw
  have hcheck' : m'.check o c = .ok () := by
    rw [halike.check]
    exact (check_of_same hvalidating ho hsame hkeyed' hkeyed).2 hcheck
  have hr' : m'.resolved { msg with content := some p } = .ok (name, l, o) := by
    rw [halike.resolved, resolved_content, hr]
  exact ⟨s, a, w, hs, ha, hw,
    extractObject_of_take hm'.coherent hr' (take_of_decode hdecode hcheck') hs hw'⟩

def delivers : Schema where
  name := "delivers"
  kind := .predicate
  slots := [⟨"what", TypeName.string, false⟩, ⟨"tons", TypeName.integer, true⟩]

/-- A vocabulary of what ships deliver, over the basic one. -/
def harbour : Ontology :=
  { Ontology.compose "harbour" [Vocabulary.basic] with
    own := { schemas := [delivers], classes := [(.document 0, "delivers")] } }

/-- A manager that knows the vocabulary and the semantic language. -/
def harbourManager : Manager where
  languages := [("fipa-sl", .sl Vocabulary.operators)]
  ontologies := [("harbour", harbour)]
  strict := true

def harbourMessage : Message where
  performative := .inform
  language := some "FIPA-SL"
  ontology := some "Harbour"

def delivery : Json :=
  .object [("Tons", .integer 3), ("what", .string "salt")]

def delivered : Content :=
  .slotted .predicate "delivers" [("what", .ofString "salt"), ("tons", .ofInt 3)]

theorem reachable_harbourManager : Reachable harbourManager := by
  have hl : Step (ofSettings {}) { languages := [("fipa-sl", .sl Vocabulary.operators)] } :=
    @Step.registerLanguage (ofSettings {}) _ "fipa-sl" (.sl Vocabulary.operators) rfl
  have ho : Step { languages := [("fipa-sl", .sl Vocabulary.operators)] }
      { languages := [("fipa-sl", .sl Vocabulary.operators)],
        ontologies := [("harbour", harbour)] } :=
    @Step.registerOntology _ _ "harbour" harbour rfl
  exact .step (.step (.step (.start {}) hl) ho) (.setFlags _ true true)

theorem keeps_harbour : harbour.Keeps Vocabulary.basic := by
  refine keeps_of_own ?_ (List.forall_mem_singleton.2 rfl)
  exact List.append_nil _

theorem plain_harbour : harbour.Plain := by
  have hfacets : ∀ l ∈ harbour.layers, ∀ s ∈ l.schemas, ∀ f ∈ s.facets,
      f.2.isCustom = false := by decide
  exact plain_of_layers hfacets

/-- The vocabulary with the one of the language. -/
def spoken : Ontology :=
  combine (some harbour) (some Vocabulary.operators)

theorem slots_delivers : spoken.slots delivers = .ok delivers.slots :=
  slots_of_supers_nil rfl (by decide)

theorem facetsOf_delivers (slot : String) : spoken.facetsOf delivers slot = .ok [] :=
  facetsOf_of_supers_nil rfl slot

theorem externalise_delivery : spoken.externalise delivers delivery = .ok delivered := by
  have hwhat : spoken.toContent { name := TypeName.string, kind := .primitive } none
      (.string "salt") = .ok (.ofString "salt") := by
    rw [toContent.eq_def]
    rfl
  have htons : spoken.toContent { name := TypeName.integer, kind := .primitive } none
      (.integer 3) = .ok (.ofInt 3) := by
    rw [toContent.eq_def]
    rfl
  have helement : ∀ slot, spoken.elementType? delivers slot = .ok none := by
    intro slot
    rw [elementType?, facetsOf_delivers]
    rfl
  have hslots : spoken.toSlots delivers [("Tons", .integer 3), ("what", .string "salt")]
      delivers.slots = .ok [("what", .ofString "salt"), ("tons", .ofInt 3)] :=
    toSlots_cons_of_get? rfl (by simp) rfl (helement _) hwhat
      (toSlots_cons_of_get? rfl (by simp) rfl (helement _) htons (by rw [toSlots]))
  show spoken.toContent delivers none (.object [("Tons", .integer 3), ("what", .string "salt")]) = _
  rw [toContent.eq_def]
  show spoken.toSlotted delivers [("Tons", .integer 3), ("what", .string "salt")] = _
  rw [toSlotted]
  simp only [slots_delivers, hslots]
  rfl

theorem valid_delivered : spoken.validateContent delivered = .ok () := by
  refine validateContent_eq_ok_iff.2 ⟨delivers, rfl, validate_slotted_eq_ok_iff.2
    ⟨_, slots_delivers, List.forall_mem_cons.2 ⟨?_, List.forall_mem_singleton.2 ?_⟩⟩⟩
  · refine .inr ⟨.ofString "salt", { name := TypeName.string, kind := .primitive }, [], rfl,
      fitting_eq_ok_iff.2 ⟨_, rfl, rfl, rfl, rfl⟩, ?_, facetsOf_delivers _, rfl⟩
    exact validate_primitive_eq_ok_iff.2 ⟨_, rfl, rfl⟩
  · refine .inr ⟨.ofInt 3, { name := TypeName.integer, kind := .primitive }, [], rfl,
      fitting_eq_ok_iff.2 ⟨_, rfl, rfl, rfl, rfl⟩, ?_, facetsOf_delivers _, rfl⟩
    exact validate_primitive_eq_ok_iff.2 ⟨_, rfl, rfl⟩

theorem declared_delivered : spoken.Declared delivered := by
  refine ⟨delivers, rfl, ?_⟩
  rw [delivered, checkUndeclared, checkUndeclaredSlots_eq_ok_iff]
  refine List.forall_mem_cons.2 ⟨⟨?_, _, rfl, ?_⟩, List.forall_mem_singleton.2 ⟨?_, _, rfl, ?_⟩⟩
  · rw [containsSlot, slot?_of_supers_nil rfl]
    rfl
  · rw [Content.ofString, checkUndeclared]
  · rw [containsSlot, slot?_of_supers_nil rfl]
    rfl
  · rw [Content.ofInt, checkUndeclared]

theorem encode_delivered :
    Sl.encode spoken delivered = .ok "((delivers :what salt :tons 3))" := by
  rfl

theorem fromObject_delivery : spoken.fromObject (.document 0) delivery = .ok delivered :=
  externalise_delivery

theorem fillObject_delivery : (harbourManager.fillObject harbourMessage (.document 0) delivery).1 =
    .ok { harbourMessage with content := some (.text "((delivers :what salt :tons 3))") } := by
  have hr : harbourManager.resolved harbourMessage =
    .ok ("FIPA-SL", .sl Vocabulary.operators, spoken) := rfl
  have hcheck : harbourManager.check spoken delivered = .ok () :=
    (check_eq_ok_iff rfl).2 ⟨valid_delivered, fun _ => declared_delivered⟩
  rw [fillObject_fst reachable_harbourManager.coherent, hr]
  simp only [fromObject_delivery]
  refine put_eq_ok_iff.2 ⟨rfl, hcheck, _, ?_, rfl⟩
  simp only [Language.encode, Language.encodeSl, encode_delivered]

theorem extractObject_delivery : ∃ w, spoken.internalise delivers delivered = .ok w ∧
    ((harbourManager.fillObject harbourMessage (.document 0) delivery).2.extractObject
      { harbourMessage with content := some (.text "((delivers :what salt :tons 3))") }
      (.document 0)).1 = .ok w := by
  have hlanguage : harbourManager.resolveLanguage harbourMessage =
    .ok ("FIPA-SL", .sl Vocabulary.operators) := rfl
  have hcontent : ∀ a, spoken.fromObject (.document 0) delivery = .ok a →
      a.Each false Content.Portable ∧ ∀ pretty, Language.sl Vocabulary.operators = .json pretty →
        a.Each true Content.ExactFloat ∧ a.toJson.depth ≤ Json.maxDepth := by
    intro a ha
    cases ha.symm.trans fromObject_delivery
    refine ⟨?_, fun _ h => by cases h⟩
    show ∀ c ∈ [delivered, .ofString "salt", .ofInt 3], c.Portable
    simp only [List.forall_mem_cons]
    exact ⟨trivial, trivial, trivial, List.forall_mem_nil _⟩
  obtain ⟨s, a, w, hs, ha, hw, hsome, -⟩ := extractObject_fillObject reachable_harbourManager
    (.step reachable_harbourManager (.fillObject _ _ _ _))
    (fillObject_snd reachable_harbourManager.coherent harbourMessage (.document 0) delivery).1 rfl
    hlanguage (.inl rfl) rfl rfl keeps_harbour plain_harbour hcontent fillObject_delivery
  have hschema : spoken.schemaFor (.document 0) = .ok delivers := rfl
  cases hs.symm.trans hschema
  cases ha.symm.trans externalise_delivery
  exact ⟨w, hw, hsome w rfl⟩

end Manager
end AgentContent
