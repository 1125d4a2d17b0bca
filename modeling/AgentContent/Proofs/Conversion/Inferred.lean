import AgentContent.Proofs.Content.Json
import AgentContent.Proofs.Conversion.Internalise
import AgentContent.Proofs.Json.Sorted
import AgentContent.Proofs.Number.Rounding
import AgentContent.Proofs.Time.Rfc3339
import AgentContent.Proofs.Vocabulary.Basic

/-!
# AgentContent.Proofs.Conversion.Inferred

Content that data gives by its own shape, or under a primitive type, and the data of this content.

* `Json.InRange`: the numbers of data documents.
* `Inferred`: data for content that was found by the shape of other data. What is expected of it
  makes no difference, and its shape gives the content again.
* `exists_inferred`: there is such data.
* `exists_means_primitive`: under a primitive type the data of a value gives it again.
-/

namespace AgentContent

/-- A number is an integer of 64 bits, with or without a sign, or a finite float. -/
def Json.InRange : Json → Prop
  | .integer n => -2 ^ 63 ≤ n ∧ n < 2 ^ 64
  | .float x => x.isFinite = true
  | _ => True

/-- A date is in a year that four digits write. -/
def Content.FourDigitYear : Content → Prop
  | .primitive (.date t) => 0 ≤ t.year ∧ t.year ≤ 9999
  | _ => True

namespace Ontology

/-- Data that stands for content whatever is expected of it. -/
structure Means (o : Ontology) (c : Content) (w : Json) : Prop where
  data : ∀ expected element, o.toData expected element c = .ok w
  notNull : w ≠ .null
  sorted : w.sorted = w

/-- Data for the content of other data by its shape. It names a type only where that data does. -/
structure Inferred (o : Ontology) (v : Json) (c : Content) (w : Json) : Prop extends
    Means o c w where
  again : ∀ type, infer type w = .ok c
  untagged : ∀ expected, o.tagged? expected v = none → o.tagged? expected w = none
  typed : ∃ t, o.schema c.typeName = .ok t

section

variable {o : Ontology} {c : Content} {type : String}

theorem schema_of_primitive (ho : o.Keeps Vocabulary.basic) (p : Primitive) :
    ∃ t, o.schema (Content.primitive p).typeName = .ok t :=
  ⟨_, schema_eq_ok_iff.2 (ho _ _ (Vocabulary.find?_primitive p))⟩

theorem means_of_toData {p : Primitive} {w : Json} (h : p.toData = .ok w) (hn : w ≠ .null)
    (hs : w.sorted = w) : o.Means (.primitive p) w where
  data expected element := by rw [toData, h]
  notNull := hn
  sorted := hs

theorem means_float {x : Binary64} (h : x.isFinite = true) : o.Means (.ofFloat x) (.float x) :=
  means_of_toData (by rw [Primitive.toData, if_pos h]) (by simp) rfl

theorem isFinite_ofInt_of_inRange {n : Int} (h : (Json.integer n).InRange) :
    (Binary64.ofInt n).isFinite = true := by
  obtain ⟨hlow, hhigh⟩ := h
  exact Binary64.isFinite_ofInt (by omega)

/-! ## Shape -/

/-- The elements of a list, one after the other. -/
theorem exists_inferredAll {items : List Json} {elements : List Content}
    (ih : ∀ v ∈ items, ∀ c, infer type v = .ok c → ∃ w, o.Inferred v c w)
    (h : inferAll type items = .ok elements) :
    ∃ ws, (∀ element, o.toDataAll element elements = .ok ws) ∧
      (∀ type, inferAll type ws = .ok elements) ∧ ∀ w ∈ ws, w.sorted = w := by
  induction items generalizing elements with
  | nil =>
    cases h
    exact ⟨[], fun _ => by rw [toDataAll], fun _ => rfl, List.forall_mem_nil _⟩
  | cons v rest irest =>
    rw [inferAll] at h
    split at h
    · cases h
    · rename_i c hc
      split at h
      · cases h
      · rename_i cs hcs
        cases h
        obtain ⟨hfirst, hrest⟩ := List.forall_mem_cons.1 ih
        obtain ⟨w, hw⟩ := hfirst c hc
        obtain ⟨ws, hdata, hagain, hsorted⟩ := irest hrest hcs
        refine ⟨w :: ws, fun element => ?_, fun type => ?_, ?_⟩
        · have hschema : ∃ s, o.elementOr element c = .ok s := by
            cases element with
            | some s => exact ⟨s, rfl⟩
            | none => exact hw.typed
          obtain ⟨s, hs⟩ := hschema
          exact toDataAll_cons_eq_ok_iff.2 ⟨s, w, ws, hs, hw.data s none, hdata element, rfl⟩
        · simp only [inferAll, hw.again, hagain]
        · exact List.forall_mem_cons.2 ⟨hw.sorted, hsorted⟩

/-- Whatever the shape of data gives has data of the same shape. -/
theorem exists_inferred (ho : o.Keeps Vocabulary.basic) {v : Json} (hv : v.Each Json.InRange)
    (h : infer type v = .ok c) : ∃ w, o.Inferred v c w := by
  induction v using Json.induction generalizing c with
  | null => cases h
  | bool b =>
    cases h
    exact ⟨.bool b, means_of_toData rfl (by simp) rfl, fun _ => rfl, fun _ _ => rfl,
      schema_of_primitive ho _⟩
  | integer n =>
    rw [infer] at h
    cases h
    split
    · rename_i hn
      exact ⟨.integer n, means_of_toData rfl (by simp) rfl, fun _ => by rw [infer, if_pos hn],
        fun _ _ => rfl, schema_of_primitive ho _⟩
    · exact ⟨.float (.ofInt n), means_float (isFinite_ofInt_of_inRange hv.self), fun _ => rfl,
        fun _ _ => rfl, schema_of_primitive ho _⟩
  | float x =>
    cases h
    exact ⟨.float x, means_float hv.self, fun _ => rfl, fun _ _ => rfl, schema_of_primitive ho _⟩
  | string s =>
    cases h
    exact ⟨.string s, means_of_toData rfl (by simp) rfl, fun _ => rfl, fun _ h => h,
      schema_of_primitive ho _⟩
  | array items ih =>
    rw [infer] at h
    split at h
    · cases h
    · rename_i elements helements
      cases h
      obtain ⟨ws, hdata, hagain, hsorted⟩ := exists_inferredAll
        (fun v hv' c hc => ih v hv' ((Json.Each.array_iff.1 hv).2 v hv') hc) helements
      refine ⟨.array ws, ⟨fun expected element => ?_, by simp, Json.sorted_array hsorted⟩,
        fun type => ?_, fun _ _ => rfl, ?_⟩
      · exact toData_aggregate_eq_ok_iff.2 ⟨ws, hdata element, rfl⟩
      · rw [infer, hagain]
      · exact ⟨_, schema_eq_ok_iff.2 (ho TypeName.sequence _ rfl)⟩
  | object members _ => cases h

/-! ## Primitive types -/

theorem int64?_of_fits {n : Int} (h : fitsInt64 n = true) : (Json.integer n).int64? = some n := by
  rw [Json.int64?, if_pos h]

theorem isFinite_of_float? {v : Json} (hv : v.InRange) {x : Binary64} (h : v.float? = some x) :
    x.isFinite = true := by
  cases v with
  | integer n =>
    cases h
    exact isFinite_ofInt_of_inRange hv
  | float y =>
    cases h
    exact hv
  | _ => cases h

/-- The data of a primitive gives it again under its type. -/
theorem exists_means_primitive (ho : o.Keeps Vocabulary.basic) {v : Json}
    (hv : v.Each Json.InRange) (h : primitiveOf type v = .ok c) (hc : c.FourDigitYear) :
    ∃ w, o.Means c w ∧ primitiveOf type w = .ok c := by
  simp only [primitiveOf] at h ⊢
  split_ifs at h ⊢ with hstring hinteger hfloat hboolean hdate hbytes
  · split at h
    · rename_i hd
      cases h
      obtain ⟨s, -, rfl⟩ := Option.map_eq_some_iff.1 hd
      exact ⟨.string s, means_of_toData rfl (by simp) rfl, rfl⟩
    · cases h
  · split at h
    · rename_i hd
      cases h
      obtain ⟨n, hn, rfl⟩ := Option.map_eq_some_iff.1 hd
      refine ⟨.integer n, means_of_toData rfl (by simp) rfl, ?_⟩
      rw [int64?_of_fits (fitsInt64_of_int64? hn)]
      rfl
    · cases h
  · split at h
    · rename_i hd
      cases h
      obtain ⟨x, hx, rfl⟩ := Option.map_eq_some_iff.1 hd
      exact ⟨.float x, means_float (isFinite_of_float? hv.self hx), rfl⟩
    · cases h
  · split at h
    · rename_i hd
      cases h
      obtain ⟨b, -, rfl⟩ := Option.map_eq_some_iff.1 hd
      exact ⟨.bool b, means_of_toData rfl (by simp) rfl, rfl⟩
    · cases h
  · split at h
    · cases h
    · split at h
      · rename_i t _
        cases h
        obtain ⟨hlow, hhigh⟩ := hc
        refine ⟨.string t.toData, means_of_toData rfl (by simp) rfl, ?_⟩
        simp only [Json.string?, Instant.read?_toData hlow hhigh]
      · cases h
  · split at h
    · rename_i hd
      cases h
      obtain ⟨bs, -, rfl⟩ := Option.map_eq_some_iff.1 hd
      refine ⟨.array (bs.map fun b => .integer b.toNat), means_of_toData rfl (by simp) ?_, ?_⟩
      · refine Json.sorted_array ?_
        intro w hw
        obtain ⟨b, -, rfl⟩ := List.mem_map.1 hw
        rfl
      · simp [Json.array?, Json.bytes?_integers]
    · cases h
  · obtain ⟨w, hw⟩ := exists_inferred ho hv h
    exact ⟨w, hw.toMeans, hw.again type⟩

end

end Ontology
end AgentContent
