import AgentContent.Proofs.Conversion.RoundTrip
import AgentContent.Proofs.Sl.Decode

/-!
# AgentContent.Proofs.Sl.Built

The text of content that is built of schemas and valid.

* `Content.Portable`: what dates and byte sequences must be for a text to hold them.
* `determined_of_built`: the text of such content determines it.
* `finite_of_encodeExpression`: content with a text has no floats that are infinite or no number.
* `decode_encode_of_built`: such content comes back from its text as an equal one.
-/

namespace AgentContent

/-- A date is a whole number of milliseconds in a year of four digits, and a byte sequence is no
longer than memory. -/
def Content.Portable : Content → Prop
  | .primitive (.date t) => t.InMillis
  | .primitive (.bytes bs) => bs.length < 0x8000000000000000
  | _ => True

namespace Sl

open Ontology

variable {o : Ontology} {c : Content}

/-! ## Determined content -/

theorem hasWord_of_built {p : Primitive} (hb : Built o (.primitive p))
    (hp : (Content.primitive p).Portable) : HasWord p := by
  cases p with
  | integer n => exact hb
  | date t => exact hp
  | _ => trivial

/-- A value with slots of a known schema has the role of its kind in every place. -/
theorem roleOf_of_isSlotted {k : SchemaKind} (h : k.isSlotted = true) (e : Expect) :
    roleOf (some k) e = roleOfKind k := by
  cases k <;> first | rfl | cases h

theorem determined_of_built (hb : c.Each false (Built o)) (hp : c.Each false Content.Portable)
    (hv : o.validateContent c = .ok ()) (e : Expect) : Determined o e c := by
  induction c using Content.induction generalizing e with
  | primitive p => exact .primitive (hasWord_of_built hb.self hp.self)
  | slotted role type slots ih =>
    obtain ⟨s, ds, hi⟩ := exists_isInstance hb hv
    have hk := hi.isSlotted
    have hkind : kindOf o type = some s.kind := by rw [kindOf, hi.find, Option.map_some]
    -- the kind has slots, so that the head is not read as an aggregate or an expression
    have hne : kindOf o type ≠ some .aggregate ∧ kindOf o type ≠ some .ire := by
      rw [hkind]
      constructor
      · intro h
        rw [Option.some.inj h] at hk
        cases hk
      · intro h
        rw [Option.some.inj h] at hk
        cases hk
    have hd : declaredSlots o (o.find? type) = .ok ds := by rw [hi.find]; exact hi.declared
    rw [hi.role, ← roleOf_of_isSlotted hk e, ← hkind]
    refine .slotted hne hd hi.distinct ?_
    intro x hx
    exact ih x hx (hb.slot hx) (hp.slot hx) (hi.valid x hx) _
  | aggregate type elements template ih _ =>
    obtain ⟨-, s, hs, hk⟩ := hb.self
    refine .aggregate (by rw [kindOf, hs, Option.map_some, hk]) ?_
    intro c hc
    exact ih c hc (hb.element hc) (hp.element hc) (valid_elements hv c hc) _
  | «variable» slots isMeta _ => exact hb.self.elim
  | ire type referent proposition _ _ => exact hb.self.elim
  | list elements _ => exact hb.self.elim

/-- Determined content that equals content of known values has its slots by their names. -/
theorem keyed_of_determined {e : Expect} {d : Content} (hd : Determined o e d)
    (hs : d.same c = true) (hb : c.Each false (Built o)) : d.Each false Content.Keyed := by
  induction hd generalizing c with
  | primitive _ => exact .of_primitive trivial
  | «variable» _ _ =>
    obtain ⟨ys, rfl, -⟩ := Content.exists_of_same_variable hs
    exact hb.self.elim
  | aggregate _ _ ih =>
    obtain ⟨ys, template, rfl, hall⟩ := Content.exists_of_same_aggregate hs
    refine .of_aggregate trivial (fun x hx => ?_) fun h => by cases h
    obtain ⟨y, hy, hxy⟩ := exists_of_forall₂_left hall hx
    exact ih x hx hxy (hb.element hy)
  | ire _ _ _ _ _ =>
    obtain ⟨r, p, rfl, -⟩ := Content.exists_of_same_ire hs
    exact hb.self.elim
  | slotted _ _ hdistinct _ ih =>
    obtain ⟨ys, rfl, -, hslots⟩ := Content.exists_of_same_slotted hs
    refine .of_slotted hdistinct ?_
    intro x hx
    obtain ⟨y, hget, hxy⟩ := Content.sameSlots_iff.1 hslots x hx
    obtain ⟨k, -, hmem⟩ := Slots.mem_of_get? hget
    exact ih x hx hxy (hb.slot hmem)
  | list =>
    obtain ⟨ys, rfl, -⟩ := Content.exists_of_same_list hs
    exact hb.self.elim

/-! ## Floats -/

/-- Descriptors of different names that all have a slot, as many as there are slots, name all
slots. -/
theorem exists_filled {slots : Slots Content} {filled : List SlotDescriptor}
    (hd : DistinctNames filled) (hc : ∀ d ∈ filled, Slots.contains d.name slots = true)
    (hlen : filled.length = slots.length) {e : String × Content} (he : e ∈ slots) :
    ∃ d ∈ filled, sameName d.name e.1 = true := by
  have hpartner : ∀ d ∈ filled, ∃ e ∈ slots, foldName e.1 = foldName d.name := by
    intro d hd
    obtain ⟨v, hv⟩ := Slots.exists_of_contains (hc d hd)
    obtain ⟨k, hk, hmem⟩ := Slots.mem_of_get? hv
    exact ⟨(k, v), hmem, sameName_iff.1 hk⟩
  obtain ⟨d, hd, hname⟩ := exists_of_keys hd hpartner hlen he
  exact ⟨d, hd, sameName_iff.2 hname⟩

/-- Every slot of a value that has a text has one. -/
theorem exists_text_of_slot {role : Role} {type : String} {slots : Slots Content}
    {declared : List SlotDescriptor} {text : List Char}
    (hd : declaredSlots o (o.find? type) = .ok declared) (hs : Slots.Distinct slots)
    (h : encodeExpression o (.slotted role type slots) = .ok text) {e : String × Content}
    (he : e ∈ slots) : ∃ t, encodeExpression o e.2 = .ok t := by
  rw [encodeExpression] at h
  cases hp : positionalOrder? o type slots with
  | none =>
    rw [hp] at h
    obtain ⟨-, texts, htexts, -⟩ := exists_of_parenthesised h
    obtain ⟨t, -, -, u, -, hu⟩ := exists_of_forall₂_left (forall₂_of_named htexts).flip he
    exact ⟨u, hu⟩
  | some names =>
    rw [hp] at h
    obtain ⟨hdistinct, filled, hfirst, hcontains, rfl, hlen⟩ := positionalOrder?_eq_some hd hp
    obtain ⟨-, texts, htexts, -⟩ := exists_of_parenthesised h
    obtain ⟨d, hfd, hname⟩ :=
      exists_filled (hdistinct.sublist hfirst.sublist) hcontains hlen he
    obtain ⟨t, -, c, hget, ht⟩ :=
      exists_of_forall₂_left (forall₂_of_inOrder hcontains htexts).flip hfd
    rw [Slots.get?_of_mem hs he (sameName_symm hname)] at hget
    cases hget
    exact ⟨t, ht⟩

/-- Content of known values that has a text has no float that is infinite or no number. -/
theorem finite_of_encodeExpression (hb : c.Each false (Built o))
    (hv : o.validateContent c = .ok ()) {text : List Char}
    (h : encodeExpression o c = .ok text) : c.Each false Content.Finite := by
  induction c using Content.induction generalizing text with
  | primitive p =>
    refine .of_primitive ?_
    cases p with
    | float x =>
      rw [encodeExpression, writePrimitive] at h
      split at h
      · rename_i hx
        exact hx
      · cases h
    | _ => trivial
  | slotted role type slots ih =>
    obtain ⟨s, ds, hi⟩ := exists_isInstance hb hv
    have hd : declaredSlots o (o.find? type) = .ok ds := by rw [hi.find]; exact hi.declared
    refine .of_slotted trivial ?_
    intro e he
    obtain ⟨t, ht⟩ := exists_text_of_slot hd hi.distinct h he
    exact ih e he (hb.slot he) (hi.valid e he) ht
  | aggregate type elements template ih _ =>
    rw [encodeExpression, encodeAll_eq_map] at h
    obtain ⟨-, texts, htexts, -⟩ := exists_of_parenthesised h
    refine .of_aggregate trivial (fun e he => ?_) fun h => by cases h
    obtain ⟨t, -, ht⟩ := exists_of_forall₂_left (forall₂_of_map_ok htexts).flip he
    exact ih e he (hb.element he) (valid_elements hv e he) ht
  | «variable» slots isMeta _ => exact hb.self.elim
  | ire type referent proposition _ _ => exact hb.self.elim
  | list elements _ => exact hb.self.elim

/-! ## Messages -/

theorem isCompound_of_built (hb : Built o c) (hm : c.isContentElement = true) :
    isCompound c = true := by
  cases c with
  | primitive p => cases hm
  | «variable» slots isMeta => exact hb.elim
  | list elements => exact hb.elim
  | _ => rfl

theorem exists_text_of_encode {text : String} (hc : isCompound c = true)
    (h : encode o c = .ok text) : ∃ t, encodeExpression o c = .ok t := by
  obtain ⟨chars, hchars, -⟩ := encode_eq_ok h
  obtain ⟨inner, hinner, -⟩ := encodeChars_compound hc hchars
  obtain ⟨t, ts, htexts, -⟩ := exists_of_separated rfl hinner
  exact ⟨t, (List.cons.inj htexts).1⟩

/-- Content of known values is finite and comes back from its text as an equal one. -/
theorem decode_encode_of_built (hb : c.Each false (Built o)) (hp : c.Each false Content.Portable)
    (hv : o.validateContent c = .ok ()) (hm : c.isContentElement = true) {text : String}
    (h : encode o c = .ok text) : c.Each false Content.Finite ∧
      ∃ d, decode o text = .ok d ∧ d.same c = true ∧ d.Each false Content.Keyed := by
  have hc := isCompound_of_built hb.self hm
  obtain ⟨t, ht⟩ := exists_text_of_encode hc h
  refine ⟨finite_of_encodeExpression hb hv ht, ?_⟩
  have hstated : Stated o c := by
    have hdet := determined_of_built hb hp hv .proposition
    cases c with
    | list elements => exact hb.self.elim
    | _ => exact ⟨hc, hdet⟩
  obtain ⟨d, hd, hsame⟩ := decode_encode hstated h
  refine ⟨d, hd, hsame, ?_⟩
  have hdecoded := stated_of_decode hd
  cases d with
  | list elements =>
    obtain ⟨ys, rfl, -⟩ := Content.exists_of_same_list hsame
    exact hb.self.elim
  | _ => exact keyed_of_determined hdecoded.2 hsame hb

end Sl
end AgentContent
