import AgentContent.Proofs.Content.Equality
import AgentContent.Proofs.Content.Equivalence
import AgentContent.Template.Edit

/-!
# AgentContent.Proofs.Template.Defaults

Defaults that are put into a template are merged with it, part by part along the slots that both
have, and what the template has bound wins.

* `Content.at?`: the part of a content at the end of a path of slots.
* `Content.Clash`: defaults of a shape for which a template has no place.
* `Content.outcome`: what becomes of a part of a template, in view of its defaults.
* `Content.get?_putDefaults`: the slots of a template one by one.
* `Content.at?_withDefaultsIn`: the parts of a template at the ends of all paths.
* `Content.withDefaults_merges`: when defaults fail, and what a template has become if they do not.
-/

namespace AgentContent
namespace Content

variable {d t r v : Content} {slot name : String} {path : List String}
  {given slots filled : Slots Content} {e : OntologyError} {m : Mismatch}

/-! ## Parts -/

/-- The value in a slot, for content that has slots. -/
def slotValue? (name : String) (c : Content) : Option Content :=
  c.slots?.bind (Slots.get? name)

theorem slotValue?_slotted {role : Role} {type : String} :
    (slotted role type slots).slotValue? name = Slots.get? name slots :=
  rfl

theorem exists_of_slotValue? (h : t.slotValue? name = some v) :
    ∃ role type slots, t = .slotted role type slots ∧ Slots.get? name slots = some v := by
  cases t with
  | slotted role type slots => exact ⟨role, type, slots, rfl, h⟩
  | _ => cases h

theorem Each.slotValue? {P : Content → Prop} (hd : d.Each false P)
    (h : d.slotValue? name = some v) : v.Each false P := by
  obtain ⟨role, type, slots, rfl, hget⟩ := exists_of_slotValue? h
  obtain ⟨k, -, hmem⟩ := Slots.mem_of_get? hget
  exact hd.slot hmem

theorem sizeOf_lt_of_slotValue? (h : d.slotValue? name = some v) : sizeOf v < sizeOf d := by
  obtain ⟨role, type, slots, rfl, hget⟩ := exists_of_slotValue? h
  have hlt := Slots.sizeOf_lt_of_get? hget
  rw [slotted.sizeOf_spec]
  omega

/-- The part at the end of a path of slots, through nodes that have slots. -/
def at? : Content → List String → Option Content
  | c, [] => some c
  | c, name :: path => (c.slotValue? name).bind (at? · path)

theorem at?_append (c : Content) (path rest : List String) :
    c.at? (path ++ rest) = (c.at? path).bind (at? · rest) := by
  induction path generalizing c with
  | nil => rfl
  | cons name path ih =>
    rw [List.cons_append, at?, at?]
    cases c.slotValue? name with
    | none => rfl
    | some v => exact ih v

theorem at?_concat (c : Content) (path : List String) (name : String) :
    c.at? (path ++ [name]) = (c.at? path).bind (slotValue? name) := by
  rw [at?_append]
  cases c.at? path with
  | none => rfl
  | some v => exact Option.bind_fun_some (v.slotValue? name)

theorem Each.at? {P : Content → Prop} (hd : d.Each false P) (h : d.at? path = some v) :
    v.Each false P := by
  induction path generalizing d with
  | nil =>
    cases h
    exact hd
  | cons name path ih =>
    obtain ⟨c, hc, hv⟩ := Option.bind_eq_some_iff.1 h
    exact ih (hd.slotValue? hc) hv

/-- The content is there, and defaults do not change it. -/
def IsBound : Content → Prop
  | .primitive _ => True
  | .ire _ _ _ => True
  | .list _ => True
  | .aggregate type elements template =>
    elements ≠ [] ∧ (aggregate type elements template).grounded = true
  | .slotted _ _ _ => False
  | .variable _ _ => False

theorem isBoundAggregate_iff {type : String} {elements : List Content} {template : Option Content} :
    isBoundAggregate elements template = true ↔ (aggregate type elements template).IsBound := by
  cases template <;> simp [isBoundAggregate, IsBound, grounded, and_assoc]

/-- The template has a variable at the path, or its node there has no slot of the last name. -/
inductive FreeAt (t : Content) : List String → Prop where
  | variable {path : List String} {slots : Slots Content} {isMeta : Bool}
    (h : t.at? path = some (.variable slots isMeta)) : FreeAt t path
  | absent {path : List String} {name : String} {role : Role} {type : String}
    {slots : Slots Content} (h : t.at? path = some (.slotted role type slots))
    (hname : Slots.get? name slots = none) : FreeAt t (path ++ [name])

/-- The defaults are neither variable nor of the shape that the template asks for: slots, or an
aggregate where the template has one that is empty or has variables. -/
inductive Clash : Content → Content → Mismatch → Prop where
  | slotted {d : Content} {role : Role} {type : String} {slots : Slots Content}
    (hd : d.slots? = none) (hv : d.isVariable = false) :
    Clash d (.slotted role type slots) (.notSlotted d)
  | aggregate {d : Content} {type : String} {elements : List Content} {template : Option Content}
    (hopen : elements = [] ∨ (Content.aggregate type elements template).grounded = false)
    (hd : d.aggregate? = none) (hv : d.isVariable = false) :
    Clash d (.aggregate type elements template) (.notAggregate d)

/-- Defaults and template clash at a path that both have. -/
def ClashesAt (d t : Content) (path : List String) (m : Mismatch) : Prop :=
  ∃ d' t', d.at? path = some d' ∧ t.at? path = some t' ∧ Clash d' t' m

/-! ## One part -/

/-- What becomes of a part of a template: a variable and an open aggregate give way, parts that are
bound stay, slots are merged. -/
inductive Outcome (slot : String) :
    Content → Content → Except OntologyError Content → Prop where
  | fill {d : Content} {slots : Slots Content} {isMeta : Bool} :
    Outcome slot d (.variable slots isMeta) (.ok d)
  | keep {d t : Content} (h : t.IsBound ∨ d.isVariable = true ∧ t.isVariable = false) :
    Outcome slot d t (.ok t)
  | replace {type type' : String} {es es' : List Content} {template template' : Option Content}
    (hopen : ¬ (aggregate type es template).IsBound) :
    Outcome slot (.aggregate type' es' template') (.aggregate type es template)
      (.ok (.aggregate type' es' template'))
  | merge {role role' : Role} {type type' : String} {given slots filled : Slots Content}
    (h : putDefaults given slots = .ok filled) :
    Outcome slot (.slotted role' type' given) (.slotted role type slots)
      (.ok (.slotted role type filled))
  | inner {role role' : Role} {type type' : String} {given slots : Slots Content}
    {e : OntologyError} (h : putDefaults given slots = .error e) :
    Outcome slot (.slotted role' type' given) (.slotted role type slots) (.error e)
  | clash {d t : Content} {m : Mismatch} (h : Clash d t m) :
    Outcome slot d t (.error (.templateMismatch slot m))

theorem outcome_aggregate {type : String} {elements : List Content} {template : Option Content} :
    Outcome slot d (.aggregate type elements template)
      (withDefaultsIn slot d (.aggregate type elements template)) := by
  by_cases hbound : (aggregate type elements template).IsBound
  · have hkeep : withDefaultsIn slot d (.aggregate type elements template) =
        .ok (.aggregate type elements template) := by
      cases d <;> simp [withDefaultsIn, isBoundAggregate_iff.2 hbound]
    rw [hkeep]
    exact .keep (.inl hbound)
  · have hopen : isBoundAggregate elements template = false := by
      rwa [← Bool.not_eq_true, isBoundAggregate_iff]
    cases d with
    | «variable» slots isMeta =>
      simp only [withDefaultsIn, isVariable, Bool.or_true, if_true]
      exact .keep (.inr ⟨rfl, rfl⟩)
    | aggregate type' es' template' =>
      simp only [withDefaultsIn, isVariable, hopen, Bool.or_false, Bool.false_eq_true, if_false]
      exact .replace hbound
    | _ =>
      simp only [withDefaultsIn, isVariable, hopen, Bool.or_false, Bool.false_eq_true, if_false]
      refine .clash (.aggregate ?_ rfl rfl)
      rwa [IsBound, not_and_or, not_not, Bool.not_eq_true] at hbound

theorem outcome_slotted {role : Role} {type : String} : Outcome slot d
    (.slotted role type slots) (withDefaultsIn slot d (.slotted role type slots)) := by
  cases d with
  | slotted role' type' given =>
    rw [withDefaultsIn]
    cases h : putDefaults given slots with
    | error e => exact .inner h
    | ok filled => exact .merge h
  | «variable» slots' isMeta => exact .keep (.inr ⟨rfl, rfl⟩)
  | _ => exact .clash (.slotted rfl rfl)

theorem withDefaultsIn_variable {isMeta : Bool} :
    withDefaultsIn slot d (.variable slots isMeta) = .ok d := by
  cases d <;> rfl

theorem outcome (slot : String) (d t : Content) : Outcome slot d t (withDefaultsIn slot d t) := by
  cases t with
  | «variable» slots isMeta =>
    rw [withDefaultsIn_variable]
    exact .fill
  | aggregate type elements template => exact outcome_aggregate
  | slotted role type slots => exact outcome_slotted
  | _ => cases d <;> exact .keep (.inl trivial)

/-- What stays in a template does not clash with its defaults. -/
theorem Clash.not_keep (h : Clash d t m) :
    ¬ (t.IsBound ∨ d.isVariable = true ∧ t.isVariable = false) := by
  cases h with
  | slotted _ hv =>
    rintro (hbound | ⟨hvar, -⟩)
    · exact hbound
    · exact Bool.false_ne_true (hv.symm.trans hvar)
  | aggregate hopen _ hv =>
    rintro (⟨hne, hgrounded⟩ | ⟨hvar, -⟩)
    · rcases hopen with hnil | hopen
      · exact hne hnil
      · exact Bool.false_ne_true (hopen.symm.trans hgrounded)
    · exact Bool.false_ne_true (hv.symm.trans hvar)

theorem withDefaultsIn_of_keep (h : t.IsBound ∨ d.isVariable = true ∧ t.isVariable = false) :
    withDefaultsIn slot d t = .ok t := by
  have hout := outcome slot d t
  generalize withDefaultsIn slot d t = answer at hout ⊢
  cases hout with
  | fill => simp [IsBound, isVariable] at h
  | keep => rfl
  | replace hopen => simp [hopen, isVariable] at h
  | merge => simp [IsBound, isVariable] at h
  | inner => simp [IsBound, isVariable] at h
  | clash hclash => exact absurd h hclash.not_keep

theorem not_ok_of_clash (h : Clash d t m) : withDefaultsIn slot d t ≠ .ok r := by
  intro hok
  have hout := outcome slot d t
  rw [hok] at hout
  cases hout with
  | fill => cases h
  | keep hkeep => exact h.not_keep hkeep
  | replace => cases h with | aggregate _ hd => cases hd
  | merge => cases h with | slotted hd => cases hd

/-! ## Slots of a template -/

/-- What the defaults and the template have in a place, and what is there in the end. -/
inductive Merges : Option Content → Option Content → Option Content → Prop where
  | kept {t? : Option Content} : Merges none t? t?
  | added {d : Content} : Merges (some d) none (some d)
  | merged {slot : String} {d t r : Content} (h : withDefaultsIn slot d t = .ok r) :
    Merges (some d) (some t) (some r)

theorem Merges.of_none {t? r? : Option Content} (h : Merges none t? r?) : r? = t? := by
  cases h
  rfl

theorem Merges.of_absent {r? : Option Content} (h : Merges (some d) none r?) : r? = some d := by
  cases h
  rfl

theorem Merges.of_both {r? : Option Content} (h : Merges (some d) (some t) r?) :
    ∃ slot r, withDefaultsIn slot d t = .ok r ∧ r? = some r := by
  cases h with
  | merged h => exact ⟨_, _, h, rfl⟩

theorem exists_of_putDefaults_cons (h : putDefaults ((name, d) :: given) slots = .ok filled) :
    ∃ c, Merges (some d) (Slots.get? name slots) (some c) ∧
      putDefaults given (Slots.insert name c slots) = .ok filled := by
  rw [putDefaults] at h
  cases hget : Slots.get? name slots with
  | none =>
    rw [hget] at h
    exact ⟨d, .added, h⟩
  | some t =>
    rw [hget] at h
    simp only at h
    cases hc : withDefaultsIn name d t with
    | error e =>
      rw [hc] at h
      cases h
    | ok c =>
      rw [hc] at h
      exact ⟨c, .merged hc, h⟩

theorem names_putDefaults (h : putDefaults given slots = .ok filled) :
    slots.map (·.1) <+: filled.map (·.1) := by
  induction given generalizing slots with
  | nil =>
    rw [putDefaults] at h
    cases h
    exact List.prefix_rfl
  | cons e rest ih =>
    obtain ⟨c, -, hrest⟩ := exists_of_putDefaults_cons h
    exact (Slots.names_insert e.1 c slots).trans (ih hrest)

/-- In each slot the template has what becomes of that slot alone. -/
theorem get?_putDefaults (hd : Slots.Distinct given) (h : putDefaults given slots = .ok filled)
    (name : String) :
    Merges (Slots.get? name given) (Slots.get? name slots) (Slots.get? name filled) := by
  induction given generalizing slots with
  | nil =>
    rw [putDefaults] at h
    cases h
    exact .kept
  | cons e rest ih =>
    obtain ⟨k, x⟩ := e
    obtain ⟨hfresh, hrest⟩ := Slots.distinct_cons.1 hd
    obtain ⟨c, hc, h⟩ := exists_of_putDefaults_cons h
    have hlater := ih hrest h
    cases hk : sameName k name with
    | true =>
      have hnone : Slots.get? name rest = none := by
        rw [← Slots.get?_congr hk]
        exact Slots.get?_eq_none_of_not_contains hfresh
      have hset : Slots.get? name (Slots.insert k c slots) = some c := by
        rw [← Slots.get?_congr hk, Slots.get?_insert_self]
      rw [hnone, hset] at hlater
      have hgiven : Slots.get? name ((k, x) :: rest) = some x := by simp [Slots.get?, hk]
      rwa [hgiven, hlater.of_none, ← Slots.get?_congr hk slots]
    | false =>
      rw [Slots.get?_insert_of_ne c slots hk] at hlater
      rwa [Slots.get?_cons_of_ne hk]

theorem exists_of_putDefaults_error (hd : Slots.Distinct given)
    (h : putDefaults given slots = .error e) : ∃ k x t, (k, x) ∈ given ∧
      Slots.get? k slots = some t ∧ withDefaultsIn k x t = .error e := by
  induction given generalizing slots with
  | nil =>
    rw [putDefaults] at h
    cases h
  | cons entry rest ih =>
    obtain ⟨k, x⟩ := entry
    obtain ⟨hfresh, hrest⟩ := Slots.distinct_cons.1 hd
    -- later slots are those of the template before this one was set
    have hlater : ∀ c, putDefaults rest (Slots.insert k c slots) = .error e →
        ∃ k' x' t, (k', x') ∈ (k, x) :: rest ∧ Slots.get? k' slots = some t ∧
          withDefaultsIn k' x' t = .error e := by
      intro c hc
      obtain ⟨k', x', t, hmem, hget, hfails⟩ := ih hrest hc
      have hne : sameName k k' = false := by
        rw [← Bool.not_eq_true]
        intro hk
        have hcontains := Slots.contains_of_mem hmem (sameName_symm hk)
        exact Bool.false_ne_true (hfresh.symm.trans hcontains)
      rw [Slots.get?_insert_of_ne c slots hne] at hget
      exact ⟨k', x', t, List.mem_cons_of_mem _ hmem, hget, hfails⟩
    rw [putDefaults] at h
    cases hget : Slots.get? k slots with
    | none =>
      simp only [hget] at h
      exact hlater x h
    | some t =>
      simp only [hget] at h
      cases hc : withDefaultsIn k x t with
      | error e' =>
        simp only [hc] at h
        cases h
        exact ⟨k, x, t, List.mem_cons_self, hget, hc⟩
      | ok c =>
        simp only [hc] at h
        exact hlater c h

theorem putDefaults_of_fixed (h : ∀ e ∈ given, ∃ c, Slots.get? e.1 slots = some c ∧
    withDefaultsIn e.1 e.2 c = .ok c) : putDefaults given slots = .ok slots := by
  induction given with
  | nil => rw [putDefaults]
  | cons e rest ih =>
    obtain ⟨⟨c, hget, hc⟩, hrest⟩ := List.forall_mem_cons.1 h
    rw [putDefaults]
    simp only [hget, hc, Slots.insert_of_get? hget]
    exact ih hrest

/-- A node with slots keeps them, and each of them is merged with that of the defaults. -/
theorem exists_filled {role : Role} {type : String} (hd : d.Each false Keyed)
    (h : withDefaultsIn slot d (.slotted role type slots) = .ok r) :
    ∃ filled, r = .slotted role type filled ∧ slots.map (·.1) <+: filled.map (·.1) ∧
      ∀ name, Merges (d.slotValue? name) (Slots.get? name slots) (Slots.get? name filled) := by
  have hout := outcome slot d (.slotted role type slots)
  rw [h] at hout
  cases hout with
  | keep hkeep =>
    refine ⟨slots, rfl, List.prefix_rfl, fun name => ?_⟩
    rcases hkeep with hbound | ⟨hvar, -⟩
    · exact hbound.elim
    · cases d with
      | «variable» => exact .kept
      | _ => cases hvar
  | merge hfilled =>
    exact ⟨_, rfl, names_putDefaults hfilled, get?_putDefaults hd.self hfilled⟩

/-! ## Defaults a second time -/

theorem withDefaultsIn_self (hd : d.Each false Keyed) (slot : String) :
    withDefaultsIn slot d d = .ok d := by
  induction d using Content.induction generalizing slot with
  | slotted role type slots ih =>
    have hfixed : putDefaults slots slots = .ok slots := putDefaults_of_fixed fun e he =>
      ⟨e.2, Slots.get?_of_mem hd.self he (sameName_refl e.1), ih e he (hd.slot he) e.1⟩
    rw [withDefaultsIn, hfixed]
  | aggregate type elements template =>
    by_cases hbound : (aggregate type elements template).IsBound
    · exact withDefaultsIn_of_keep (.inl hbound)
    · have hout := @outcome_aggregate (aggregate type elements template) slot type elements template
      generalize withDefaultsIn slot _ _ = answer at hout ⊢
      cases hout with
      | keep => rfl
      | replace => rfl
      | clash h => cases h with | aggregate _ hd => cases hd
  | «variable» slots isMeta => exact withDefaultsIn_variable
  | _ => exact withDefaultsIn_of_keep (.inl trivial)

/-- Defaults change nothing more in a template that they have been put into. -/
theorem withDefaultsIn_again (hd : d.Each false Keyed) (h : withDefaultsIn slot d t = .ok r)
    (slot' : String) : withDefaultsIn slot' d r = .ok r := by
  induction hsize : sizeOf d using Nat.strongRecOn generalizing d t r slot slot' with
  | _ size ih =>
    have hout := outcome slot d t
    rw [h] at hout
    cases hout with
    | fill => exact withDefaultsIn_self hd slot'
    | keep hkeep => exact withDefaultsIn_of_keep hkeep
    | replace => exact withDefaultsIn_self hd slot'
    | @merge role role' type type' given slots filled hfilled =>
      have hfixed : putDefaults given filled = .ok filled := by
        refine putDefaults_of_fixed fun e he => ?_
        have hget := Slots.get?_of_mem hd.self he (sameName_refl e.1)
        have hmerges := get?_putDefaults hd.self hfilled e.1
        rw [hget] at hmerges
        cases hslot : Slots.get? e.1 slots with
        | none =>
          rw [hslot] at hmerges
          exact ⟨e.2, hmerges.of_absent, withDefaultsIn_self (hd.slot he) e.1⟩
        | some t =>
          rw [hslot] at hmerges
          obtain ⟨slot', c, hc, hfilled⟩ := hmerges.of_both
          have hlt : sizeOf e.2 < size := hsize ▸ sizeOf_lt_of_slotValue? hget
          exact ⟨c, hfilled, ih _ hlt (hd.slot he) hc e.1 rfl⟩
      rw [withDefaultsIn, hfixed]

/-! ## Paths -/

/-- Along every path the template is merged with the defaults. -/
theorem at?_withDefaultsIn (hd : d.Each false Keyed) (h : withDefaultsIn slot d t = .ok r)
    (ht : t.at? path = some v) : Merges (d.at? path) (some v) (r.at? path) := by
  induction path generalizing d t r slot with
  | nil =>
    cases ht
    exact .merged h
  | cons name path ih =>
    obtain ⟨c, hc, hv⟩ := Option.bind_eq_some_iff.1 ht
    obtain ⟨role, type, slots, rfl, hget⟩ := exists_of_slotValue? hc
    obtain ⟨filled, rfl, -, hslots⟩ := exists_filled hd h
    have hslot := hslots name
    rw [at?, at?, slotValue?_slotted]
    rw [hget] at hslot
    cases hx : d.slotValue? name with
    | none =>
      rw [hx] at hslot
      rw [hslot.of_none, Option.bind_some, hv]
      exact .kept
    | some x =>
      rw [hx] at hslot
      obtain ⟨slot', c', hc, hfilled⟩ := hslot.of_both
      rw [hfilled]
      exact ih (hd.slotValue? hx) hc hv

/-- Defaults fail because of a clash at some path, and the error names the last slot of it. -/
theorem exists_clashesAt (hd : d.Each false Keyed) (h : withDefaultsIn slot d t = .error e) :
    ∃ path m, ClashesAt d t path m ∧ e = .templateMismatch (path.getLastD slot) m := by
  induction hsize : sizeOf d using Nat.strongRecOn generalizing d t slot with
  | _ size ih =>
    have hout := outcome slot d t
    rw [h] at hout
    cases hout with
    | clash hclash => exact ⟨[], _, ⟨d, t, rfl, rfl, hclash⟩, rfl⟩
    | @inner role role' type type' given slots _ hfails =>
      obtain ⟨k, x, y, hmem, hget, hx⟩ := exists_of_putDefaults_error hd.self hfails
      have hgiven := Slots.get?_of_mem hd.self hmem (sameName_refl k)
      have hlt : sizeOf x < size := hsize ▸ sizeOf_lt_of_slotValue? hgiven
      obtain ⟨path, m, ⟨d', t', hd', ht', hclash⟩, he⟩ := ih _ hlt (hd.slot hmem) hx rfl
      refine ⟨k :: path, m, ⟨d', t', ?_, ?_, hclash⟩, by rw [he, List.getLastD_cons]⟩
      · rw [at?, slotValue?_slotted, hgiven, Option.bind_some, hd']
      · rw [at?, slotValue?_slotted, hget, Option.bind_some, ht']

theorem not_ok_of_clashesAt (hd : d.Each false Keyed) (h : ClashesAt d t path m) :
    withDefaultsIn slot d t ≠ .ok r := by
  obtain ⟨d', t', hd', ht', hclash⟩ := h
  intro hok
  have hmerges := at?_withDefaultsIn hd hok ht'
  rw [hd'] at hmerges
  obtain ⟨slot', r', hc, -⟩ := hmerges.of_both
  exact not_ok_of_clash hclash hc

/-! ## Filled templates -/

/-- What a template has become when the defaults have been put into it. -/
structure Filled (d t r : Content) : Prop where
  again : withDefaults d r = .ok r
  bound {path : List String} {v : Content} (h : t.at? path = some v) (hv : v.IsBound) :
    r.at? path = some v
  slots {path : List String} {role : Role} {type : String} {slots : Slots Content}
    (h : t.at? path = some (.slotted role type slots)) :
    ∃ filled, r.at? path = some (.slotted role type filled) ∧
      slots.map (·.1) <+: filled.map (·.1)
  given {path : List String} {v : Content} (hfree : FreeAt t path) (h : d.at? path = some v) :
    r.at? path = some v

theorem at?_of_bound (hd : d.Each false Keyed) (h : withDefaultsIn slot d t = .ok r)
    (ht : t.at? path = some v) (hv : v.IsBound) : r.at? path = some v := by
  have hmerges := at?_withDefaultsIn hd h ht
  cases hd' : d.at? path with
  | none =>
    rw [hd'] at hmerges
    exact hmerges.of_none
  | some d' =>
    rw [hd'] at hmerges
    obtain ⟨slot', r', hc, hr⟩ := hmerges.of_both
    rw [withDefaultsIn_of_keep (.inl hv)] at hc
    cases hc
    exact hr

theorem at?_of_slotted (hd : d.Each false Keyed) (h : withDefaultsIn slot d t = .ok r)
    {role : Role} {type : String} (ht : t.at? path = some (.slotted role type slots)) :
    ∃ filled, r.at? path = some (.slotted role type filled) ∧
      slots.map (·.1) <+: filled.map (·.1) := by
  have hmerges := at?_withDefaultsIn hd h ht
  cases hd' : d.at? path with
  | none =>
    rw [hd'] at hmerges
    exact ⟨slots, hmerges.of_none, List.prefix_rfl⟩
  | some d' =>
    rw [hd'] at hmerges
    obtain ⟨slot', r', hc, hr⟩ := hmerges.of_both
    obtain ⟨filled, rfl, hnames, -⟩ := exists_filled (hd.at? hd') hc
    exact ⟨filled, hr, hnames⟩

theorem at?_of_freeAt (hd : d.Each false Keyed) (h : withDefaultsIn slot d t = .ok r)
    (hfree : FreeAt t path) (hv : d.at? path = some v) : r.at? path = some v := by
  cases hfree with
  | «variable» ht =>
    have hmerges := at?_withDefaultsIn hd h ht
    rw [hv] at hmerges
    obtain ⟨slot', r', hc, hr⟩ := hmerges.of_both
    rw [withDefaultsIn_variable] at hc
    cases hc
    exact hr
  | @absent above name role type slots ht hname =>
    have hmerges := at?_withDefaultsIn hd h ht
    rw [at?_concat] at hv ⊢
    obtain ⟨d', hd', hvalue⟩ := Option.bind_eq_some_iff.1 hv
    rw [hd'] at hmerges
    obtain ⟨slot', r', hc, hr⟩ := hmerges.of_both
    obtain ⟨filled, rfl, -, hslots⟩ := exists_filled (hd.at? hd') hc
    have hslot := hslots name
    rw [hvalue, hname] at hslot
    rw [hr, Option.bind_some, slotValue?_slotted, hslot.of_absent]

/-- Defaults, stored by names, fail just when they clash with the template at a path that both
have, and the error names the last slot of the path. If they do not fail, they change nothing when
they are put in again, what was bound in the template and the slots of its nodes are there as
before, with new slots behind them, and wherever there was a variable or nothing there is what the
defaults have. -/
theorem withDefaults_merges (t : Content) (hd : d.Each false Keyed) :
    (∀ e, withDefaults d t = .error e →
        ∃ path m, ClashesAt d t path m ∧ e = .templateMismatch (path.getLastD t.typeName) m) ∧
      ((∃ path m, ClashesAt d t path m) →
        ∃ slot m, withDefaults d t = .error (.templateMismatch slot m)) ∧
      ∀ r, withDefaults d t = .ok r → Filled d t r := by
  refine ⟨fun e h => exists_clashesAt hd h, ?_, fun r h => ?_⟩
  · rintro ⟨path, m, hclashes⟩
    cases h : withDefaults d t with
    | ok r => exact absurd h (not_ok_of_clashesAt hd hclashes)
    | error e =>
      obtain ⟨path', m', -, rfl⟩ := exists_clashesAt hd h
      exact ⟨_, m', rfl⟩
  · exact ⟨withDefaultsIn_again hd h r.typeName, at?_of_bound hd h, at?_of_slotted hd h,
      at?_of_freeAt hd h⟩

/-! ## A book -/

def bookTemplate : Content :=
  .slotted .concept "book"
    [("title", .typedVariable "v0" TypeName.string),
      ("author", .slotted .concept "person" [("name", .ofString "Ann")]),
      ("tags", .aggregate TypeName.sequence [] none)]

def bookDefaults : Content :=
  .slotted .concept "book"
    [("pages", .ofInt 90),
      ("Author", .slotted .concept "person" [("name", .ofString "Bob"), ("age", .ofInt 30)]),
      ("Title", .ofString "Trees")]

/-- The title is filled in, the name stays, and what was not there follows. -/
theorem filled_book : bookDefaults.Each false Keyed ∧ Filled bookDefaults bookTemplate
    (.slotted .concept "book"
      [("title", .ofString "Trees"),
        ("author", .slotted .concept "person" [("name", .ofString "Ann"), ("age", .ofInt 30)]),
        ("tags", .aggregate TypeName.sequence [] none), ("pages", .ofInt 90)]) := by
  have hkeyed : bookDefaults.Each false Keyed := by decide
  exact ⟨hkeyed, (withDefaults_merges bookTemplate hkeyed).2.2 _ rfl⟩

end Content
end AgentContent
