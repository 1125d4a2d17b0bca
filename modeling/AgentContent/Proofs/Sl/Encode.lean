import AgentContent.Proofs.Sl.Determined

/-!
# AgentContent.Proofs.Sl.Encode

The text of an expression that its text determines says the expression.

* `forall₂_of_named`, `forall₂_of_inOrder`: the texts of slots, behind their names or without.
* `read_named`, `read_positional`: both are read as slots that are equal by name.
* `says_encodeExpression`: the text of an expression says it.
-/

namespace AgentContent
namespace Sl

section

variable {o : Ontology} {finish : Nat} {e : Expect} {text : List Char} {type : String}

/-! ## The texts of the parts -/

theorem encodeAll_eq_map (cs : List Content) : encodeAll o cs = cs.map (encodeExpression o) := by
  induction cs with
  | nil => rfl
  | cons c cs ih => rw [encodeAll, ih, List.map_cons]

theorem encodeSlots_eq_map (slots : Slots Content) :
    encodeSlots o slots = slots.map fun s => (s.1, encodeExpression o s.2) := by
  induction slots with
  | nil => rfl
  | cons s slots ih =>
    obtain ⟨name, c⟩ := s
    rw [encodeSlots, ih, List.map_cons]

theorem get?_encodeSlots (name : String) (slots : Slots Content) :
    Slots.get? name (encodeSlots o slots) = (Slots.get? name slots).map (encodeExpression o) := by
  induction slots with
  | nil => rfl
  | cons s slots ih =>
    obtain ⟨k, c⟩ := s
    simp only [encodeSlots, Slots.get?, ih]
    split <;> rfl

/-- Results that are all texts. -/
theorem forall₂_of_map_ok {α : Type} {g : α → Except EncodeError (List Char)} {xs : List α}
    {texts : List (List Char)} (h : xs.map g = texts.map Except.ok) :
    List.Forall₂ (fun t x => g x = .ok t) texts xs := by
  induction xs generalizing texts with
  | nil =>
    rw [List.map_nil, eq_comm, List.map_eq_nil_iff] at h
    subst h
    exact .nil
  | cons x xs ih =>
    cases texts with
    | nil => cases h
    | cons t ts =>
      simp only [List.map_cons, List.cons.injEq] at h
      exact .cons h.1 (ih h.2)

theorem named_eq_ok {name : String} {result : Except EncodeError (List Char)} {t : List Char}
    (h : named name result = .ok t) :
    isSymbol name.toList = true ∧ ∃ u, result = .ok u ∧ t = ':' :: name.toList ++ ' ' :: u := by
  unfold named at h
  split at h
  · cases h
  · cases h
  · rename_i cs u hsymbol
    cases h
    obtain ⟨hs, rfl⟩ := symbol_eq_ok.1 hsymbol
    exact ⟨hs, u, rfl, rfl⟩

theorem forall₂_of_named {slots : Slots Content} {texts : List (List Char)}
    (h : (encodeSlots o slots).map (fun s => named s.1 s.2) = texts.map Except.ok) :
    List.Forall₂ (fun t s => isSymbol s.1.toList = true ∧ ∃ u,
      t = ':' :: s.1.toList ++ ' ' :: u ∧ encodeExpression o s.2 = .ok u) texts slots := by
  rw [encodeSlots_eq_map, List.map_map] at h
  refine (forall₂_of_map_ok h).imp ?_
  intro t s ht
  obtain ⟨hs, u, hu, rfl⟩ := named_eq_ok ht
  exact ⟨hs, u, rfl, hu⟩

/-- Slots that go without their names are the first ones of the schema, and all that there are. -/
theorem positionalOrder?_eq_some {slots : Slots Content} {names : List String}
    {declared : List SlotDescriptor} (hd : declaredSlots o (o.find? type) = .ok declared)
    (h : positionalOrder? o type slots = some names) :
    Ontology.DistinctNames declared ∧ ∃ filled, filled <+: declared ∧
      (∀ d ∈ filled, Slots.contains d.name slots = true) ∧ names = filled.map (·.name) ∧
        filled.length = slots.length := by
  unfold positionalOrder? at h
  split at h
  · split at h
    · cases h
    · rename_i s hs
      simp only [hs, declaredSlots] at hd
      simp only [hd] at h
      split at h
      · rename_i hcheck
        cases h
        simp only [Bool.and_eq_true, decide_eq_true_eq] at hcheck
        refine ⟨Ontology.distinct_slots hd, _, List.takeWhile_prefix _,
          List.all_eq_true.1 List.all_takeWhile, rfl, ?_⟩
        have := hcheck.1
        rwa [filledSlots, List.length_map] at this
      · cases h
  · cases h

theorem forall₂_of_inOrder {slots : Slots Content} {filled : List SlotDescriptor}
    (hc : ∀ d ∈ filled, Slots.contains d.name slots = true) {texts : List (List Char)}
    (h : inOrder (encodeSlots o slots) (filled.map (·.name)) = texts.map Except.ok) :
    List.Forall₂ (fun t d => ∃ c, Slots.get? d.name slots = some c ∧
      encodeExpression o c = .ok t) texts filled := by
  induction filled generalizing texts with
  | nil =>
    simp only [inOrder, List.map_nil, List.filterMap_nil] at h
    rw [eq_comm, List.map_eq_nil_iff] at h
    subst h
    exact .nil
  | cons d filled ih =>
    obtain ⟨c, hget⟩ := Slots.exists_of_contains (hc d List.mem_cons_self)
    have htext : Slots.get? d.name (encodeSlots o slots) = some (encodeExpression o c) := by
      rw [get?_encodeSlots, hget, Option.map_some]
    simp only [inOrder, List.map_cons, List.filterMap_cons, htext] at h
    cases texts with
    | nil => cases h
    | cons t ts =>
      simp only [List.map_cons, List.cons.injEq] at h
      exact .cons ⟨c, hget, h.1⟩ (ih (fun d hd => hc d (List.mem_cons_of_mem _ hd)) h.2)

theorem expectOfKeyword_eq {declared : List SlotDescriptor} (h : Ontology.DistinctNames declared)
    {d : SlotDescriptor} (hd : d ∈ declared) {name : String} (hn : sameName d.name name = true) :
    expectOfKeyword declared name = .ofSlot d.type := by
  simp only [expectOfKeyword, Ontology.find?_of_mem h hd hn]

/-! ## Slots that are read -/

/-- The slots read from the texts behind their names. -/
theorem read_named {slots slots' : Slots Content} (hs : Slots.Distinct slots)
    (h : List.Forall₂ (fun s' s => s'.1 = s.1 ∧ s'.2.same s.2 = true) slots' slots) :
    Slots.ofList slots' = slots' ∧
      slots'.length = slots.length ∧ Content.sameSlots slots' slots = true := by
  have hnames : slots'.map (fun s => foldName s.1) = slots.map fun s => foldName s.1 :=
    map_eq_of_forall₂ (h.imp fun _ _ hss => congrArg foldName hss.1)
  have hd : Slots.Distinct slots' := by rw [Slots.Distinct, hnames]; exact hs
  refine ⟨Slots.ofList_of_distinct hd, h.length_eq, Content.sameSlots_iff.2 ?_⟩
  intro s' hs'
  obtain ⟨s, hmem, hname, hsame⟩ := exists_of_forall₂_left h hs'
  exact ⟨s.2, Slots.get?_of_mem hs hmem (by rw [hname]; exact sameName_refl _), hsame⟩

/-- The slots read from the texts without names. -/
theorem read_positional {slots slots' : Slots Content} {filled : List SlotDescriptor}
    (hf : Ontology.DistinctNames filled) (hlen : filled.length = slots.length)
    (h : List.Forall₂ (fun s d => s.1 = d.name ∧
      ∃ c, Slots.get? d.name slots = some c ∧ s.2.same c = true) slots' filled) :
    Slots.ofList slots' = slots' ∧
      slots'.length = slots.length ∧ Content.sameSlots slots' slots = true := by
  have hnames : slots'.map (fun s => foldName s.1) = filled.map fun d => foldName d.name :=
    map_eq_of_forall₂ (h.imp fun _ _ hsd => congrArg foldName hsd.1)
  have hd : Slots.Distinct slots' := by rw [Slots.Distinct, hnames]; exact hf
  refine ⟨Slots.ofList_of_distinct hd, h.length_eq.trans hlen, Content.sameSlots_iff.2 ?_⟩
  intro s hs
  obtain ⟨d, -, hname, c, hget, hsame⟩ := exists_of_forall₂_left h hs
  exact ⟨c, by rw [hname]; exact hget, hsame⟩

/-! ## Expressions -/

theorem says_variable {slots : Slots Content} {isMeta : Bool} (hs : Slots.Distinct slots)
    (hn : ∀ s ∈ slots, sameName s.1 Content.nameSlot = true)
    (he : encodeExpression o (.variable slots isMeta) = .ok text) :
    Says o finish e text (.variable slots isMeta) := by
  simp only [encodeExpression] at he
  split at he
  · cases he
  · rename_i name hsymbol
    cases he
    obtain ⟨hsym, rfl⟩ := symbol_eq_ok.1 hsymbol
    have hname : ∃ key v, slots = [(key, .ofString v)] ∧ Content.variableName slots = v := by
      cases slots with
      | nil => cases hsym
      | cons s rest =>
        obtain ⟨key, c⟩ := s
        obtain ⟨hfree, -⟩ := Slots.distinct_cons.1 hs
        have hkey := hn _ List.mem_cons_self
        have hrest : rest = [] := by
          cases rest with
          | nil => rfl
          | cons s rest =>
            have hs := hn s (List.mem_cons_of_mem _ List.mem_cons_self)
            have hsame := sameName_trans hs (sameName_symm hkey)
            simp only [Slots.contains, List.any_cons, hsame, Bool.true_or] at hfree
            cases hfree
        subst hrest
        simp only [Content.variableName, Slots.get?, hkey, if_true, Option.bind_some] at hsym ⊢
        cases hc : c.string? with
        | none => rw [hc] at hsym; cases hsym
        | some v =>
          unfold Content.string? at hc
          split at hc
          · cases hc
            exact ⟨key, v, rfl, rfl⟩
          · cases hc
    obtain ⟨key, v, rfl, hv⟩ := hname
    rw [hv] at hsym ⊢
    have hspell := spells_variable hsym isMeta
    rw [String.ofList_toList] at hspell
    refine says_atom hspell rfl ?_
    have hkey := hn _ List.mem_cons_self
    refine Content.same_variable_iff.2 ⟨rfl, Content.sameSlots_iff.2 ?_, rfl⟩
    exact List.forall_mem_singleton.2 ⟨_, if_pos hkey, Content.same_primitive_iff.2 rfl⟩

theorem says_aggregate {elements : List Content} {template : Option Content}
    (hk : kindOf o type = some .aggregate)
    (he : encodeExpression o (.aggregate type elements template) = .ok text)
    (ih : ∀ c ∈ elements, ∀ {text}, encodeExpression o c = .ok text → Says o finish .term text c) :
    Says o finish e text (.aggregate type elements template) := by
  rw [encodeExpression, encodeAll_eq_map] at he
  obtain ⟨hsym, texts, htexts, rfl⟩ := exists_of_parenthesised he
  have hparts := forall₂_imp_of_mem (forall₂_of_map_ok htexts) fun t c hc ht => ih c hc ht
  refine (Yields.headed hsym (yields_terms hparts)).mono ?_
  rintro fs ⟨n, m, args, k, rfl, elements', hsame, hterms⟩
  exact ⟨_, _, rfl, expression_aggregate hk (hterms k),
    Content.same_aggregate_iff.2 ⟨rfl, hsame⟩⟩

theorem says_ire {referent proposition : Content} (hk : kindOf o type = some .ire)
    (he : encodeExpression o (.ire type referent proposition) = .ok text)
    (ihr : ∀ {text}, encodeExpression o referent = .ok text → Says o finish .term text referent)
    (ihp : ∀ {text}, encodeExpression o proposition = .ok text →
      Says o finish .proposition text proposition) :
    Says o finish e text (.ire type referent proposition) := by
  rw [encodeExpression] at he
  obtain ⟨hsym, texts, htexts, rfl⟩ := exists_of_parenthesised he
  obtain ⟨tr, rest, rfl, hr, hrest⟩ := List.map_eq_cons_iff.1 htexts.symm
  obtain ⟨tp, rest, rfl, hp, hnil⟩ := List.map_eq_cons_iff.1 hrest
  rw [List.map_eq_nil_iff] at hnil
  subst hnil
  have hlast : Yields (spacedText [tp]) fun fs => ∃ p proposition', fs = [p] ∧
      expression o finish .proposition p = .ok proposition' ∧
        proposition'.same proposition = true := by
    refine Yields.spaced_cons (ihp hp.symm) (.nil (P := (· = [])) rfl) ?_
    rintro fs gs ⟨p, c, rfl, hc⟩ rfl
    exact ⟨p, c, rfl, hc⟩
  have hparts : Yields (spacedText [tr, tp]) fun fs => ∃ v p referent' proposition',
      fs = [v, p] ∧ (expression o finish .term v = .ok referent' ∧ referent'.same referent = true) ∧
        expression o finish .proposition p = .ok proposition' ∧
          proposition'.same proposition = true := by
    refine Yields.spaced_cons (ihr hr.symm) hlast ?_
    rintro fs gs ⟨v, c, rfl, hc⟩ ⟨p, d, rfl, hd⟩
    exact ⟨v, p, c, d, rfl, hc, hd⟩
  refine (Yields.headed hsym hparts).mono ?_
  rintro fs ⟨n, m, args, k, rfl, v, p, referent', proposition', rfl, ⟨hv, hvs⟩, hp, hps⟩
  exact ⟨_, _, rfl, expression_ire hk hv hp, Content.same_ire_iff.2 ⟨rfl, hvs, hps⟩⟩

/-- Arguments that fill equal slots, in whatever order, make an equal expression. -/
theorem expression_of_arguments {slots slots' : Slots Content} {declared : List SlotDescriptor}
    {args : List Form} {n m k : Nat}
    (hk : kindOf o type ≠ some .aggregate ∧ kindOf o type ≠ some .ire)
    (hd : declaredSlots o (o.find? type) = .ok declared)
    (hargs : arguments o finish type declared (some k) 0 [] args =
      .ok (Slots.ofList slots'))
    (hread : Slots.ofList slots' = slots' ∧
      slots'.length = slots.length ∧ Content.sameSlots slots' slots = true) :
    ∃ f c', [Form.group n (.atom (.word type) m :: args) (some k)] = [f] ∧
      expression o finish e f = .ok c' ∧
        c'.same (.slotted (roleOf (kindOf o type) e) type slots) = true := by
  obtain ⟨hfold, hlen, hsame⟩ := hread
  rw [hfold] at hargs
  refine ⟨_, _, rfl, expression_slotted hk hd hargs, ?_⟩
  exact Content.same_slotted_iff.2 ⟨rfl, rfl, hlen, hsame⟩

theorem says_slotted {slots : Slots Content} {declared : List SlotDescriptor}
    (hk : kindOf o type ≠ some .aggregate ∧ kindOf o type ≠ some .ire)
    (hd : declaredSlots o (o.find? type) = .ok declared) (hs : Slots.Distinct slots)
    (he : encodeExpression o (.slotted (roleOf (kindOf o type) e) type slots) = .ok text)
    (ih : ∀ s ∈ slots, ∀ {text}, encodeExpression o s.2 = .ok text →
      Says o finish (expectOfKeyword declared s.1) text s.2) :
    Says o finish e text (.slotted (roleOf (kindOf o type) e) type slots) := by
  rw [encodeExpression] at he
  cases hp : positionalOrder? o type slots with
  | none =>
    rw [hp] at he
    obtain ⟨hsym, texts, htexts, rfl⟩ := exists_of_parenthesised he
    have hparts : List.Forall₂ (fun t s => isSymbol s.1.toList = true ∧ ∃ u,
        t = ':' :: s.1.toList ++ ' ' :: u ∧ Says o finish (expectOfKeyword declared s.1) u s.2)
        texts slots := by
      refine forall₂_imp_of_mem (forall₂_of_named htexts) ?_
      rintro t s hs ⟨hn, u, ht, hu⟩
      exact ⟨hn, u, ht, ih s hs hu⟩
    refine (Yields.headed hsym (yields_named type hparts)).mono ?_
    rintro fs ⟨n, m, args, k, rfl, slots', hsame, hargs⟩
    exact expression_of_arguments hk hd (hargs k []) (read_named hs hsame)
  | some names =>
    rw [hp] at he
    obtain ⟨hdistinct, filled, hfirst, hcontains, rfl, hlen⟩ := positionalOrder?_eq_some hd hp
    obtain ⟨hsym, texts, htexts, rfl⟩ := exists_of_parenthesised he
    have hparts : List.Forall₂ (fun t d => ∃ c, Slots.get? d.name slots = some c ∧
        Says o finish (.ofSlot d.type) t c) texts filled := by
      refine forall₂_imp_of_mem (forall₂_of_inOrder hcontains htexts) ?_
      rintro t d hfd ⟨c, hget, ht⟩
      obtain ⟨k, hkd, hmem⟩ := Slots.mem_of_get? hget
      have hsays := ih _ hmem ht
      rw [expectOfKeyword_eq hdistinct (hfirst.subset hfd) (sameName_symm hkd)] at hsays
      exact ⟨c, hget, hsays⟩
    refine (Yields.headed hsym (yields_positional type 0 hfirst hparts)).mono ?_
    rintro fs ⟨n, m, args, k, rfl, slots', hsame, hargs⟩
    exact expression_of_arguments hk hd (hargs k [])
      (read_positional (hdistinct.sublist hfirst.sublist) hlen hsame)

/-- The text of an expression that it determines says the expression. -/
theorem says_encodeExpression {c : Content} (h : Determined o e c)
    (he : encodeExpression o c = .ok text) (finish : Nat) : Says o finish e text c := by
  induction h generalizing text with
  | primitive hp =>
    obtain ⟨l, hs, hl⟩ := spells_writePrimitive hp he
    exact says_atom hs hl (Content.same_primitive_iff.2 rfl)
  | «variable» hs hn => exact says_variable hs hn he
  | aggregate hk _ ih => exact says_aggregate hk he fun c hc _ ht => ih c hc ht
  | ire hk _ _ ihr ihp => exact says_ire hk he ihr ihp
  | slotted hk hd hs _ ih => exact says_slotted hk hd hs he fun s hs _ ht => ih s hs ht
  | list => cases he

end

end Sl
end AgentContent
