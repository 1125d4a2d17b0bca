import AgentContent.Proofs.Sl.Context

/-!
# AgentContent.Proofs.Sl.Keyword

Arguments mean the same behind a keyword and without one.

* `withKeywords`: arguments as they are written, each of them put behind a keyword.
* `arguments_withKeywords_iff`: that changes no slot.
* `arguments_ne_ok`: no more arguments go without a keyword than there are slots.
* `decode_withKeywords`: both, for a group anywhere in a text.
-/

namespace AgentContent
namespace Sl

/-- One expression: a whole form that is no keyword. -/
structure Form.IsExpression (f : Form) : Prop where
  whole : f.Whole
  not_keyword : ∀ name n, f ≠ .atom (.keyword name) n

/-- An argument as it is written, behind a keyword or without one. -/
structure Written where
  keyword : Option String
  value : Form

def Written.forms : Written → List Form
  | ⟨none, value⟩ => [value]
  | ⟨some name, value⟩ => [.atom (.keyword name) 0, value]

/-- How many arguments have no keyword. -/
def bareCount (args : List Written) : Nat :=
  (args.filter fun a => a.keyword.isNone).length

/-- The arguments that have no keyword behind the names of slots, the first of them behind the first
name; the others as they are. -/
def withKeywords : List SlotDescriptor → List Written → List Written
  | _, [] => []
  | declared, ⟨some name, value⟩ :: args => ⟨some name, value⟩ :: withKeywords declared args
  | d :: declared, ⟨none, value⟩ :: args => ⟨some d.name, value⟩ :: withKeywords declared args
  | [], ⟨none, value⟩ :: args => ⟨none, value⟩ :: withKeywords [] args

/-- A head and its arguments in parentheses. -/
def call (type : String) (args : List Written) : Form :=
  .group 0 (.atom (.word type) 0 :: args.flatMap Written.forms) (some 0)

/-! ## Keywords put in front -/

theorem values_withKeywords (declared : List SlotDescriptor) (args : List Written) :
    (withKeywords declared args).map (·.value) = args.map (·.value) := by
  fun_induction withKeywords declared args with
  | case1 => rfl
  | case2 declared name value args ih => rw [List.map_cons, List.map_cons, ih]
  | case3 d declared value args ih => rw [List.map_cons, List.map_cons, ih]
  | case4 value args ih => rw [List.map_cons, List.map_cons, ih]

theorem whole_call {type : String} {args : List Written} (h : ∀ a ∈ args, a.value.IsExpression) :
    (call type args).Whole := by
  refine .group (List.forall_mem_cons.2 ⟨.atom (by simp), ?_⟩)
  intro f hf
  obtain ⟨a, ha, hf⟩ := List.mem_flatMap.1 hf
  obtain ⟨_ | name, value⟩ := a
  · cases List.mem_singleton.1 hf
    exact (h _ ha).whole
  · simp only [Written.forms, List.mem_cons, List.not_mem_nil, or_false] at hf
    rcases hf with rfl | rfl
    · exact .atom (by simp)
    · exact (h _ ha).whole

theorem isExpression_withKeywords {args : List Written} (h : ∀ a ∈ args, a.value.IsExpression)
    (declared : List SlotDescriptor) :
    ∀ a ∈ withKeywords declared args, a.value.IsExpression := by
  intro a ha
  have hvalue : a.value ∈ args.map (·.value) := by
    rw [← values_withKeywords declared args]
    exact List.mem_map_of_mem ha
  obtain ⟨b, hb, hsame⟩ := List.mem_map.1 hvalue
  rw [← hsame]
  exact h b hb

section

variable {o : Ontology} {finish position position' : Nat} {type : String} {closing : Option Nat}
  {declared : List SlotDescriptor} {slots slots' : Slots Content} {args : List Written}

theorem arguments_withKeywords_iff (hdistinct : Ontology.DistinctNames declared)
    (hargs : ∀ a ∈ args, a.value.IsExpression)
    (hcount : position + bareCount args ≤ declared.length) :
    arguments o finish type declared closing position slots (args.flatMap Written.forms) =
        .ok slots' ↔
      arguments o finish type declared closing position' slots
        ((withKeywords (declared.drop position) args).flatMap Written.forms) = .ok slots' := by
  -- on the left the position moves on, on the right the slots that are left get fewer
  induction args generalizing position slots with
  | nil =>
    simp only [withKeywords, List.flatMap_nil]
    rw [arguments_nil_eq_ok, arguments_nil_eq_ok]
  | cons a args ih =>
    obtain ⟨harg, hothers⟩ := List.forall_mem_cons.1 hargs
    obtain ⟨_ | name, value⟩ := a
    · have hbare : bareCount (⟨none, value⟩ :: args) = bareCount args + 1 := rfl
      have hlt : position < declared.length := by omega
      have hslot := expectOfKeyword_eq hdistinct (List.getElem_mem hlt) (sameName_refl _)
      rw [List.drop_eq_getElem_cons hlt]
      simp only [withKeywords, List.flatMap_cons, Written.forms, List.cons_append, List.nil_append]
      rw [arguments_bare_eq_ok harg.not_keyword, arguments_keyword_eq_ok, hslot]
      simp only [List.getElem?_eq_getElem hlt, Option.some.injEq]
      constructor
      · rintro ⟨d, c, rfl, hc, hrest⟩
        exact ⟨c, hc, (ih hothers (by omega)).1 hrest⟩
      · rintro ⟨c, hc, hrest⟩
        exact ⟨_, c, rfl, hc, (ih hothers (by omega)).2 hrest⟩
    · simp only [withKeywords, List.flatMap_cons, Written.forms, List.cons_append, List.nil_append]
      rw [arguments_keyword_eq_ok, arguments_keyword_eq_ok]
      exact exists_congr fun c => and_congr_right fun _ => ih hothers hcount

theorem arguments_ne_ok (hargs : ∀ a ∈ args, a.value.IsExpression)
    (hposition : position ≤ declared.length)
    (hcount : declared.length < position + bareCount args) :
    arguments o finish type declared closing position slots (args.flatMap Written.forms) ≠
      .ok slots' := by
  induction args generalizing position slots with
  | nil =>
    have hnone : bareCount [] = 0 := rfl
    omega
  | cons a args ih =>
    obtain ⟨harg, hothers⟩ := List.forall_mem_cons.1 hargs
    intro h
    obtain ⟨_ | name, value⟩ := a
    · have hbare : bareCount (⟨none, value⟩ :: args) = bareCount args + 1 := rfl
      simp only [List.flatMap_cons, Written.forms, List.cons_append, List.nil_append] at h
      obtain ⟨d, c, hd, -, hrest⟩ := (arguments_bare_eq_ok harg.not_keyword).1 h
      have hlt := (List.getElem?_eq_some_iff.1 hd).1
      exact ih hothers hlt (by omega) hrest
    · simp only [List.flatMap_cons, Written.forms, List.cons_append, List.nil_append] at h
      obtain ⟨c, -, hrest⟩ := arguments_keyword_eq_ok.1 h
      exact ih hothers hposition hcount hrest

/-! ## Groups -/

theorem expression_slotted_eq_ok {n m : Nat} {fs : List Form} {e : Expect} {c : Content}
    (hk : kindOf o type ≠ some .aggregate ∧ kindOf o type ≠ some .ire)
    (hd : declaredSlots o (o.find? type) = .ok declared) :
    expression o finish e (.group n (.atom (.word type) m :: fs) closing) = .ok c ↔
      ∃ slots, arguments o finish type declared closing 0 [] fs = .ok slots ∧
        c = .slotted (roleOf (kindOf o type) e) type slots := by
  constructor
  · intro h
    obtain ⟨type', _, fs', heq, hread⟩ := group_cases h
    cases heq
    obtain ⟨_, hagg, -, -⟩ | ⟨_, _, _, _, _, hire, -⟩ | ⟨declared', slots, -, hd', hslots, rfl⟩ :=
      hread
    · exact absurd hagg hk.1
    · exact absurd hire hk.2
    · cases hd.symm.trans hd'
      exact ⟨slots, hslots, rfl⟩
  · rintro ⟨slots, hslots, rfl⟩
    exact expression_slotted hk hd hslots

theorem elements_call_ne_ok {m : Nat} {fs : List Form} {cs : List Content} :
    elements o finish closing (.atom (.word type) m :: fs) ≠ .ok cs := by
  rw [elements]
  intro h
  cases h

theorem alike_call (hk : kindOf o type ≠ some .aggregate ∧ kindOf o type ≠ some .ire)
    (hd : declaredSlots o (o.find? type) = .ok declared)
    (hargs : ∀ a ∈ args, a.value.IsExpression) (hcount : bareCount args ≤ declared.length) :
    Alike o (call type args) (call type (withKeywords declared args)) := by
  refine .group (fun finish finish' e c => ?_) fun finish finish' cs =>
    iff_of_false elements_call_ne_ok elements_call_ne_ok
  have hsame : expression o finish e (call type args) = .ok c ↔
      expression o finish e (call type (withKeywords declared args)) = .ok c := by
    rw [call, call, expression_slotted_eq_ok hk hd, expression_slotted_eq_ok hk hd]
    refine exists_congr fun slots => and_congr_left fun _ => ?_
    exact arguments_withKeywords_iff (distinct_of_declaredSlots hd) hargs (by omega)
  exact hsame.trans (Alike.refl o _).expression_eq_ok_iff

end

/-- A group says the same with keywords put in front of the arguments that have none, wherever it
stands in a text: a keyword takes no slot from the arguments without one, which fill the slots in
their order. When these are more than the slots, the text says nothing. -/
theorem decode_withKeywords {o : Ontology} {s : Schema} {type : String}
    {declared : List SlotDescriptor} (hs : o.find? type = some s) (hkind : s.kind.isSlotted = true)
    (hd : o.slots s = .ok declared) {args : List Written}
    (hargs : ∀ a ∈ args, a.value.IsExpression) {before after : List Lexeme} {text : String}
    (htext : Spelt text (before ++ (call type args).lexemes ++ after)) :
    (bareCount args ≤ declared.length → ∀ text',
      Spelt text' (before ++ (call type (withKeywords declared args)).lexemes ++ after) →
        ∀ c, decode o text = .ok c ↔ decode o text' = .ok c) ∧
      (declared.length < bareCount args → ∃ err, decode o text = .error (.reported err)) := by
  have hk : kindOf o type ≠ some .aggregate ∧ kindOf o type ≠ some .ire := by
    rw [kindOf, hs]
    cases hother : s.kind <;> simp [hother, SchemaKind.isSlotted] at hkind ⊢
  have hslots : declaredSlots o (o.find? type) = .ok declared := by
    rw [hs]
    exact hd
  refine ⟨fun hcount text' htext' c => ?_, fun hcount => ?_⟩
  · exact decode_congr (whole_call hargs) (whole_call (isExpression_withKeywords hargs declared))
      (alike_call hk hslots hargs hcount) htext htext'
  · cases hread : decode o text with
    | error e =>
      obtain ⟨ts, hscan, -⟩ := htext
      obtain ⟨err, rfl⟩ := reported_of_decodeChars hscan hread
      exact ⟨err, rfl⟩
    | ok c =>
      obtain ⟨e, d, hcall⟩ | ⟨n, items, closing, cs, heq, helements⟩ :=
        exists_of_decode (whole_call hargs) rfl htext hread 0
      · obtain ⟨slots, hslots, -⟩ := (expression_slotted_eq_ok hk hslots).1 hcall
        exact absurd hslots (arguments_ne_ok hargs (Nat.zero_le _) (by omega))
      · cases heq
        exact absurd helements elements_call_ne_ok

/-- A predicate with a slot for a proposition. -/
def believes : Schema where
  name := "believes"
  kind := .predicate
  slots := [⟨"who", "Concept", false⟩, ⟨"what", "Predicate", false⟩]

def beliefs : Ontology where
  name := "beliefs"
  own := { schemas := [believes] }

/-- An expression with a head only. -/
def headOnly (type : String) : Form :=
  .group 0 [.atom (.word type) 0] (some 0)

theorem isExpression_headOnly (type : String) : (headOnly type).IsExpression where
  whole := .group (List.forall_mem_singleton.2 (.atom (by simp)))
  not_keyword _ _ h := by cases h

/-- Two arguments without a keyword around one that fills the slot of the first again. -/
def mixedArgs : List Written :=
  [⟨none, headOnly "ann"⟩, ⟨some "WHO", headOnly "bob"⟩, ⟨none, headOnly "rains"⟩]

/-- More arguments than slots. -/
def bareArgs : List Written :=
  ["ann", "rains", "bob"].map fun type => ⟨none, headOnly type⟩

def believed : Content :=
  .slotted .predicate "believes"
    [("who", .slotted .concept "bob" []), ("what", .slotted .predicate "rains" [])]

/-- The arguments of the group behind keywords, in the outer parentheses. -/
def mixedContent : Form :=
  .group 0 [call "believes" (withKeywords believes.slots mixedArgs)] (some 0)

theorem isExpression_mixedArgs : ∀ a ∈ mixedArgs, a.value.IsExpression := by
  simp only [mixedArgs, List.forall_mem_cons, isExpression_headOnly, true_and]
  exact List.forall_mem_nil _

theorem slots_believes : beliefs.slots believes = .ok believes.slots :=
  Ontology.slots_of_supers_nil rfl (by decide)

theorem expression_mixedArgs : expression beliefs 0 .proposition
    (call "believes" (withKeywords believes.slots mixedArgs)) = .ok believed := by
  have hann : expression beliefs 0 .term (headOnly "ann") = .ok (.slotted .concept "ann" []) :=
    expression_slotted ⟨by decide, by decide⟩ rfl rfl
  have hbob : expression beliefs 0 .term (headOnly "bob") = .ok (.slotted .concept "bob" []) :=
    expression_slotted ⟨by decide, by decide⟩ rfl rfl
  have hrains : expression beliefs 0 .proposition (headOnly "rains") =
      .ok (.slotted .predicate "rains" []) :=
    expression_slotted ⟨by decide, by decide⟩ rfl rfl
  exact expression_slotted ⟨by decide, by decide⟩ slots_believes ((arguments_named hann).trans
    ((arguments_named hbob).trans ((arguments_named hrains).trans rfl)))

theorem decode_believes :
    decode beliefs "((believes (ann) :WHO (bob) (rains)))" = .ok believed ∧
      decode beliefs "((believes :who (ann) :WHO (bob) :what (rains)))" = .ok believed ∧
        ∃ err, decode beliefs "((believes (ann) (rains) (bob)))" = .error (.reported err) := by
  have hfind : beliefs.find? "believes" = some believes := rfl
  have hbare : ∀ a ∈ bareArgs, a.value.IsExpression :=
    List.forall_mem_map.2 fun type _ => isExpression_headOnly type
  have htext : Spelt "((believes (ann) :WHO (bob) (rains)))"
      ([.open] ++ (call "believes" mixedArgs).lexemes ++ [.close]) :=
    spelt_of_scanWithin 40 (by decide) rfl rfl
  have htext' : Spelt "((believes :who (ann) :WHO (bob) :what (rains)))"
      ([.open] ++ (call "believes" (withKeywords believes.slots mixedArgs)).lexemes ++ [.close]) :=
    spelt_of_scanWithin 60 (by decide) rfl rfl
  have hmany : Spelt "((believes (ann) (rains) (bob)))"
      ([.open] ++ (call "believes" bareArgs).lexemes ++ [.close]) :=
    spelt_of_scanWithin 40 (by decide) rfl rfl
  have hread : decode beliefs "((believes :who (ann) :WHO (bob) :what (rains)))" =
      .ok believed := by
    have hwhole : mixedContent.Whole := .group (List.forall_mem_singleton.2
      (whole_call (isExpression_withKeywords isExpression_mixedArgs _)))
    have helements : elements beliefs 0 (some 0)
        [call "believes" (withKeywords believes.slots mixedArgs)] = .ok [believed] :=
      elements_cons ⟨_, _, _, rfl⟩ expression_mixedArgs rfl
    refine (decode_eq_ok_iff (show Spelt _ (lexemes mixedContent.tokens) from htext') 0).2 ?_
    rw [Form.ofTokens_tokens hwhole, mixedContent, contentOf, helements]
  obtain ⟨hsame, -⟩ := decode_withKeywords hfind rfl slots_believes isExpression_mixedArgs htext
  obtain ⟨-, hfails⟩ := decode_withKeywords hfind rfl slots_believes hbare hmany
  exact ⟨(hsame (by decide) _ htext' _).2 hread, hread, hfails (by decide)⟩

end Sl
end AgentContent
