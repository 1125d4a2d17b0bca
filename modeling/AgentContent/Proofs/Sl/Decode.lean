import AgentContent.Proofs.Sl.Message

/-!
# AgentContent.Proofs.Sl.Decode

What is read from a text is a content that its text determines.

* `forall_mem_scanFrom`: what holds of every element that is read holds of the elements of a text.
* `Form.induction`, `Form.induction_arguments`: induction on forms, and on the arguments of a head.
* `determined_of_expression`: what a form says.
* `stated_of_decode`: what a text says.
* `decode_encode_of_decode`: encoding undoes decoding.
-/

namespace AgentContent

namespace Sl

/-! ## Scanning -/

/-- What holds of an element wherever it is read holds of all elements of a text. -/
theorem forall_mem_scanFrom {P : Lexeme → Prop}
    (hP : ∀ {c : Char} {cs rest : List Char} {l : Lexeme}, isBlank c = false →
      readLexeme c cs = .ok (l, rest) → P l)
    {n : Nat} {cs : List Char} {tokens : List Token} (h : scanFrom n cs = .ok tokens) :
    ∀ t ∈ tokens, P t.lexeme := by
  induction hlen : cs.length using Nat.strongRecOn generalizing n cs tokens with
  | ind len ih =>
    rw [scanFrom_eq] at h
    split at h
    · cases h
      simp
    · rename_i c rest hc
      split at h
      · cases h
      · rename_i l after hl
        split at h
        · cases h
        · rename_i tokens' htokens
          cases h
          intro t ht
          rcases List.mem_cons.1 ht with rfl | ht
          · exact hP (isBlank_of_dropWhile hc) hl
          · exact ih after.length (hlen ▸ length_lt_of_readLexeme hc hl) htokens rfl t ht

/-! ## Words -/

theorem fitsInt64_of_readInt64? {cs : List Char} {n : Int} (h : readInt64? cs = some n) :
    fitsInt64 n = true := by
  unfold readInt64? at h
  split at h
  · cases h
  · split at h
    · rename_i hfits
      cases h
      exact hfits
    · cases h

theorem hasWord_wordValue (w : String) : HasWord (wordValue w) := by
  simp only [wordValue]
  split
  · trivial
  · split
    · trivial
    · split
      · rename_i hint
        exact fitsInt64_of_readInt64? hint
      · split
        · trivial
        · split
          · rename_i hdate
            exact inMillis_of_readDate? hdate
          · trivial

theorem determined_of_content? {o : Ontology} {l : Lexeme} {c : Content}
    (h : l.content? = some c) (e : Expect) : Determined o e c := by
  cases l with
  | word w => cases h; exact .primitive (hasWord_wordValue w)
  | quoted s => cases h; exact .primitive trivial
  | «variable» name isMeta =>
    cases h
    exact .variable (by simp [Slots.Distinct]) (by simp)
  | bytes bs => cases h; exact .primitive trivial
  | keyword name => cases h
  | «open» => cases h
  | close => cases h

/-! ## Forms -/

section Induction

variable {P : Form → Prop} (atom : ∀ l n, P (.atom l n))
  (group : ∀ n items closing, (∀ f ∈ items, P f) → P (.group n items closing))

include atom group

set_option linter.unusedSectionVars false in
mutual
@[elab_as_elim]
theorem Form.induction : ∀ f : Form, P f
  | .atom l n => atom l n
  | .group n items closing => group n items closing (Form.induction_all items)

theorem Form.induction_all : ∀ fs : List Form, ∀ f ∈ fs, P f
  | [] => List.forall_mem_nil _
  | f :: fs => List.forall_mem_cons.2 ⟨Form.induction f, Form.induction_all fs⟩
end

end Induction

/-- Induction on arguments: those behind keywords come with their keywords. -/
@[elab_as_elim]
theorem Form.induction_arguments {P : List Form → Prop} (nil : P [])
    (lone : ∀ name m, P [.atom (.keyword name) m])
    (named : ∀ name m v rest, P rest → P (.atom (.keyword name) m :: v :: rest))
    (bare : ∀ f rest, (∀ name m, f ≠ .atom (.keyword name) m) → P rest → P (f :: rest))
    (fs : List Form) : P fs := by
  induction hlen : fs.length using Nat.strongRecOn generalizing fs with
  | ind len ih =>
    cases fs with
    | nil => exact nil
    | cons f rest =>
      rw [List.length_cons] at hlen
      by_cases hf : ∀ name m, f ≠ .atom (.keyword name) m
      · exact bare f rest hf (ih rest.length (by omega) rest rfl)
      · simp only [not_forall, not_not] at hf
        obtain ⟨name, m, rfl⟩ := hf
        cases rest with
        | nil => exact lone name m
        | cons v rest =>
          rw [List.length_cons] at hlen
          exact named name m v rest (ih rest.length (by omega) rest rfl)

theorem tokens_subset_of_mem {f : Form} {fs : List Form} (h : f ∈ fs) {t : Token}
    (ht : t ∈ f.tokens) : t ∈ Form.tokensAll fs := by
  induction fs with
  | nil => cases h
  | cons g fs ih =>
    rw [Form.tokensAll, List.mem_append]
    rcases List.mem_cons.1 h with rfl | h
    · exact .inl ht
    · exact .inr (ih h)

section

variable {o : Ontology} {finish : Nat} {type : String} {closing : Option Nat}

/-- Whatever the place asks for, what a form says is determined by its text. -/
def Sound (o : Ontology) (finish : Nat) (f : Form) : Prop :=
  ∀ {e : Expect} {c : Content}, expression o finish e f = .ok c → Determined o e c

theorem determined_of_terms {fs : List Form} (hf : ∀ f ∈ fs, Sound o finish f)
    {elements : List Content} (h : terms o finish closing fs = .ok elements) :
    ∀ c ∈ elements, Determined o .term c := by
  induction fs generalizing elements with
  | nil =>
    simp only [terms] at h
    split at h
    · cases h
    · cases h; simp
  | cons f fs ih =>
    simp only [terms] at h
    split at h
    · cases h
    · rename_i c hc
      split at h
      · cases h
      · rename_i cs hcs
        cases h
        intro d hd
        rcases List.mem_cons.1 hd with rfl | hd
        · exact hf f List.mem_cons_self hc
        · exact ih (fun g hg => hf g (List.mem_cons_of_mem _ hg)) hcs d hd

/-- The slots of a head that are filled so far. -/
structure Filled (o : Ontology) (declared : List SlotDescriptor) (slots : Slots Content) :
    Prop where
  distinct : Slots.Distinct slots
  determined : ∀ s ∈ slots, Determined o (expectOfKeyword declared s.1) s.2

theorem expectOfKeyword_congr {a b : String} (h : sameName a b = true)
    (declared : List SlotDescriptor) : expectOfKeyword declared a = expectOfKeyword declared b := by
  simp only [expectOfKeyword, sameName_congr_right h]

theorem Filled.insert {declared : List SlotDescriptor} {slots : Slots Content}
    (h : Filled o declared slots) {name : String} {c : Content}
    (hc : Determined o (expectOfKeyword declared name) c) :
    Filled o declared (Slots.insert name c slots) := by
  refine ⟨h.distinct.insert name c, ?_⟩
  rintro ⟨k, d⟩ hd
  rcases Slots.mem_insert hd with hd | ⟨hk, rfl⟩
  · exact h.determined (k, d) hd
  · rw [expectOfKeyword_congr hk]
    exact hc

theorem requireClose_eq_ok {fault : Fault} {u : Unit} :
    requireClose finish closing fault = .ok u ↔ ∃ k, closing = some k := by
  cases closing <;> simp [requireClose]

/-! ### Arguments, one at a time -/

section

variable {declared : List SlotDescriptor} {position : Nat} {slots slots' : Slots Content}

theorem arguments_nil_eq_ok :
    arguments o finish type declared closing position slots [] = .ok slots' ↔
      (∃ k, closing = some k) ∧ slots = slots' := by
  cases closing <;> simp [arguments, requireClose]

theorem arguments_keyword_eq_ok {name : String} {m : Nat} {v : Form} {rest : List Form} :
    arguments o finish type declared closing position slots (.atom (.keyword name) m :: v :: rest) =
        .ok slots' ↔
      ∃ c, expression o finish (expectOfKeyword declared name) v = .ok c ∧
        arguments o finish type declared closing position (Slots.insert name c slots) rest =
          .ok slots' := by
  rw [arguments]
  split
  · rename_i herr
    simp [herr]
  · rename_i c hc
    simp [hc]

theorem arguments_bare {f : Form} {rest : List Form}
    (hf : ∀ name n, f ≠ .atom (.keyword name) n) :
    arguments o finish type declared closing position slots (f :: rest) =
      match declared[position]? with
      | none => .error ⟨f.offset, .tooManyArguments type⟩
      | some d =>
        match expression o finish (.ofSlot d.type) f with
        | .error e => .error e
        | .ok c => arguments o finish type declared closing (position + 1)
            (Slots.insert d.name c slots) rest := by
  rewrite [arguments]
  · rfl
  · intro name n heq
    exact absurd heq (hf name n)
  · intro name n v rest heq
    exact absurd heq (hf name n)

theorem arguments_bare_eq_ok {f : Form} {rest : List Form}
    (hf : ∀ name n, f ≠ .atom (.keyword name) n) :
    arguments o finish type declared closing position slots (f :: rest) = .ok slots' ↔
      ∃ d c, declared[position]? = some d ∧ expression o finish (.ofSlot d.type) f = .ok c ∧
        arguments o finish type declared closing (position + 1) (Slots.insert d.name c slots) rest =
          .ok slots' := by
  rw [arguments_bare hf]
  split
  · rename_i hd
    simp [hd]
  · rename_i d hd
    split
    · rename_i herr
      simp [hd, herr]
    · rename_i c hc
      simp [hd, hc]

theorem filled_of_arguments (hd : Ontology.DistinctNames declared) {fs : List Form}
    (hf : ∀ f ∈ fs, Sound o finish f) (hs : Filled o declared slots)
    (h : arguments o finish type declared closing position slots fs = .ok slots') :
    Filled o declared slots' := by
  induction fs using Form.induction_arguments generalizing position slots with
  | nil =>
    obtain ⟨-, rfl⟩ := arguments_nil_eq_ok.1 h
    exact hs
  | lone name m => cases h
  | named name m v rest ih =>
    obtain ⟨c, hc, hrest⟩ := arguments_keyword_eq_ok.1 h
    exact ih (fun f hm => hf f (by simp [hm])) (hs.insert (hf v (by simp) hc)) hrest
  | bare f rest hkeyword ih =>
    obtain ⟨d, c, hdecl, hc, hrest⟩ := (arguments_bare_eq_ok hkeyword).1 h
    have hfc := hf f List.mem_cons_self hc
    rw [← expectOfKeyword_eq hd (List.mem_of_getElem? hdecl) (sameName_refl _)] at hfc
    exact ih (fun f hm => hf f (List.mem_cons_of_mem _ hm)) (hs.insert hfc) hrest

end

theorem distinct_of_declaredSlots {s : Option Schema} {declared : List SlotDescriptor}
    (h : declaredSlots o s = .ok declared) : Ontology.DistinctNames declared := by
  cases s with
  | none => cases h; exact List.nodup_nil
  | some s => exact Ontology.distinct_slots h

/-- A group that says something has a type at its head, and is an aggregate, an identifying
expression or a value with slots. -/
theorem group_cases {e : Expect} {n : Nat} {items : List Form} {c : Content}
    (h : expression o finish e (.group n items closing) = .ok c) :
    ∃ type m args, items = .atom (.word type) m :: args ∧
      ((∃ elements, kindOf o type = some .aggregate ∧ terms o finish closing args = .ok elements ∧
          c = .aggregate type elements none) ∨
        (∃ v p k referent proposition, kindOf o type = some .ire ∧ args = [v, p] ∧
          closing = some k ∧ expression o finish .term v = .ok referent ∧
            expression o finish .proposition p = .ok proposition ∧
              c = .ire type referent proposition) ∨
        (∃ declared slots, (kindOf o type ≠ some .aggregate ∧ kindOf o type ≠ some .ire) ∧
          declaredSlots o (o.find? type) = .ok declared ∧
            arguments o finish type declared closing 0 [] args = .ok slots ∧
              c = .slotted (roleOf (kindOf o type) e) type slots)) := by
  match items with
  | [] => cases closing <;> cases h
  | .group _ _ _ :: _ => cases h
  | .atom l m :: args =>
    cases l with
    | word type =>
      refine ⟨type, m, args, rfl, ?_⟩
      unfold expression at h
      simp only at h
      split at h
      · rename_i hk
        split at h
        · cases h
        · rename_i elements hterms
          cases h
          exact .inl ⟨elements, hk, hterms, rfl⟩
      · rename_i hk
        split at h
        · cases h
        · split at h <;> cases h
        · split at h
          · cases h
          · rename_i v p rest _ referent hv
            split at h
            · cases h
            · rename_i proposition hp
              split at h
              · split at h
                · cases h
                · rename_i hclose
                  cases h
                  obtain ⟨k, rfl⟩ := requireClose_eq_ok.1 hclose
                  exact .inr (.inl ⟨v, p, k, referent, proposition, hk, rfl, rfl, hv, hp, rfl⟩)
              · cases h
      · rename_i hagg hire
        split at h
        · cases h
        · rename_i declared hd
          split at h
          · cases h
          · rename_i slots hslots
            cases h
            exact .inr (.inr ⟨declared, slots, ⟨hagg, hire⟩, hd, hslots, rfl⟩)
    | _ => cases h

theorem isCompound_of_group {e : Expect} {n : Nat} {items : List Form} {c : Content}
    (h : expression o finish e (.group n items closing) = .ok c) : isCompound c = true := by
  obtain ⟨_, _, _, _, ⟨_, _, _, rfl⟩ | ⟨_, _, _, _, _, _, _, _, _, _, rfl⟩ | ⟨_, _, _, _, _, rfl⟩⟩ :=
    group_cases h <;> rfl

/-- What a form says is determined by its text. -/
theorem determined_of_expression (f : Form) : Sound o finish f := by
  induction f using Form.induction with
  | atom l n =>
    intro e c h
    rw [expression_atom_eq_ok] at h
    exact determined_of_content? h e
  | group n items closing ih =>
    intro e c h
    obtain ⟨type, m, args, rfl, ⟨elements, hk, hterms, rfl⟩ |
      ⟨v, p, k, referent, proposition, hk, rfl, rfl, hv, hp, rfl⟩ |
      ⟨declared, slots, hk, hd, hslots, rfl⟩⟩ := group_cases h
    · exact .aggregate hk
        (determined_of_terms (fun f hf => ih f (List.mem_cons_of_mem _ hf)) hterms)
    · exact .ire hk (ih v (by simp) hv) (ih p (by simp) hp)
    · have hfilled := filled_of_arguments (distinct_of_declaredSlots hd)
        (fun f hf => ih f (List.mem_cons_of_mem _ hf)) ⟨.nil, by simp⟩ hslots
      exact .slotted hk hd hfilled.distinct hfilled.determined

/-! ## Messages -/

theorem stated_of_elements {fs : List Form} (hf : ∀ f ∈ fs, Sound o finish f) {cs : List Content}
    (h : elements o finish closing fs = .ok cs) :
    ∀ c ∈ cs, isCompound c = true ∧ Determined o .proposition c := by
  induction fs generalizing cs with
  | nil =>
    simp only [elements] at h
    split at h
    · cases h
    · cases h; simp
  | cons f fs ih =>
    cases f with
    | atom l n => cases h
    | group n items k =>
      simp only [elements] at h
      split at h
      · cases h
      · rename_i c hc
        split at h
        · cases h
        · rename_i cs hcs
          cases h
          intro d hd
          rcases List.mem_cons.1 hd with rfl | hd
          · exact ⟨isCompound_of_group hc, hf _ List.mem_cons_self hc⟩
          · exact ih (fun g hg => hf g (List.mem_cons_of_mem _ hg)) hcs d hd

theorem stated_of_contentOf {fs : List Form} {c : Content}
    (h : contentOf o finish fs = .ok c) : Stated o c := by
  unfold contentOf at h
  split at h
  · cases h
  · cases h
  · rename_i n items closing rest
    split at h
    · cases h
    · rename_i cs hcs
      have hall := stated_of_elements (fun f _ => determined_of_expression f) hcs
      split at h
      · cases h
      · split at h
        · cases h
        · cases h
          have hd := hall c List.mem_cons_self
          cases c with
          | list => cases hd.1
          | _ => exact hd
        · rename_i hone hnil
          cases h
          refine ⟨?_, hall⟩
          rcases cs with _ | ⟨d, _ | ⟨d', ds⟩⟩
          · exact absurd rfl hone
          · exact absurd rfl (hnil d)
          · simp

theorem stated_of_decode {text : String} {c : Content} (h : decode o text = .ok c) :
    Stated o c := by
  obtain ⟨tokens, -, hread⟩ := decodeChars_eq_ok_iff.1 h
  exact stated_of_contentOf hread

/-- Encoding undoes decoding, up to the order and the spelling of slots: what was read from a text
and written again is read as an equal content, whether its heads are known or not. -/
theorem decode_encode_of_decode {text text' : String} {c : Content} (h : decode o text = .ok c)
    (he : encode o c = .ok text') : ∃ c', decode o text' = .ok c' ∧ c'.same c = true :=
  decode_encode (stated_of_decode h) he

end

/-- A vocabulary that knows one operator. -/
def descriptions : Ontology where
  name := "descriptions"
  own := { schemas := [{ name := "iota", kind := .ire }] }

/-- Two heads that the vocabulary does not know, one of them with a slot that is filled twice. -/
def unheardForm : Form :=
  .group 2 [.atom (.word "unheard") 3, .atom (.keyword "A") 11, .atom (.quoted "1") 14,
    .atom (.keyword "b") 18, .group 21 [.atom (.word "iota") 22, .atom (.variable "x" false) 27,
      .group 30 [.atom (.word "p") 31] (some 32)] (some 33),
    .atom (.keyword "a") 35, .atom (.quoted "2") 38] (some 41)

def unheard : Content :=
  .slotted .predicate "unheard" [("A", .ofString "2"),
    ("b", .ire "iota" (.freeVariable "x" false) (.slotted .predicate "p" []))]

theorem expression_unheard (finish : Nat) :
    expression descriptions finish .proposition unheardForm = .ok unheard := by
  have hp : expression descriptions finish .proposition
      (.group 30 [.atom (.word "p") 31] (some 32)) = .ok (.slotted .predicate "p" []) :=
    expression_slotted ⟨by decide, by decide⟩ rfl rfl
  have hiota : expression descriptions finish .term (.group 21 [.atom (.word "iota") 22,
      .atom (.variable "x" false) 27, .group 30 [.atom (.word "p") 31] (some 32)] (some 33)) =
        .ok (.ire "iota" (.freeVariable "x" false) (.slotted .predicate "p" [])) :=
    expression_ire rfl rfl hp
  exact expression_slotted ⟨by decide, by decide⟩ rfl
    ((arguments_named rfl).trans ((arguments_named hiota).trans ((arguments_named rfl).trans rfl)))

theorem decode_unheard :
    decode descriptions "( (unheard :A \"1\" :b (iota ?x (p)) :a \"2\"))" = .ok unheard := by
  have hscan : scanWithin 50 0 "( (unheard :A \"1\" :b (iota ?x (p)) :a \"2\"))".toList =
      .ok (⟨.open, 0⟩ :: unheardForm.tokens ++ [⟨.close, 42⟩]) := rfl
  refine decodeChars_eq_ok_iff.2 ⟨_, (scan_eq_scanWithin 50 (by decide)).trans hscan, ?_⟩
  show contentOf descriptions _ [.group 0 [unheardForm] (some 42)] = _
  have hgroup : ∀ finish, elements descriptions finish (some 42) [unheardForm] = .ok [unheard] :=
    fun finish => elements_cons ⟨_, _, _, rfl⟩ (expression_unheard finish) rfl
  simp only [contentOf, hgroup]

theorem decode_encode_unheard : ∃ c', decode descriptions
    "((unheard :A \"2\" :b (iota ?x (p))))" = .ok c' ∧ c'.same unheard = true :=
  decode_encode_of_decode decode_unheard rfl

end Sl
end AgentContent
