import AgentContent.Proofs.Sl.Encode

/-!
# AgentContent.Proofs.Sl.Message

The text of a message whose content it determines is read as an equal content.

* `Stated`: a compound that its text determines, or a list of two or more.
* `SaysAll`: a text is read as content elements equal to given ones.
* `decode_encode`: the text of such a content.
-/

namespace AgentContent
namespace Sl

section

variable {o : Ontology} {finish : Nat} {e : Expect} {text : List Char}

/-- Written in parentheses. -/
def isCompound : Content → Bool
  | .slotted _ _ _ | .aggregate _ _ _ | .ire _ _ _ => true
  | _ => false

/-- The content of a message that its text determines: a compound, or a list of two or more. -/
def Stated (o : Ontology) : Content → Prop
  | .list cs => 2 ≤ cs.length ∧ ∀ c ∈ cs, isCompound c = true ∧ Determined o .proposition c
  | c => isCompound c = true ∧ Determined o .proposition c

theorem isCompound_of_same {c c' : Content} (h : c'.same c = true) :
    isCompound c' = isCompound c := by
  cases c' <;> cases c <;> first
    | rfl
    | exact absurd h Bool.false_ne_true

theorem isGroup_of_expression {f : Form} {c c' : Content} (h : expression o finish e f = .ok c')
    (hc : c'.same c = true) (hp : isCompound c = true) : ∃ n items k, f = .group n items k := by
  cases f with
  | group n items k => exact ⟨n, items, k, rfl⟩
  | atom l n =>
    have hatom : isCompound c' = false := by
      rw [expression_atom_eq_ok] at h
      cases l <;> cases h <;> rfl
    rw [← isCompound_of_same hc, hatom] at hp
    cases hp

theorem elements_cons {closing : Option Nat} {f : Form} {c : Content} {cs : List Content}
    {rest : List Form} (hf : ∃ n items k, f = .group n items k)
    (h : expression o finish .proposition f = .ok c)
    (hr : elements o finish closing rest = .ok cs) :
    elements o finish closing (f :: rest) = .ok (c :: cs) := by
  obtain ⟨n, items, k, rfl⟩ := hf
  simp only [elements, h, hr]

/-- Wherever the text starts, it is read as content elements equal to the given ones. -/
def SaysAll (o : Ontology) (finish : Nat) (text : List Char) (cs : List Content) : Prop :=
  Yields text fun fs => ∃ cs', Content.sameAll cs' cs = true ∧
    ∀ k, elements o finish (some k) fs = .ok cs'

theorem SaysAll.nil : SaysAll o finish [] [] :=
  Yields.nil ⟨[], rfl, fun k => by simp [elements, requireClose]⟩

theorem SaysAll.append {a b : List Char} {c : Content} {cs : List Content}
    (hp : isCompound c = true) (ha : Says o finish .proposition a c) (hb : SaysAll o finish b cs)
    (he : ∀ rest, Ends rest → Ends (b ++ rest)) : SaysAll o finish (a ++ b) (c :: cs) := by
  refine Yields.append ha hb he ?_
  rintro fs gs ⟨f, c', rfl, hf, hc⟩ ⟨cs', hcs, hgs⟩
  refine ⟨c' :: cs', by simp [Content.sameAll, hc, hcs], fun k => ?_⟩
  exact elements_cons (isGroup_of_expression hf hc hp) hf (hgs k)

theorem saysAll_spaced {texts : List (List Char)} {cs : List Content}
    (hp : ∀ c ∈ cs, isCompound c = true)
    (h : List.Forall₂ (fun t c => Says o finish .proposition t c) texts cs) :
    SaysAll o finish (spacedText texts) cs := by
  induction h with
  | nil => exact .nil
  | @cons t c ts cs ht _ ih =>
    have hrest := ih fun c hc => hp c (List.mem_cons_of_mem _ hc)
    exact Yields.blank (hrest.append (hp c List.mem_cons_self) ht fun _ => ends_spacedText ts)

theorem exists_of_separated {results : List (Except EncodeError (List Char))}
    (hne : results.isEmpty = false) (h : separated results = .ok text) :
    ∃ t ts, results = (t :: ts).map Except.ok ∧ text = t ++ spacedText ts := by
  unfold separated at h
  split at h
  · cases hne
  · cases h
  · rename_i t rest
    split at h
    · cases h
    · rename_i more hmore
      cases h
      obtain ⟨ts, rfl, rfl⟩ := exists_of_spaced hmore
      exact ⟨t, ts, rfl, rfl⟩

/-- Texts that say a row of expressions, with blanks between them. -/
theorem saysAll_separated {cs : List Content} (hne : cs ≠ [])
    (hcs : ∀ c ∈ cs, isCompound c = true ∧ Determined o .proposition c)
    (h : separated (cs.map (encodeExpression o)) = .ok text) (finish : Nat) :
    SaysAll o finish text cs := by
  obtain ⟨t, ts, htexts, rfl⟩ := exists_of_separated (by simpa using hne) h
  have hsays : List.Forall₂ (fun t c => Says o finish .proposition t c) (t :: ts) cs :=
    forall₂_imp_of_mem (forall₂_of_map_ok htexts)
      fun t c hc ht => says_encodeExpression (hcs c hc).2 ht finish
  cases hsays with
  | @cons _ c _ cs ht hts =>
    have hrest := saysAll_spaced (fun c hc => (hcs c (List.mem_cons_of_mem _ hc)).1) hts
    exact hrest.append (hcs c List.mem_cons_self).1 ht fun _ => ends_spacedText ts

/-- The outer parentheses hold content elements equal to the ones that were written. -/
theorem decodeChars_parens {cs : List Content} (h : ∀ finish, SaysAll o finish text cs) :
    ∃ cs', Content.sameAll cs' cs = true ∧ (∀ c, cs' = [c] →
      decodeChars o ('(' :: text ++ [')']) = .ok c) ∧
        (2 ≤ cs'.length → decodeChars o ('(' :: text ++ [')']) = .ok (.list cs')) := by
  obtain ⟨f, ⟨n, items, k, hf, cs', hsame, helements⟩, hdecode⟩ :=
    Yields.decodeChars (o := o) (h (byteSize ('(' :: text ++ [')']))).parens
      fun fs ⟨n, items, k, hf, _⟩ => ⟨_, hf⟩
  cases hf
  refine ⟨cs', hsame, ?_⟩
  simp only [contentOf, helements k] at hdecode
  constructor
  · rintro c rfl
    exact hdecode c rfl
  · intro hlen
    match cs', hlen with
    | _ :: _ :: _, _ => exact hdecode _ rfl

theorem encode_eq_ok {c : Content} {text : String} (h : encode o c = .ok text) :
    ∃ cs, encodeChars o c = .ok cs ∧ text.toList = cs := by
  unfold encode at h
  split at h
  · cases h
  · rename_i cs hcs
    cases h
    exact ⟨cs, hcs, String.toList_ofList⟩

theorem encodeChars_list {cs : List Content} {text : List Char}
    (h : encodeChars o (.list cs) = .ok text) :
    cs ≠ [] ∧ ∃ inner, separated (cs.map (encodeExpression o)) = .ok inner ∧
      text = '(' :: inner ++ [')'] := by
  simp only [encodeChars, encodeAll_eq_map] at h
  split at h
  · cases h
  · rename_i hne
    split at h
    · cases h
    · rename_i inner hinner
      cases h
      exact ⟨by simpa using hne, inner, hinner, rfl⟩

theorem encodeChars_compound {c : Content} {text : List Char} (hp : isCompound c = true)
    (h : encodeChars o c = .ok text) :
    ∃ inner, separated ([c].map (encodeExpression o)) = .ok inner ∧
      text = '(' :: inner ++ [')'] := by
  have hlist : encodeChars o (.list [c]) = encodeChars o c := by
    cases c <;> first | cases hp; done | rfl
  rw [← hlist] at h
  exact (encodeChars_list h).2

/-- The text of a content that it determines is read as an equal content. -/
theorem decode_encode {c : Content} {text : String} (hc : Stated o c) (h : encode o c = .ok text) :
    ∃ c', decode o text = .ok c' ∧ c'.same c = true := by
  obtain ⟨chars, hchars, htext⟩ := encode_eq_ok h
  rw [decode, htext]
  by_cases hlist : ∃ cs, c = .list cs
  · obtain ⟨cs, rfl⟩ := hlist
    obtain ⟨hlen, hall⟩ := hc
    obtain ⟨hne, inner, hinner, rfl⟩ := encodeChars_list hchars
    obtain ⟨cs', hsame, -, hmany⟩ := decodeChars_parens (saysAll_separated hne hall hinner)
    have hlen' : cs'.length = cs.length := (Content.sameAll_iff.1 hsame).length_eq
    exact ⟨.list cs', hmany (by omega), hsame⟩
  · have hone : isCompound c = true ∧ Determined o .proposition c := by
      cases c with
      | list cs => exact absurd ⟨cs, rfl⟩ hlist
      | _ => exact hc
    obtain ⟨inner, hinner, rfl⟩ := encodeChars_compound hone.1 hchars
    obtain ⟨cs', hsame, hsingle, -⟩ := decodeChars_parens
      (saysAll_separated (List.cons_ne_nil c []) (by simpa using hone) hinner)
    cases Content.sameAll_iff.1 hsame with
    | cons hc hnil =>
      cases hnil
      exact ⟨_, hsingle _ rfl, hc⟩

end

end Sl
end AgentContent
