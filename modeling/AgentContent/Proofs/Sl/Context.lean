import AgentContent.Proofs.Sl.Grammar

/-!
# AgentContent.Proofs.Sl.Context

What a text says depends on its groups only by what they say, and fails with any of them.

* `Alike`: forms that say the same at every place. Places in the text count for nothing.
* `alike_group`, `alike_build`: forms of alike parts are alike, and so are the forms of texts that
  differ in alike ones.
* `Form.Within`: a form is a part of another one, at any depth.
* `decode_congr`: texts that differ in alike forms say the same.
* `exists_of_decode`: in a text that says something, so does every group.
-/

namespace AgentContent
namespace Sl

/-! ## Lexical elements without their places -/

def lexemes (ts : List Token) : List Lexeme :=
  ts.map (·.lexeme)

def Form.lexemes (f : Form) : List Lexeme :=
  Sl.lexemes f.tokens

/-- The text is made of these elements, with any blanks around them. -/
def Spelt (text : String) (ls : List Lexeme) : Prop :=
  ∃ ts, Token.scan text.toList = .ok ts ∧ lexemes ts = ls

theorem spelt_of_scanWithin {text : String} {ls : List Lexeme} {ts : List Token} (most : Nat)
    (hmost : text.toList.length < most) (h : scanWithin most 0 text.toList = .ok ts)
    (hls : lexemes ts = ls) : Spelt text ls :=
  ⟨ts, (scan_eq_scanWithin most hmost).trans h, hls⟩

/-- The elements, as if they all stood at the start of a text. -/
def placeless (ls : List Lexeme) : List Token :=
  ls.map (⟨·, 0⟩)

theorem lexemes_placeless (ls : List Lexeme) : lexemes (placeless ls) = ls := by
  induction ls with
  | nil => rfl
  | cons l ls ih => exact congrArg (l :: ·) ih

/-! ## Alike forms -/

/-- Forms that say the same: equal elements, and groups that are read as the same contents, inside
of other groups and around all others, wherever their texts end. -/
inductive Alike (o : Ontology) : Form → Form → Prop where
  | atom {l : Lexeme} {n m : Nat} : Alike o (.atom l n) (.atom l m)
  | group {n m : Nat} {items items' : List Form} {closing closing' : Option Nat}
    (hexpression : ∀ finish finish' e c, expression o finish e (.group n items closing) = .ok c ↔
      expression o finish' e (.group m items' closing') = .ok c)
    (helements : ∀ finish finish' cs, elements o finish closing items = .ok cs ↔
      elements o finish' closing' items' = .ok cs) :
    Alike o (.group n items closing) (.group m items' closing')

section

variable {o : Ontology} {finish finish' position : Nat} {type : String}
  {closing closing' : Option Nat} {e : Expect} {f g : Form} {fs gs : List Form}

theorem Alike.symm (h : Alike o f g) : Alike o g f := by
  cases h with
  | atom => exact .atom
  | group hexpression helements =>
    exact .group (fun n m e c => (hexpression m n e c).symm) fun n m cs => (helements m n cs).symm

theorem alike_symm_all (h : List.Forall₂ (Alike o) fs gs) : List.Forall₂ (Alike o) gs fs :=
  List.Forall₂.flip (h.imp fun _ _ hfg => hfg.symm)

theorem Alike.expression_eq_ok_iff (h : Alike o f g) {c : Content} :
    expression o finish e f = .ok c ↔ expression o finish' e g = .ok c := by
  cases h with
  | atom => rw [expression_atom_eq_ok, expression_atom_eq_ok]
  | group hexpression _ => exact hexpression finish finish' e c

theorem Alike.category (h : Alike o f g) : f.category = g.category := by
  cases h <;> rfl

/-! ## Rows of forms -/

theorem forall₂_alike {R S : Form → Content → Prop} (h : List.Forall₂ (Alike o) fs gs)
    {cs : List Content} (hfs : List.Forall₂ R fs cs)
    (hrs : ∀ f g c, Alike o f g → R f c → S g c) : List.Forall₂ S gs cs := by
  induction h generalizing cs with
  | nil =>
    cases hfs
    exact .nil
  | cons hfg _ ih =>
    cases hfs with
    | cons hf hfs => exact .cons (hrs _ _ _ hfg hf) (ih hfs)

theorem terms_of_alike (h : List.Forall₂ (Alike o) fs gs) (hc : closing.isSome = closing'.isSome)
    {cs : List Content} (hfs : terms o finish closing fs = .ok cs) :
    terms o finish' closing' gs = .ok cs := by
  obtain ⟨⟨k, rfl⟩, hall⟩ := terms_eq_ok_iff.1 hfs
  refine terms_eq_ok_iff.2 ⟨Option.isSome_iff_exists.1 hc.symm, ?_⟩
  exact forall₂_alike h hall fun _ _ _ hfg hf => hfg.expression_eq_ok_iff.1 hf

theorem elements_of_alike (h : List.Forall₂ (Alike o) fs gs)
    (hc : closing.isSome = closing'.isSome) {cs : List Content}
    (hfs : elements o finish closing fs = .ok cs) : elements o finish' closing' gs = .ok cs := by
  obtain ⟨⟨k, rfl⟩, hall⟩ := elements_eq_ok_iff.1 hfs
  refine elements_eq_ok_iff.2 ⟨Option.isSome_iff_exists.1 hc.symm, ?_⟩
  exact forall₂_alike h hall fun _ _ _ hfg hf =>
    ⟨hfg.category ▸ hf.1, hfg.expression_eq_ok_iff.1 hf.2⟩

/-! ## Arguments -/

section

variable {declared : List SlotDescriptor} {slots slots' : Slots Content}

theorem Alike.not_keyword (h : Alike o f g) (hf : ∀ name n, f ≠ .atom (.keyword name) n)
    (name : String) (n : Nat) : g ≠ .atom (.keyword name) n := by
  rintro rfl
  cases h
  exact hf name _ rfl

theorem arguments_of_alike (h : List.Forall₂ (Alike o) fs gs)
    (hc : closing.isSome = closing'.isSome)
    (hfs : arguments o finish type declared closing position slots fs = .ok slots') :
    arguments o finish' type declared closing' position slots gs = .ok slots' := by
  induction fs using Form.induction_arguments generalizing gs position slots with
  | nil =>
    cases h
    obtain ⟨⟨k, rfl⟩, rfl⟩ := arguments_nil_eq_ok.1 hfs
    exact arguments_nil_eq_ok.2 ⟨Option.isSome_iff_exists.1 hc.symm, rfl⟩
  | lone name m => cases hfs
  | named name m v rest ih =>
    obtain ⟨c, hv, hrest⟩ := arguments_keyword_eq_ok.1 hfs
    cases h with
    | cons hkeyword h =>
      cases hkeyword
      cases h with
      | cons hvw h =>
        exact arguments_keyword_eq_ok.2 ⟨c, hvw.expression_eq_ok_iff.1 hv, ih h hrest⟩
  | bare f rest hf ih =>
    obtain ⟨d, c, hd, hv, hrest⟩ := (arguments_bare_eq_ok hf).1 hfs
    cases h with
    | cons hfg h =>
      exact (arguments_bare_eq_ok (hfg.not_keyword hf)).2
        ⟨d, c, hd, hfg.expression_eq_ok_iff.1 hv, ih h hrest⟩

end

/-! ## Groups of alike forms -/

theorem expression_of_alike (h : List.Forall₂ (Alike o) fs gs)
    (hc : closing.isSome = closing'.isSome) {n m : Nat} {c : Content}
    (hfs : expression o finish e (.group n fs closing) = .ok c) :
    expression o finish' e (.group m gs closing') = .ok c := by
  obtain ⟨type, _, args, rfl, hread⟩ := group_cases hfs
  cases h with
  | cons hhead hargs =>
    cases hhead
    obtain ⟨elements, hk, hterms, rfl⟩ | ⟨v, p, k, referent, proposition, hk, rfl, rfl, hv, hp, rfl⟩ |
      ⟨declared, slots, hk, hd, hslots, rfl⟩ := hread
    · exact expression_aggregate hk (terms_of_alike hargs hc hterms)
    · obtain ⟨k', rfl⟩ := Option.isSome_iff_exists.1 hc.symm
      cases hargs with
      | cons hv' hargs =>
        cases hargs with
        | cons hp' hnil =>
          cases hnil
          exact expression_ire hk (hv'.expression_eq_ok_iff.1 hv) (hp'.expression_eq_ok_iff.1 hp)
    · exact expression_slotted hk hd (arguments_of_alike hargs hc hslots)

theorem alike_group (h : List.Forall₂ (Alike o) fs gs) (hc : closing.isSome = closing'.isSome)
    {n m : Nat} : Alike o (.group n fs closing) (.group m gs closing') := by
  have hsymm := alike_symm_all h
  exact .group (fun _ _ _ _ => ⟨expression_of_alike h hc, expression_of_alike hsymm hc.symm⟩)
    fun _ _ _ => ⟨elements_of_alike h hc, elements_of_alike hsymm hc.symm⟩

theorem Alike.refl (o : Ontology) (f : Form) : Alike o f f := by
  induction f using Form.induction with
  | atom l n => exact .atom
  | group n items closing ih => exact alike_group (List.forall₂_same.2 ih) rfl

theorem contentOf_of_alike (h : List.Forall₂ (Alike o) fs gs) {c : Content}
    (hfs : contentOf o finish fs = .ok c) : contentOf o finish' gs = .ok c := by
  cases h with
  | nil => cases hfs
  | cons hfg hrest =>
    cases hfg with
    | atom => cases hfs
    | group _ helements =>
      simp only [contentOf] at hfs ⊢
      split at hfs
      · cases hfs
      · rename_i cs hcs
        rw [(helements finish finish' cs).1 hcs]
        cases hrest with
        | cons => cases hfs
        | nil =>
          cases cs with
          | nil => cases hfs
          | cons c cs => cases cs <;> exact hfs

theorem contentOf_congr (h : List.Forall₂ (Alike o) fs gs) {c : Content} :
    contentOf o finish fs = .ok c ↔ contentOf o finish' gs = .ok c :=
  ⟨contentOf_of_alike h, contentOf_of_alike (alike_symm_all h)⟩

/-! ## Grouping -/

/-- Levels of open groups with alike items. -/
def AlikeLevels (o : Ontology) : List (Nat × List Form) → List (Nat × List Form) → Prop :=
  List.Forall₂ fun a b => List.Forall₂ (Alike o) a.2 b.2

variable {levels levels' : List (Nat × List Form)} {ts us rest rest' : List Token}

theorem alike_unwind (hl : AlikeLevels o levels levels') (h : List.Forall₂ (Alike o) fs gs) :
    List.Forall₂ (Alike o) (Form.unwind fs levels) (Form.unwind gs levels') := by
  induction hl generalizing fs gs with
  | nil => exact List.rel_reverse h
  | cons hlevel _ ih => exact ih (.cons (alike_group (List.rel_reverse h) rfl) hlevel)

/-- Behind equal elements, texts are grouped alike if what is left of them is. -/
theorem alike_build_append (hts : lexemes ts = lexemes us)
    (hrest : ∀ {levels levels' : List (Nat × List Form)} {fs gs : List Form},
      AlikeLevels o levels levels' → List.Forall₂ (Alike o) fs gs →
        List.Forall₂ (Alike o) (Form.build levels fs rest) (Form.build levels' gs rest'))
    (hl : AlikeLevels o levels levels') (h : List.Forall₂ (Alike o) fs gs) :
    List.Forall₂ (Alike o) (Form.build levels fs (ts ++ rest))
      (Form.build levels' gs (us ++ rest')) := by
  induction ts generalizing us levels levels' fs gs with
  | nil =>
    cases us with
    | nil => exact hrest hl h
    | cons => cases hts
  | cons t ts ih =>
    cases us with
    | nil => cases hts
    | cons u us =>
      obtain ⟨l, n⟩ := t
      obtain ⟨l', m⟩ := u
      obtain ⟨hlexeme, htail⟩ := List.cons.inj hts
      cases hlexeme
      have hatom := ih htail hl (.cons (.atom (l := l) (n := n) (m := m)) h)
      cases l with
      | «open» =>
        have hlevels : AlikeLevels o ((n, fs) :: levels) ((m, gs) :: levels') := .cons h hl
        have hbuild := ih htail hlevels .nil
        exact hbuild
      | close =>
        cases hl with
        | nil => exact hatom
        | @cons a b levels levels' hlevel hl =>
          have hclosed : (some n).isSome = (some m).isSome := rfl
          have hgroup := alike_group (List.rel_reverse h) hclosed (n := a.1) (m := b.1)
          have hbuild := ih htail hl (.cons hgroup hlevel)
          exact hbuild
      | _ => exact hatom

theorem alike_build (hts : lexemes ts = lexemes us) (hl : AlikeLevels o levels levels')
    (h : List.Forall₂ (Alike o) fs gs) :
    List.Forall₂ (Alike o) (Form.build levels fs ts) (Form.build levels' gs us) := by
  have hbuild : List.Forall₂ (Alike o) (Form.build levels fs (ts ++ []))
      (Form.build levels' gs (us ++ [])) := alike_build_append hts alike_unwind hl h
  rwa [List.append_nil, List.append_nil] at hbuild

end

/-! ## Parts of forms

A whole form among the elements of a text stays together when the text is grouped, and what a group
says, it says by its items. -/

/-- The form is a part of the other one, at any depth. -/
inductive Form.Within (f : Form) : Form → Prop where
  | self : Within f f
  | item {g : Form} {n : Nat} {items : List Form} {closing : Option Nat} (hg : g ∈ items)
    (h : Within f g) : Within f (.group n items closing)

theorem Form.Within.compound {f g : Form} (h : f.Within g) (hf : f.category = .compound) :
    g.category = .compound := by
  cases h with
  | self => exact hf
  | item => rfl

/-- The form is a part of an item, or of an item of a group that is open. -/
def Form.Held (f : Form) (levels : List (Nat × List Form)) (items : List Form) : Prop :=
  (∃ g ∈ items, f.Within g) ∨ ∃ level ∈ levels, ∃ g ∈ level.2, f.Within g

section

variable {o : Ontology} {finish : Nat} {type : String} {closing : Option Nat} {f g : Form}
  {items outer fs : List Form} {levels : List (Nat × List Form)}

theorem Form.Held.cons (h : f.Held levels items) : f.Held levels (g :: items) := by
  refine h.imp_left ?_
  rintro ⟨g', hg', hf⟩
  exact ⟨g', List.mem_cons_of_mem _ hg', hf⟩

theorem Form.Held.open {n : Nat} (h : f.Held levels items) :
    f.Held ((n, items) :: levels) [] := by
  rcases h with h | ⟨level, hlevel, h⟩
  · exact .inr ⟨_, List.mem_cons_self, h⟩
  · exact .inr ⟨level, List.mem_cons_of_mem _ hlevel, h⟩

theorem Form.Held.close {n m : Nat} (h : f.Held ((n, outer) :: levels) items) :
    f.Held levels (.group m items.reverse closing :: outer) := by
  rcases h with ⟨g, hg, hf⟩ | ⟨level, hlevel, h⟩
  · exact .inl ⟨_, List.mem_cons_self, .item (List.mem_reverse.2 hg) hf⟩
  · rcases List.mem_cons.1 hlevel with rfl | hlevel
    · exact Form.Held.cons (.inl h)
    · exact .inr ⟨level, hlevel, h⟩

theorem exists_within_unwind (h : f.Held levels items) :
    ∃ g ∈ Form.unwind items levels, f.Within g := by
  induction levels generalizing items with
  | nil =>
    rcases h with ⟨g, hg, hf⟩ | ⟨level, hlevel, -⟩
    · exact ⟨g, List.mem_reverse.2 hg, hf⟩
    · cases hlevel
  | cons level levels ih => exact ih h.close

theorem exists_within_build (ts : List Token) (h : f.Held levels items) :
    ∃ g ∈ Form.build levels items ts, f.Within g := by
  fun_induction Form.build levels items ts with
  | case1 levels items => exact exists_within_unwind h
  | case2 levels items n rest ih => exact ih h.open
  | case3 items n rest ih => exact ih h.cons
  | case4 items n rest start outer levels ih => exact ih h.close
  | case5 levels items l n rest _ _ ih => exact ih h.cons

/-- A whole form among the elements of a text is a part of the forms that they are grouped to. -/
theorem exists_within_of_whole (hf : f.Whole) (before after : List Token) :
    ∃ g ∈ Form.build levels items (before ++ (f.tokens ++ after)), f.Within g := by
  induction before generalizing levels items with
  | nil =>
    rw [List.nil_append, Form.build_tokens hf]
    exact exists_within_build after (.inl ⟨f, List.mem_cons_self, .self⟩)
  | cons t before ih =>
    obtain ⟨l, n⟩ := t
    cases l with
    | close => cases levels <;> exact ih
    | _ => exact ih

theorem exists_of_arguments {declared : List SlotDescriptor} {position : Nat}
    {slots slots' : Slots Content} (hf : f.category = .compound) (hmem : f ∈ fs)
    (h : arguments o finish type declared closing position slots fs = .ok slots') :
    ∃ e c, expression o finish e f = .ok c := by
  induction fs using Form.induction_arguments generalizing position slots with
  | nil => cases hmem
  | lone name m => cases h
  | named name m v rest ih =>
    obtain ⟨c, hc, hrest⟩ := arguments_keyword_eq_ok.1 h
    rcases List.mem_cons.1 hmem with rfl | hmem
    · cases hf
    · rcases List.mem_cons.1 hmem with rfl | hmem
      · exact ⟨_, c, hc⟩
      · exact ih hmem hrest
  | bare v rest hv ih =>
    obtain ⟨d, c, -, hc, hrest⟩ := (arguments_bare_eq_ok hv).1 h
    rcases List.mem_cons.1 hmem with rfl | hmem
    · exact ⟨_, c, hc⟩
    · exact ih hmem hrest

/-- In a form that says something, so does every group. -/
theorem exists_of_within (hw : f.Within g) (hf : f.category = .compound)
    (h : ∃ e c, expression o finish e g = .ok c) : ∃ e c, expression o finish e f = .ok c := by
  induction hw with
  | self => exact h
  | @item g n items closing hg hw ih =>
    refine ih ?_
    have hcompound := hw.compound hf
    obtain ⟨e, c, hc⟩ := h
    obtain ⟨type, m, args, rfl, hread⟩ := group_cases hc
    have hargs : g ∈ args := by
      rcases List.mem_cons.1 hg with rfl | hg
      · cases hcompound
      · exact hg
    obtain ⟨elements, -, hterms, -⟩ | ⟨v, p, k, referent, proposition, -, rfl, -, hv, hp, -⟩ |
      ⟨declared, slots, -, -, hslots, -⟩ := hread
    · obtain ⟨d, -, hd⟩ := exists_of_forall₂_left (terms_eq_ok_iff.1 hterms).2 hargs
      exact ⟨_, d, hd⟩
    · simp only [List.mem_cons, List.not_mem_nil, or_false] at hargs
      rcases hargs with rfl | rfl
      · exact ⟨_, _, hv⟩
      · exact ⟨_, _, hp⟩
    · exact exists_of_arguments hcompound hargs hslots

theorem exists_of_contentOf {c : Content} (h : contentOf o finish fs = .ok c) (hg : g ∈ fs)
    (hw : f.Within g) (hf : f.category = .compound) :
    (∃ e c, expression o finish e f = .ok c) ∨
      ∃ n items closing cs, f = .group n items closing ∧
        elements o finish closing items = .ok cs := by
  unfold contentOf at h
  split at h
  · cases h
  · cases h
  · rename_i n items closing rest
    split at h
    · cases h
    · rename_i cs hcs
      split at h
      · cases h
      · cases List.mem_singleton.1 hg
        cases hw with
        | self => exact .inr ⟨n, items, closing, cs, rfl, hcs⟩
        | item hg hw =>
          obtain ⟨d, -, -, hd⟩ := exists_of_forall₂_left (elements_eq_ok_iff.1 hcs).2 hg
          exact .inl (exists_of_within hw hf ⟨_, d, hd⟩)

end

/-! ## Texts -/

section

variable {o : Ontology} {text : String} {f g : Form} {before after : List Lexeme} {c : Content}

/-- What a text says, by its elements alone. -/
theorem decode_eq_ok_iff {ts : List Token} (h : Spelt text (lexemes ts)) (finish : Nat) :
    decode o text = .ok c ↔ contentOf o finish (Form.ofTokens ts) = .ok c := by
  obtain ⟨us, hscan, hus⟩ := h
  have hread : decode o text = .ok c ↔
      contentOf o (byteSize text.toList) (Form.ofTokens us) = .ok c := by
    rw [decode, decodeChars_eq_ok_iff, hscan]
    simp
  exact hread.trans (contentOf_congr (alike_build hus .nil .nil))

theorem lexemes_around (f : Form) (before after : List Lexeme) :
    lexemes (placeless before ++ (f.tokens ++ placeless after)) = before ++ f.lexemes ++ after := by
  rw [lexemes, List.map_append, List.map_append, List.append_assoc]
  exact congrArg₂ _ (lexemes_placeless before) (congrArg _ (lexemes_placeless after))

/-- Texts that differ in alike forms say the same. -/
theorem decode_congr (hf : f.Whole) (hg : g.Whole) (h : Alike o f g) {text' : String}
    (htext : Spelt text (before ++ f.lexemes ++ after))
    (htext' : Spelt text' (before ++ g.lexemes ++ after)) :
    decode o text = .ok c ↔ decode o text' = .ok c := by
  rw [← lexemes_around] at htext htext'
  rw [decode_eq_ok_iff htext 0, decode_eq_ok_iff htext' 0]
  refine contentOf_congr (alike_build_append rfl (fun hl hitems => ?_) .nil .nil)
  rw [Form.build_tokens hf, Form.build_tokens hg]
  exact alike_build rfl hl (.cons h hitems)

/-- In a text that says something, so does every group, unless it is the outer one. -/
theorem exists_of_decode (hf : f.Whole) (hcompound : f.category = .compound)
    (htext : Spelt text (before ++ f.lexemes ++ after)) (h : decode o text = .ok c) (finish : Nat) :
    (∃ e c, expression o finish e f = .ok c) ∨
      ∃ n items closing cs, f = .group n items closing ∧
        elements o finish closing items = .ok cs := by
  rw [← lexemes_around] at htext
  obtain ⟨g, hg, hw⟩ := exists_within_of_whole hf (placeless before) (placeless after)
  exact exists_of_contentOf ((decode_eq_ok_iff htext finish).1 h) hg hw hcompound

end

end Sl
end AgentContent
