import AgentContent.Proofs.Sl.Decode

/-!
# AgentContent.Proofs.Sl.Grammar

The grammar of the language, and that reading accepts just what it derives.

* `Derives`: the productions. The kind of a head decides which one its group follows; what a slot
  asks for is handed down to its value.
* `Sentence`: one compound expression or several of them in the outer parentheses.
* `derives_of_expression`: what is read of a form derives from its tokens.
* `exists_reads`: tokens that derive are those of a whole form that is read as their value.
* `decode_iff_sentence`: a text is read as its value, and is refused where there is none.
-/

namespace AgentContent
namespace Sl

/-! ## Productions -/

/-- What the grammar asks for: any expression, or one in parentheses. -/
inductive Category where
  | expression
  | compound

/-- Tokens in parentheses. Places in the text count for nothing. -/
def grouped (n : Nat) (ts : List Token) (k : Nat) : List Token :=
  ⟨.open, n⟩ :: (ts ++ [⟨.close, k⟩])

/-- An argument of a head: its keyword, if it has one, and the tokens of its value; the slot that it
fills and what that slot asks for. -/
structure Argument where
  keyword : List Token
  text : List Token
  slot : String
  expect : Expect
  value : Content

def Argument.tokens (a : Argument) : List Token :=
  a.keyword ++ a.text

/-- The arguments fill slots of a schema: those with a keyword the slot that it names, declared or
not, the others the declared slots in their order, from a position on. -/
inductive Placed (declared : List SlotDescriptor) : Nat → List Argument → Prop where
  | nil {position : Nat} : Placed declared position []
  | named {position m : Nat} {name : String} {text : List Token} {value : Content}
    {args : List Argument} (h : Placed declared position args) :
    Placed declared position
      (⟨[⟨.keyword name, m⟩], text, name, expectOfKeyword declared name, value⟩ :: args)
  | bare {position : Nat} {d : SlotDescriptor} {text : List Token} {value : Content}
    {args : List Argument} (hd : declared[position]? = some d)
    (h : Placed declared (position + 1) args) :
    Placed declared position (⟨[], text, d.name, .ofSlot d.type, value⟩ :: args)

/-- What the tokens say under an ontology, at a place that asks for something. -/
inductive Derives (o : Ontology) : Category → Expect → List Token → Content → Prop where
  | word {e : Expect} {n : Nat} (w : String) :
    Derives o .expression e [⟨.word w, n⟩] (.primitive (wordValue w))
  | quoted {e : Expect} {n : Nat} (s : String) :
    Derives o .expression e [⟨.quoted s, n⟩] (.ofString s)
  | variable {e : Expect} {n : Nat} (name : String) (isMeta : Bool) :
    Derives o .expression e [⟨.variable name isMeta, n⟩] (.freeVariable name isMeta)
  | bytes {e : Expect} {n : Nat} (bs : List UInt8) :
    Derives o .expression e [⟨.bytes bs, n⟩] (.ofBytes bs)
  | compound {e : Expect} {ts : List Token} {c : Content} (h : Derives o .compound e ts c) :
    Derives o .expression e ts c
  | aggregate {e : Expect} {n m k : Nat} {type : String} {parts : List (List Token × Content)}
    (hk : kindOf o type = some .aggregate)
    (hparts : ∀ p ∈ parts, Derives o .expression .term p.1 p.2) :
    Derives o .compound e (grouped n (⟨.word type, m⟩ :: parts.flatMap Prod.fst) k)
      (.aggregate type (parts.map Prod.snd) none)
  | ire {e : Expect} {n m k : Nat} {type : String} {ts us : List Token}
    {referent proposition : Content} (hk : kindOf o type = some .ire)
    (hr : Derives o .expression .term ts referent)
    (hp : Derives o .expression .proposition us proposition) :
    Derives o .compound e (grouped n (⟨.word type, m⟩ :: (ts ++ us)) k)
      (.ire type referent proposition)
  | slotted {e : Expect} {n m k : Nat} {type : String} {declared : List SlotDescriptor}
    {args : List Argument} (hk : kindOf o type ≠ some .aggregate ∧ kindOf o type ≠ some .ire)
    (hd : declaredSlots o (o.find? type) = .ok declared) (hplaced : Placed declared 0 args)
    (hargs : ∀ a ∈ args, Derives o .expression a.expect a.text a.value) :
    Derives o .compound e (grouped n (⟨.word type, m⟩ :: args.flatMap Argument.tokens) k)
      (.slotted (roleOf (kindOf o type) e) type
        (Slots.ofList (args.map fun a => (a.slot, a.value))))

/-- What all tokens of a text say: one content element, or several as a list. -/
inductive Sentence (o : Ontology) : List Token → Content → Prop where
  | one {n k : Nat} {ts : List Token} {c : Content} (h : Derives o .compound .proposition ts c) :
    Sentence o (grouped n ts k) c
  | many {n k : Nat} {parts : List (List Token × Content)} (hlen : 2 ≤ parts.length)
    (hparts : ∀ p ∈ parts, Derives o .compound .proposition p.1 p.2) :
    Sentence o (grouped n (parts.flatMap Prod.fst) k) (.list (parts.map Prod.snd))

/-- There are no more arguments without a keyword than slots. -/
theorem Placed.length_bare_le {declared : List SlotDescriptor} {position : Nat}
    {args : List Argument} (h : Placed declared position args)
    (hposition : position ≤ declared.length) :
    position + (args.filter fun a => a.keyword.isEmpty).length ≤ declared.length := by
  induction h with
  | nil => exact hposition
  | named h ih => exact ih hposition
  | bare hd h ih =>
    have hlt := (List.getElem?_eq_some_iff.1 hd).1
    have := ih hlt
    simp only [List.filter_cons, List.isEmpty_nil, if_true, List.length_cons]
    omega

theorem Derives.expression {o : Ontology} {g : Category} {e : Expect} {ts : List Token}
    {c : Content} (h : Derives o g e ts c) : Derives o .expression e ts c := by
  cases g with
  | expression => exact h
  | compound => exact .compound h

/-- The category of the expressions that are grouped as a form. -/
def Form.category : Form → Category
  | .atom _ _ => .expression
  | .group _ _ _ => .compound

theorem tokens_group (n : Nat) (items : List Form) (k : Nat) :
    (Form.group n items (some k)).tokens = grouped n (Form.tokensAll items) k := by
  rw [Form.tokens, Form.closeToken, grouped]

section

variable {o : Ontology} {finish : Nat} {type : String} {closing : Option Nat} {e : Expect}

/-! ## Rows of forms -/

theorem terms_eq_ok_iff {fs : List Form} {cs : List Content} :
    terms o finish closing fs = .ok cs ↔ (∃ k, closing = some k) ∧
      List.Forall₂ (fun f c => expression o finish .term f = .ok c) fs cs := by
  constructor
  · intro h
    induction fs generalizing cs with
    | nil =>
      simp only [terms] at h
      split at h
      · cases h
      · rename_i hclose
        cases h
        exact ⟨requireClose_eq_ok.1 hclose, .nil⟩
    | cons f fs ih =>
      simp only [terms] at h
      split at h
      · cases h
      · rename_i c hc
        split at h
        · cases h
        · rename_i cs hcs
          cases h
          obtain ⟨hclose, hall⟩ := ih hcs
          exact ⟨hclose, .cons hc hall⟩
  · rintro ⟨⟨k, rfl⟩, h⟩
    induction h with
    | nil => rfl
    | cons hf _ ih => simp only [terms, hf, ih]

theorem elements_eq_ok_iff {fs : List Form} {cs : List Content} :
    elements o finish closing fs = .ok cs ↔ (∃ k, closing = some k) ∧
      List.Forall₂ (fun f c => f.category = .compound ∧
        expression o finish .proposition f = .ok c) fs cs := by
  constructor
  · intro h
    induction fs generalizing cs with
    | nil =>
      simp only [elements] at h
      split at h
      · cases h
      · rename_i hclose
        cases h
        exact ⟨requireClose_eq_ok.1 hclose, .nil⟩
    | cons f fs ih =>
      cases f with
      | atom l n => cases h
      | group n items k =>
        simp only [elements] at h
        split at h
        · cases h
        · rename_i c hc
          split at h
          · cases h
          · rename_i cs hcs
            cases h
            obtain ⟨hclose, hall⟩ := ih hcs
            exact ⟨hclose, .cons ⟨rfl, hc⟩ hall⟩
  · rintro ⟨⟨k, rfl⟩, h⟩
    induction h with
    | nil => rfl
    | @cons f c fs cs hf _ ih =>
      obtain ⟨hcategory, hf⟩ := hf
      cases f with
      | atom l n => cases hcategory
      | group n items k => exact elements_cons ⟨n, items, k, rfl⟩ hf ih

/-- The tokens of forms in a row, each with what it is read as. -/
theorem exists_parts {R : Form → Content → Prop} {D : List Token → Content → Prop}
    {fs : List Form} {cs : List Content} (h : List.Forall₂ R fs cs)
    (hd : ∀ f ∈ fs, ∀ c, R f c → D f.tokens c) :
    ∃ parts : List (List Token × Content), Form.tokensAll fs = parts.flatMap Prod.fst ∧
      cs = parts.map Prod.snd ∧ ∀ p ∈ parts, D p.1 p.2 := by
  induction h with
  | nil => exact ⟨[], rfl, rfl, by simp⟩
  | @cons f c fs cs hf _ ih =>
    obtain ⟨parts, htokens, rfl, hall⟩ := ih fun g hg => hd g (List.mem_cons_of_mem _ hg)
    refine ⟨(f.tokens, c) :: parts, ?_, rfl,
      List.forall_mem_cons.2 ⟨hd f List.mem_cons_self c hf, hall⟩⟩
    rw [Form.tokensAll, htokens, List.flatMap_cons]

/-- Forms in a row for the tokens of all parts. -/
theorem exists_forms {R : Form → Content → Prop} {parts : List (List Token × Content)}
    (h : ∀ p ∈ parts, ∃ f : Form, f.tokens = p.1 ∧ f.Whole ∧ R f p.2) :
    ∃ fs, Form.tokensAll fs = parts.flatMap Prod.fst ∧ (∀ f ∈ fs, f.Whole) ∧
      List.Forall₂ R fs (parts.map Prod.snd) := by
  induction parts with
  | nil => exact ⟨[], rfl, by simp, .nil⟩
  | cons p parts ih =>
    obtain ⟨⟨f, htokens, hwhole, hf⟩, hrest⟩ := List.forall_mem_cons.1 h
    obtain ⟨fs, hall, hwholes, hfs⟩ := ih hrest
    refine ⟨f :: fs, ?_, List.forall_mem_cons.2 ⟨hwhole, hwholes⟩, .cons hf hfs⟩
    rw [Form.tokensAll, htokens, hall, List.flatMap_cons]

/-! ## What is read derives -/

theorem derives_of_content? {l : Lexeme} {n : Nat} {c : Content} (h : l.content? = some c) :
    Derives o .expression e [⟨l, n⟩] c := by
  cases l with
  | word w => cases h; exact .word w
  | quoted s => cases h; exact .quoted s
  | «variable» name isMeta => cases h; exact .variable name isMeta
  | bytes bs => cases h; exact .bytes bs
  | keyword name => cases h
  | «open» => cases h
  | close => cases h

/-- What is read of the form derives from its tokens, at any place. -/
def Form.Derived (o : Ontology) (finish : Nat) (f : Form) : Prop :=
  ∀ e c, expression o finish e f = .ok c → Derives o f.category e f.tokens c

theorem exists_placed {declared : List SlotDescriptor} {fs : List Form} {position : Nat}
    {slots slots' : Slots Content} (hf : ∀ f ∈ fs, f.Derived o finish)
    (h : arguments o finish type declared closing position slots fs = .ok slots') :
    ∃ args, (∃ k, closing = some k) ∧ Form.tokensAll fs = args.flatMap Argument.tokens ∧
      Placed declared position args ∧
        (∀ a ∈ args, Derives o .expression a.expect a.text a.value) ∧
          slots' = (args.map fun a => (a.slot, a.value)).foldl
            (fun slots s => Slots.insert s.1 s.2 slots) slots := by
  induction fs using Form.induction_arguments generalizing position slots with
  | nil =>
    obtain ⟨hclose, rfl⟩ := arguments_nil_eq_ok.1 h
    exact ⟨[], hclose, rfl, .nil, List.forall_mem_nil _, rfl⟩
  | lone name m => cases h
  | named name m v rest ih =>
    obtain ⟨c, hc, hrest⟩ := arguments_keyword_eq_ok.1 h
    have hv := (hf v (by simp) _ c hc).expression
    obtain ⟨args, hclose, htokens, hplaced, hargs, rfl⟩ :=
      ih (fun f hm => hf f (by simp [hm])) hrest
    refine ⟨⟨[⟨.keyword name, m⟩], v.tokens, name, expectOfKeyword declared name, c⟩ :: args,
      hclose, ?_, .named hplaced, List.forall_mem_cons.2 ⟨hv, hargs⟩, rfl⟩
    simp only [Form.tokensAll, Form.tokens, htokens, List.flatMap_cons, Argument.tokens,
      List.append_assoc]
  | bare f rest hkeyword ih =>
    obtain ⟨d, c, hd, hc, hrest⟩ := (arguments_bare_eq_ok hkeyword).1 h
    have hfc := (hf f List.mem_cons_self _ c hc).expression
    obtain ⟨args, hclose, htokens, hplaced, hargs, rfl⟩ :=
      ih (fun f hm => hf f (List.mem_cons_of_mem _ hm)) hrest
    refine ⟨⟨[], f.tokens, d.name, .ofSlot d.type, c⟩ :: args, hclose, ?_,
      .bare hd hplaced, List.forall_mem_cons.2 ⟨hfc, hargs⟩, rfl⟩
    simp only [Form.tokensAll, htokens, List.flatMap_cons, Argument.tokens, List.nil_append]

theorem derives_of_expression (o : Ontology) (finish : Nat) (f : Form) : f.Derived o finish := by
  induction f using Form.induction with
  | atom l n =>
    intro e c h
    rw [expression_atom_eq_ok] at h
    exact derives_of_content? h
  | group n items closing ih =>
    intro e c h
    obtain ⟨type, m, args, rfl, ⟨elements, hk, hterms, rfl⟩ |
      ⟨v, p, k, referent, proposition, hk, rfl, rfl, hv, hp, rfl⟩ |
      ⟨declared, slots, hk, hd, hslots, rfl⟩⟩ := group_cases h
    · obtain ⟨⟨k, rfl⟩, hall⟩ := terms_eq_ok_iff.1 hterms
      obtain ⟨parts, htokens, rfl, hparts⟩ := exists_parts (D := Derives o .expression .term) hall
        fun f hf c hc => (ih f (List.mem_cons_of_mem _ hf) _ c hc).expression
      rw [tokens_group, Form.tokensAll, Form.tokens, htokens]
      exact .aggregate hk hparts
    · rw [tokens_group]
      simp only [Form.tokensAll, List.append_nil, Form.tokens, List.singleton_append]
      exact .ire hk (ih v (by simp) _ _ hv).expression (ih p (by simp) _ _ hp).expression
    · obtain ⟨args', ⟨k, rfl⟩, htokens, hplaced, hargs, rfl⟩ :=
        exists_placed (fun f hf => ih f (List.mem_cons_of_mem _ hf)) hslots
      rw [tokens_group, Form.tokensAll, Form.tokens, htokens]
      exact .slotted hk hd hplaced hargs

/-! ## What derives is read -/

/-- The form has the tokens and is read as the content, wherever the text ends. -/
structure Reads (o : Ontology) (e : Expect) (ts : List Token) (c : Content) (f : Form) : Prop where
  tokens : f.tokens = ts
  whole : f.Whole
  value : ∀ finish, expression o finish e f = .ok c

theorem reads_atom {l : Lexeme} {n : Nat} {c : Content} (h : l.content? = some c) :
    Reads o e [⟨l, n⟩] c (.atom l n) where
  tokens := by rw [Form.tokens]
  whole := .atom (by constructor <;> (rintro rfl; cases h))
  value finish := expression_atom_eq_ok.2 h

theorem exists_arguments (type : String) {declared : List SlotDescriptor} {position : Nat}
    {args : List Argument} (hplaced : Placed declared position args)
    (h : ∀ a ∈ args, ∃ f, Reads o a.expect a.text a.value f) :
    ∃ fs, Form.tokensAll fs = args.flatMap Argument.tokens ∧ (∀ f ∈ fs, f.Whole) ∧
      ∀ finish k slots, arguments o finish type declared (some k) position slots fs =
        .ok ((args.map fun a => (a.slot, a.value)).foldl
          (fun slots s => Slots.insert s.1 s.2 slots) slots) := by
  induction hplaced with
  | nil => exact ⟨[], rfl, by simp, fun finish k slots => rfl⟩
  | @named position m name text value args _ ih =>
    obtain ⟨⟨f, hf⟩, hrest⟩ := List.forall_mem_cons.1 h
    obtain ⟨fs, htokens, hwhole, hfs⟩ := ih hrest
    refine ⟨.atom (.keyword name) m :: f :: fs, ?_, ?_, fun finish k slots => ?_⟩
    · simp only [Form.tokensAll, Form.tokens, hf.tokens, htokens, List.flatMap_cons,
        Argument.tokens, List.append_assoc]
    · exact List.forall_mem_cons.2 ⟨.atom (by simp), List.forall_mem_cons.2 ⟨hf.whole, hwhole⟩⟩
    · rw [arguments_named (hf.value finish), hfs, List.map_cons, List.foldl_cons]
  | @bare position d text value args hd _ ih =>
    obtain ⟨⟨f, hf⟩, hrest⟩ := List.forall_mem_cons.1 h
    obtain ⟨fs, htokens, hwhole, hfs⟩ := ih hrest
    refine ⟨f :: fs, ?_, List.forall_mem_cons.2 ⟨hf.whole, hwhole⟩, fun finish k slots => ?_⟩
    · simp only [Form.tokensAll, hf.tokens, htokens, List.flatMap_cons, Argument.tokens,
        List.nil_append]
    · rw [arguments_positional hd (hf.value finish), hfs, List.map_cons, List.foldl_cons]

/-- A group of a head and other forms. -/
theorem reads_group {n m k : Nat} {fs : List Form} {ts : List Token} {c : Content}
    (htokens : Form.tokensAll fs = ts) (hwhole : ∀ f ∈ fs, f.Whole)
    (h : ∀ finish, expression o finish e
      (.group n (.atom (.word type) m :: fs) (some k)) = .ok c) :
    Reads o e (grouped n (⟨.word type, m⟩ :: ts) k) c
      (.group n (.atom (.word type) m :: fs) (some k)) where
  tokens := by rw [tokens_group, Form.tokensAll, Form.tokens, htokens]; rfl
  whole := .group (List.forall_mem_cons.2 ⟨.atom (by simp), hwhole⟩)
  value := h

theorem exists_reads {g : Category} {ts : List Token} {c : Content} (h : Derives o g e ts c) :
    ∃ f, Reads o e ts c f ∧ (g = .compound → f.category = .compound) := by
  induction h with
  | word w => exact ⟨_, reads_atom rfl, fun h => by cases h⟩
  | quoted s => exact ⟨_, reads_atom rfl, fun h => by cases h⟩
  | «variable» name isMeta => exact ⟨_, reads_atom rfl, fun h => by cases h⟩
  | bytes bs => exact ⟨_, reads_atom rfl, fun h => by cases h⟩
  | compound _ ih =>
    obtain ⟨f, hf, -⟩ := ih
    exact ⟨f, hf, fun h => by cases h⟩
  | aggregate hk _ ih =>
    obtain ⟨fs, htokens, hwhole, hall⟩ :=
      exists_forms (R := fun f c => ∀ finish, expression o finish .term f = .ok c) fun p hp => by
        obtain ⟨f, hf, -⟩ := ih p hp
        exact ⟨f, hf.tokens, hf.whole, hf.value⟩
    refine ⟨_, reads_group htokens hwhole fun finish => ?_, fun _ => rfl⟩
    exact expression_aggregate hk (terms_eq_ok_iff.2 ⟨⟨_, rfl⟩, hall.imp fun _ _ h => h finish⟩)
  | @ire e n m k type ts us referent proposition hk _ _ ihr ihp =>
    obtain ⟨v, hv, -⟩ := ihr
    obtain ⟨p, hp, -⟩ := ihp
    have htokens : Form.tokensAll [v, p] = ts ++ us := by
      simp only [Form.tokensAll, hv.tokens, hp.tokens, List.append_nil]
    have hwhole : ∀ f ∈ [v, p], f.Whole :=
      List.forall_mem_cons.2 ⟨hv.whole, List.forall_mem_singleton.2 hp.whole⟩
    refine ⟨_, reads_group htokens hwhole fun finish => ?_, fun _ => rfl⟩
    exact expression_ire hk (hv.value finish) (hp.value finish)
  | @slotted e n m k type declared args hk hd hplaced _ ih =>
    obtain ⟨fs, htokens, hwhole, hfs⟩ := exists_arguments type hplaced fun a ha => by
      obtain ⟨f, hf, -⟩ := ih a ha
      exact ⟨f, hf⟩
    refine ⟨_, reads_group htokens hwhole fun finish => ?_, fun _ => rfl⟩
    exact expression_slotted hk hd (hfs finish k [])

/-! ## Whole texts -/

theorem sentence_of_contentOf {fs : List Form} {c : Content}
    (h : contentOf o finish fs = .ok c) : Sentence o (Form.tokensAll fs) c := by
  unfold contentOf at h
  split at h
  · cases h
  · cases h
  · rename_i n items closing rest
    split at h
    · cases h
    · rename_i cs hcs
      obtain ⟨⟨k, rfl⟩, hall⟩ := elements_eq_ok_iff.1 hcs
      obtain ⟨parts, htokens, rfl, hparts⟩ :=
        exists_parts (D := Derives o .compound .proposition) hall fun f _ c hf => by
          rw [← hf.1]
          exact derives_of_expression o finish f _ c hf.2
      split at h
      · cases h
      · rw [Form.tokensAll, Form.tokensAll, List.append_nil, tokens_group, htokens]
        cases parts with
        | nil => cases h
        | cons p parts =>
          cases parts with
          | nil =>
            cases h
            rw [List.flatMap_singleton]
            exact .one (hparts p (List.mem_singleton_self p))
          | cons q parts =>
            cases h
            exact .many (by simp) hparts

theorem contentOf_of_derives {n k : Nat} {parts : List (List Token × Content)}
    (hparts : ∀ p ∈ parts, Derives o .compound .proposition p.1 p.2) :
    ∃ items, Form.ofTokens (grouped n (parts.flatMap Prod.fst) k) = [.group n items (some k)] ∧
      ∀ finish, elements o finish (some k) items = .ok (parts.map Prod.snd) := by
  obtain ⟨fs, htokens, hwhole, hall⟩ :=
    exists_forms (R := fun f c => ∀ finish, f.category = .compound ∧
      expression o finish .proposition f = .ok c) fun p hp => by
        obtain ⟨f, hf, hcategory⟩ := exists_reads (hparts p hp)
        exact ⟨f, hf.tokens, hf.whole, fun finish => ⟨hcategory rfl, hf.value finish⟩⟩
  refine ⟨fs, ?_, fun finish => elements_eq_ok_iff.2 ⟨⟨k, rfl⟩, hall.imp fun _ _ h => h finish⟩⟩
  rw [← htokens, ← tokens_group]
  exact Form.ofTokens_tokens (.group hwhole)

theorem contentOf_of_sentence {ts : List Token} {c : Content} (h : Sentence o ts c) :
    contentOf o finish (Form.ofTokens ts) = .ok c := by
  cases h with
  | @one n k ts c h =>
    have hone : ∀ p ∈ [(ts, c)], Derives o .compound .proposition p.1 p.2 :=
      List.forall_mem_singleton.2 h
    obtain ⟨items, hforms, helements⟩ := contentOf_of_derives (n := n) (k := k) hone
    rw [List.flatMap_singleton] at hforms
    rw [hforms]
    simp only [contentOf, helements, List.map_cons, List.map_nil]
  | @many n k parts hlen hparts =>
    obtain ⟨items, hforms, helements⟩ := contentOf_of_derives (n := n) (k := k) hparts
    rw [hforms]
    cases parts with
    | nil => simp at hlen
    | cons p parts =>
      cases parts with
      | nil => simp at hlen
      | cons q parts => simp only [contentOf, helements, List.map_cons]

theorem contentOf_eq_ok_iff {ts : List Token} {c : Content} :
    contentOf o finish (Form.ofTokens ts) = .ok c ↔ Sentence o ts c := by
  refine ⟨fun h => ?_, contentOf_of_sentence⟩
  have hsentence := sentence_of_contentOf h
  rwa [Form.tokensAll_ofTokens] at hsentence

end

/-- Tokens say one thing at most. -/
theorem Sentence.unique {o : Ontology} {ts : List Token} {c d : Content} (hc : Sentence o ts c)
    (hd : Sentence o ts d) : c = d := by
  have hread : contentOf o 0 (Form.ofTokens ts) = .ok c := contentOf_of_sentence hc
  rw [contentOf_of_sentence hd] at hread
  exact (Except.ok.inj hread).symm

/-- A text of lexical elements is read as just what the grammar derives from them, which is one
thing at most, and is refused when that is nothing. -/
theorem decode_iff_sentence (o : Ontology) {text : String} {tokens : List Token}
    (hscan : Token.scan text.toList = .ok tokens) :
    (∀ c, decode o text = .ok c ↔ Sentence o tokens c) ∧
      (∀ c d, Sentence o tokens c → Sentence o tokens d → c = d) ∧
        ((∃ e, decode o text = .error (.reported e)) ↔ ∀ c, ¬ Sentence o tokens c) := by
  have hread : ∀ finish c, contentOf o finish (Form.ofTokens tokens) = .ok c ↔ Sentence o tokens c :=
    fun _ _ => contentOf_eq_ok_iff
  rw [decode, decodeChars_of_scan hscan]
  simp only [← hread (byteSize text.toList)]
  refine ⟨fun c => ?_, fun c d hc hd => Except.ok.inj (hc.symm.trans hd), ?_⟩
  all_goals cases contentOf o (byteSize text.toList) (Form.ofTokens tokens) <;> simp [Except.mapError]

/-- Two content elements with their tokens in a text. -/
def askedParts : List (List Token × Content) :=
  [(grouped 1 (⟨.word "q", 2⟩ :: [⟨.keyword "a", 4⟩, ⟨.variable "x" false, 7⟩]) 9,
      .slotted .predicate "q" [("a", .freeVariable "x" false)]),
    (grouped 11 (⟨.word "iota", 12⟩ :: ([⟨.variable "x" false, 17⟩] ++
        grouped 20 [⟨.word "p", 21⟩] 22)) 23,
      .ire "iota" (.freeVariable "x" false) (.slotted .predicate "p" []))]

theorem derives_askedParts :
    ∀ p ∈ askedParts, Derives descriptions .compound .proposition p.1 p.2 := by
  have hplaced : Placed [] 0 [⟨[⟨.keyword "a", 4⟩], [⟨.variable "x" false, 7⟩], "a", .term,
      .freeVariable "x" false⟩] := .named .nil
  have hnone : Placed [] 0 [] := .nil
  have hp : Derives descriptions .compound .proposition (grouped 20 [⟨.word "p", 21⟩] 22)
      (.slotted .predicate "p" []) :=
    .slotted ⟨by decide, by decide⟩ rfl hnone (List.forall_mem_nil _)
  refine List.forall_mem_cons.2 ⟨?_, List.forall_mem_singleton.2 ?_⟩
  · exact .slotted ⟨by decide, by decide⟩ rfl hplaced
      (List.forall_mem_singleton.2 (.variable "x" false))
  · exact .ire rfl (.variable "x" false) (.compound hp)

theorem decode_asked :
    Token.scan "((q :a ?x) (iota ?x (p)))".toList =
        .ok (grouped 0 (askedParts.flatMap Prod.fst) 24) ∧
      decode descriptions "((q :a ?x) (iota ?x (p)))" = .ok (.list (askedParts.map Prod.snd)) := by
  have hscan : Token.scan "((q :a ?x) (iota ?x (p)))".toList =
      .ok (grouped 0 (askedParts.flatMap Prod.fst) 24) := by
    rw [scan_eq_scanWithin 40 (by decide)]
    rfl
  exact ⟨hscan, ((decode_iff_sentence descriptions hscan).1 _).2
    (.many (by decide) derives_askedParts)⟩

end Sl
end AgentContent
