import AgentContent.Proofs.Sl.Decode

/-!
# AgentContent.Proofs.Sl.Offset

Reading a text always ends, and where it finds a fault it points into the text, unless the text asks
for more room than there can be.

* `Leaves`: what is left of a text behind blanks and whole elements, and the byte at which it
  starts.
* `StartsAt`: the byte is that of the first character of an element, be it whole or broken.
* `Overruns`: scanning comes to a byte sequence that announces such a length.
* `scanFrom_places`: the elements of a text start where they are said to, one behind the other.
* `points_of_expression`, `points_of_contentOf`: faults in forms are seen at the end of the text or
  at one of its elements.
* `decode_points`: what reading a text gives.
-/

namespace AgentContent
namespace Sl

/-! ## Bytes -/

theorem byteSize_ofList (cs : List Char) : byteSize cs = (String.ofList cs).utf8ByteSize := by
  induction cs with
  | nil => rfl
  | cons c cs ih =>
    have hcons : String.ofList (c :: cs) = String.singleton c ++ String.ofList cs := by
      rw [String.singleton_eq_ofList, ← String.ofList_append]
      rfl
    rw [byteSize, ih, hcons, String.utf8ByteSize_append, String.utf8ByteSize_singleton]

theorem byteSize_toList (text : String) : byteSize text.toList = text.utf8ByteSize := by
  rw [byteSize_ofList, String.ofList_toList]

theorem byteSize_le_of_suffix {cs rest : List Char} (h : rest <:+ cs) :
    byteSize rest ≤ byteSize cs := by
  obtain ⟨before, rfl⟩ := h
  rw [byteSize_append]
  omega

/-! ## What is left behind an element -/

theorem readQuoted_suffix {cs text rest : List Char} (h : readQuoted cs = some (text, rest)) :
    rest <:+ cs := by
  fun_induction readQuoted cs generalizing text with
  | case1 => cases h
  | case2 r =>
    cases h
    exact List.suffix_cons _ _
  | case3 => cases h
  | case4 c r t r' hr ih =>
    cases h
    exact (ih hr).trans ((List.suffix_cons _ _).trans (List.suffix_cons _ _))
  | case5 => cases h
  | case6 => cases h
  | case7 c r t r' _ _ _ hr ih =>
    cases h
    exact (ih hr).trans (List.suffix_cons _ _)

theorem readBytes_suffix {cs rest : List Char} {bytes : List UInt8}
    (h : readBytes cs = .ok (bytes, rest)) : rest <:+ cs := by
  obtain ⟨behind, length, hbehind, -, -, rfl⟩ := readBytes_eq_ok h
  have hquote : '"' :: behind <:+ cs := hbehind ▸ List.dropWhile_suffix _
  exact (List.drop_suffix _ _).trans ((List.suffix_cons _ _).trans hquote)

theorem splitMeta_suffix (cs : List Char) : (splitMeta cs).2 <:+ cs := by
  unfold splitMeta
  split
  · exact List.suffix_cons _ _
  · exact List.suffix_refl _

theorem afterWord_suffix (cs : List Char) : afterWord cs <:+ cs :=
  List.dropWhile_suffix _

theorem readLexeme_suffix {c : Char} {cs rest : List Char} {l : Lexeme}
    (h : readLexeme c cs = .ok (l, rest)) : rest <:+ cs := by
  unfold readLexeme at h
  split at h
  · cases h
    exact List.suffix_refl _
  · cases h
    exact List.suffix_refl _
  · split at h
    · cases h
    · rename_i hquoted
      cases h
      exact readQuoted_suffix hquoted
  · split at h
    · cases h
    · rename_i hbytes
      cases h
      exact readBytes_suffix hbytes
  · simp only at h
    split at h
    · cases h
    · cases h
      exact (afterWord_suffix _).trans (splitMeta_suffix cs)
  · split at h
    · cases h
    · cases h
      exact afterWord_suffix cs
  · cases h
    exact afterWord_suffix cs

/-- Every element takes a byte at least. -/
theorem byteSize_lt_of_readLexeme {c : Char} {cs rest : List Char} {l : Lexeme}
    (h : readLexeme c cs = .ok (l, rest)) : byteSize rest < byteSize (c :: cs) := by
  have hsuffix := byteSize_le_of_suffix (readLexeme_suffix h)
  have hpos := c.utf8Size_pos
  rw [byteSize]
  omega

/-! ## Places -/

/-- Behind so many bytes of a text, all of them blanks and whole elements, this is left of it. -/
inductive Leaves (text : List Char) : Nat → List Char → Prop where
  | start : Leaves text 0 text
  | blank {n : Nat} {c : Char} {rest : List Char} (h : Leaves text n (c :: rest))
    (hc : isBlank c = true) : Leaves text (n + c.utf8Size) rest
  | element {n : Nat} {c : Char} {rest after : List Char} {l : Lexeme}
    (h : Leaves text n (c :: rest)) (hc : isBlank c = false)
    (hl : readLexeme c rest = .ok (l, after)) :
    Leaves text (n + (byteSize (c :: rest) - byteSize after)) after

/-- The first character of an element stands at the byte. -/
def StartsAt (text : List Char) (n : Nat) : Prop :=
  ∃ c rest, Leaves text n (c :: rest) ∧ isBlank c = false

/-- The element stands in the text at its place. -/
def Stands (text : List Char) (t : Token) : Prop :=
  ∃ c rest after, Leaves text t.offset (c :: rest) ∧ isBlank c = false ∧
    readLexeme c rest = .ok (t.lexeme, after)

theorem Stands.startsAt {text : List Char} {t : Token} (h : Stands text t) :
    StartsAt text t.offset := by
  obtain ⟨c, rest, _, hleft, hc, -⟩ := h
  exact ⟨c, rest, hleft, hc⟩

section

variable {text cs : List Char} {n : Nat}

/-- Places are boundaries of characters. -/
theorem Leaves.exists_before (h : Leaves text n cs) :
    ∃ before, text = before ++ cs ∧ byteSize before = n := by
  induction h with
  | start => exact ⟨[], rfl, rfl⟩
  | @blank n c rest _ _ ih =>
    obtain ⟨before, rfl, hsize⟩ := ih
    refine ⟨before ++ [c], by simp, ?_⟩
    rw [byteSize_append, hsize, byteSize, byteSize, Nat.add_zero]
  | @element n c rest after l _ _ hl ih =>
    obtain ⟨before, rfl, hsize⟩ := ih
    obtain ⟨taken, rfl⟩ := readLexeme_suffix hl
    refine ⟨before ++ c :: taken, by simp, ?_⟩
    have htaken : byteSize (c :: (taken ++ after)) = byteSize (c :: taken) + byteSize after := by
      rw [← List.cons_append, byteSize_append]
    rw [byteSize_append, hsize, htaken, Nat.add_sub_cancel]

theorem Leaves.skip (h : Leaves text n cs) :
    Leaves text (n + byteSize (cs.takeWhile isBlank)) (cs.dropWhile isBlank) := by
  induction cs generalizing n with
  | nil => exact h
  | cons c rest ih =>
    cases hc : isBlank c with
    | true =>
      rw [List.takeWhile_cons_of_pos hc, List.dropWhile_cons_of_pos hc, byteSize, ← Nat.add_assoc]
      exact ih (h.blank hc)
    | false =>
      rw [List.takeWhile_cons_of_neg (by simp [hc]), List.dropWhile_cons_of_neg (by simp [hc])]
      exact h

theorem StartsAt.lt (h : StartsAt text n) : n < byteSize text := by
  obtain ⟨c, rest, hleft, -⟩ := h
  obtain ⟨before, rfl, rfl⟩ := hleft.exists_before
  have hpos := c.utf8Size_pos
  rw [byteSize_append, byteSize]
  omega

/-- Scanning a text comes to what is left of it, whatever that is. -/
theorem Leaves.scanFrom (h : Leaves text n cs) :
    ∃ before, Sl.scanFrom 0 text = (Sl.scanFrom n cs).map (before ++ ·) := by
  induction h with
  | start => exact ⟨[], by cases Sl.scanFrom 0 text <;> rfl⟩
  | @blank n c rest _ hc ih =>
    obtain ⟨before, hscan⟩ := ih
    exact ⟨before, by rw [hscan, scanFrom_blank hc]⟩
  | @element n c rest after l _ hc hl ih =>
    obtain ⟨before, hscan⟩ := ih
    refine ⟨before ++ [⟨l, n⟩], ?_⟩
    rw [hscan, scanFrom_element hc hl]
    cases Sl.scanFrom (n + (byteSize (c :: rest) - byteSize after)) after with
    | error e => rfl
    | ok tokens => exact congrArg Except.ok (by simp)

/-! ## Lengths beyond all memory -/

/-- The length is more than there can be room for, although 64 bits hold it. -/
def Excessive (length : Nat) : Prop :=
  maxCapacity < length ∧ length < 0x10000000000000000

theorem readBytes_overflow_iff : readBytes cs = .error .capacityOverflow ↔
    ∃ digits behind, cs = digits ++ '"' :: behind ∧ (∀ c ∈ digits, c.isDigit = true) ∧
      Excessive (natOfDigits digits) := by
  constructor
  · intro h
    simp only [readBytes] at h
    split at h
    · cases h
    · split at h
      · cases h
      · rename_i hword
        split at h
        · rename_i behind hbehind
          split at h
          · rename_i hlength
            refine ⟨cs.takeWhile Char.isDigit, behind, ?_, fun c hc => ?_, hlength,
              Nat.lt_of_not_le hword⟩
            · rw [← hbehind, List.takeWhile_append_dropWhile]
            · exact List.all_eq_true.1 List.all_takeWhile c hc
          · split at h
            · cases h
            · split at h <;> cases h
        · cases h
  · rintro ⟨digits, behind, rfl, hdigits, hlength, hword⟩
    have hstop : Stops Char.isDigit ('"' :: behind) := Stops.cons (by decide)
    have hne : digits.isEmpty = false := by
      cases digits with
      | nil => exact absurd hlength (Nat.not_lt_zero _)
      | cons c rest => rfl
    simp only [readBytes]
    rw [takeWhile_append_stop hdigits hstop, dropWhile_append_stop hdigits hstop]
    simp [hne, Nat.not_le.2 hword, hlength]

theorem readLexeme_overflow_iff {c : Char} : readLexeme c cs = .error .capacityOverflow ↔
    c = '#' ∧ readBytes cs = .error .capacityOverflow := by
  constructor
  · intro h
    unfold readLexeme at h
    split at h
    · cases h
    · cases h
    · split at h <;> cases h
    · split at h
      · rename_i hbytes
        cases h
        exact ⟨rfl, hbytes⟩
      · cases h
    · simp only at h
      split at h <;> cases h
    · split at h <;> cases h
    · cases h
  · rintro ⟨rfl, h⟩
    simp only [readLexeme, h]

/-- Reading the text comes to a byte sequence with the quote behind its length, and with a length
that is more than there can be room for. -/
def Overruns (text : List Char) : Prop :=
  ∃ n digits behind, Leaves text n ('#' :: (digits ++ '"' :: behind)) ∧
    (∀ c ∈ digits, c.isDigit = true) ∧ Excessive (natOfDigits digits)

theorem Overruns.scan (h : Overruns text) : Token.scan text = .error .capacityOverflow := by
  obtain ⟨n, digits, behind, hleft, hdigits, hlength⟩ := h
  obtain ⟨before, hscan⟩ := hleft.scanFrom
  have hblank : isBlank '#' = false := by decide
  have hread : readLexeme '#' (digits ++ '"' :: behind) = .error .capacityOverflow :=
    readLexeme_overflow_iff.2 ⟨rfl, readBytes_overflow_iff.2 ⟨digits, behind, rfl, hdigits, hlength⟩⟩
  rw [Token.scan, hscan, scanFrom_eq, List.dropWhile_cons_of_neg (by simp [hblank])]
  simp only [hread]
  rfl

/-! ## Elements in a text -/

/-- The elements of what is left of a text stand in the text, one behind the other; a fault is seen
at the element that is broken, and nothing but an excessive length ends the scan without either. -/
theorem scanFrom_places (h : Leaves text n cs) :
    (∀ e, scanFrom n cs = .error (.reported e) → StartsAt text e.offset) ∧
      (scanFrom n cs = .error .capacityOverflow → Overruns text) ∧
      ∀ tokens, scanFrom n cs = .ok tokens → (∀ t ∈ tokens, n ≤ t.offset ∧ Stands text t) ∧
        tokens.Pairwise fun a b => a.offset < b.offset := by
  induction hlen : cs.length using Nat.strongRecOn generalizing n cs with
  | ind len ih =>
    have hskip := h.skip
    rw [scanFrom_eq]
    cases hc : cs.dropWhile isBlank with
    | nil =>
      refine ⟨fun e he => (by cases he), fun he => (by cases he), fun tokens ht => ?_⟩
      cases ht
      exact ⟨List.forall_mem_nil _, .nil⟩
    | cons c rest =>
      rw [hc] at hskip
      have hnotBlank := isBlank_of_dropWhile hc
      simp only
      cases hl : readLexeme c rest with
      | error failure =>
        cases failure with
        | reported fault =>
          refine ⟨fun e he => ?_, fun he => (by cases he), fun tokens ht => by cases ht⟩
          cases he
          exact ⟨c, rest, hskip, hnotBlank⟩
        | capacityOverflow =>
          refine ⟨fun e he => (by cases he), fun _ => ?_, fun tokens ht => by cases ht⟩
          obtain ⟨rfl, hbytes⟩ := readLexeme_overflow_iff.1 hl
          obtain ⟨digits, behind, rfl, hlength⟩ := readBytes_overflow_iff.1 hbytes
          exact ⟨_, digits, behind, hskip, hlength⟩
      | ok read =>
        obtain ⟨l, after⟩ := read
        have hlt := length_lt_of_readLexeme hc hl
        have htaken := byteSize_lt_of_readLexeme hl
        obtain ⟨herror, hoverflow, hok⟩ :=
          ih after.length (hlen ▸ hlt) (hskip.element hnotBlank hl) rfl
        simp only
        split
        · rename_i e he
          refine ⟨fun e' he' => ?_, fun he' => ?_, fun tokens ht => by cases ht⟩
          · cases he'
            exact herror _ he
          · cases he'
            exact hoverflow he
        · rename_i tokens htokens
          refine ⟨fun e he => (by cases he), fun he => (by cases he), fun tokens' ht => ?_⟩
          cases ht
          obtain ⟨hstands, hsorted⟩ := hok tokens htokens
          refine ⟨List.forall_mem_cons.2 ⟨⟨Nat.le_add_right _ _, c, rest, after, hskip, hnotBlank, hl⟩,
            fun t ht => ⟨by have := (hstands t ht).1; omega, (hstands t ht).2⟩⟩, ?_⟩
          refine List.pairwise_cons.2 ⟨fun t ht => ?_, hsorted⟩
          have := (hstands t ht).1
          show n + byteSize (cs.takeWhile isBlank) < t.offset
          omega

end

/-! ## Faults in forms -/

/-- The byte is the end of the text or the place of one of the elements. -/
def Points (finish : Nat) (ts : List Token) (n : Nat) : Prop :=
  n = finish ∨ ∃ t ∈ ts, t.offset = n

section

variable {o : Ontology} {finish n : Nat} {type : String} {closing : Option Nat} {err : ParseError}
  {ts us : List Token}

theorem Points.mono (h : Points finish ts n) (hsub : ts ⊆ us) : Points finish us n := by
  refine h.imp_right ?_
  rintro ⟨t, ht, hn⟩
  exact ⟨t, hsub ht, hn⟩

theorem points_missingExpression :
    Points finish (Form.closeToken closing) (missingExpression finish closing).offset := by
  cases closing with
  | none => exact .inl rfl
  | some k => exact .inr ⟨_, List.mem_singleton_self _, rfl⟩

theorem points_of_requireClose {fault : Fault} (h : requireClose finish closing fault = .error err) :
    Points finish ts err.offset := by
  cases closing with
  | none =>
    cases h
    exact .inl rfl
  | some k => cases h

/-- A form starts with its first element. -/
theorem points_offset (f : Form) : Points finish f.tokens f.offset := by
  cases f with
  | atom l n => exact .inr ⟨_, List.mem_singleton_self _, rfl⟩
  | group n items closing => exact .inr ⟨_, List.mem_cons_self, rfl⟩

/-- Whatever the place asks for, a fault in the form is seen at one of its elements or at the end of
the text. -/
def Form.Points (o : Ontology) (finish : Nat) (f : Form) : Prop :=
  ∀ e err, expression o finish e f = .error err → Sl.Points finish f.tokens err.offset

theorem points_of_terms {fs : List Form} (hf : ∀ f ∈ fs, f.Points o finish)
    (h : terms o finish closing fs = .error err) :
    Points finish (Form.tokensAll fs ++ Form.closeToken closing) err.offset := by
  induction fs with
  | nil =>
    rw [terms] at h
    split at h
    · rename_i hclose
      cases h
      exact points_of_requireClose hclose
    · cases h
  | cons f fs ih =>
    obtain ⟨hfirst, hrest⟩ := List.forall_mem_cons.1 hf
    rw [terms] at h
    rw [Form.tokensAll, List.append_assoc]
    split at h
    · rename_i herr
      cases h
      exact (hfirst _ _ herr).mono (List.subset_append_left _ _)
    · split at h
      · rename_i herr
        cases h
        exact (ih hrest herr).mono (List.subset_append_right _ _)
      · cases h

theorem points_of_elements {fs : List Form} (hf : ∀ f ∈ fs, f.Points o finish)
    (h : elements o finish closing fs = .error err) :
    Points finish (Form.tokensAll fs ++ Form.closeToken closing) err.offset := by
  induction fs with
  | nil =>
    rw [elements] at h
    split at h
    · rename_i hclose
      cases h
      exact points_of_requireClose hclose
    · cases h
  | cons f fs ih =>
    obtain ⟨hfirst, hrest⟩ := List.forall_mem_cons.1 hf
    rw [Form.tokensAll, List.append_assoc]
    cases f with
    | atom l n =>
      cases h
      exact (points_offset (.atom l n)).mono (List.subset_append_left _ _)
    | group n items k =>
      simp only [elements] at h
      split at h
      · rename_i herr
        cases h
        exact (hfirst _ _ herr).mono (List.subset_append_left _ _)
      · split at h
        · rename_i herr
          cases h
          exact (ih hrest herr).mono (List.subset_append_right _ _)
        · cases h

theorem points_of_arguments {declared : List SlotDescriptor} {fs : List Form} {position : Nat}
    {slots : Slots Content} (hf : ∀ f ∈ fs, f.Points o finish)
    (h : arguments o finish type declared closing position slots fs = .error err) :
    Points finish (Form.tokensAll fs ++ Form.closeToken closing) err.offset := by
  induction fs using Form.induction_arguments generalizing position slots with
  | nil =>
    rw [arguments] at h
    split at h
    · rename_i hclose
      cases h
      exact points_of_requireClose hclose
    · cases h
  | lone name m =>
    cases h
    exact points_missingExpression.mono (List.subset_append_right _ _)
  | named name m v rest ih =>
    rw [arguments] at h
    simp only [Form.tokensAll, List.append_assoc]
    split at h
    · rename_i herr
      cases h
      refine (hf v (by simp) _ _ herr).mono fun t ht => ?_
      simp [ht]
    · refine (ih (fun f hm => hf f (by simp [hm])) h).mono fun t ht => ?_
      rcases List.mem_append.1 ht with ht | ht
      · simp [ht]
      · simp [ht]
  | bare f rest hkeyword ih =>
    rw [arguments_bare hkeyword] at h
    rw [Form.tokensAll, List.append_assoc]
    split at h
    · cases h
      exact (points_offset f).mono (List.subset_append_left _ _)
    · split at h
      · rename_i herr
        cases h
        exact (hf f List.mem_cons_self _ _ herr).mono (List.subset_append_left _ _)
      · exact (ih (fun f hm => hf f (List.mem_cons_of_mem _ hm)) h).mono
          (List.subset_append_right _ _)

theorem Points.of_mem {items : List Form} {f : Form} (hf : f ∈ items)
    (h : Points finish f.tokens n) {start : Nat} :
    Points finish (Form.group start items closing).tokens n := by
  refine h.mono fun t ht => ?_
  rw [Form.tokens]
  exact List.mem_cons_of_mem _ (List.mem_append_left _ (tokens_subset_of_mem hf ht))

theorem Points.of_closing (h : Points finish (Form.closeToken closing) n) {start : Nat}
    {items : List Form} : Points finish (Form.group start items closing).tokens n := by
  refine h.mono fun t ht => ?_
  rw [Form.tokens]
  exact List.mem_cons_of_mem _ (List.mem_append_right _ ht)

theorem Points.of_args {args : List Form}
    (h : Points finish (Form.tokensAll args ++ Form.closeToken closing) n) {start : Nat}
    {head : Form} : Points finish (Form.group start (head :: args) closing).tokens n := by
  refine h.mono fun t ht => ?_
  rw [Form.tokens, Form.tokensAll, List.append_assoc]
  exact List.mem_cons_of_mem _ (List.mem_append_right _ ht)

/-- A group with a type at its head, by what the type is. -/
theorem points_of_call {e : Expect} {m start : Nat} {args : List Form}
    (hargs : ∀ f ∈ args, f.Points o finish)
    (h : expression o finish e (.group start (.atom (.word type) m :: args) closing) =
      .error err) :
    Points finish (Form.group start (.atom (.word type) m :: args) closing).tokens err.offset := by
  unfold expression at h
  simp only at h
  split at h
  · split at h
    · rename_i herr
      cases h
      exact (points_of_terms hargs herr).of_args
    · cases h
  · split at h
    · cases h
      exact points_missingExpression.of_closing
    · rename_i v
      split at h
      · rename_i herr
        cases h
        exact .of_mem (f := v) (by simp) (hargs v (by simp) _ _ herr)
      · cases h
        exact points_missingExpression.of_closing
    · rename_i v p rest
      split at h
      · rename_i herr
        cases h
        exact .of_mem (f := v) (by simp) (hargs v (by simp) _ _ herr)
      · split at h
        · rename_i herr
          cases h
          exact .of_mem (f := p) (by simp) (hargs p (by simp) _ _ herr)
        · split at h
          · split at h
            · rename_i hclose
              cases h
              exact points_of_requireClose hclose
            · cases h
          · rename_i extra rest
            cases h
            exact .of_mem (f := extra) (by simp) (points_offset extra)
  · split at h
    · cases h
      exact .of_mem List.mem_cons_self (points_offset (.atom (.word type) m))
    · split at h
      · rename_i herr
        cases h
        exact (points_of_arguments hargs herr).of_args
      · cases h

theorem points_of_expression (o : Ontology) (finish : Nat) (f : Form) : f.Points o finish := by
  induction f using Form.induction with
  | atom l n =>
    intro e err h
    cases l with
    | keyword name =>
      cases h
      exact points_offset (.atom (.keyword name) n)
    | «open» =>
      cases h
      exact points_offset (.atom .open n)
    | close =>
      cases h
      exact points_offset (.atom .close n)
    | _ => cases h
  | group start items closing ih =>
    intro e err h
    match items with
    | [] =>
      cases closing with
      | none =>
        cases h
        exact .inl rfl
      | some k =>
        cases h
        have hclose : Sl.Points finish (Form.closeToken (some k)) k :=
          .inr ⟨_, List.mem_singleton_self _, rfl⟩
        exact hclose.of_closing
    | .group k gs c :: args =>
      cases h
      exact .of_mem List.mem_cons_self (points_offset (.group k gs c))
    | .atom l m :: args =>
      cases l with
      | word type => exact points_of_call (fun f hf => ih f (List.mem_cons_of_mem _ hf)) h
      | _ =>
        cases h
        exact .of_mem List.mem_cons_self (points_offset (.atom _ m))

theorem points_of_contentOf {fs : List Form} (h : contentOf o finish fs = .error err) :
    Points finish (Form.tokensAll fs) err.offset := by
  unfold contentOf at h
  split at h
  · cases h
    exact .inl rfl
  · rename_i l n rest
    cases h
    exact (points_offset (.atom l n)).mono (List.subset_append_left _ _)
  · rename_i n items closing rest
    have hgroup : Form.tokensAll items ++ Form.closeToken closing ⊆
        Form.tokensAll (.group n items closing :: rest) := by
      rw [Form.tokensAll, Form.tokens]
      exact List.Subset.trans (List.subset_cons_self _ _) (List.subset_append_left _ _)
    split at h
    · rename_i herr
      cases h
      exact (points_of_elements (fun f _ => points_of_expression o finish f) herr).mono hgroup
    · split at h
      · rename_i extra rest
        cases h
        refine (points_offset extra).mono fun t ht => ?_
        simp [Form.tokensAll, ht]
      · split at h
        · cases h
          exact (points_offset (.group n items closing)).mono (List.subset_append_left _ _)
        · cases h
        · cases h

end

/-! ## Whole texts -/

/-- The byte is a boundary of characters of the text, and its end or the start of an element. -/
structure PointsInto (text : String) (n : Nat) : Prop where
  le : n ≤ text.utf8ByteSize
  valid : String.Pos.Raw.IsValid text ⟨n⟩
  place : n = text.utf8ByteSize ∨ StartsAt text.toList n

theorem pointsInto_of_startsAt {text : String} {n : Nat} (h : StartsAt text.toList n) :
    PointsInto text n := by
  refine ⟨?_, ?_, .inr h⟩
  · have := h.lt
    rw [byteSize_toList] at this
    omega
  · obtain ⟨c, rest, hleft, -⟩ := h
    obtain ⟨before, htext, hsize⟩ := hleft.exists_before
    refine String.Pos.Raw.isValid_iff_exists_append.2
      ⟨String.ofList before, String.ofList (c :: rest), ?_, ?_⟩
    · rw [← String.ofList_append, ← htext, String.ofList_toList]
    · rw [byteSize_ofList] at hsize
      exact congrArg String.Pos.Raw.mk hsize.symm

theorem pointsInto_end (text : String) : PointsInto text text.utf8ByteSize where
  le := Nat.le_refl _
  valid := String.Pos.Raw.isValid_iff_exists_append.2 ⟨text, "", by simp, rfl⟩
  place := .inl rfl

/-- Reading ends for every text. Its elements start where they are said to, one behind the other,
and it is read as a content; or there is a fault, which is seen at the end of the text or where an
element starts. The one exception are texts that announce a byte sequence for which there cannot be
room: the room is asked for all the same, and reading ends in a panic. -/
theorem decode_points (o : Ontology) (text : String) :
    (¬ Overruns text.toList →
      ((∃ tokens, Token.scan text.toList = .ok tokens ∧ (∀ t ∈ tokens, Stands text.toList t) ∧
          tokens.Pairwise fun a b => a.offset < b.offset) ∨
        ∃ e, Token.scan text.toList = .error (.reported e) ∧ PointsInto text e.offset) ∧
      ((∃ c, decode o text = .ok c) ∨
        ∃ e, decode o text = .error (.reported e) ∧ PointsInto text e.offset)) ∧
    (Overruns text.toList → Token.scan text.toList = .error .capacityOverflow ∧
      decode o text = .error .capacityOverflow) := by
  have hstart : Leaves text.toList 0 text.toList := .start
  obtain ⟨herror, hoverflow, hok⟩ := scanFrom_places hstart
  rw [decode]
  refine ⟨fun hroom => ?_, fun hoverrun => ⟨hoverrun.scan, by rw [decodeChars, hoverrun.scan]⟩⟩
  cases hscan : Token.scan text.toList with
  | error failure =>
    cases failure with
    | reported e =>
      have he := pointsInto_of_startsAt (herror e hscan)
      exact ⟨.inr ⟨e, rfl, he⟩, .inr ⟨e, by rw [decodeChars, hscan], he⟩⟩
    | capacityOverflow => exact absurd (hoverflow hscan) hroom
  | ok tokens =>
    obtain ⟨hstands, hsorted⟩ := hok tokens hscan
    have htokens : ∀ t ∈ tokens, Stands text.toList t := fun t ht => (hstands t ht).2
    refine ⟨.inl ⟨tokens, rfl, htokens, hsorted⟩, ?_⟩
    rw [decodeChars_of_scan hscan]
    cases hread : contentOf o (byteSize text.toList) (Form.ofTokens tokens) with
    | ok c => exact .inl ⟨c, rfl⟩
    | error e =>
      refine .inr ⟨e, rfl, ?_⟩
      have hpoints := points_of_contentOf hread
      rw [Form.tokensAll_ofTokens, byteSize_toList] at hpoints
      rcases hpoints with hend | ⟨t, ht, hoffset⟩
      · rw [hend]
        exact pointsInto_end text
      · rw [← hoffset]
        exact pointsInto_of_startsAt (htokens t ht).startsAt

/-- A byte sequence of three bytes that says it has 2 ^ 63 characters. -/
def boast : String :=
  "((p :x #9223372036854775808\"AQID))"

/-- Neither a content comes of it nor a fault. -/
theorem decode_boast : decode Vocabulary.basic boast = .error .capacityOverflow ∧
    ¬ ((∃ c, decode Vocabulary.basic boast = .ok c) ∨
      ∃ e, decode Vocabulary.basic boast = .error (.reported e) ∧ PointsInto boast e.offset) := by
  have hscan : Token.scan boast.toList = .error .capacityOverflow :=
    (scan_eq_scanWithin 40 (by decide)).trans rfl
  have hread : decode Vocabulary.basic boast = .error .capacityOverflow := by
    rw [decode, decodeChars, hscan]
  refine ⟨hread, ?_⟩
  rw [hread]
  rintro (⟨c, hc⟩ | ⟨e, he, -⟩)
  · cases hc
  · cases he

end Sl
end AgentContent
