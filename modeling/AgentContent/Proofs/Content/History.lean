import AgentContent.Proofs.Content.Memo

/-!
# AgentContent.Proofs.Content.History

Content that is built, edited and asked for digests in any order. Whatever its history, what a tree
remembers are the digests of what it holds now.

* `Node.Looked`: a digest that is read at a part leaves the memos above, and these stay right.
* `Node.Reached`: the trees that constructors, edits at any depth and reads lead to.
* `Node.Reached.sound`: all of them are sound. The induction is on the history.
* `Node.Reached.apply`, `Node.Reached.steps`: the edits that are run are among the histories.
* `Node.read_of_reached`: digests agree with equality, and with those of a copy that remembers
  nothing.
-/

namespace AgentContent
namespace Node

variable {h : HashFunction} {n n' : Node}

/-! ## Reads at any depth -/

/-- The digest of some part of the node is read in place. Digests that the nodes above remember
stay. -/
inductive Looked (h : HashFunction) : Node → Node → Prop where
  | here (n : Node) : Looked h n (n.read h).2
  | slot {memo : Option UInt64} {role : Role} {type k : String} {xs ys : Slots Node} {m m' : Node}
    (hm : Looked h m m') : Looked h (.slotted memo role type (xs ++ (k, m) :: ys))
      (.slotted memo role type (xs ++ (k, m') :: ys))
  | element {memo : Option UInt64} {type : String} {xs ys : List Node} {template : Option Node}
    {m m' : Node} (hm : Looked h m m') : Looked h (.aggregate memo type (xs ++ m :: ys) template)
      (.aggregate memo type (xs ++ m' :: ys) template)
  | template {memo : Option UInt64} {type : String} {elements : List Node} {t t' : Node}
    (ht : Looked h t t') : Looked h (.aggregate memo type elements (some t))
      (.aggregate memo type elements (some t'))
  | variableSlot {k : String} {xs ys : Slots Node} {isMeta : Bool} {m m' : Node}
    (hm : Looked h m m') : Looked h (.variable (xs ++ (k, m) :: ys) isMeta)
      (.variable (xs ++ (k, m') :: ys) isMeta)
  | referent {type : String} {referent referent' proposition : Node}
    (hr : Looked h referent referent') : Looked h (.ire type referent proposition)
      (.ire type referent' proposition)
  | proposition {type : String} {referent proposition proposition' : Node}
    (hp : Looked h proposition proposition') : Looked h (.ire type referent proposition)
      (.ire type referent proposition')
  | item {memo : Option UInt64} {xs ys : List Node} {m m' : Node} (hm : Looked h m m') :
    Looked h (.list memo (xs ++ m :: ys)) (.list memo (xs ++ m' :: ys))

/-- Reading a part changes neither the content nor that all is right: what is remembered above
is the digest of a content that stays. -/
theorem Looked.sound (hl : Looked h n n') (hn : Sound h n) :
    n'.content = n.content ∧ Sound h n' := by
  induction hl with
  | here n => exact ⟨(reads_of_sound hn).content, (reads_of_sound hn).sound⟩
  | @slot memo role type k xs ys m m' _ ih =>
    obtain ⟨hcontent, hm'⟩ := ih (hn.part (.slot (e := (k, m)) (by simp)))
    have hwhole : (slotted memo role type (xs ++ (k, m') :: ys)).content =
        (slotted memo role type (xs ++ (k, m) :: ys)).content := by
      simp only [content_slotted, List.map_append, List.map_cons, hcontent]
    refine ⟨hwhole, sound_slotted (hwhole ▸ hn.right.memo) ?_ ?_⟩
    · exact hn.distinct_slots.of_names (by simp)
    · exact forall_mem_replace (fun e he => hn.part (.slot he)) hm'
  | @element memo type xs ys template m m' _ ih =>
    obtain ⟨hcontent, hm'⟩ := ih (hn.part (.element (by simp)))
    have hwhole : (aggregate memo type (xs ++ m' :: ys) template).content =
        (aggregate memo type (xs ++ m :: ys) template).content := by
      simp only [content_aggregate, List.map_append, List.map_cons, hcontent]
    refine ⟨hwhole, sound_aggregate (hwhole ▸ hn.right.memo) ?_ ?_⟩
    · exact forall_mem_replace (fun e he => hn.part (.element he)) hm'
    · rintro t rfl
      exact hn.part .template
  | @template memo type elements t t' _ ih =>
    obtain ⟨hcontent, ht'⟩ := ih (hn.part .template)
    have hwhole : (aggregate memo type elements (some t')).content =
        (aggregate memo type elements (some t)).content := by
      simp only [content_aggregate, Option.map_some, hcontent]
    refine ⟨hwhole, sound_aggregate (hwhole ▸ hn.right.memo) ?_ ?_⟩
    · exact fun e he => hn.part (.element he)
    · rintro _ ⟨⟩
      exact ht'
  | @variableSlot k xs ys isMeta m m' _ ih =>
    obtain ⟨hcontent, hm'⟩ := ih (hn.part (.variableSlot (e := (k, m)) (by simp)))
    refine ⟨?_, sound_variable ?_ ?_⟩
    · simp only [content_variable, List.map_append, List.map_cons, hcontent]
    · exact hn.distinct_variableSlots.of_names (by simp)
    · exact forall_mem_replace (fun e he => hn.part (.variableSlot he)) hm'
  | referent _ ih =>
    obtain ⟨hcontent, hr'⟩ := ih (hn.part .referent)
    exact ⟨by rw [content, content, hcontent], sound_ire hr' (hn.part .proposition)⟩
  | proposition _ ih =>
    obtain ⟨hcontent, hp'⟩ := ih (hn.part .proposition)
    exact ⟨by rw [content, content, hcontent], sound_ire (hn.part .referent) hp'⟩
  | @item memo xs ys m m' _ ih =>
    obtain ⟨hcontent, hm'⟩ := ih (hn.part (.item (by simp)))
    have hwhole : (list memo (xs ++ m' :: ys)).content = (list memo (xs ++ m :: ys)).content := by
      simp only [content_list, List.map_append, List.map_cons, hcontent]
    refine ⟨hwhole, sound_list (hwhole ▸ hn.right.memo) ?_⟩
    exact forall_mem_replace (fun e he => hn.part (.item he)) hm'

/-! ## Histories -/

/-- What constructors, edits and reads lead to, in any order and number. An edit through a
borrowed part makes every node above forget, and may leave there whatever can be reached. -/
inductive Reached (h : HashFunction) : Node → Prop where
  | primitive (p : Primitive) : Reached h (.primitive p)
  | slotted (role : Role) (type : String) : Reached h (.slotted none role type [])
  | aggregate (type : String) : Reached h (.aggregate none type [] none)
  | variable {entries : List (String × Node)} (isMeta : Bool) (hs : ∀ e ∈ entries, Reached h e.2) :
    Reached h (.variable (Slots.ofList entries) isMeta)
  | ire {referent proposition : Node} (type : String) (hr : Reached h referent)
    (hp : Reached h proposition) : Reached h (.ire type referent proposition)
  | part {m n : Node} (hn : Reached h n) (hm : n.Part m) : Reached h m
  | look {n n' : Node} (hn : Reached h n) (hl : Looked h n n') : Reached h n'
  | rename {memo : Option UInt64} {role : Role} {type : String} {slots : Slots Node}
    (hn : Reached h (.slotted memo role type slots)) (type' : String) :
    Reached h (.slotted none role type' slots)
  | insert {memo : Option UInt64} {role : Role} {type : String} {slots : Slots Node} {value : Node}
    (hn : Reached h (.slotted memo role type slots)) (name : String) (hv : Reached h value) :
    Reached h (.slotted none role type (Slots.insert name value slots))
  | remove {memo : Option UInt64} {role : Role} {type : String} {slots : Slots Node}
    (hn : Reached h (.slotted memo role type slots)) (name : String) :
    Reached h (.slotted (if Slots.contains name slots then none else memo) role type
      (Slots.remove name slots))
  | retain {memo : Option UInt64} {role : Role} {type : String} {slots : Slots Node}
    (hn : Reached h (.slotted memo role type slots)) (keep : String → Node → Bool) :
    Reached h (.slotted none role type (Slots.retain keep slots))
  /-- Any or all of the values are borrowed. -/
  | overwrite {memo : Option UInt64} {role : Role} {type : String} {slots slots' : Slots Node}
    (hn : Reached h (.slotted memo role type slots))
    (hnames : slots'.map (·.1) = slots.map (·.1)) (hs : ∀ e ∈ slots', Reached h e.2) :
    Reached h (.slotted none role type slots')
  | renameAggregate {memo : Option UInt64} {type : String} {elements : List Node}
    {template : Option Node} (hn : Reached h (.aggregate memo type elements template))
    (type' : String) : Reached h (.aggregate none type' elements template)
  /-- The sequence of elements is borrowed: elements are added, removed, moved or overwritten. -/
  | elements {memo : Option UInt64} {type : String} {elements elements' : List Node}
    {template : Option Node} (hn : Reached h (.aggregate memo type elements template))
    (he : ∀ e ∈ elements', Reached h e) : Reached h (.aggregate none type elements' template)
  | template {memo : Option UInt64} {type : String} {elements : List Node}
    {template template' : Option Node} (hn : Reached h (.aggregate memo type elements template))
    (ht : ∀ t, template' = some t → Reached h t) :
    Reached h (.aggregate memo type elements template')
  | setName {slots : Slots Node} {isMeta : Bool} (hn : Reached h (.variable slots isMeta))
    (name : String) :
    Reached h (.variable (Slots.insert Content.nameSlot (ofString name) slots) isMeta)
  | setValueType {slots : Slots Node} {isMeta : Bool} (hn : Reached h (.variable slots isMeta))
    (type : String) :
    Reached h (.variable (Slots.insert Content.valueTypeSlot (ofString type) slots) isMeta)
  | clearValueType {slots : Slots Node} {isMeta : Bool} (hn : Reached h (.variable slots isMeta)) :
    Reached h (.variable (Slots.remove Content.valueTypeSlot slots) isMeta)
  | list {elements : List Node} (he : ∀ e ∈ elements, Reached h e) : Reached h (.list none elements)

theorem forall_mem_set {P : Node → Prop} {elements : List Node} (he : ∀ e ∈ elements, P e)
    (i : Nat) {m : Node} (hm : P m) : ∀ e ∈ elements.set i m, P e := by
  intro e hmem
  rcases List.mem_or_eq_of_mem_set hmem with hmem | rfl
  · exact he e hmem
  · exact hm

theorem forall_mem_insert {P : Node → Prop} {slots : Slots Node} {value : Node}
    (hs : ∀ e ∈ slots, P e.2) (name : String) (hv : P value) :
    ∀ e ∈ Slots.insert name value slots, P e.2 := by
  rintro ⟨k, n⟩ he
  rcases Slots.mem_insert he with he | ⟨-, rfl⟩
  · exact hs _ he
  · exact hv

/-- Whatever the history, all is right: a node that keeps its memo keeps its content. -/
theorem Reached.sound (hn : Reached h n) : Sound h n := by
  induction hn with
  | primitive p => exact sound_primitive p
  | slotted role type => exact sound_slotted nofun .nil nofun
  | aggregate type => exact sound_aggregate nofun nofun nofun
  | «variable» isMeta _ ih =>
    exact sound_variable (.ofList _) (Slots.ofList_induction (P := fun slots => ∀ e ∈ slots,
      Sound h e.2) nofun fun e he slots hs => forall_mem_insert hs e.1 (ih e he))
  | ire type _ _ ihr ihp => exact sound_ire ihr ihp
  | part _ hm ih => exact ih.part hm
  | look _ hl ih => exact (hl.sound ih).2
  | rename _ type' ih => exact sound_slotted nofun ih.distinct_slots fun e he => ih.part (.slot he)
  | insert _ name _ ih ihv =>
    exact sound_slotted nofun (ih.distinct_slots.insert name _)
      (forall_mem_insert (fun e he => ih.part (.slot he)) name ihv)
  | @remove memo role type slots _ name ih =>
    cases hc : Slots.contains name slots with
    | false =>
      rw [Slots.remove_of_not_contains hc]
      exact ih
    | true =>
      have hs := Slots.remove_sublist name slots
      exact sound_slotted nofun (ih.distinct_slots.sublist hs)
        fun e he => ih.part (.slot (hs.subset he))
  | @retain _ _ _ slots _ keep ih =>
    have hs := Slots.retain_sublist keep slots
    exact sound_slotted nofun (ih.distinct_slots.sublist hs)
      fun e he => ih.part (.slot (hs.subset he))
  | overwrite _ hnames _ ih ihs => exact sound_slotted nofun (ih.distinct_slots.of_names hnames) ihs
  | renameAggregate _ type' ih =>
    exact sound_aggregate nofun (fun e he => ih.part (.element he))
      fun t ht => ih.part (ht ▸ .template)
  | elements _ _ ih ihe => exact sound_aggregate nofun ihe fun t ht => ih.part (ht ▸ .template)
  | template _ _ ih iht =>
    refine sound_aggregate (fun d hd => ?_) (fun e he => ih.part (.element he)) iht
    have hmemo := ih.right.memo d hd
    rw [content_aggregate, Content.digest] at hmemo ⊢
    exact hmemo
  | setName _ name ih =>
    exact sound_variable (ih.distinct_variableSlots.insert _ _)
      (forall_mem_insert (fun e he => ih.part (.variableSlot he)) _ (sound_primitive _))
  | setValueType _ type ih =>
    exact sound_variable (ih.distinct_variableSlots.insert _ _)
      (forall_mem_insert (fun e he => ih.part (.variableSlot he)) _ (sound_primitive _))
  | @clearValueType slots _ _ ih =>
    have hs := Slots.remove_sublist Content.valueTypeSlot slots
    exact sound_variable (ih.distinct_variableSlots.sublist hs)
      fun e he => ih.part (.variableSlot (hs.subset he))
  | list _ ih => exact sound_list nofun ih

/-! ## Fresh copies -/

/-- A fresh copy of content whose slots are stored by their names is built by constructors and
edits alone. -/
theorem Reached.ofContent {c : Content} (hc : c.Each true Content.Keyed) :
    Reached h (ofContent c) := by
  induction c using Content.induction with
  | primitive p => exact .primitive p
  | slotted role type slots ih =>
    have hd : Slots.Distinct (ofSlots slots) := by
      rw [ofSlots_eq_map]
      exact Slots.Distinct.map hc.self Node.ofContent
    have hs : ∀ e ∈ ofSlots slots, Reached h e.2 := by
      rw [ofSlots_eq_map, List.forall_mem_map]
      exact fun e he => ih e he (hc.slot he)
    rw [Node.ofContent, ← Slots.ofList_of_distinct hd]
    exact Slots.ofList_induction (P := fun slots => Reached h (.slotted none role type slots))
      (.slotted role type) fun e he slots hn => hn.insert e.1 (hs e he)
  | aggregate type elements template ih iht =>
    rw [ofContent_aggregate]
    refine ((Reached.aggregate type).elements (List.forall_mem_map.2 ?_)).template ?_
    · exact fun c he => ih c he (hc.element he)
    · intro t ht
      obtain ⟨c, rfl, rfl⟩ := Option.map_eq_some_iff.1 ht
      exact iht c rfl hc.template
  | «variable» slots isMeta ih =>
    have hd : Slots.Distinct (ofSlots slots) := by
      rw [ofSlots_eq_map]
      exact Slots.Distinct.map hc.self Node.ofContent
    rw [Node.ofContent, ← Slots.ofList_of_distinct hd]
    refine .variable isMeta ?_
    rw [ofSlots_eq_map, List.forall_mem_map]
    exact fun e he => ih e he (hc.variableSlot he)
  | ire type referent proposition ihr ihp =>
    exact .ire type (ihr hc.referent) (ihp hc.proposition)
  | list elements ih =>
    rw [Node.ofContent, ofAll_eq_map]
    exact .list (List.forall_mem_map.2 fun c he => ih c he (hc.item he))

end Node

/-! ## Edits that are run -/

/-- The contents that an edit brings in. -/
def Edit.values : Edit → List Content
  | .set _ value | .overwrite _ value | .fill value | .add value | .setReferent value
  | .setProposition value => [value]
  | .setOption _ value | .setTemplate value => value.toList
  | .inSlot _ edit | .inElement _ edit | .inReferent edit | .inProposition edit => edit.values
  | _ => []

namespace Node

variable {h : HashFunction} {n n' : Node}

/-- Every edit leads to what can be reached, if what it brings in has its slots stored by their
names. -/
theorem Reached.apply {edit : Edit} (hn : Reached h n)
    (hv : ∀ c ∈ edit.values, c.Each true Content.Keyed) {a : Answer}
    (ha : Node.apply edit n = some (a, n')) : Reached h n' := by
  induction edit generalizing n n' a with
  | set name value =>
    cases n with
    | slotted memo role type slots =>
      cases ha
      exact hn.insert name (.ofContent (hv value List.mem_cons_self))
    | _ => cases ha
  | setOption name value =>
    cases n with
    | slotted memo role type slots =>
      cases value with
      | none =>
        cases ha
        exact hn.remove name
      | some value =>
        cases ha
        exact hn.insert name (.ofContent (hv value List.mem_cons_self))
    | _ => cases value <;> cases ha
  | remove name =>
    cases n with
    | slotted memo role type slots =>
      cases ha
      exact hn.remove name
    | _ => cases ha
  | overwrite name value =>
    cases n with
    | slotted memo role type slots =>
      cases ha
      rw [Slots.replace]
      split
      · exact hn.insert name (.ofContent (hv value List.mem_cons_self))
      · exact hn.overwrite rfl fun e he => hn.part (.slot he)
    | _ => cases ha
  | retain keep =>
    cases n with
    | slotted memo role type slots =>
      cases ha
      exact hn.retain _
    | _ => cases ha
  | fill value =>
    cases n with
    | slotted memo role type slots =>
      cases ha
      refine hn.overwrite (by simp) (List.forall_mem_map.2 fun e _ => ?_)
      exact .ofContent (hv value List.mem_cons_self)
    | _ => cases ha
  | setType type =>
    cases n with
    | slotted memo role _ slots =>
      cases ha
      exact hn.rename type
    | aggregate memo _ elements template =>
      cases ha
      exact hn.renameAggregate type
    | ire _ referent proposition =>
      cases ha
      exact .ire type (hn.part .referent) (hn.part .proposition)
    | _ =>
      cases ha
      exact hn
  | add value =>
    have hvalue : Reached h (Node.ofContent value) := .ofContent (hv value List.mem_cons_self)
    cases n with
    | aggregate memo type elements template =>
      cases ha
      refine hn.elements (List.forall_mem_append.2 ⟨?_, List.forall_mem_singleton.2 hvalue⟩)
      exact fun e he => hn.part (.element he)
    | list memo elements =>
      cases ha
      refine .list (List.forall_mem_append.2 ⟨?_, List.forall_mem_singleton.2 hvalue⟩)
      exact fun e he => hn.part (.item he)
    | _ => cases ha
  | removeAt i =>
    cases n with
    | aggregate memo type elements template =>
      simp only [Node.apply] at ha
      split at ha
      · cases ha
        exact hn
      · cases ha
        exact hn.elements fun e he => hn.part (.element (List.mem_of_mem_eraseIdx he))
    | _ => cases ha
  | clear =>
    cases n with
    | aggregate memo type elements template =>
      cases ha
      exact hn.elements (List.forall_mem_nil _)
    | list memo elements =>
      cases ha
      exact .list (List.forall_mem_nil _)
    | _ => cases ha
  | setTemplate template =>
    cases n with
    | aggregate memo type elements _ =>
      cases ha
      refine hn.template fun t ht => ?_
      obtain ⟨c, hc, rfl⟩ := Option.map_eq_some_iff.1 ht
      exact .ofContent (hv c (Option.mem_toList.2 hc))
    | _ => cases ha
  | setName name =>
    cases n with
    | «variable» slots isMeta =>
      cases ha
      exact hn.setName name
    | _ => cases ha
  | setValueType type =>
    cases n with
    | «variable» slots isMeta =>
      cases type with
      | none =>
        cases ha
        exact hn.clearValueType
      | some type =>
        cases ha
        exact hn.setValueType type
    | _ => cases type <;> cases ha
  | setReferent value =>
    cases n with
    | ire type referent proposition =>
      cases ha
      exact .ire type (.ofContent (hv value List.mem_cons_self)) (hn.part .proposition)
    | _ => cases ha
  | setProposition value =>
    cases n with
    | ire type referent proposition =>
      cases ha
      exact .ire type (hn.part .referent) (.ofContent (hv value List.mem_cons_self))
    | _ => cases ha
  | inSlot name edit ih =>
    cases n with
    | slotted memo role type slots =>
      simp only [Node.apply] at ha
      split at ha
      · cases ha
      · rename_i m hget
        obtain ⟨k, -, hk⟩ := Slots.mem_of_get? hget
        split at ha
        · cases ha
        · rename_i b m' hm
          cases ha
          exact hn.insert name (ih (hn.part (.slot hk)) hv hm)
    | _ => cases ha
  | inElement i edit ih =>
    cases n with
    | aggregate memo type elements template =>
      simp only [Node.apply] at ha
      split at ha
      · cases ha
      · rename_i m hget
        have hmem := List.mem_of_getElem? hget
        split at ha
        · cases ha
        · rename_i b m' hm
          cases ha
          refine hn.elements (forall_mem_set (fun e he => hn.part (.element he)) i ?_)
          exact ih (hn.part (.element hmem)) hv hm
    | list memo elements =>
      simp only [Node.apply] at ha
      split at ha
      · cases ha
      · rename_i m hget
        have hmem := List.mem_of_getElem? hget
        split at ha
        · cases ha
        · rename_i b m' hm
          cases ha
          refine .list (forall_mem_set (fun e he => hn.part (.item he)) i ?_)
          exact ih (hn.part (.item hmem)) hv hm
    | _ => cases ha
  | inReferent edit ih =>
    cases n with
    | ire type referent proposition =>
      simp only [Node.apply] at ha
      split at ha
      · cases ha
      · rename_i b m hm
        cases ha
        exact .ire type (ih (hn.part .referent) hv hm) (hn.part .proposition)
    | _ => cases ha
  | inProposition edit ih =>
    cases n with
    | ire type referent proposition =>
      simp only [Node.apply] at ha
      split at ha
      · cases ha
      · rename_i b m hm
        cases ha
        exact .ire type (hn.part .referent) (ih (hn.part .proposition) hv hm)
    | _ => cases ha

theorem Reached.read (hn : Reached h n) : Reached h (n.read h).2 :=
  hn.look (.here n)

/-- The tree that is edited, or what is read of it when its kind lacks the operation. -/
def edited (h : HashFunction) (edit : Edit) (n : Node) : Node :=
  match Node.apply edit (n.read h).2 with
  | none => (n.read h).2
  | some (_, m) => m

theorem step_eq (edit : Edit) (n : Node) :
    (n.step h (Node.apply edit)).after = ((n.edited h edit).read h).2 ∧
    (n.step h (Node.apply edit)).digestChanged = ((n.read h).1 != ((n.edited h edit).read h).1) ∧
    (n.step h (Node.apply edit)).valueChanged =
      !(n.read h).2.content.same ((n.edited h edit).read h).2.content := by
  simp only [Node.step, edited]
  cases Node.apply edit (n.read h).2 <;> exact ⟨rfl, rfl, rfl⟩

theorem Reached.edited {edit : Edit} (hn : Reached h n)
    (hv : ∀ c ∈ edit.values, c.Each true Content.Keyed) : Reached h (n.edited h edit) := by
  rw [Node.edited]
  split
  · exact hn.read
  · rename_i ha
    exact hn.read.apply hv ha

/-- Edits one after the other, each between two reads. -/
theorem Reached.steps {edits : List Edit} (hn : Reached h n)
    (hv : ∀ edit ∈ edits, ∀ c ∈ edit.values, c.Each true Content.Keyed) :
    Reached h (edits.foldl (fun n edit => (n.step h (Node.apply edit)).after) n) := by
  induction edits generalizing n with
  | nil => exact hn
  | cons edit edits ih =>
    obtain ⟨hedit, hedits⟩ := List.forall_mem_cons.1 hv
    have hstep : Reached h (n.step h (Node.apply edit)).after := by
      rw [(step_eq edit n).1]
      exact (hn.edited hedit).read
    exact ih hstep hedits

/-! ## Digests -/

theorem Reached.read_eq (hn : Reached h n) : (n.read h).1 = n.content.digest h :=
  (reads_of_sound hn.sound).digest

theorem Reached.read_eq_of_same {m : Node} (hm : Reached h m) (hn : Reached h n)
    (hs : m.content.same n.content = true) : (m.read h).1 = (n.read h).1 := by
  rw [hm.read_eq, hn.read_eq]
  exact Content.digest_of_same hs hm.sound.keyed.without hn.sound.keyed.without

/-- The digest changes only where the value does. -/
theorem valueChanged_of_digestChanged {edit : Edit} (hn : Reached h n)
    (hv : ∀ c ∈ edit.values, c.Each true Content.Keyed)
    (hc : (n.step h (Node.apply edit)).digestChanged = true) :
    (n.step h (Node.apply edit)).valueChanged = true := by
  have he := hn.edited hv
  obtain ⟨-, hdigest, hvalue⟩ := step_eq (h := h) edit n
  rw [hdigest, bne_iff_ne] at hc
  rw [hvalue, (reads_of_sound hn.sound).content, (reads_of_sound he.sound).content,
    Bool.not_eq_true']
  exact Bool.eq_false_iff.2 fun hs => hc (hn.read_eq_of_same he hs)

/-- Digests agree with equality through all histories, and are those of fresh copies, which
remember nothing. A part of what is reached is reached, so this is said of reads at any depth. -/
theorem read_of_reached {m : Node} (hm : Reached h m) (hn : Reached h n) :
    (m.content.same n.content = true → (m.read h).1 = (n.read h).1) ∧
      (m.read h).1 = ((ofContent m.content).read h).1 := by
  have hcopy : Reached h (ofContent m.content) := .ofContent hm.sound.keyed
  refine ⟨hm.read_eq_of_same hn, ?_⟩
  rw [hm.read_eq, hcopy.read_eq, content_ofContent]

/-- A book that gets another title after its digest was read, and a book whose digest was never
read. -/
theorem read_of_books :
    let title (s : String) : Content := .primitive (.string s)
    let book : Node := .slotted none .concept "Book" []
    let m := [.set "title" (title "Emma"), .set "pages" (.primitive (.integer 412)),
      .set "TITLE" (title "Dune")].foldl (fun n edit => (n.step mixing (Node.apply edit)).after) book
    let n := Node.slotted none .concept "Book"
      [("Pages", .primitive (.integer 412)), ("Title", ofString "Dune")]
    m.content.same n.content = true ∧ (m.read mixing).1 = (n.read mixing).1 ∧
      (m.read mixing).1 = ((ofContent m.content).read mixing).1 := by
  intro title book m n
  have hm : Reached mixing m := by
    refine (Reached.slotted .concept "Book").steps ?_
    simp only [List.forall_mem_cons, Edit.values]
    exact ⟨⟨.of_primitive trivial, nofun⟩, ⟨.of_primitive trivial, nofun⟩,
      ⟨.of_primitive trivial, nofun⟩, nofun⟩
  have hn : Reached mixing n :=
    ((Reached.slotted .concept "Book").insert "Pages" (.primitive _)).insert "Title" (.primitive _)
  have hs : m.content.same n.content = true := by decide +kernel
  obtain ⟨hequal, hcopy⟩ := read_of_reached hm hn
  exact ⟨hs, hequal hs, hcopy⟩

end Node
end AgentContent
