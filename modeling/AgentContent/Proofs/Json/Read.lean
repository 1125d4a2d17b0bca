import AgentContent.Json.Read

/-!
# AgentContent.Proofs.Json.Read

Documents as words. The words of a document that is not too deep are read as the document.

* `Json.induction`: induction on documents, with an assumption for each part.
* `Json.words`: the words that a document is written with.
* `Json.Each`: something holds at a document and at all its parts.
* `Json.ofTokens?_words`: the reader takes the words back.
-/

namespace AgentContent
namespace Json

section Induction

variable {P : Json → Prop}
  (null : P .null)
  (bool : ∀ b, P (.bool b))
  (integer : ∀ n, P (.integer n))
  (float : ∀ x, P (.float x))
  (string : ∀ s, P (.string s))
  (array : ∀ items, (∀ v ∈ items, P v) → P (.array items))
  (object : ∀ members, (∀ m ∈ members, P m.2) → P (.object members))

include null bool integer float string array object

set_option linter.unusedSectionVars false in
mutual
@[elab_as_elim]
theorem induction : ∀ v : Json, P v
  | .null => null
  | .bool b => bool b
  | .integer n => integer n
  | .float x => float x
  | .string s => string s
  | .array items => array items (induction_items items)
  | .object members => object members (induction_members members)

theorem induction_items : ∀ items : List Json, ∀ v ∈ items, P v
  | [] => List.forall_mem_nil _
  | v :: items => List.forall_mem_cons.2 ⟨induction v, induction_items items⟩

theorem induction_members : ∀ members : List (String × Json), ∀ m ∈ members, P m.2
  | [] => List.forall_mem_nil _
  | (_, v) :: members => List.forall_mem_cons.2 ⟨induction v, induction_members members⟩
end

end Induction

/-! ## Parts and depth -/

mutual
/-- A document and all its parts. -/
def nodes : Json → List Json
  | .array items => .array items :: nodesItems items
  | .object members => .object members :: nodesMembers members
  | v => [v]

def nodesItems : List Json → List Json
  | [] => []
  | v :: items => v.nodes ++ nodesItems items

def nodesMembers : List (String × Json) → List Json
  | [] => []
  | (_, v) :: members => v.nodes ++ nodesMembers members
end

theorem nodesItems_eq (items : List Json) : nodesItems items = items.flatMap nodes := by
  induction items with
  | nil => rfl
  | cons v items ih => rw [nodesItems, ih, List.flatMap_cons]

theorem nodesMembers_eq (members : List (String × Json)) :
    nodesMembers members = members.flatMap fun m => m.2.nodes := by
  induction members with
  | nil => rfl
  | cons m members ih =>
    obtain ⟨k, v⟩ := m
    rw [nodesMembers, ih, List.flatMap_cons]

/-- Something holds at the document and at all its parts. -/
def Each (P : Json → Prop) (v : Json) : Prop :=
  ∀ w ∈ v.nodes, P w

instance (P : Json → Prop) [DecidablePred P] (v : Json) : Decidable (Each P v) :=
  inferInstanceAs (Decidable (∀ w ∈ v.nodes, P w))

namespace Each

variable {P : Json → Prop}

theorem self {v : Json} (h : Each P v) : P v := by
  refine h v ?_
  cases v <;> exact List.mem_cons_self

theorem array_iff {items : List Json} :
    Each P (.array items) ↔ P (.array items) ∧ ∀ v ∈ items, Each P v := by
  simp only [Each, nodes, nodesItems_eq, List.forall_mem_cons, List.mem_flatMap]
  constructor
  · intro h
    exact ⟨h.1, fun v hv w hw => h.2 w ⟨v, hv, hw⟩⟩
  · intro h
    refine ⟨h.1, ?_⟩
    rintro w ⟨v, hv, hw⟩
    exact h.2 v hv w hw

theorem object_iff {members : List (String × Json)} :
    Each P (.object members) ↔ P (.object members) ∧ ∀ m ∈ members, Each P m.2 := by
  simp only [Each, nodes, nodesMembers_eq, List.forall_mem_cons, List.mem_flatMap]
  constructor
  · intro h
    exact ⟨h.1, fun m hm w hw => h.2 w ⟨m, hm, hw⟩⟩
  · intro h
    refine ⟨h.1, ?_⟩
    rintro w ⟨m, hm, hw⟩
    exact h.2 m hm w hw

end Each

mutual
/-- Levels of lists and objects. -/
def depth : Json → Nat
  | .array items => depthItems items + 1
  | .object members => depthMembers members + 1
  | _ => 0

def depthItems : List Json → Nat
  | [] => 0
  | v :: items => max v.depth (depthItems items)

def depthMembers : List (String × Json) → Nat
  | [] => 0
  | (_, v) :: members => max v.depth (depthMembers members)
end

/-! ## Words -/

mutual
/-- The words of a document. -/
def words : Json → List Token
  | .string s => [.text s]
  | .array items => .openArray :: wordsItems items ++ [.closeArray]
  | .object members => .openObject :: wordsMembers members ++ [.closeObject]
  | v => [.literal v]

def wordsItems : List Json → List Token
  | [] => []
  | [v] => v.words
  | v :: w :: items => v.words ++ .comma :: wordsItems (w :: items)

def wordsMembers : List (String × Json) → List Token
  | [] => []
  | [(k, v)] => .text k :: .colon :: v.words
  | (k, v) :: m :: members => .text k :: .colon :: v.words ++ .comma :: wordsMembers (m :: members)
end

/-- No document starts with a closing bracket. -/
theorem words_eq_cons (v : Json) : ∃ t ts, v.words = t :: ts ∧ t ≠ .closeArray := by
  cases v <;> exact ⟨_, _, rfl, by simp⟩

theorem wordsItems_eq_cons (v : Json) (items : List Json) :
    ∃ t ts, wordsItems (v :: items) = t :: ts ∧ t ≠ .closeArray := by
  obtain ⟨t, ts, hv, ht⟩ := words_eq_cons v
  cases items with
  | nil => exact ⟨t, ts, hv, ht⟩
  | cons w items =>
    refine ⟨t, ts ++ .comma :: wordsItems (w :: items), ?_, ht⟩
    rw [wordsItems, hv, List.cons_append]

theorem wordsMembers_eq_cons (k : String) (v : Json) (members : List (String × Json)) :
    ∃ ts, wordsMembers ((k, v) :: members) = .text k :: ts := by
  cases members with
  | nil => exact ⟨_, rfl⟩
  | cons m members => exact ⟨_, rfl⟩

theorem readValue_openArray {fuel depth : Nat} {t : Token} {tokens : List Token}
    (ht : t ≠ .closeArray) :
    readValue (fuel + 1) (depth + 1) (.openArray :: t :: tokens) =
      (readItems fuel depth (t :: tokens)).map fun r => (.array r.1, r.2) := by
  rw [readValue]
  · rw [if_neg (Nat.succ_ne_zero depth), Nat.add_sub_cancel]
    cases readItems fuel depth (t :: tokens) <;> rfl
  · intro rest h
    cases h
    exact ht rfl

theorem readValue_openObject {fuel depth : Nat} {k : String} {tokens : List Token} :
    readValue (fuel + 1) (depth + 1) (.openObject :: .text k :: tokens) =
      (readMembers fuel depth (.text k :: tokens)).map fun r => (.object r.1, r.2) := by
  rw [readValue]
  · rw [if_neg (Nat.succ_ne_zero depth), Nat.add_sub_cancel]
    cases readMembers fuel depth (.text k :: tokens) <;> rfl
  · intro rest h
    cases h

/-! ## Reading the words -/

/-- The reader takes the words of the document, with any words behind them. -/
def Reads (v : Json) : Prop :=
  ∀ fuel depth rest, 2 * v.words.length ≤ fuel → v.depth ≤ depth →
    readValue fuel depth (v.words ++ rest) = some (v, rest)

theorem readItems_wordsItems {v : Json} {items : List Json} (h : ∀ w ∈ v :: items, Reads w)
    (fuel : Nat) {depth : Nat} (rest : List Token) (hf : 2 * (wordsItems (v :: items)).length < fuel)
    (hd : depthItems (v :: items) ≤ depth) :
    readItems fuel depth (wordsItems (v :: items) ++ .closeArray :: rest) =
      some (v :: items, rest) := by
  obtain ⟨hv, hitems⟩ := List.forall_mem_cons.1 h
  have hvd : v.depth ≤ depth := Nat.le_trans (Nat.le_max_left ..) hd
  obtain ⟨fuel, rfl⟩ : ∃ k, fuel = k + 1 := ⟨fuel - 1, by omega⟩
  induction items generalizing v fuel with
  | nil =>
    rw [wordsItems] at hf ⊢
    rw [readItems, hv fuel depth _ (by omega) hvd]
  | cons w items ih =>
    rw [wordsItems, List.length_append, List.length_cons] at hf
    rw [wordsItems, List.append_assoc, readItems, hv fuel depth _ (by omega) hvd]
    have hd' : depthItems (w :: items) ≤ depth := Nat.le_trans (Nat.le_max_right ..) hd
    obtain ⟨hw, hrest⟩ := List.forall_mem_cons.1 hitems
    obtain ⟨fuel, rfl⟩ : ∃ k, fuel = k + 1 := ⟨fuel - 1, by omega⟩
    simp only [List.cons_append]
    rw [ih hitems hd' hw hrest (Nat.le_trans (Nat.le_max_left ..) hd') fuel (by omega)]

theorem readMembers_wordsMembers {m : String × Json} {members : List (String × Json)}
    (h : ∀ w ∈ m :: members, Reads w.2) (fuel : Nat) {depth : Nat} (rest : List Token)
    (hf : 2 * (wordsMembers (m :: members)).length < fuel)
    (hd : depthMembers (m :: members) ≤ depth) :
    readMembers fuel depth (wordsMembers (m :: members) ++ .closeObject :: rest) =
      some (m :: members, rest) := by
  obtain ⟨k, v⟩ := m
  obtain ⟨hv, hmembers⟩ := List.forall_mem_cons.1 h
  replace hv : Reads v := hv
  have hvd : v.depth ≤ depth := Nat.le_trans (Nat.le_max_left ..) hd
  obtain ⟨fuel, rfl⟩ : ∃ k, fuel = k + 1 := ⟨fuel - 1, by omega⟩
  induction members generalizing k v fuel with
  | nil =>
    rw [wordsMembers, List.length_cons, List.length_cons] at hf
    rw [wordsMembers, List.cons_append, List.cons_append, readMembers,
      hv fuel depth _ (by omega) hvd]
  | cons m members ih =>
    obtain ⟨k', w⟩ := m
    rw [wordsMembers, List.length_append, List.length_cons, List.length_cons,
      List.length_cons] at hf
    rw [wordsMembers, List.append_assoc, List.cons_append, List.cons_append, readMembers,
      hv fuel depth _ (by omega) hvd]
    have hd' : depthMembers ((k', w) :: members) ≤ depth := Nat.le_trans (Nat.le_max_right ..) hd
    obtain ⟨hw, hrest⟩ := List.forall_mem_cons.1 hmembers
    obtain ⟨fuel, rfl⟩ : ∃ k, fuel = k + 1 := ⟨fuel - 1, by omega⟩
    simp only [List.cons_append]
    rw [ih k' w hmembers hd' hrest hw (Nat.le_trans (Nat.le_max_left ..) hd') fuel (by omega)]

theorem reads (v : Json) : Reads v := by
  have hleaf : ∀ w : Json, w.words = [.literal w] → Reads w := by
    intro w hw fuel depth rest hf _
    rw [hw] at hf ⊢
    obtain ⟨fuel, rfl⟩ : ∃ k, fuel = k + 1 := ⟨fuel - 1, by simp at hf; omega⟩
    rfl
  induction v using Json.induction with
  | null => exact hleaf _ rfl
  | bool b => exact hleaf _ rfl
  | integer n => exact hleaf _ rfl
  | float x => exact hleaf _ rfl
  | string s =>
    intro fuel depth rest hf _
    obtain ⟨fuel, rfl⟩ : ∃ k, fuel = k + 1 := ⟨fuel - 1, by simp [words] at hf; omega⟩
    rfl
  | array items ih =>
    intro fuel depth rest hf hd
    simp only [words, List.length_append, List.length_cons, List.length_nil] at hf
    rw [Json.depth] at hd
    obtain ⟨depth, rfl⟩ : ∃ k, depth = k + 1 := ⟨depth - 1, by omega⟩
    obtain ⟨fuel, rfl⟩ : ∃ k, fuel = k + 1 := ⟨fuel - 1, by omega⟩
    cases items with
    | nil => rfl
    | cons v items =>
      obtain ⟨t, ts, heq, ht⟩ := wordsItems_eq_cons v items
      have hread := readItems_wordsItems ih fuel rest (by omega) (by omega : _ ≤ depth)
      rw [words, List.append_assoc]
      rw [heq] at hread ⊢
      simp only [List.cons_append, List.nil_append] at hread ⊢
      rw [readValue_openArray ht, hread]
      rfl
  | object members ih =>
    intro fuel depth rest hf hd
    simp only [words, List.length_append, List.length_cons, List.length_nil] at hf
    rw [Json.depth] at hd
    obtain ⟨depth, rfl⟩ : ∃ k, depth = k + 1 := ⟨depth - 1, by omega⟩
    obtain ⟨fuel, rfl⟩ : ∃ k, fuel = k + 1 := ⟨fuel - 1, by omega⟩
    cases members with
    | nil => rfl
    | cons m members =>
      obtain ⟨ts, heq⟩ := wordsMembers_eq_cons m.1 m.2 members
      have hread := readMembers_wordsMembers ih fuel rest (by omega)
        (by omega : _ ≤ depth)
      rw [words, List.append_assoc]
      rw [heq] at hread ⊢
      simp only [List.cons_append, List.nil_append] at hread ⊢
      rw [readValue_openObject, hread]
      rfl

/-- A document that is not too deep is read from its words. -/
theorem ofTokens?_words {v : Json} {depth : Nat} (h : v.depth ≤ depth) :
    ofTokens? depth v.words = some v := by
  have hread := reads v (2 * v.words.length + 1) depth [] (by omega) h
  rw [List.append_nil] at hread
  rw [ofTokens?, hread]

end Json
end AgentContent
