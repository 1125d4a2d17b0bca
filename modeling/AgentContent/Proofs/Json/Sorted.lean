import AgentContent.Proofs.Content.Slots
import AgentContent.Proofs.Json.Read
import Mathlib.Data.List.Perm.Basic
import Mathlib.Data.List.Nodup

/-!
# AgentContent.Proofs.Json.Sorted

Documents whose objects have their members in the order of the names.

* `Json.Ascending`: the names of members rise.
* `Json.sortMembers_perm`, `Json.ascending_sortMembers`: sorting puts members of different names in
  that order and loses none of them.
* `Json.sorted_object`: an object of sorted members in order is sorted itself.
* `Json.Each.sorted`: what holds of the parts of a document holds of them in order.
-/

namespace AgentContent

/-- Names that differ in more than their case are different. -/
theorem Slots.Distinct.nodup {α : Type} {slots : Slots α} (h : Distinct slots) :
    (slots.map (·.1)).Nodup := by
  refine List.Nodup.of_map foldName ?_
  rwa [List.map_map]

namespace Json

/-- The names of the members rise. -/
def Ascending (members : List (String × Json)) : Prop :=
  members.Pairwise fun m n => m.1 < n.1

theorem Ascending.nodup {members : List (String × Json)} (h : Ascending members) :
    (members.map (·.1)).Nodup := by
  rw [List.Nodup, List.pairwise_map]
  refine h.imp ?_
  intro m n hlt heq
  rw [heq] at hlt
  exact String.lt_irrefl _ hlt

/-- Members in order are determined by which ones they are. -/
theorem Ascending.eq_of_perm {ms ns : List (String × Json)} (hm : Ascending ms)
    (hn : Ascending ns) (hp : ms.Perm ns) : ms = ns :=
  hp.eq_of_pairwise (fun _ _ _ _ h h' => absurd h' (String.lt_asymm h)) hm hn

/-! ## Insertion -/

theorem mem_insertSorted {name : String} {value : Json} {members : List (String × Json)}
    {m : String × Json} (h : m ∈ insertSorted name value members) :
    m = (name, value) ∨ m ∈ members := by
  induction members with
  | nil => exact .inl (List.mem_singleton.1 h)
  | cons n rest ih =>
    obtain ⟨k, w⟩ := n
    rw [insertSorted] at h
    split at h
    · rename_i hname
      rcases List.mem_cons.1 h with rfl | h
      · exact .inl (by rw [hname])
      · exact .inr (List.mem_cons_of_mem _ h)
    · split at h
      · exact List.mem_cons.1 h
      · rcases List.mem_cons.1 h with rfl | h
        · exact .inr List.mem_cons_self
        · exact (ih h).imp_right (List.mem_cons_of_mem _)

theorem insertSorted_perm {name : String} (value : Json) {members : List (String × Json)}
    (h : name ∉ members.map (·.1)) :
    (insertSorted name value members).Perm ((name, value) :: members) := by
  induction members with
  | nil => exact .refl _
  | cons n rest ih =>
    obtain ⟨k, w⟩ := n
    simp only [List.map_cons, List.mem_cons, not_or] at h
    rw [insertSorted, if_neg h.1]
    split
    · exact .refl _
    · exact ((ih h.2).cons _).trans (.swap _ _ _)

theorem ascending_insertSorted {name : String} {value : Json} {members : List (String × Json)}
    (h : Ascending members) : Ascending (insertSorted name value members) := by
  induction members with
  | nil => exact List.pairwise_singleton _ _
  | cons n rest ih =>
    obtain ⟨k, w⟩ := n
    obtain ⟨hfirst, hrest⟩ := List.pairwise_cons.1 h
    rw [insertSorted]
    split
    · exact List.pairwise_cons.2 ⟨hfirst, hrest⟩
    · rename_i hne
      split
      · rename_i hlt
        refine List.pairwise_cons.2 ⟨?_, h⟩
        intro m hm
        rcases List.mem_cons.1 hm with rfl | hm
        · exact hlt
        · exact String.lt_trans hlt (hfirst m hm)
      · rename_i hnlt
        refine List.pairwise_cons.2 ⟨?_, ih hrest⟩
        intro m hm
        rcases mem_insertSorted hm with rfl | hm
        · exact String.not_le.1 fun hle => hne (String.le_antisymm hle (String.not_lt.1 hnlt))
        · exact hfirst m hm

/-! ## Sorting -/

theorem mem_sortMembers {members : List (String × Json)} {m : String × Json}
    (h : m ∈ sortMembers members) : m ∈ members := by
  have hfold : ∀ done : List (String × Json),
      m ∈ members.foldl (fun done m => insertSorted m.1 m.2 done) done →
        m ∈ done ∨ m ∈ members := by
    clear h
    induction members with
    | nil => exact fun done h => .inl h
    | cons n rest ih =>
      intro done h
      rcases ih _ h with h | h
      · rcases mem_insertSorted h with rfl | h
        · exact .inr List.mem_cons_self
        · exact .inl h
      · exact .inr (List.mem_cons_of_mem _ h)
  exact (hfold [] h).resolve_left List.not_mem_nil

theorem ascending_sortMembers (members : List (String × Json)) :
    Ascending (sortMembers members) := by
  have hfold : ∀ done : List (String × Json), Ascending done →
      Ascending (members.foldl (fun done m => insertSorted m.1 m.2 done) done) := by
    induction members with
    | nil => exact fun done h => h
    | cons n rest ih => exact fun done h => ih _ (ascending_insertSorted h)
  exact hfold [] .nil

theorem sortMembers_perm {members : List (String × Json)} (h : (members.map (·.1)).Nodup) :
    (sortMembers members).Perm members := by
  have hfold : ∀ done : List (String × Json), ((members ++ done).map (·.1)).Nodup →
      (members.foldl (fun done m => insertSorted m.1 m.2 done) done).Perm (members ++ done) := by
    clear h
    induction members with
    | nil => exact fun done _ => .refl _
    | cons n rest ih =>
      intro done h
      have hfree : n.1 ∉ done.map (·.1) := fun hn => by
        rw [List.cons_append, List.map_cons, List.nodup_cons, List.map_append] at h
        exact h.1 (List.mem_append_right _ hn)
      have hmove : (rest ++ insertSorted n.1 n.2 done).Perm (n :: rest ++ done) :=
        ((insertSorted_perm n.2 hfree).append_left rest).trans List.perm_middle
      exact (ih _ ((hmove.map _).nodup_iff.2 h)).trans hmove
  simpa [sortMembers] using hfold [] (by simpa using h)

theorem sortMembers_of_ascending {members : List (String × Json)} (h : Ascending members) :
    sortMembers members = members :=
  (ascending_sortMembers members).eq_of_perm h (sortMembers_perm h.nodup)

/-- The member of a name is the same one after sorting, whatever the spelling. -/
theorem get?_sortMembers {members : List (String × Json)} (h : Slots.Distinct members)
    (name : String) : Slots.get? name (sortMembers members) = Slots.get? name members :=
  (Slots.get?_perm h (sortMembers_perm h.nodup).symm name).symm

/-! ## Sorted documents -/

theorem sortedItems_eq (items : List Json) : sortedItems items = items.map sorted := by
  induction items with
  | nil => rfl
  | cons v rest ih => rw [sortedItems, ih, List.map_cons]

theorem sortedMembers_eq (members : List (String × Json)) :
    sortedMembers members = members.map fun m => (m.1, m.2.sorted) := by
  induction members with
  | nil => rfl
  | cons m rest ih =>
    obtain ⟨k, v⟩ := m
    rw [sortedMembers, ih, List.map_cons]

theorem sorted_array {items : List Json} (h : ∀ v ∈ items, v.sorted = v) :
    (Json.array items).sorted = .array items := by
  rw [sorted, sortedItems_eq, List.map_congr_left h, List.map_id']

theorem sorted_object {members : List (String × Json)} (ha : Ascending members)
    (h : ∀ m ∈ members, m.2.sorted = m.2) : (Json.object members).sorted = .object members := by
  have hmap : members.map (fun m => (m.1, m.2.sorted)) = members :=
    (List.map_congr_left fun m hm => by rw [h m hm]).trans (List.map_id' members)
  rw [sorted, sortedMembers_eq, hmap, sortMembers_of_ascending ha]

/-- What holds at every part that is neither a list nor an object, and at all of these, holds at
every part of the sorted document. -/
theorem Each.sorted {P : Json → Prop} (ha : ∀ items, P (.array items))
    (ho : ∀ members, P (.object members)) {v : Json} (h : v.Each P) : v.sorted.Each P := by
  induction v using Json.induction with
  | array items ih =>
    rw [Json.sorted, sortedItems_eq]
    refine Each.array_iff.2 ⟨ha _, ?_⟩
    intro w hw
    obtain ⟨v, hv, rfl⟩ := List.mem_map.1 hw
    exact ih v hv ((Each.array_iff.1 h).2 v hv)
  | object members ih =>
    rw [Json.sorted, sortedMembers_eq]
    refine Each.object_iff.2 ⟨ho _, ?_⟩
    intro m hm
    obtain ⟨n, hn, rfl⟩ := List.mem_map.1 (mem_sortMembers hm)
    exact ih n hn ((Each.object_iff.1 h).2 n hn)
  | _ => exact h

end Json
end AgentContent
