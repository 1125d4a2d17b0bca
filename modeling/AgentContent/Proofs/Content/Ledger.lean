import AgentContent.Content.Json
import AgentContent.Proofs.Content.Slots
import Mathlib.Data.List.Pairwise
import Mathlib.Logic.Function.Basic

/-!
# AgentContent.Proofs.Content.Ledger

Slots are a map of names, whatever their spelling, that remembers when each of them came.

* `exchange`, `overwrite`, `take`: writing and removal by place, with the value that was there.
* `revise`: all values changed or removed where they are. `remove_eq_revise`, `insert_eq_revise`:
  on distinct names most calls are this.
* `Call`, `perform`: the calls that change slots.
* `Life`, `Ledger`: since when a name is there, how it was spelled then, and what was written last.
* `Ledger.Lists`: the lives of a ledger, oldest first. `Lists.revise` and `Lists.write_new` are the
  two ways in which they change.
* `Shows.perform`: a call on slots and on the ledger that they show has one answer, and the slots
  show the ledger again.
* `run_refines_ledger`: so it is after every run of calls.
-/

namespace AgentContent

namespace Slots

section

variable {α : Type}

/-! ## Writing and removal by place -/

/-- The place of the entry of a name. -/
def position (name : String) (slots : Slots α) : Option Nat :=
  slots.findIdx? fun e => sameName e.1 name

/-- Writes a value at the place of its name, at the end for a new name. The answer is the value
that was there. -/
def exchange (name : String) (value : α) (slots : Slots α) : Option α × Slots α :=
  match position name slots with
  | some i => (slots[i]?.map (·.2), slots.modify i fun e => (e.1, value))
  | none => (none, slots ++ [(name, value)])

/-- Writes a value at the place of its name, if it has one. The answer is the value that was
there. -/
def overwrite (name : String) (value : α) (slots : Slots α) : Option α × Slots α :=
  match position name slots with
  | some i => (slots[i]?.map (·.2), slots.modify i fun e => (e.1, value))
  | none => (none, slots)

/-- Removes the entry of a name. The answer is its value. -/
def take (name : String) (slots : Slots α) : Option α × Slots α :=
  match position name slots with
  | some i => (slots[i]?.map (·.2), slots.eraseIdx i)
  | none => (none, slots)

theorem position_cons (name k : String) (v : α) (slots : Slots α) :
    position name ((k, v) :: slots) =
      if sameName k name then some 0 else (position name slots).map (· + 1) := by
  rw [position, List.findIdx?_cons, position]

theorem contains_eq_isSome_position (name : String) (slots : Slots α) :
    contains name slots = (position name slots).isSome := by
  rw [position, List.findIdx?_isSome, contains]

/-- What is read, written and removed at the place of a name. -/
theorem at_position {name : String} {slots : Slots α} {i : Nat}
    (h : position name slots = some i) :
    slots[i]?.map (·.2) = get? name slots ∧
      (∀ value, (slots.modify i fun e => (e.1, value)) = insert name value slots) ∧
      slots.eraseIdx i = remove name slots := by
  induction slots generalizing i with
  | nil => cases h
  | cons e rest ih =>
    obtain ⟨k, v⟩ := e
    rw [position_cons] at h
    simp only [get?, insert, remove]
    by_cases hk : sameName k name = true
    · rw [if_pos hk] at h
      cases h
      simp only [if_pos hk]
      exact ⟨rfl, fun _ => rfl, rfl⟩
    · rw [if_neg hk] at h
      obtain ⟨i, hi, rfl⟩ := Option.map_eq_some_iff.1 h
      obtain ⟨hread, hwritten, hremoved⟩ := ih hi
      simp only [if_neg hk, ← hread, ← hwritten, ← hremoved]
      exact ⟨rfl, fun _ => rfl, rfl⟩

theorem not_contains_of_position {name : String} {slots : Slots α}
    (h : position name slots = none) : contains name slots = false := by
  rw [contains_eq_isSome_position, h, Option.isSome_none]

theorem get?_of_position {name : String} {slots : Slots α} (h : position name slots = none) :
    get? name slots = none := by
  rw [← Option.not_isSome_iff_eq_none, ← contains_eq_isSome_get?, not_contains_of_position h]
  exact Bool.false_ne_true

theorem exchange_eq (name : String) (value : α) (slots : Slots α) :
    exchange name value slots = (get? name slots, insert name value slots) := by
  unfold exchange
  cases h : position name slots with
  | none => rw [get?_of_position h, insert_of_not_contains (not_contains_of_position h)]
  | some i =>
    obtain ⟨hread, hwritten, -⟩ := at_position h
    rw [← hread, ← hwritten value]

theorem overwrite_eq (name : String) (value : α) (slots : Slots α) :
    overwrite name value slots = (get? name slots, replace name value slots) := by
  unfold overwrite
  rw [replace, contains_eq_isSome_position]
  cases h : position name slots with
  | none =>
    rw [get?_of_position h]
    rfl
  | some i =>
    obtain ⟨hread, hwritten, -⟩ := at_position h
    rw [← hread, Option.isSome_some, if_pos rfl, ← hwritten value]

theorem take_eq (name : String) (slots : Slots α) :
    take name slots = (get? name slots, remove name slots) := by
  unfold take
  cases h : position name slots with
  | none => rw [get?_of_position h, remove_of_not_contains (not_contains_of_position h)]
  | some i =>
    obtain ⟨hread, -, hremoved⟩ := at_position h
    rw [← hread, ← hremoved]

/-! ## Entries revised in place -/

/-- Every entry gets another value, or goes. -/
def revise (f : String → α → Option α) (slots : Slots α) : Slots α :=
  slots.filterMap fun e => (f e.1 e.2).map (e.1, ·)

/-- The revision that removes a name. -/
def dropping (name k : String) (v : α) : Option α :=
  if sameName k name then none else some v

/-- The revision that writes a value under a name. -/
def writing (name : String) (value : α) (k : String) (v : α) : Option α :=
  if sameName k name then some value else some v

theorem dropping_of_ne {name : String} (k : String) (v : α) (h : sameName k name = false) :
    dropping name k v = some v := by
  rw [dropping, h]
  rfl

theorem writing_of_ne {name : String} (value : α) (k : String) (v : α)
    (h : sameName k name = false) : writing name value k v = some v := by
  rw [writing, h]
  rfl

theorem revise_eq_self {f : String → α → Option α} {slots : Slots α}
    (h : ∀ e ∈ slots, f e.1 e.2 = some e.2) : revise f slots = slots := by
  have hid : ∀ e ∈ slots, (f e.1 e.2).map (e.1, ·) = some e := by
    intro e he
    rw [h e he]
    rfl
  exact (List.filterMap_congr hid).trans List.filterMap_some

theorem revise_of_not_contains {name : String} {slots : Slots α}
    (h : contains name slots = false) {f : String → α → Option α}
    (hf : ∀ k v, sameName k name = false → f k v = some v) : revise f slots = slots :=
  revise_eq_self fun e he => hf e.1 e.2 (Bool.eq_false_iff.2 (List.any_eq_false.1 h e he))

theorem remove_eq_revise {slots : Slots α} (hd : Distinct slots) (name : String) :
    remove name slots = revise (dropping name) slots := by
  induction slots with
  | nil => rfl
  | cons e rest ih =>
    obtain ⟨k, v⟩ := e
    obtain ⟨hfree, hrest⟩ := distinct_cons.1 hd
    rw [remove, revise, List.filterMap_cons]
    by_cases hk : sameName k name = true
    · have hname : contains name rest = false := by rw [← contains_congr hk, hfree]
      have hrevise : revise (dropping name) rest = rest :=
        revise_of_not_contains hname dropping_of_ne
      rw [if_pos hk, dropping, if_pos hk]
      exact hrevise.symm
    · rw [if_neg hk, dropping, if_neg hk, ih hrest]
      rfl

theorem insert_eq_revise {slots : Slots α} (hd : Distinct slots) {name : String}
    (h : contains name slots = true) (value : α) :
    insert name value slots = revise (writing name value) slots := by
  induction slots with
  | nil => cases h
  | cons e rest ih =>
    obtain ⟨k, v⟩ := e
    obtain ⟨hfree, hrest⟩ := distinct_cons.1 hd
    rw [insert, revise, List.filterMap_cons]
    by_cases hk : sameName k name = true
    · have hname : contains name rest = false := by rw [← contains_congr hk, hfree]
      have hrevise : revise (writing name value) rest = rest :=
        revise_of_not_contains hname (writing_of_ne value)
      rw [if_pos hk, writing, if_pos hk]
      exact congrArg _ hrevise.symm
    · have hname : contains name rest = true := by
        simpa only [contains, List.any_cons, Bool.eq_false_iff.2 hk, Bool.false_or] using h
      rw [if_neg hk, writing, if_neg hk, ih hrest hname]
      rfl

theorem map_eq_revise (f : String → α → α) (slots : Slots α) :
    (slots.map fun e => (e.1, f e.1 e.2)) = revise (fun k v => some (f k v)) slots := by
  rw [revise, ← List.filterMap_eq_map']
  rfl

theorem retain_eq_revise (keep : String → α → Bool) (slots : Slots α) :
    retain keep slots = revise (fun k v => if keep k v then some v else none) slots := by
  rw [retain, revise, ← List.filterMap_eq_filter]
  refine List.filterMap_congr fun e _ => ?_
  rw [Option.guard]
  cases keep e.1 e.2 with
  | false => rfl
  | true => rfl

end

/-! ## Calls -/

/-- The entries of a document that is an object, `inner` when it is part of another. -/
def entries? (inner : Bool) : Json → Option (List (String × Content))
  | .object members => members.mapM fun m => (Content.ofJsonAt? inner m.2).map (m.1, ·)
  | _ => none

/-- Slots of a document: its entries written one after the other, whatever names they repeat. -/
def ofJson? (inner : Bool) (doc : Json) : Option (Slots Content) :=
  (entries? inner doc).map ofList

theorem entriesOfJson?_eq (members : List (String × Json)) :
    Content.entriesOfJson? members = entries? true (.object members) := by
  induction members with
  | nil =>
    rw [Content.entriesOfJson?]
    rfl
  | cons m rest ih =>
    obtain ⟨k, v⟩ := m
    rw [Content.entriesOfJson?, ih]
    simp only [entries?, List.mapM_cons]
    cases Content.ofJsonAt? true v with
    | none => rfl
    | some c =>
      cases rest.mapM fun m => (Content.ofJsonAt? true m.2).map (m.1, ·) with
      | none => rfl
      | some cs => rfl

/-- The slots of a content are read in this way. -/
theorem requiredSlots?_eq (members : List (String × Json)) :
    Content.requiredSlots? members = (Json.member? "slots" members).bind (ofJson? true) := by
  unfold Content.requiredSlots?
  split
  · rename_i entries h
    rw [h, Option.bind_some, ofJson?, entriesOfJson?_eq]
  · rename_i h
    cases hslots : Json.member? "slots" members with
    | none => rfl
    | some doc =>
      cases doc with
      | object entries => exact absurd hslots (h entries)
      | _ => rfl

/-- Calls that change slots. Names are distinct, so what a caller decides entry by entry is decided
name by name. -/
inductive Call where
  | insert (name : String) (value : Content)
  | remove (name : String)
  | overwrite (name : String) (value : Content)
  | overwriteAll (f : String → Content → Content)
  | retain (keep : String → Content → Bool)
  | read (inner : Bool) (doc : Json)

/-- The answer of a call and the slots after it. A document that cannot be read leaves them. -/
def perform (slots : Slots Content) : Call → Option Content × Slots Content
  | .insert name value => exchange name value slots
  | .remove name => take name slots
  | .overwrite name value => overwrite name value slots
  | .overwriteAll f => (none, slots.map fun e => (e.1, f e.1 e.2))
  | .retain keep => (none, retain keep slots)
  | .read inner doc => (none, (ofJson? inner doc).getD slots)

def run (slots : Slots Content) (calls : List Call) : Slots Content :=
  calls.foldl (fun slots call => (perform slots call).2) slots

/-! ## The ledger -/

/-- Since when a name is there, how it was spelled then, and what was last written under any
spelling of it. -/
structure Life (α : Type) where
  since : Nat
  spelling : String
  value : α

/-- The lives of the names that are there now, by folded name. The clock counts writes. -/
structure Ledger (α : Type) where
  clock : Nat
  live : String → Option (Life α)

namespace Ledger

section

variable {α : Type}

def empty : Ledger α :=
  ⟨0, fun _ => none⟩

def value? (name : String) (ledger : Ledger α) : Option α :=
  (ledger.live (foldName name)).map (·.value)

/-- A name that is not there comes now, in this spelling. One that is there gets the value. -/
def write (name : String) (value : α) (ledger : Ledger α) : Ledger α where
  clock := ledger.clock + 1
  live := Function.update ledger.live (foldName name) <| some <|
    match ledger.live (foldName name) with
    | some life => { life with value := value }
    | none => ⟨ledger.clock, name, value⟩

theorem live_write_of_none {name : String} {ledger : Ledger α}
    (h : ledger.live (foldName name) = none) (value : α) :
    (ledger.write name value).live (foldName name) = some ⟨ledger.clock, name, value⟩ := by
  simp only [write, Function.update_self, h]

theorem live_write_of_some {name : String} {ledger : Ledger α} {life : Life α}
    (h : ledger.live (foldName name) = some life) (value : α) :
    (ledger.write name value).live (foldName name) = some { life with value := value } := by
  simp only [write, Function.update_self, h]

theorem live_write_of_ne {name key : String} (h : key ≠ foldName name) (value : α)
    (ledger : Ledger α) : (ledger.write name value).live key = ledger.live key :=
  Function.update_of_ne h _ _

/-- The life of a name ends. -/
def erase (name : String) (ledger : Ledger α) : Ledger α :=
  { ledger with live := Function.update ledger.live (foldName name) none }

theorem live_erase_self (name : String) (ledger : Ledger α) :
    (ledger.erase name).live (foldName name) = none :=
  Function.update_self _ _ _

theorem live_erase_of_ne {name key : String} (h : key ≠ foldName name) (ledger : Ledger α) :
    (ledger.erase name).live key = ledger.live key :=
  Function.update_of_ne h _ _

/-- All lives end. -/
def clear (ledger : Ledger α) : Ledger α :=
  { ledger with live := fun _ => none }

def writeAll (entries : List (String × α)) (ledger : Ledger α) : Ledger α :=
  entries.foldl (fun ledger e => ledger.write e.1 e.2) ledger

end

/-- What a call is for a map of names that remembers when they came. -/
def perform (ledger : Ledger Content) : Call → Option Content × Ledger Content
  | .insert name value => (ledger.value? name, ledger.write name value)
  | .remove name => (ledger.value? name, ledger.erase name)
  | .overwrite name value =>
    (ledger.value? name, if (ledger.value? name).isSome then ledger.write name value else ledger)
  | .overwriteAll f => (none, { ledger with
      live := fun key => (ledger.live key).map fun life =>
        { life with value := f life.spelling life.value } })
  | .retain keep => (none, { ledger with
      live := fun key => (ledger.live key).filter fun life => keep life.spelling life.value })
  | .read inner doc =>
    match entries? inner doc with
    | some entries => (none, ledger.clear.writeAll entries)
    | none => (none, ledger)

def run (ledger : Ledger Content) (calls : List Call) : Ledger Content :=
  calls.foldl (fun ledger call => (ledger.perform call).2) ledger

end Ledger

section

variable {α : Type}

/-- The lives of a ledger, oldest first: these, and no others, each at its name. -/
structure Ledger.Lists (ledger : Ledger α) (lives : List (Life α)) : Prop where
  sorted : lives.Pairwise fun a b => a.since < b.since
  exact : ∀ key life, ledger.live key = some life ↔ life ∈ lives ∧ foldName life.spelling = key
  past : ∀ life ∈ lives, life.since < ledger.clock

def Life.entry (life : Life α) : String × α :=
  (life.spelling, life.value)

/-- Slots list what a ledger has, in the order in which the names came. -/
def Shows (slots : Slots α) (ledger : Ledger α) : Prop :=
  ∃ lives, ledger.Lists lives ∧ slots = lives.map Life.entry

/-- The life goes on with another value, or ends. -/
def Life.revise (f : String → α → Option α) (life : Life α) : Option (Life α) :=
  (f life.spelling life.value).map fun value => { life with value := value }

namespace Ledger.Lists

variable {ledger ledger' : Ledger α} {lives : List (Life α)}

theorem nil (h : ∀ key, ledger.live key = none) : ledger.Lists [] where
  sorted := .nil
  exact key life := by simp [h key]
  past := by simp

/-- One name, one life. -/
theorem eq_of_key (h : ledger.Lists lives) {a b : Life α} (ha : a ∈ lives) (hb : b ∈ lives)
    (hkey : foldName a.spelling = foldName b.spelling) : a = b := by
  have hlive := (h.exact _ a).2 ⟨ha, hkey⟩
  rw [(h.exact _ b).2 ⟨hb, rfl⟩] at hlive
  cases hlive
  rfl

theorem distinct (h : ledger.Lists lives) : Distinct (lives.map Life.entry) := by
  rw [Distinct, List.map_map]
  refine List.pairwise_map.2 (List.Pairwise.imp_of_mem ?_ h.sorted)
  intro a b ha hb hlt hkey
  rw [h.eq_of_key ha hb hkey] at hlt
  exact Nat.lt_irrefl _ hlt

theorem get? (h : ledger.Lists lives) (name : String) :
    Slots.get? name (lives.map Life.entry) = ledger.value? name := by
  unfold value?
  cases hlive : ledger.live (foldName name) with
  | some life =>
    obtain ⟨hmem, hkey⟩ := (h.exact _ life).1 hlive
    exact get?_of_mem h.distinct (List.mem_map_of_mem hmem) (sameName_iff.2 hkey)
  | none =>
    cases hget : Slots.get? name (lives.map Life.entry) with
    | none => rfl
    | some v =>
      obtain ⟨k, hk, hmem⟩ := mem_of_get? hget
      obtain ⟨life, hlife, hentry⟩ := List.mem_map.1 hmem
      cases hentry
      rw [(h.exact _ life).2 ⟨hlife, sameName_iff.1 hk⟩] at hlive
      cases hlive

/-- Lives that go on keep their place, whatever becomes of the others. -/
theorem revise (h : ledger.Lists lives) {f : String → α → Option α}
    (hclock : ledger.clock ≤ ledger'.clock)
    (hlive : ∀ key, ledger'.live key = (ledger.live key).bind (Life.revise f)) :
    ledger'.Lists (lives.filterMap (Life.revise f)) := by
  -- a revision touches neither the stamp nor the spelling, and order and key depend on no more
  have hkeeps : ∀ {a b : Life α}, Life.revise f a = some b →
      b.since = a.since ∧ b.spelling = a.spelling := by
    intro a b hab
    obtain ⟨value, -, rfl⟩ := Option.map_eq_some_iff.1 hab
    exact ⟨rfl, rfl⟩
  constructor
  case sorted =>
    refine List.Pairwise.filterMap (Life.revise f) ?_ h.sorted
    intro a b hlt a' ha b' hb
    rw [(hkeeps ha).1, (hkeeps hb).1]
    exact hlt
  case exact =>
    intro key life
    simp only [hlive, Option.bind_eq_some_iff, List.mem_filterMap, h.exact]
    constructor
    · rintro ⟨a, ⟨ha, hkey⟩, hrevise⟩
      exact ⟨⟨a, ha, hrevise⟩, (hkeeps hrevise).2 ▸ hkey⟩
    · rintro ⟨⟨a, ha, hrevise⟩, hkey⟩
      exact ⟨a, ⟨ha, (hkeeps hrevise).2 ▸ hkey⟩, hrevise⟩
  case past =>
    intro life hlife
    obtain ⟨a, ha, hrevise⟩ := List.mem_filterMap.1 hlife
    rw [(hkeeps hrevise).1]
    exact Nat.lt_of_lt_of_le (h.past a ha) hclock

/-- A new name comes last. -/
theorem write_new (h : ledger.Lists lives) {name : String}
    (hnew : ledger.live (foldName name) = none) (value : α) :
    (ledger.write name value).Lists (lives ++ [⟨ledger.clock, name, value⟩]) := by
  constructor
  case sorted =>
    refine List.pairwise_append.2 ⟨h.sorted, List.pairwise_singleton _ _, ?_⟩
    intro a ha b hb
    rw [List.mem_singleton.1 hb]
    exact h.past a ha
  case exact =>
    intro key life
    rw [List.mem_append, List.mem_singleton]
    by_cases hkey : key = foldName name
    · subst hkey
      rw [live_write_of_none hnew, Option.some.injEq]
      constructor
      · rintro rfl
        exact ⟨.inr rfl, rfl⟩
      · rintro ⟨hmem | rfl, hlife⟩
        · rw [(h.exact _ life).2 ⟨hmem, hlife⟩] at hnew
          cases hnew
        · rfl
    · rw [live_write_of_ne hkey, h.exact]
      constructor
      · exact fun ⟨hmem, hlife⟩ => ⟨.inl hmem, hlife⟩
      · rintro ⟨hmem | rfl, hlife⟩
        · exact ⟨hmem, hlife⟩
        · exact absurd hlife.symm hkey
  case past =>
    intro life hlife
    rcases List.mem_append.1 hlife with hmem | hmem
    · exact Nat.lt_succ_of_lt (h.past life hmem)
    · rw [List.mem_singleton.1 hmem]
      exact Nat.lt_succ_self _

end Ledger.Lists

/-! ## Slots and the ledger that they show -/

namespace Shows

variable {slots : Slots α} {ledger ledger' : Ledger α}

theorem distinct (h : Shows slots ledger) : Distinct slots := by
  obtain ⟨lives, hlives, rfl⟩ := h
  exact hlives.distinct

theorem get? (h : Shows slots ledger) (name : String) :
    Slots.get? name slots = ledger.value? name := by
  obtain ⟨lives, hlives, rfl⟩ := h
  exact hlives.get? name

theorem contains (h : Shows slots ledger) (name : String) :
    Slots.contains name slots = (ledger.value? name).isSome := by
  rw [contains_eq_isSome_get?, h.get?]

/-- A life is kept under its name. -/
theorem key (h : Shows slots ledger) {key : String} {life : Life α}
    (hlive : ledger.live key = some life) : foldName life.spelling = key := by
  obtain ⟨lives, hlives, -⟩ := h
  exact ((hlives.exact key life).1 hlive).2

theorem revise (h : Shows slots ledger) {f : String → α → Option α}
    (hclock : ledger.clock ≤ ledger'.clock)
    (hlive : ∀ key life, ledger.live key = some life → ledger'.live key = life.revise f)
    (hnone : ∀ key, ledger.live key = none → ledger'.live key = none) :
    Shows (Slots.revise f slots) ledger' := by
  obtain ⟨lives, hlives, rfl⟩ := h
  refine ⟨lives.filterMap (Life.revise f), hlives.revise hclock ?_, ?_⟩
  · intro key
    cases hkey : ledger.live key with
    | none => exact hnone key hkey
    | some life => exact hlive key life hkey
  · rw [Slots.revise, List.filterMap_map, List.map_filterMap]
    refine List.filterMap_congr fun life _ => ?_
    simp only [Function.comp_apply, Life.entry, Life.revise, Option.map_map]
    rfl

/-- A revision of one name. -/
theorem revise_at (h : Shows slots ledger) {name : String} {f : String → α → Option α}
    (hf : ∀ k v, sameName k name = false → f k v = some v)
    (hclock : ledger.clock ≤ ledger'.clock)
    (hself : ∀ life, ledger.live (foldName name) = some life →
      ledger'.live (foldName name) = life.revise f)
    (hnone : ledger.live (foldName name) = none → ledger'.live (foldName name) = none)
    (hothers : ∀ key, key ≠ foldName name → ledger'.live key = ledger.live key) :
    Shows (Slots.revise f slots) ledger' := by
  refine h.revise hclock ?_ ?_
  · intro key life hlive
    by_cases hname : key = foldName name
    · subst hname
      exact hself life hlive
    · have hother : sameName life.spelling name = false :=
        sameName_eq_false_iff.2 (h.key hlive ▸ hname)
      rw [hothers key hname, hlive, Life.revise, hf _ _ hother]
      rfl
  · intro key hkey
    by_cases hname : key = foldName name
    · subst hname
      exact hnone hkey
    · rw [hothers key hname, hkey]

theorem erase (h : Shows slots ledger) (name : String) :
    Shows (remove name slots) (ledger.erase name) := by
  rw [remove_eq_revise h.distinct]
  refine h.revise_at dropping_of_ne (Nat.le_refl _) ?_ ?_ ?_
  · intro life hlive
    rw [Ledger.live_erase_self, Life.revise, dropping, if_pos (sameName_iff.2 (h.key hlive))]
    rfl
  · intro _
    exact Ledger.live_erase_self name ledger
  · intro key hname
    exact Ledger.live_erase_of_ne hname ledger

theorem write (h : Shows slots ledger) (name : String) (value : α) :
    Shows (insert name value slots) (ledger.write name value) := by
  -- a new name goes to the end, one that lives is revised where it is
  have hcontains := h.contains name
  rw [Ledger.value?] at hcontains
  cases hfound : ledger.live (foldName name) with
  | none =>
    rw [hfound, Option.map_none, Option.isSome_none] at hcontains
    obtain ⟨lives, hlives, rfl⟩ := h
    refine ⟨_, hlives.write_new hfound value, ?_⟩
    rw [insert_of_not_contains hcontains, List.map_append]
    rfl
  | some old =>
    rw [hfound, Option.map_some, Option.isSome_some] at hcontains
    rw [insert_eq_revise h.distinct hcontains]
    refine h.revise_at (writing_of_ne value) (Nat.le_succ _) ?_ ?_ ?_
    · intro life hlive
      rw [Ledger.live_write_of_some hlive, Life.revise, writing,
        if_pos (sameName_iff.2 (h.key hlive))]
      rfl
    · intro hnone
      rw [hfound] at hnone
      cases hnone
    · intro key hname
      exact Ledger.live_write_of_ne hname value ledger

theorem writeAll (h : Shows slots ledger) (entries : List (String × α)) :
    Shows (entries.foldl (fun slots e => insert e.1 e.2 slots) slots)
      (ledger.writeAll entries) := by
  induction entries generalizing slots ledger with
  | nil => exact h
  | cons e rest ih => exact ih (h.write e.1 e.2)

end Shows

end

section

variable {slots : Slots Content} {ledger : Ledger Content}

/-- What one call does. -/
theorem Shows.perform (h : Shows slots ledger) (call : Call) :
    (Slots.perform slots call).1 = (ledger.perform call).1 ∧
      Shows (Slots.perform slots call).2 (ledger.perform call).2 := by
  cases call with
  | insert name value =>
    simp only [Slots.perform, exchange_eq]
    exact ⟨h.get? name, h.write name value⟩
  | remove name =>
    simp only [Slots.perform, take_eq]
    exact ⟨h.get? name, h.erase name⟩
  | overwrite name value =>
    simp only [Slots.perform, overwrite_eq, replace, h.contains]
    refine ⟨h.get? name, ?_⟩
    show Shows _ (if _ then _ else _)
    split
    · exact h.write name value
    · exact h
  | overwriteAll f =>
    refine ⟨rfl, ?_⟩
    simp only [Slots.perform, map_eq_revise]
    refine h.revise (Nat.le_refl _) ?_ ?_
    · intro key life hlive
      simp only [Ledger.perform, hlive]
      rfl
    · intro key hnone
      simp only [Ledger.perform, hnone]
      rfl
  | retain keep =>
    refine ⟨rfl, ?_⟩
    simp only [Slots.perform, retain_eq_revise]
    refine h.revise (Nat.le_refl _) ?_ ?_
    · intro key life hlive
      simp only [Ledger.perform, hlive, Life.revise, Option.filter_some]
      cases keep life.spelling life.value with
      | false => rfl
      | true => rfl
    · intro key hnone
      simp only [Ledger.perform, hnone]
      rfl
  | read inner doc =>
    refine ⟨by simp only [Slots.perform, Ledger.perform]; split <;> rfl, ?_⟩
    simp only [Slots.perform, Ledger.perform, ofJson?]
    cases entries? inner doc with
    | none => exact h
    | some entries =>
      -- what was there before is gone, and every entry of the document is a write
      have hnil : Shows [] ledger.clear := ⟨[], .nil fun _ => rfl, rfl⟩
      exact hnil.writeAll entries

theorem Shows.run (h : Shows slots ledger) (calls : List Call) :
    Shows (Slots.run slots calls) (ledger.run calls) := by
  induction calls generalizing slots ledger with
  | nil => exact h
  | cons call rest ih => exact ih (h.perform call).2

end

/-- After any calls, from no slots: names are distinct, a name under any spelling has the value that
was last written in its present life, the entries are the lives, oldest first, each with its first
spelling, and the next call has the answer of the map. -/
theorem run_refines_ledger (calls : List Call) :
    let slots := run [] calls
    let ledger := Ledger.empty.run calls
    Distinct slots ∧ (∀ name, get? name slots = ledger.value? name) ∧
      (∃ lives, ledger.Lists lives ∧ slots = lives.map fun life => (life.spelling, life.value)) ∧
      ∀ call, (perform slots call).1 = (ledger.perform call).1 := by
  have hempty : Shows [] (Ledger.empty : Ledger Content) := ⟨[], .nil fun _ => rfl, rfl⟩
  have h := hempty.run calls
  exact ⟨h.distinct, h.get?, h, fun call => (h.perform call).1⟩

end Slots
end AgentContent
