import AgentContent.Content.Equality
import AgentContent.Proofs.Content.Equality
import Mathlib.Data.List.Nodup

/-!
# AgentContent.Proofs.Content.Digest

Equal contents have equal digests, whatever function hashes them.

* `Content.slotFeeds_congr`: slots are fed in one order, however they are stored and spelled.
* `Content.digest_of_same`: equal contents have equal digests.
-/

namespace AgentContent

namespace Content

variable {h : HashFunction}

/-! ## Digests of parts -/

theorem digestAll_eq_map (cs : List Content) : digestAll h cs = cs.map (digest h) := by
  induction cs with
  | nil => rfl
  | cons c cs ih => rw [digestAll, ih, List.map_cons]

theorem digestSlots_eq_map (slots : Slots Content) :
    digestSlots h slots = slots.map fun e => (e.1, digest h e.2) := by
  induction slots with
  | nil => rfl
  | cons e slots ih =>
    obtain ⟨k, c⟩ := e
    rw [digestSlots, ih, List.map_cons]

/-! ## Slots in one order -/

/-- Slots by their folded names. -/
def folded (digests : Slots UInt64) : List (String × UInt64) :=
  digests.map fun e => (foldName e.1, e.2)

theorem nodup_keys_folded {digests : Slots UInt64} (hd : Slots.Distinct digests) :
    ((folded digests).map Prod.fst).Nodup := by
  rw [folded, List.map_map]
  exact hd

theorem mem_folded_iff {digests : Slots UInt64} (hd : Slots.Distinct digests) {k : String}
    {d : UInt64} : (k, d) ∈ folded digests ↔
      ∃ name, foldName name = k ∧ Slots.get? name digests = some d := by
  rw [folded, List.mem_map]
  constructor
  · rintro ⟨⟨name, d'⟩, hmem, heq⟩
    cases heq
    exact ⟨name, rfl, Slots.get?_of_mem hd hmem (sameName_refl name)⟩
  · rintro ⟨name, rfl, hget⟩
    obtain ⟨spelling, hname, hmem⟩ := Slots.mem_of_get? hget
    exact ⟨(spelling, d), hmem, by rw [sameName_iff.1 hname]⟩

theorem pairwise_mergeSort_keys (entries : List (String × UInt64)) :
    (entries.mergeSort fun a b => a.1 ≤ b.1).Pairwise fun a b => a.1 ≤ b.1 := by
  have hsorted := @List.pairwise_mergeSort _ (fun a b : String × UInt64 => decide (a.1 ≤ b.1))
    (fun a b c hab hbc => by
      simp only [decide_eq_true_eq] at hab hbc ⊢
      exact String.le_trans hab hbc)
    (fun a b => by
      simp only [Bool.or_eq_true, decide_eq_true_eq]
      exact String.le_total a.1 b.1) entries
  simpa only [decide_eq_true_eq] using hsorted

/-- Equal slots are fed in the same way: different folded names have one order only. -/
theorem slotFeeds_congr {xs ys : Slots UInt64} (hx : Slots.Distinct xs) (hy : Slots.Distinct ys)
    (heq : ∀ name, Slots.get? name xs = Slots.get? name ys) : slotFeeds xs = slotFeeds ys := by
  have hkeys := nodup_keys_folded hx
  have hperm : (folded xs).Perm (folded ys) := by
    rw [List.perm_ext_iff_of_nodup (.of_map _ hkeys) (.of_map _ (nodup_keys_folded hy))]
    rintro ⟨k, d⟩
    simp only [mem_folded_iff hx, mem_folded_iff hy, heq]
  have hsorted : (folded xs).mergeSort (fun a b => a.1 ≤ b.1) =
      (folded ys).mergeSort (fun a b => a.1 ≤ b.1) := by
    refine List.Perm.eq_of_pairwise ?_ (pairwise_mergeSort_keys _) (pairwise_mergeSort_keys _)
      (((List.mergeSort_perm _ _).trans hperm).trans (List.mergeSort_perm _ _).symm)
    intro a b ha hb hab hba
    have ha := (List.mergeSort_perm _ _).mem_iff.1 ha
    have hb := hperm.mem_iff.2 ((List.mergeSort_perm _ _).mem_iff.1 hb)
    exact List.inj_on_of_nodup_map hkeys ha hb (String.le_antisymm hab hba)
  have hlength : xs.length = ys.length := by simpa [folded] using hperm.length_eq
  rw [slotFeeds, slotFeeds, hlength]
  exact congrArg (fun sorted => _ :: List.flatMap _ sorted) hsorted

theorem slotFeeds_of_rel {xs ys : Slots Content} (hx : Slots.Distinct xs)
    (hy : Slots.Distinct ys)
    (hrel : ∀ name, Option.Rel (fun c d => c.same d = true ∧ digest h c = digest h d)
      (Slots.get? name xs) (Slots.get? name ys)) :
    slotFeeds (digestSlots h xs) = slotFeeds (digestSlots h ys) := by
  rw [digestSlots_eq_map, digestSlots_eq_map]
  refine slotFeeds_congr (hx.map _) (hy.map _) fun name => ?_
  rw [Slots.get?_map, Slots.get?_map]
  have hname := hrel name
  generalize Slots.get? name xs = c at hname ⊢
  generalize Slots.get? name ys = d at hname ⊢
  cases hname with
  | none => rfl
  | some hcd => exact congrArg some hcd.2

theorem digestAll_of_forall₂ {xs ys : List Content}
    (hall : List.Forall₂ (fun c d => c.same d = true ∧ digest h c = digest h d) xs ys) :
    digestAll h xs = digestAll h ys := by
  induction hall with
  | nil => rfl
  | cons hcd _ ih => rw [digestAll, digestAll, hcd.2, ih]

/-- Equal contents have equal digests. -/
theorem digest_of_same {c d : Content} (hs : c.same d = true) (hc : c.Each false Keyed)
    (hd : d.Each false Keyed) : digest h c = digest h d := by
  refine same_induction (M := fun c d => digest h c = digest h d) ?_ ?_ ?_ ?_ ?_ ?_ hs hc hd
  · intro p
    rfl
  · intro role type xs ys hx hy hrel
    rw [digest, digest, slottedFeeds, slottedFeeds, slotFeeds_of_rel hx hy hrel]
  · intro type xs ys template template' hall
    rw [digest, digest, digestAll_of_forall₂ hall]
  · intro xs ys isMeta hx hy hrel
    rw [digest, digest, variableFeeds, variableFeeds, slotFeeds_of_rel hx hy hrel]
  · rintro type r r' p p' ⟨-, hr⟩ ⟨-, hp⟩
    rw [digest, digest, hr, hp]
  · intro xs ys hall
    rw [digest, digest, digestAll_of_forall₂ hall]

end Content
end AgentContent
