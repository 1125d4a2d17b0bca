import Mathlib.Data.List.Induction
import Mathlib.Logic.Function.Basic
import AgentContent.Proofs.Manager.State
import AgentContent.Vocabulary.Basic

/-!
# AgentContent.Proofs.Manager.Interleaving

Callers that share a manager. A call enters the manager twice: it looks its language up, leaves,
and enters again to merge the ontology for the language that it found. Registrations of others may
come in between, and threads that panic there.

* `Turn`, `System.run`: what one critical section does, and the critical sections of any number of
  callers and registrations in any order.
* `System.Effect`: everything that one of them can do.
* `System.traced_run`: whatever the order, what is remembered is the merge of an ontology that is
  registered now with a language that was registered under the name at some time.
* `System.run_coherent_iff`: what is remembered is up to date throughout just when no caller stores
  a merge for a language that was replaced after its look-up.
* `System.coherent_of_spares`: it is, when no language is replaced while a caller holds it.
* `System.resolve_crossing`: a caller that comes too late leaves the replaced vocabulary to others.
-/

namespace AgentContent
namespace Manager

/-! ## Critical sections -/

/-- What a caller keeps from its first critical section for its second one. -/
structure Held where
  name : String
  language : Language
  ontology : Option String

/-- A manager and its callers, each between its two critical sections or outside of them. -/
structure System where
  manager : Manager
  held : Nat → Option Held := fun _ => none

/-- One critical section, one that ends in a panic, or a change of the flags. -/
inductive Turn where
  | registerLanguage (name : String) (l : Language)
  | registerOntology (name : String) (o : Ontology)
  | setFlags (validating strict : Bool)
  | poison
  | lookUp (caller : Nat) (msg : Message)
  | lookUpFor (caller : Nat) (language : String) (ontology : Option String)
  | merge (caller : Nat)

namespace System

/-- A call that failed leaves nothing behind, neither does a registration. -/
def registered (s : System) (r : Except ContentError Manager) : System :=
  match r with
  | .error _ => s
  | .ok m => { s with manager := m }

/-- A caller that holds something already is in the middle of a call. -/
def hold (s : System) (caller : Nat) (h : Held) : System :=
  match s.held caller with
  | some _ => s
  | none => { s with held := Function.update s.held caller (some h) }

def release (s : System) (caller : Nat) : System :=
  { s with held := Function.update s.held caller none }

def take (s : System) : Turn → System
  | .registerLanguage name l => s.registered (s.manager.registerLanguageAs name l)
  | .registerOntology name o => s.registered (s.manager.registerOntologyAs name o)
  | .setFlags validating strict =>
    { s with manager := { s.manager with validating := validating, strict := strict } }
  | .poison => { s with manager := s.manager.poison }
  | .lookUp caller msg =>
    match s.manager.resolveLanguage msg with
    | .error _ => s
    | .ok (name, l) => s.hold caller ⟨name, l, msg.ontology⟩
  | .lookUpFor caller language ontology =>
    match s.manager.requireLanguage language with
    | .error _ => s
    | .ok l => s.hold caller ⟨language, l, ontology⟩
  | .merge caller =>
    match s.held caller with
    | none => s
    | some h =>
      match s.manager.merged h.name h.language h.ontology with
      | .error _ => s.release caller
      | .ok (_, m) => { s.release caller with manager := m }

def run (s : System) (turns : List Turn) : System :=
  turns.foldl take s

/-- A new manager that nobody has called yet. -/
def start (settings : ContentSettings) : System where
  manager := ofSettings settings

theorem run_append_singleton (s : System) (past : List Turn) (t : Turn) :
    s.run (past ++ [t]) = (s.run past).take t := by
  rw [run, List.foldl_append, List.foldl_cons, List.foldl_nil, run]

end System

/-! ## What a turn may do -/

/-- A merge leaves the registries alone. It remembers at most what it merged, where nothing was
remembered and no thread has panicked. -/
theorem merged_cases {m m' : Manager} {name : String} {l : Language} {ontology : Option String}
    {o : Ontology} (h : m.merged name l ontology = .ok (o, m')) :
    (m' = m ∧ m.merges.lookup (mergeKey name ontology) = some o) ∨
      (m.poisoned = false ∧ m.merges.lookup (mergeKey name ontology) = none ∧
        m.merge l ontology = .ok o ∧
          m' = { m with merges := (mergeKey name ontology, o) :: m.merges }) := by
  obtain ⟨hsound, h⟩ := lock_eq_ok_iff.1 h
  split at h
  · rename_i hlookup
    cases h
    exact .inl ⟨rfl, hlookup⟩
  · rename_i hlookup
    split at h
    · cases h
    · rename_i ho
      cases h
      exact .inr ⟨hsound, hlookup, ho, rfl⟩

namespace System

/-- Everything that one turn can do to the manager and to what callers hold. -/
inductive Effect (s : System) : Turn → System → Prop where
  /-- Nothing, as after a failure. -/
  | nothing (t : Turn) : Effect s t s
  | registerLanguage (name : String) (l : Language) :
    Effect s (.registerLanguage name l) { s with manager := { s.manager with
      languages := Registry.put name l s.manager.languages, merges := [] } }
  | registerOntology (name : String) (o : Ontology) :
    Effect s (.registerOntology name o) { s with manager := { s.manager with
      ontologies := Registry.put name o s.manager.ontologies, merges := [] } }
  | setFlags (validating strict : Bool) :
    Effect s (.setFlags validating strict)
      { s with manager := { s.manager with validating := validating, strict := strict } }
  | poison : Effect s .poison { s with manager := s.manager.poison }
  /-- A language that is registered now is held from now on. -/
  | hold {t : Turn} (caller : Nat) {h : Held} (hl : s.manager.language? h.name = some h.language) :
    Effect s t { s with held := Function.update s.held caller (some h) }
  | release (caller : Nat) : Effect s (.merge caller) (s.release caller)
  /-- A merge for what the caller holds is remembered where nothing was. -/
  | remember {caller : Nat} {h : Held} {o : Ontology} (hsound : s.manager.poisoned = false)
    (hheld : s.held caller = some h)
    (hnone : s.manager.merges.lookup (mergeKey h.name h.ontology) = none)
    (ho : s.manager.merge h.language h.ontology = .ok o) :
    Effect s (.merge caller) { s.release caller with manager := { s.manager with
      merges := (mergeKey h.name h.ontology, o) :: s.manager.merges } }

theorem effect_hold (s : System) (t : Turn) (caller : Nat) {h : Held}
    (hl : s.manager.language? h.name = some h.language) : s.Effect t (s.hold caller h) := by
  unfold System.hold
  split
  · exact .nothing t
  · exact .hold caller hl

theorem effect_take (s : System) (t : Turn) : s.Effect t (s.take t) := by
  cases t with
  | registerLanguage name l =>
    rw [take]
    cases h : s.manager.registerLanguageAs name l with
    | error e => exact .nothing _
    | ok m =>
      obtain ⟨-, -, rfl⟩ := registerLanguageAs_eq_ok_iff.1 h
      exact .registerLanguage name l
  | registerOntology name o =>
    rw [take]
    cases h : s.manager.registerOntologyAs name o with
    | error e => exact .nothing _
    | ok m =>
      obtain ⟨-, -, rfl⟩ := registerOntologyAs_eq_ok_iff.1 h
      exact .registerOntology name o
  | setFlags validating strict => exact .setFlags validating strict
  | poison => exact .poison
  | lookUp caller msg =>
    rw [take]
    split
    · exact .nothing _
    · rename_i hl
      exact s.effect_hold _ caller (sound_and_language?_of_resolveLanguage hl).2
  | lookUpFor caller language ontology =>
    rw [take]
    split
    · exact .nothing _
    · rename_i hl
      exact s.effect_hold _ caller (requireLanguage_eq_ok_iff.1 hl).2
  | merge caller =>
    rw [take]
    split
    · exact .nothing _
    · rename_i h hheld
      split
      · exact .release caller
      · rename_i hmerged
        rcases merged_cases hmerged with ⟨rfl, -⟩ | ⟨hsound, hnone, ho, rfl⟩
        · exact .release caller
        · exact .remember hsound hheld hnone ho

/-! ## Where what is remembered comes from -/

/-- The language was registered under the name, spelled in this way or another. -/
def Given (past : List Turn) (name : String) (l : Language) : Prop :=
  ∃ spelling, .registerLanguage spelling l ∈ past ∧ sameName spelling name = true

theorem Given.later {past : List Turn} {name : String} {l : Language} (h : Given past name l)
    (t : Turn) : Given (past ++ [t]) name l := by
  obtain ⟨spelling, hmem, hname⟩ := h
  exact ⟨spelling, List.mem_append_left _ hmem, hname⟩

theorem Given.congr {past : List Turn} {a b : String} {l : Language} (h : Given past a l)
    (hname : sameName a b = true) : Given past b l := by
  obtain ⟨spelling, hmem, hspelling⟩ := h
  exact ⟨spelling, hmem, sameName_trans hspelling hname⟩

/-- Everything in a state goes back to turns of the past: its languages, those that callers hold,
and what is remembered, as far as it is of a language. What is remembered of ontologies is what is
registered now. -/
structure Traced (past : List Turn) (s : System) : Prop where
  languages : ∀ name l, s.manager.language? name = some l → Given past name l
  held : ∀ caller h, s.held caller = some h → Given past h.name h.language
  merges : ∀ name ontology o, s.manager.merges.lookup (mergeKey name ontology) = some o →
    ∃ l, Given past name l ∧ s.manager.merge l ontology = .ok o

theorem traced_start (settings : ContentSettings) : (start settings).Traced [] where
  languages _ _ h := by cases h
  held _ _ h := by cases h
  merges _ _ _ h := by cases h

section

variable {s s' : System} {t : Turn} {past : List Turn}

theorem Traced.later (hs : s.Traced past) (t : Turn) : s.Traced (past ++ [t]) where
  languages name l h := (hs.languages name l h).later t
  held caller h hh := (hs.held caller h hh).later t
  merges name ontology o h := by
    obtain ⟨l, hl, ho⟩ := hs.merges name ontology o h
    exact ⟨l, hl.later t, ho⟩

/-- What callers hold after one of them got hold of something or let it go. -/
theorem held_update {caller other : Nat} {value : Option Held} {h : Held}
    (hh : Function.update s.held caller value other = some h) :
    value = some h ∨ s.held other = some h := by
  by_cases hother : other = caller
  · rw [hother, Function.update_self] at hh
    exact .inl hh
  · rw [Function.update_of_ne hother] at hh
    exact .inr hh

theorem Traced.release (hs : s.Traced past) (caller : Nat) : (s.release caller).Traced past where
  languages := hs.languages
  held other h hh := by
    rcases held_update hh with hnone | hh
    · cases hnone
    · exact hs.held other h hh
  merges := hs.merges

theorem Effect.traced (he : s.Effect t s') (hs : s.Traced past) : s'.Traced (past ++ [t]) := by
  have hlater := hs.later t
  cases he with
  | nothing => exact hlater
  | registerLanguage name l =>
    refine ⟨fun key found hfound => ?_, hlater.held, fun _ _ _ h => by cases h⟩
    rw [language?, Registry.get?_put] at hfound
    split at hfound
    · rename_i hname
      cases hfound
      exact ⟨name, by simp, hname⟩
    · exact hlater.languages key found hfound
  | registerOntology name o =>
    exact ⟨hlater.languages, hlater.held, fun _ _ _ h => by cases h⟩
  | setFlags validating strict => exact ⟨hlater.languages, hlater.held, hlater.merges⟩
  | poison => exact ⟨hlater.languages, hlater.held, hlater.merges⟩
  | hold caller hl =>
    refine ⟨hlater.languages, fun other h hh => ?_, hlater.merges⟩
    rcases held_update hh with heq | hh
    · cases heq
      exact hlater.languages _ _ hl
    · exact hlater.held other h hh
  | release caller => exact hlater.release caller
  | @remember caller h o hsound hheld hnone ho =>
    refine ⟨hlater.languages, (hlater.release caller).held, fun name ontology o' hlookup => ?_⟩
    by_cases hkey : mergeKey name ontology = mergeKey h.name h.ontology
    · have hname : foldName name = foldName h.name := congrArg Prod.fst hkey
      have hontology : ontology.map foldName = h.ontology.map foldName := congrArg Prod.snd hkey
      simp only [List.lookup_cons, hkey, beq_self_eq_true, Option.some.injEq] at hlookup
      cases hlookup
      exact ⟨h.language, (hlater.held caller h hheld).congr (sameName_iff.2 hname.symm),
        merge_congr s.manager h.language hontology.symm ho⟩
    · rw [List.lookup_cons, beq_false_of_ne hkey] at hlookup
      exact hlater.merges name ontology o' hlookup

theorem traced_run (settings : ContentSettings) (turns : List Turn) :
    ((start settings).run turns).Traced turns := by
  induction turns using List.reverseRecOn with
  | nil => exact traced_start settings
  | append_singleton past t ih =>
    rw [run_append_singleton]
    exact (effect_take _ t).traced ih

/-! ## Merges in time -/

/-- A turn stores nothing for a language that was replaced by one with another merge. Where the
registries are poisoned it stores nothing at all. -/
def Timely (s : System) : Turn → Prop
  | .merge caller => ∀ h l o, s.manager.poisoned = false → s.held caller = some h →
      s.manager.merges.lookup (mergeKey h.name h.ontology) = none →
        s.manager.merge h.language h.ontology = .ok o → s.manager.language? h.name = some l →
          s.manager.merge l h.ontology = .ok o
  | _ => True

theorem Effect.coherent (he : s.Effect t s') (hs : s.manager.Coherent) (ht : s.Timely t) :
    s'.manager.Coherent := by
  cases he with
  | registerLanguage name l => exact coherent_of_merges_nil rfl
  | registerOntology name o => exact coherent_of_merges_nil rfl
  | remember hsound hheld hnone ho =>
    exact hs.remember fun l hl => ht _ l _ hsound hheld hnone ho hl
  | _ => exact hs

theorem take_merge {caller : Nat} {h : Held} {o : Ontology} (hsound : s.manager.poisoned = false)
    (hheld : s.held caller = some h)
    (hnone : s.manager.merges.lookup (mergeKey h.name h.ontology) = none)
    (ho : s.manager.merge h.language h.ontology = .ok o) :
    (s.take (.merge caller)).manager = { s.manager with
      merges := (mergeKey h.name h.ontology, o) :: s.manager.merges } := by
  simp only [take, hheld, merged, lock_of_sound hsound, hnone, ho]

/-- Only a merge that comes too late does harm. -/
theorem coherent_take_iff (hs : s.manager.Coherent) (t : Turn) :
    (s.take t).manager.Coherent ↔ s.Timely t := by
  refine ⟨fun hcoherent => ?_, (effect_take s t).coherent hs⟩
  cases t with
  | merge caller =>
    intro h l o hsound hheld hnone ho hl
    rw [take_merge hsound hheld hnone ho] at hcoherent
    exact hcoherent h.name l h.ontology o hl (by simp only [List.lookup_cons_self])
  | _ => trivial

theorem coherent_run_iff (hs : s.manager.Coherent) (turns : List Turn) :
    (∀ past, past <+: turns → (s.run past).manager.Coherent) ↔
      ∀ past t, past ++ [t] <+: turns → (s.run past).Timely t := by
  constructor
  · intro h past t hpast
    rw [← coherent_take_iff (h past ((List.prefix_append past [t]).trans hpast)),
      ← run_append_singleton]
    exact h _ hpast
  · intro h past hpast
    induction past using List.reverseRecOn with
    | nil => exact hs
    | append_singleton past t ih =>
      rw [run_append_singleton]
      exact (coherent_take_iff (ih ((List.prefix_append past [t]).trans hpast)) t).2
        (h past t hpast)

/-! ## Registrations between two critical sections -/

/-- A language takes a name from no caller that holds one of another vocabulary. -/
def Spares (s : System) : Turn → Prop
  | .registerLanguage name l => ∀ caller h, s.held caller = some h →
      sameName name h.name = true → l.vocabulary? = h.language.vocabulary?
  | _ => True

/-- What a caller holds is still registered, or another language of that vocabulary is. -/
def Current (s : System) : Prop :=
  ∀ caller h, s.held caller = some h →
    ∃ l, s.manager.language? h.name = some l ∧ l.vocabulary? = h.language.vocabulary?

theorem merge_of_vocabulary (m : Manager) {l l' : Language} (h : l.vocabulary? = l'.vocabulary?)
    (ontology : Option String) : m.merge l ontology = m.merge l' ontology := by
  simp only [Manager.merge, h]

theorem Current.timely (hs : s.Current) (t : Turn) : s.Timely t := by
  cases t with
  | merge caller =>
    intro h l o _ hheld _ ho hl
    obtain ⟨l', hl', hvocabulary⟩ := hs caller h hheld
    rw [hl] at hl'
    cases hl'
    rw [merge_of_vocabulary _ hvocabulary, ho]
  | _ => trivial

theorem Current.release (hs : s.Current) (caller : Nat) : (s.release caller).Current := by
  intro other h hh
  rcases held_update hh with hnone | hh
  · cases hnone
  · exact hs other h hh

theorem Effect.current (he : s.Effect t s') (hs : s.Current) (ht : s.Spares t) : s'.Current := by
  cases he with
  | registerLanguage name l =>
    intro caller h hh
    obtain ⟨l', hl', hvocabulary⟩ := hs caller h hh
    rw [language?, Registry.get?_put]
    split
    · rename_i hname
      exact ⟨l, rfl, ht caller h hh hname⟩
    · exact ⟨l', hl', hvocabulary⟩
  | hold caller hl =>
    intro other h hh
    rcases held_update hh with heq | hh
    · cases heq
      exact ⟨_, hl, rfl⟩
    · exact hs other h hh
  | release caller => exact hs.release caller
  | remember => exact hs.release _
  | _ => exact hs

/-- As long as no language is replaced by one of another vocabulary while a caller holds it, every
state is up to date. -/
theorem coherent_of_spares (settings : ContentSettings) (turns : List Turn)
    (h : ∀ past t, past ++ [t] <+: turns → ((start settings).run past).Spares t) :
    ((start settings).run turns).manager.Coherent ∧ ((start settings).run turns).Current := by
  induction turns using List.reverseRecOn with
  | nil => exact ⟨coherent_of_merges_nil rfl, fun caller held hh => by cases hh⟩
  | append_singleton past t ih =>
    obtain ⟨hcoherent, hcurrent⟩ := ih fun past' t' hpast =>
      h past' t' (hpast.trans (List.prefix_append past [t]))
    have heffect := effect_take ((start settings).run past) t
    rw [run_append_singleton]
    exact ⟨heffect.coherent hcoherent (hcurrent.timely t),
      heffect.current hcurrent (h past t (List.prefix_refl _))⟩

end

/-! ## The states of a shared manager -/

/-- What a shared manager remembers is of the ontologies that are registered and of languages that
were registered at some time. It is up to date throughout just when no caller stores a merge for a
language that was replaced by one with another merge since the caller looked it up. -/
theorem run_coherent_iff (settings : ContentSettings) (turns : List Turn) :
    (∀ name ontology o,
        ((start settings).run turns).manager.merges.lookup (mergeKey name ontology) = some o →
          ∃ l, Given turns name l ∧
            ((start settings).run turns).manager.merge l ontology = .ok o) ∧
      ((∀ past, past <+: turns → ((start settings).run past).manager.Coherent) ↔
        ∀ past t, past ++ [t] <+: turns → ((start settings).run past).Timely t) :=
  ⟨(traced_run settings turns).merges,
    coherent_run_iff (coherent_of_merges_nil rfl) turns⟩

/-- A caller looks a language up, another one is registered under its name, and the caller merges
what it found. -/
def crossing (name : String) (old new : Language) : List Turn :=
  [.registerLanguage name old, .lookUpFor 0 name none, .registerLanguage name new, .merge 0]

section

variable {name : String} (hname : isEmptyName name = false) (settings : ContentSettings)
  (old new : Language)

include hname

theorem run_crossing : ((start settings).run (crossing name old new)).manager.poisoned = false ∧
    ((start settings).run (crossing name old new)).manager.language? name = some new ∧
    ((start settings).run (crossing name old new)).manager.merges =
      [(mergeKey name none, combine none old.vocabulary?)] := by
  simp only [crossing, run, List.foldl_cons, List.foldl_nil, take, registerLanguageAs, hname,
    lock, ofSettings, Bool.false_eq_true, if_false, registered, requireLanguage, lookUpLanguage,
    language?, Registry.get?_put, sameName_refl, if_true, System.hold, start, Function.update_self,
    merged, List.lookup_nil, Manager.merge, release, and_self]

/-- From then on messages in the language are read and written by the new one, and judged by the
vocabulary of the old one. -/
theorem resolve_crossing {msg : Message} (hl : msg.language = some name)
    (ho : msg.ontology = none) :
    ((start settings).run (crossing name old new)).manager.resolve msg =
      .ok (name, new, combine none old.vocabulary?,
        ((start settings).run (crossing name old new)).manager) := by
  obtain ⟨hsound, hlanguage, hmerges⟩ := run_crossing hname settings old new
  have hfound := requireLanguage_eq_ok_iff.2 ⟨hsound, hlanguage⟩
  simp only [resolve, resolveLanguage, hl, ho, Option.some_or, hfound, merged, lock_of_sound hsound,
    hmerges, List.lookup_cons_self]

end

/-- The operators come with the second language only, so what the first caller left behind is not
what a merge gives. -/
theorem crossing_not_coherent :
    ¬ ∀ turns : List Turn, ((start {}).run turns).manager.Coherent := by
  intro h
  have hname : isEmptyName "fipa-sl" = false := by decide
  obtain ⟨-, hlanguage, hmerges⟩ := run_crossing hname {} (.sl Vocabulary.basic)
    (.sl Vocabulary.operators)
  have hmerge : Except.ok Vocabulary.operators = Except.ok Vocabulary.basic :=
    h _ "fipa-sl" _ none Vocabulary.basic hlanguage (by rw [hmerges]; rfl)
  have hnames : Vocabulary.operators.name = Vocabulary.basic.name :=
    congrArg Ontology.name (Except.ok.inj hmerge)
  exact absurd hnames (by decide)

end System
end Manager
end AgentContent
