import AgentContent.Sl.Decode

/-!
# AgentContent.Proofs.Sl.Form

Grouping loses nothing. `Form.tokens` lists the lexical elements of a form in the order of the text.

* `tokensAll_ofTokens`: the forms of some tokens have exactly these tokens.
* `ofTokens_tokens`: a form whose groups are all closed is found again from its tokens.
-/

namespace AgentContent
namespace Sl
namespace Form

/-- The token of a closing parenthesis, if there is one. -/
def closeToken : Option Nat → List Token
  | none => []
  | some offset => [⟨.close, offset⟩]

mutual
/-- The lexical elements of a form in the order of the text. -/
def tokens : Form → List Token
  | .atom lexeme offset => [⟨lexeme, offset⟩]
  | .group offset items closing => ⟨.open, offset⟩ :: (tokensAll items ++ closeToken closing)

def tokensAll : List Form → List Token
  | [] => []
  | f :: rest => f.tokens ++ tokensAll rest
end

theorem tokensAll_append (a b : List Form) : tokensAll (a ++ b) = tokensAll a ++ tokensAll b := by
  induction a with
  | nil => rfl
  | cons f rest ih => simp only [List.cons_append, tokensAll, ih, List.append_assoc]

/-! ## The tokens of what is built -/

/-- The tokens of the groups that are open, the outermost first. -/
def levelTokens : List (Nat × List Form) → List Token
  | [] => []
  | (offset, items) :: levels =>
    levelTokens levels ++ (tokensAll items.reverse ++ [⟨.open, offset⟩])

theorem tokensAll_unwind (levels : List (Nat × List Form)) (items : List Form) :
    tokensAll (unwind items levels) = levelTokens levels ++ tokensAll items.reverse := by
  induction levels generalizing items with
  | nil => simp [unwind, levelTokens]
  | cons level levels ih =>
    obtain ⟨offset, outer⟩ := level
    simp [unwind, levelTokens, ih, tokensAll_append, tokensAll, tokens, closeToken]

theorem tokensAll_build (levels : List (Nat × List Form)) (items : List Form) (ts : List Token) :
    tokensAll (build levels items ts) = levelTokens levels ++ (tokensAll items.reverse ++ ts) := by
  fun_induction build levels items ts with
  | case1 levels items => simp [tokensAll_unwind]
  | case2 levels items offset rest ih =>
    rw [ih]
    simp [levelTokens, tokensAll]
  | case3 items offset rest ih =>
    rw [ih]
    simp [levelTokens, tokensAll_append, tokensAll, tokens]
  | case4 items offset rest start outer levels ih =>
    rw [ih]
    simp [levelTokens, tokensAll_append, tokensAll, tokens, closeToken]
  | case5 levels items lexeme offset rest _ _ ih =>
    rw [ih]
    simp [tokensAll_append, tokensAll, tokens]

theorem tokensAll_ofTokens (ts : List Token) : tokensAll (ofTokens ts) = ts := by
  simp [ofTokens, tokensAll_build, levelTokens, tokensAll]

/-! ## Whole forms -/

/-- All groups are closed, and no parenthesis stands alone. -/
inductive Whole : Form → Prop where
  | atom {lexeme : Lexeme} {offset : Nat} (h : lexeme ≠ .open ∧ lexeme ≠ .close) :
    Whole (.atom lexeme offset)
  | group {offset : Nat} {items : List Form} {closing : Nat} (h : ∀ f ∈ items, Whole f) :
    Whole (.group offset items (some closing))

theorem build_tokensAll {items : List Form}
    (h : ∀ f ∈ items, ∀ levels done rest,
      build levels done (f.tokens ++ rest) = build levels (f :: done) rest)
    (levels : List (Nat × List Form)) (done : List Form) (rest : List Token) :
    build levels done (tokensAll items ++ rest) = build levels (items.reverse ++ done) rest := by
  induction items generalizing done with
  | nil => rfl
  | cons f items ih =>
    rw [tokensAll, List.append_assoc, h f List.mem_cons_self,
      ih (fun g hg => h g (List.mem_cons_of_mem _ hg))]
    simp

theorem build_tokens {f : Form} (hf : Whole f) (levels : List (Nat × List Form))
    (done : List Form) (rest : List Token) :
    build levels done (f.tokens ++ rest) = build levels (f :: done) rest := by
  induction hf generalizing levels done rest with
  | @atom lexeme offset h =>
    cases lexeme with
    | «open» => exact absurd rfl h.1
    | close => exact absurd rfl h.2
    | _ => rfl
  | @group offset items closing _ ih =>
    have := build_tokensAll (fun f hf => ih f hf) ((offset, done) :: levels) []
      (⟨.close, closing⟩ :: rest)
    simp only [tokens, closeToken, List.cons_append, List.append_assoc, List.nil_append, build]
    rw [this]
    simp [build]

theorem ofTokens_tokens {f : Form} (hf : Whole f) : ofTokens f.tokens = [f] := by
  have := build_tokens hf [] [] []
  rw [List.append_nil] at this
  rw [ofTokens, this]
  rfl

end Form
end Sl
end AgentContent
