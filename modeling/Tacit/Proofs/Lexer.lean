import Tacit.Proofs.Inquiry
import Tacit.Token.Lexer

/-!
# Tokens of a source

A source has only tokens that can be spelled: keywords, numbers and identifiers.
-/

namespace Tacit

/-- Whether a token has a spelling. -/
def Token.isSpelled : Token → Bool
  | .keyword _ | .identifier _ | .number _ => true
  | .reference _ | .search _ => false

namespace Lexer

theorem isSpelled_of_read? {lexer : Lexer} {input : List Char} {token : Token}
    {lexeme : List Char} (found : lexer.read? input = some (token, lexeme)) :
    token.isSpelled = true := by
  rw [read?] at found
  split at found
  · cases found
    rfl
  · split at found
    · cases found
      rfl
    · split at found
      · cases found
        rfl
      · contradiction

theorem isSpelled_of_mem_spansFrom {lexer : Lexer} {count start position : Nat}
    {input : List Char} {found : List Span}
    (lexed : lexer.spansFrom count start position input = .ok found) :
    ∀ span ∈ found, span.token.isSpelled = true := by
  induction size : input.length using Nat.strongRecOn
    generalizing count start position input found with
  | ind bound ih =>
      cases input with
      | nil =>
          rw [spansFrom, Except.ok.injEq] at lexed
          subst lexed
          simp
      | cons first rest =>
          rw [spansFrom] at lexed
          split at lexed
          · contradiction
          · split at lexed
            · contradiction
            next token lexeme read =>
              obtain ⟨later, laterLexed, made⟩ := bind_eq_ok_iff.mp lexed
              cases made
              have shorter : (rest.drop (lexeme.length - 1)).length < bound := by
                rw [← size, List.length_drop, List.length_cons]
                omega
              intro span member
              obtain rfl | inLater := List.mem_cons.mp member
              · exact isSpelled_of_read? read
              · exact ih _ shorter laterLexed rfl span inLater

/-- Every token of a source has a spelling. -/
theorem isSpelled_of_mem_tokens {lexer : Lexer} {source : String} {tokens : List Token}
    (lexed : lexer.tokens source = .ok tokens) : ∀ token ∈ tokens, token.isSpelled = true := by
  obtain ⟨found, spansFound, made⟩ := bind_eq_ok_iff.mp lexed
  cases made
  intro token member
  obtain ⟨span, inFound, rfl⟩ := List.mem_map.mp member
  exact isSpelled_of_mem_spansFrom spansFound span inFound

end Lexer

end Tacit
