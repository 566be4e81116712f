import Tacit.Proofs.Language

/-!
# The token limit only truncates

A lexer counts the tokens it has read and asks before each character whether another is allowed.
Lexing without a limit is told on its own: it ends with the source, or at a character with which no
token starts.  A limit leaves both endings as they are where they come in time, and refuses the
source otherwise.  So a higher limit changes no answer but the refusal.
-/

namespace Tacit

namespace Lexer

/-- What lexing comes to when no number of tokens is too many. -/
inductive Lexing (α : Type) where
  /-- The whole source was read. -/
  | complete (found : List α)
  /-- After what was found no token starts with this character, at this character of the source. -/
  | stuck (found : List α) (char : Char) (position : Nat)
  deriving DecidableEq

namespace Lexing

variable {α β : Type}

/-- Put something in front of what was found. -/
def cons (item : α) : Lexing α → Lexing α
  | complete found => complete (item :: found)
  | stuck found char position => stuck (item :: found) char position

/-- Change everything that was found. -/
def map (change : α → β) : Lexing α → Lexing β
  | complete found => complete (found.map change)
  | stuck found char position => stuck (found.map change) char position

/-- What a limit leaves of a lexing that follows `count` tokens. -/
def within (limit : UInt64) (count : Nat) : Lexing α → Except LexError (List α)
  | complete found =>
      if count + found.length ≤ limit.toNat then .ok found
      else .error (.tokenLimitExceeded limit)
  | stuck found char position =>
      if count + found.length < limit.toNat then .error (.unexpectedChar char position)
      else .error (.tokenLimitExceeded limit)

theorem within_cons (limit : UInt64) (count : Nat) (item : α) (lexing : Lexing α) :
    (lexing.cons item).within limit count =
      (item :: ·) <$> lexing.within limit (count + 1) := by
  cases lexing with
  | complete found =>
      rw [cons, within, within, List.length_cons, Nat.add_right_comm, Nat.add_assoc]
      split <;> rfl
  | stuck found char position =>
      rw [cons, within, within, List.length_cons, Nat.add_right_comm, Nat.add_assoc]
      split <;> rfl

/-- Once the limit is reached, nothing more can be put in front. -/
theorem within_cons_full {limit : UInt64} {count : Nat} (full : limit.toNat ≤ count) (item : α)
    (lexing : Lexing α) :
    (lexing.cons item).within limit count = .error (.tokenLimitExceeded limit) := by
  cases lexing with
  | complete found =>
      rw [cons, within, if_neg]
      rw [List.length_cons]
      omega
  | stuck found char position =>
      rw [cons, within, if_neg]
      rw [List.length_cons]
      omega

theorem within_map (limit : UInt64) (count : Nat) (change : α → β) (lexing : Lexing α) :
    (lexing.map change).within limit count = List.map change <$> lexing.within limit count := by
  cases lexing with
  | complete found =>
      rw [map, within, within, List.length_map]
      split <;> rfl
  | stuck found char position =>
      rw [map, within, within, List.length_map]
      split <;> rfl

/-- An answer is what a limit leaves of a lexing: the lexing itself as long as it keeps to the
limit, and the refusal in every other case. -/
structure Truncated (limit : UInt64) (lexing : Lexing α)
    (answer : Except LexError (List α)) : Prop where
  ok_iff : ∀ found, answer = .ok found ↔
    lexing = .complete found ∧ found.length ≤ limit.toNat
  unexpected_iff : ∀ char position, answer = .error (.unexpectedChar char position) ↔
    ∃ found, lexing = .stuck found char position ∧ found.length < limit.toNat
  exceeded_iff : answer = .error (.tokenLimitExceeded limit) ↔
    (∃ found, lexing = .complete found ∧ limit.toNat < found.length) ∨
      ∃ found char position, lexing = .stuck found char position ∧ limit.toNat ≤ found.length

theorem truncated_within (limit : UInt64) (lexing : Lexing α) :
    Truncated limit lexing (lexing.within limit 0) := by
  cases lexing with
  | complete found =>
      rw [within, Nat.zero_add]
      split
      next few => constructor <;> grind
      next many => constructor <;> grind
  | stuck found char position =>
      rw [within, Nat.zero_add]
      split
      next few => constructor <;> grind
      next many => constructor <;> grind

/-- A higher limit leaves as much, unless the lower one is exceeded. -/
theorem within_of_le {limit higher : UInt64} (raised : limit ≤ higher) {lexing : Lexing α}
    (kept : lexing.within limit 0 ≠ .error (.tokenLimitExceeded limit)) :
    lexing.within higher 0 = lexing.within limit 0 := by
  have above : limit.toNat ≤ higher.toNat := UInt64.le_iff_toNat_le.mp raised
  cases lexing with
  | complete found =>
      rw [within] at kept ⊢
      split at kept
      next few => rw [if_pos (by omega), within, if_pos few]
      next many => exact absurd rfl kept
  | stuck found char position =>
      rw [within] at kept ⊢
      split at kept
      next few => rw [if_pos (by omega), within, if_pos few]
      next many => exact absurd rfl kept

end Lexing

/-- The lexer with another limit. -/
def limitedTo (lexer : Lexer) (limit : UInt64) : Lexer := { lexer with limit := limit }

/-- What an input comes to without a limit, starting at the given byte and character of the
source. -/
def lexingFrom (lexer : Lexer) (start position : Nat) : List Char → Lexing Span
  | [] => .complete []
  | first :: rest =>
      match lexer.read? (first :: rest) with
      | none => .stuck [] first position
      | some (token, lexeme) =>
          (lexer.lexingFrom (start + byteSize lexeme) (position + lexeme.length)
            (rest.drop (lexeme.length - 1))).cons ⟨token, start, start + byteSize lexeme⟩
termination_by input => input.length
decreasing_by
  simp only [List.length_drop, List.length_cons]
  omega

/-- What a source comes to without a limit. -/
def lexing (lexer : Lexer) (source : String) : Lexing Span := lexer.lexingFrom 0 0 source.toList

section Truncating

variable (lexer : Lexer) (limit : UInt64)

theorem limit_limitedTo : (lexer.limitedTo limit).limit = limit := rfl

theorem read?_limitedTo (input : List Char) :
    (lexer.limitedTo limit).read? input = lexer.read? input := rfl

/-- After tokens that are allowed, a lexer finds what its limit leaves of the lexing without one. -/
theorem spansFrom_limitedTo {count : Nat} (room : count ≤ limit.toNat) (start position : Nat)
    (input : List Char) :
    (lexer.limitedTo limit).spansFrom count start position input =
      (lexer.lexingFrom start position input).within limit count := by
  -- The limit is asked before the character, so it has to be shown to win over both endings.
  fun_induction lexingFrom lexer start position input generalizing count with
  | case1 start position =>
      rw [spansFrom, Lexing.within, if_pos (by simpa using room)]
  | case2 start position first rest noToken =>
      rw [spansFrom, read?_limitedTo, limit_limitedTo, noToken, Lexing.within, List.length_nil]
      by_cases full : limit.toNat ≤ count
      · rw [if_pos full, if_neg (by omega)]
      · rw [if_neg full, if_pos (by omega)]
  | case3 start position first rest token lexeme read ih =>
      rw [spansFrom, read?_limitedTo, limit_limitedTo, read]
      by_cases full : limit.toNat ≤ count
      · rw [if_pos full, Lexing.within_cons_full full]
      · rw [if_neg full, Lexing.within_cons, ← ih (by omega)]
        rfl

theorem spans_limitedTo (source : String) :
    (lexer.limitedTo limit).spans source = (lexer.lexing source).within limit 0 :=
  lexer.spansFrom_limitedTo limit (Nat.zero_le _) 0 0 source.toList

theorem tokens_limitedTo (source : String) :
    (lexer.limitedTo limit).tokens source =
      ((lexer.lexing source).map Span.token).within limit 0 := by
  rw [tokens, spans_limitedTo, Lexing.within_map]
  rfl

end Truncating

/-- With any limit, the spans and the tokens of a source are what the limit leaves of its lexing
without limit, and a higher limit changes them only if the lower one was exceeded. -/
theorem limit_only_truncates (lexer : Lexer) (source : String) (limit : UInt64) :
    Lexing.Truncated limit (lexer.lexing source) ((lexer.limitedTo limit).spans source) ∧
      Lexing.Truncated limit ((lexer.lexing source).map Span.token)
        ((lexer.limitedTo limit).tokens source) ∧
      ∀ higher, limit ≤ higher →
        ((lexer.limitedTo limit).spans source ≠ .error (.tokenLimitExceeded limit) →
          (lexer.limitedTo higher).spans source = (lexer.limitedTo limit).spans source) ∧
        ((lexer.limitedTo limit).tokens source ≠ .error (.tokenLimitExceeded limit) →
          (lexer.limitedTo higher).tokens source = (lexer.limitedTo limit).tokens source) := by
  simp only [spans_limitedTo, tokens_limitedTo]
  exact ⟨Lexing.truncated_within limit _, Lexing.truncated_within limit _,
    fun higher raised => ⟨Lexing.within_of_le raised, Lexing.within_of_le raised⟩⟩

/-- After the two tokens of `x+` no token starts with `$`.  A limit of two is exceeded there, and
with a limit of three the character is refused, whatever more is allowed. -/
theorem strayDollar_truncated :
    Language.standard.lexer.lexing "x+$" =
        .stuck [⟨.identifier "x", 0, 1⟩, ⟨.keyword "+", 1, 2⟩] '$' 2 ∧
      (Language.standard.lexer.limitedTo 2).tokens "x+$" = .error (.tokenLimitExceeded 2) ∧
      (Language.standard.lexer.limitedTo 3).tokens "x+$" = .error (.unexpectedChar '$' 2) ∧
      (Language.standard.lexer.limitedTo 1000).tokens "x+$" = .error (.unexpectedChar '$' 2) := by
  have stuck : Language.standard.lexer.lexing "x+$" =
      .stuck [⟨.identifier "x", 0, 1⟩, ⟨.keyword "+", 1, 2⟩] '$' 2 := by decide +kernel
  obtain ⟨_, two, _⟩ := limit_only_truncates Language.standard.lexer "x+$" 2
  obtain ⟨_, three, raised⟩ := limit_only_truncates Language.standard.lexer "x+$" 3
  rw [stuck] at two three
  have exceeded := two.exceeded_iff.mpr (.inr ⟨_, _, _, rfl, by decide⟩)
  have unexpected := (three.unexpected_iff '$' 2).mpr ⟨_, rfl, by decide⟩
  have kept := (raised 1000 (by decide)).2 (by simp [unexpected])
  exact ⟨stuck, exceeded, unexpected, kept.trans unexpected⟩

end Lexer

end Tacit
