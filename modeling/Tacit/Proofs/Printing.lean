import Tacit.Proofs.Language
import Tacit.Proofs.Numeral

/-!
# Printed tokens read back

Printing the tokens of a source changes the texts of its numbers and nothing else, and a number has
a digit first before and after.  From every place between two tokens on, the source and the printed
text are therefore the same up to a digit in both.  Spellings without digits cannot tell two such
texts apart, and no number or identifier ends before a digit, so every token ends where it did.
-/

namespace Tacit

/-- No spelling of a table has a digit in it. -/
def KeywordTable.Digitless (table : KeywordTable) : Prop :=
  ∀ spelling ∈ table.spellings, ∀ char ∈ spelling.toList, char.isDigit = false

theorem KeywordTable.digitless_standard : standard.Digitless := by
  intro spelling listed
  obtain ⟨entry, member, rfl⟩ := List.mem_map.mp listed
  have digitless : ∀ entry ∈ standardEntries, ∀ char ∈ entry.1.toList, char.isDigit = false := by
    simp [standardEntries]
  exact forall_standard digitless entry member

/-- Texts that are the same up to their ends, or up to a digit in both. -/
inductive AgreeToDigit : List Char → List Char → Prop
  | nil : AgreeToDigit [] []
  | digit {first other : Char} (rest otherRest : List Char) (isDigit : first.isDigit = true)
      (isOtherDigit : other.isDigit = true) :
      AgreeToDigit (first :: rest) (other :: otherRest)
  | cons (char : Char) {rest otherRest : List Char} (agree : AgreeToDigit rest otherRest) :
      AgreeToDigit (char :: rest) (char :: otherRest)

namespace AgreeToDigit

variable {text other : List Char}

theorem symm (agree : AgreeToDigit text other) : AgreeToDigit other text := by
  induction agree with
  | nil => exact .nil
  | digit rest otherRest isDigit isOtherDigit => exact .digit otherRest rest isOtherDigit isDigit
  | cons char _ ih => exact .cons char ih

theorem append_left (front : List Char) (agree : AgreeToDigit text other) :
    AgreeToDigit (front ++ text) (front ++ other) := by
  induction front with
  | nil => exact agree
  | cons char front ih => exact .cons char ih

/-- A front without digits is a front of both texts. -/
theorem isPrefix {front : List Char} (agree : AgreeToDigit text other)
    (digitless : ∀ char ∈ front, char.isDigit = false) (starts : front <+: text) :
    front <+: other := by
  induction agree generalizing front with
  | nil => exact starts
  | digit rest otherRest isDigit isOtherDigit =>
      cases front with
      | nil => exact List.nil_prefix
      | cons first front =>
          obtain ⟨rfl, _⟩ := List.cons_prefix_cons.mp starts
          rw [digitless first List.mem_cons_self] at isDigit
          contradiction
  | cons char _ ih =>
      cases front with
      | nil => exact List.nil_prefix
      | cons first front =>
          obtain ⟨rfl, further⟩ := List.cons_prefix_cons.mp starts
          refine List.cons_prefix_cons.mpr ⟨rfl, ih (fun char member => ?_) further⟩
          exact digitless char (List.mem_cons_of_mem _ member)

/-- A run that digits would continue ends in front of both texts. -/
theorem isRun {continues : Char → Bool} {run otherRun : List Char} (agree : AgreeToDigit text other)
    (digits : ∀ char, char.isDigit = true → continues char = true)
    (isRun : IsRun continues (run ++ text) run)
    (inside : ∀ char ∈ otherRun, continues char = true) :
    IsRun continues (otherRun ++ other) otherRun where
  starts := List.prefix_append otherRun other
  inside := inside
  maximal char longer := by
    have next := (List.prefix_append_right_inj otherRun).mp longer
    cases agree with
    | nil => simp at next
    | digit rest otherRest isDigit isOtherDigit =>
        have stops := isRun.maximal _ ⟨rest, List.append_assoc _ _ _⟩
        rw [digits _ isDigit] at stops
        contradiction
    | @cons same rest otherRest _ =>
        obtain ⟨rfl, _⟩ := List.cons_prefix_cons.mp next
        exact isRun.maximal char ⟨rest, List.append_assoc _ _ _⟩

end AgreeToDigit

namespace Token

theorem printAll_cons {token : Token} {tokens : List Token} {first rest : String}
    (printed : token.print = .ok first) (others : printAll tokens = .ok rest) :
    printAll (token :: tokens) = .ok (first ++ rest) := by
  obtain ⟨parts, printedParts, joined⟩ := bind_eq_ok_iff.mp others
  cases joined
  rw [printAll, List.mapM_cons, printed, printedParts]
  simp [bind, Except.bind, pure, Except.pure, String.join_cons]

end Token

namespace Lexer

section Printing

variable {table : KeywordTable} {text other lexeme later : List Char} {token : Token}

theorem Unspelled.of_agree (unspelled : Unspelled table text) (digitless : table.Digitless)
    (agree : AgreeToDigit text other) : Unspelled table other := by
  intro spelling listed starts
  exact unspelled spelling listed (agree.symm.isPrefix (digitless spelling listed) starts)

theorem unspelled_of_isDigit (digitless : table.Digitless) {first : Char} (rest : List Char)
    (isDigit : first.isDigit = true) : Unspelled table (first :: rest) := by
  intro spelling listed starts
  cases chars : spelling.toList with
  | nil => exact table.empty_not_mem_spellings (String.toList_eq_nil_iff.mp chars ▸ listed)
  | cons char further =>
      rw [chars] at starts
      obtain ⟨rfl, _⟩ := List.cons_prefix_cons.mp starts
      rw [digitless spelling listed char (by simp [chars])] at isDigit
      contradiction

theorem isLongest_of_agree {spelling : String} (digitless : table.Digitless)
    (longest : Trie.IsLongest table.spellings text spelling) (agree : AgreeToDigit text other) :
    Trie.IsLongest table.spellings other spelling where
  listed := longest.listed
  starts := agree.isPrefix (digitless spelling longest.listed) longest.starts
  longest rival listed starts :=
    longest.longest rival listed (agree.symm.isPrefix (digitless rival listed) starts)

/-- A printed token is read as the token, whatever agrees up to a digit with what followed it. -/
theorem Munch.print (digitless : table.Digitless)
    (finite : ∀ value, token = .number value → value.isFinite = true)
    (munch : Munch table (lexeme ++ later) token lexeme) (agree : AgreeToDigit later other) :
    ∃ spelling : String, token.print = .ok spelling ∧
      Munch table (spelling.toList ++ other) token spelling.toList ∧
      AgreeToDigit (lexeme ++ later) (spelling.toList ++ other) := by
  have nonempty := munch.ne_nil
  generalize whole : lexeme ++ later = text at munch
  cases munch with
  | @keyword _ spelling longest =>
      subst whole
      have agrees := agree.append_left spelling.toList
      exact ⟨spelling, rfl, .keyword (isLongest_of_agree digitless longest agrees), agrees⟩
  | @number first rest run cut value unspelled isDigit isRun isCut reads =>
      have read := (numberValue_eq_iff isRun.inside).mpr ⟨cut, isCut, reads⟩
      have unsigned := Numeral.isNegative_numberValue lexeme
      rw [read] at unsigned
      obtain ⟨numeral, isPlain, spelled, readsBack⟩ :=
        Numeral.exists_isPlain_text (finite value rfl) unsigned
      obtain ⟨newFirst, newRest, chars, isNewDigit⟩ := isPlain.exists_first
      rw [← whole] at isRun
      have newRun := agree.isRun (by simp +contextual [continuesNumber]) isRun isPlain.continues
      obtain ⟨newCut, isNewCut, newReads⟩ := (numberValue_eq_iff isPlain.continues).mp readsBack
      have begins : numeral.chars ++ other = newFirst :: (newRest ++ other) := by
        rw [chars, List.cons_append]
      refine ⟨Numeral.text value, rfl, ?_, ?_⟩
      · rw [begins] at newRun
        rw [spelled, begins]
        exact .number (unspelled_of_isDigit digitless _ isNewDigit) isNewDigit newRun isNewCut
          newReads
      · rw [spelled, begins]
        exact .digit _ _ isDigit isNewDigit
  | @identifier first rest run unspelled isLower isRun =>
      have agrees := agree.append_left lexeme
      rw [← whole] at isRun unspelled
      have newRun := agree.isRun (by simp +contextual [Char.isAlphanum]) isRun isRun.inside
      have newUnspelled := unspelled.of_agree digitless agrees
      obtain ⟨letter, letters, rfl⟩ := List.exists_cons_of_ne_nil nonempty
      obtain ⟨rfl, rfl⟩ := List.cons.inj whole
      refine ⟨.ofList (letter :: letters), rfl, ?_, ?_⟩
      · rw [String.toList_ofList]
        exact .identifier newUnspelled isLower newRun
      · rw [String.toList_ofList]
        exact agrees

/-- Printed tokens are read as these tokens, from whatever byte on. -/
theorem Munches.print (digitless : table.Digitless) {start : Nat} {consumed : List Char}
    {spans : List Span} (munches : Munches table [] start consumed spans)
    (finite : ∀ value, .number value ∈ spans.map Span.token → value.isFinite = true) :
    ∃ printed : String, Token.printAll (spans.map Span.token) = .ok printed ∧
      AgreeToDigit consumed printed.toList ∧
      ∀ newStart, ∃ newSpans, Munches table [] newStart printed.toList newSpans ∧
        newSpans.map Span.token = spans.map Span.token := by
  induction munches with
  | nil start => exact ⟨"", rfl, .nil, fun newStart => ⟨[], .nil newStart, rfl⟩⟩
  | @cons start lexeme consumed token spans munch later ih =>
      rw [List.map_cons] at finite ⊢
      obtain ⟨printed, others, agree, reread⟩ :=
        ih fun value member => finite value (List.mem_cons_of_mem _ member)
      rw [List.append_nil] at munch
      obtain ⟨spelling, spelled, newMunch, agrees⟩ :=
        munch.print digitless (fun value same => finite value (by simp [same])) agree
      refine ⟨spelling ++ printed, Token.printAll_cons spelled others, ?_, fun newStart => ?_⟩
      · rwa [String.toList_append]
      · obtain ⟨newSpans, newMunches, same⟩ := reread (newStart + byteSize spelling.toList)
        rw [String.toList_append]
        exact ⟨_, .cons (by rwa [List.append_nil]) newMunches, by simp [same]⟩

end Printing

section RoundTrip

variable {lexer : Lexer} {source : String} {tokens : List Token}

/-- A source has tokens if they can be read one after another up to its end, no more than are
allowed. -/
theorem tokens_eq_ok_iff :
    lexer.tokens source = .ok tokens ↔
      ∃ spans, Munches lexer.table [] 0 source.toList spans ∧
        spans.length ≤ lexer.limit.toNat ∧ spans.map Span.token = tokens := by
  constructor
  · intro lexed
    obtain ⟨spans, found, made⟩ := bind_eq_ok_iff.mp lexed
    cases made
    have munched := maximalMunch_spans lexer source
    rw [found] at munched
    cases munched with
    | complete tiling few =>
        obtain ⟨consumed, rest, split, size, munches⟩ := tiling.exists_munches
        have nothing : byteSize rest = 0 := by
          have total := utf8ByteSize_split split
          omega
        obtain rfl := byteSize_eq_zero_iff.mp nothing
        rw [List.append_nil] at split
        exact ⟨spans, split ▸ munches, few, rfl⟩
  · rintro ⟨spans, munches, few, rfl⟩
    rw [Lexer.tokens, spans_of_munches (List.append_nil _).symm munches few, spansFrom]
    simp [Functor.map, Except.map, bind, Except.bind, pure, Except.pure]

/-- Where no spelling has a digit, the tokens of a source can be printed if their numbers are
finite, and the printed text has the same tokens.  The standard vocabulary is one of this kind. -/
theorem tokens_printAll :
    KeywordTable.standard.Digitless ∧
      ∀ (lexer : Lexer) (source : String) (tokens : List Token), lexer.table.Digitless →
        lexer.tokens source = .ok tokens →
        (∀ value, .number value ∈ tokens → value.isFinite = true) →
        ∃ text, Token.printAll tokens = .ok text ∧ lexer.tokens text = .ok tokens := by
  refine ⟨KeywordTable.digitless_standard, ?_⟩
  intro lexer source tokens digitless lexed finite
  obtain ⟨spans, munches, few, rfl⟩ := tokens_eq_ok_iff.mp lexed
  obtain ⟨text, printed, _, reread⟩ := munches.print digitless finite
  obtain ⟨newSpans, newMunches, same⟩ := reread 0
  have sameLength : newSpans.length = spans.length := by
    simpa using congrArg List.length same
  exact ⟨text, printed, tokens_eq_ok_iff.mpr ⟨newSpans, newMunches, by omega, same⟩⟩

end RoundTrip

/-- Numbers that are printed shorter than they were written, next to keywords and letters. -/
def crowdedTokens : List Token :=
  [.number (numberValue ['0', '0', '7']), .keyword "+", .number (numberValue ['5', '.']),
    .identifier "x1", .keyword "<.", .number (numberValue ['1', '.', '2', '.', '3'])]

theorem crowdedTokens_printAll :
    Language.standard.lexer.tokens "007+5.x1<.1.2.3" = .ok crowdedTokens ∧
      (∀ value, .number value ∈ crowdedTokens → value.isFinite = true) ∧
      Token.printAll crowdedTokens = .ok "7+5x1<.1.2" ∧
      ∃ text, Token.printAll crowdedTokens = .ok text ∧
        Language.standard.lexer.tokens text = .ok crowdedTokens := by
  have lexed : Language.standard.lexer.tokens "007+5.x1<.1.2.3" = .ok crowdedTokens := by
    decide +kernel
  have finite : ∀ value, .number value ∈ crowdedTokens → value.isFinite = true := by
    intro value member
    simp only [crowdedTokens, List.mem_cons, Token.number.injEq, List.not_mem_nil, reduceCtorEq,
      false_or, or_false] at member
    obtain rfl | rfl | rfl := member <;> decide +kernel
  exact ⟨lexed, finite, by decide +kernel,
    tokens_printAll.2 Language.standard.lexer _ crowdedTokens tokens_printAll.1 lexed finite⟩

end Lexer

end Tacit
