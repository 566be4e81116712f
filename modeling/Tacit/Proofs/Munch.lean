import Mathlib.Data.List.TakeWhile
import Tacit.Proofs.Lexer
import Tacit.Proofs.Trie

/-!
# Maximal munch

A source has at most one token at each of its places: the longest spelling there, or a number, or
an identifier.  Lexing a source is told by these tokens alone: they cover it from its first byte
on, and only the end of the source, a character that starts no token or the greatest number of
tokens stops them.
-/

namespace Tacit

/-- The longest run of such characters at the start of a text. -/
structure IsRun (continues : Char → Bool) (text run : List Char) : Prop where
  starts : run <+: text
  inside : ∀ char ∈ run, continues char = true
  maximal : ∀ char, run ++ [char] <+: text → continues char = false

theorem isRun_takeWhile (continues : Char → Bool) (text : List Char) :
    IsRun continues text (text.takeWhile continues) where
  starts := List.takeWhile_prefix continues
  inside _ := List.mem_takeWhile_imp
  maximal char longer := by
    obtain ⟨rest, whole⟩ := longer
    have sameFront : text.takeWhile continues ++ char :: rest =
        text.takeWhile continues ++ text.dropWhile continues := by
      rw [List.takeWhile_append_dropWhile]
      simpa using whole
    have stops := List.head?_dropWhile_not continues text
    rwa [← List.append_cancel_left sameFront] at stops

theorem IsRun.eq_takeWhile {continues : Char → Bool} {text run : List Char}
    (isRun : IsRun continues text run) : run = text.takeWhile continues := by
  obtain ⟨rest, rfl⟩ := isRun.starts
  rw [List.takeWhile_append_of_pos isRun.inside]
  cases rest with
  | nil => simp
  | cons char rest =>
      have stops := isRun.maximal char ⟨rest, by simp⟩
      simp [stops]

namespace Numeral

/-- The characters of a run before its second point. -/
def IsCut (run cut : List Char) : Prop :=
  (run.count '.' ≤ 1 ∧ cut = run) ∨ ∃ rest, run = cut ++ '.' :: rest ∧ cut.count '.' = 1

/-- The number that digits with at most one point among them stand for. -/
inductive ReadsAs : List Char → Float → Prop
  | whole {digits : List Char} (isDigits : ∀ char ∈ digits, char.isDigit = true) :
      ReadsAs digits (decimal digits []).toFloat
  | pointed {whole fraction : List Char} (isWhole : ∀ char ∈ whole, char.isDigit = true)
      (isFraction : ∀ char ∈ fraction, char.isDigit = true) :
      ReadsAs (whole ++ '.' :: fraction) (decimal whole fraction).toFloat

end Numeral

namespace Lexer

section Numbers

variable {whole fraction run : List Char}

theorem count_point_of_digits (isDigits : ∀ char ∈ run, char.isDigit = true) :
    run.count '.' = 0 := by
  refine List.count_eq_zero.mpr fun point => ?_
  have impossible := isDigits '.' point
  contradiction

/-- A run of digits and points starts with its digits up to the first point. -/
theorem run_cases (inside : ∀ char ∈ run, continuesNumber char = true) :
    (∀ char ∈ run, char.isDigit = true) ∨
      ∃ whole rest, run = whole ++ '.' :: rest ∧ (∀ char ∈ whole, char.isDigit = true) := by
  have isRun := isRun_takeWhile Char.isDigit run
  obtain ⟨rest, split⟩ := isRun.starts
  cases rest with
  | nil =>
      rw [List.append_nil] at split
      exact .inl (split ▸ isRun.inside)
  | cons char rest =>
      have notDigit := isRun.maximal char ⟨rest, by simpa using split⟩
      have point : char = '.' := by
        have continues := inside char (by rw [← split]; simp)
        simpa [continuesNumber, notDigit] using continues
      subst point
      exact .inr ⟨_, rest, split.symm, isRun.inside⟩

theorem numberValue_of_digits (isDigits : ∀ char ∈ run, char.isDigit = true) :
    numberValue run = (Numeral.decimal run []).toFloat := by
  have all : run.takeWhile Char.isDigit = run := List.takeWhile_eq_self_iff.mpr isDigits
  have none_left : run.dropWhile Char.isDigit = [] := List.dropWhile_eq_nil_iff.mpr isDigits
  simp [numberValue, all, none_left]

/-- The digits up to the second point, or up to the end, are all that counts. -/
theorem numberValue_of_point (rest : List Char)
    (isWhole : ∀ char ∈ whole, char.isDigit = true)
    (isFraction : ∀ char ∈ fraction, char.isDigit = true)
    (stops : ∀ char ∈ rest.head?, char.isDigit = false) :
    numberValue (whole ++ '.' :: (fraction ++ rest)) =
      (Numeral.decimal whole fraction).toFloat := by
  have first : (whole ++ '.' :: (fraction ++ rest)).takeWhile Char.isDigit = whole := by
    rw [List.takeWhile_append_of_pos isWhole, List.takeWhile_cons_of_neg (by decide),
      List.append_nil]
  have later : (whole ++ '.' :: (fraction ++ rest)).dropWhile Char.isDigit =
      '.' :: (fraction ++ rest) := by
    rw [List.dropWhile_append_of_pos isWhole, List.dropWhile_cons_of_neg (by decide)]
  have second : (fraction ++ rest).takeWhile Char.isDigit = fraction := by
    rw [List.takeWhile_append_of_pos isFraction]
    cases rest with
    | nil => simp
    | cons char rest => simp [stops char rfl]
  simp [numberValue, first, later, second]

/-- The value of a run is read from it as cut before its second point. -/
theorem numberValue_eq_iff (inside : ∀ char ∈ run, continuesNumber char = true) {value : Float} :
    numberValue run = value ↔ ∃ cut, Numeral.IsCut run cut ∧ Numeral.ReadsAs cut value := by
  constructor
  · rintro rfl
    obtain isDigits | ⟨whole, later, rfl, isWhole⟩ := run_cases inside
    · refine ⟨run, .inl ⟨?_, rfl⟩, ?_⟩
      · simp [count_point_of_digits isDigits]
      · rw [numberValue_of_digits isDigits]
        exact .whole isDigits
    · have insideLater : ∀ char ∈ later, continuesNumber char = true :=
        fun char member => inside char (by simp [member])
      obtain isFraction | ⟨fraction, rest, rfl, isFraction⟩ := run_cases insideLater
      · refine ⟨_, .inl ⟨?_, rfl⟩, ?_⟩
        · simp [count_point_of_digits isWhole, count_point_of_digits isFraction]
        · have value := numberValue_of_point [] isWhole isFraction (by simp)
          rw [List.append_nil] at value
          rw [value]
          exact .pointed isWhole isFraction
      · refine ⟨whole ++ '.' :: fraction, .inr ⟨rest, by simp, ?_⟩, ?_⟩
        · simp [count_point_of_digits isWhole, count_point_of_digits isFraction]
        · rw [numberValue_of_point ('.' :: rest) isWhole isFraction (by simp)]
          exact .pointed isWhole isFraction
  · rintro ⟨cut, isCut, reads⟩
    cases reads with
    | whole isDigits =>
        obtain ⟨_, rfl⟩ | ⟨rest, _, once⟩ := isCut
        · exact numberValue_of_digits isDigits
        · simp [count_point_of_digits isDigits] at once
    | pointed isWhole isFraction =>
        obtain ⟨_, rfl⟩ | ⟨rest, rfl, _⟩ := isCut
        · simpa using numberValue_of_point [] isWhole isFraction (by simp)
        · simpa using numberValue_of_point ('.' :: rest) isWhole isFraction (by simp)

end Numbers

/-- A text starts with no spelling of a table. -/
def Unspelled (table : KeywordTable) (text : List Char) : Prop :=
  ∀ spelling ∈ table.spellings, ¬ spelling.toList <+: text

/-- The token at the start of a text, with its characters. -/
inductive Munch (table : KeywordTable) : List Char → Token → List Char → Prop
  /-- The longest spelling. -/
  | keyword {text : List Char} {spelling : String}
      (longest : Trie.IsLongest table.spellings text spelling) :
      Munch table text (.keyword spelling) spelling.toList
  /-- Where there is no spelling, a digit with all digits and points after it.  Whatever follows a
  second point has no weight. -/
  | number {first : Char} {rest run cut : List Char} {value : Float}
      (unspelled : Unspelled table (first :: rest)) (isDigit : first.isDigit = true)
      (isRun : IsRun continuesNumber (first :: rest) run) (isCut : Numeral.IsCut run cut)
      (reads : Numeral.ReadsAs cut value) : Munch table (first :: rest) (.number value) run
  /-- Where there is no spelling, a small letter with all letters and digits after it. -/
  | identifier {first : Char} {rest run : List Char}
      (unspelled : Unspelled table (first :: rest)) (isLower : first.isLower = true)
      (isRun : IsRun Char.isAlphanum (first :: rest) run) :
      Munch table (first :: rest) (.identifier (String.ofList run)) run

section Reading

variable {lexer : Lexer} {text lexeme rest : List Char} {first : Char} {token : Token}

theorem longest?_eq_some_iff {spelling : String} {size : Nat} :
    lexer.trie.longest? text = some (spelling, size) ↔
      Trie.IsLongest lexer.table.spellings text spelling ∧ size = spelling.utf8ByteSize := by
  rw [lexer.trie_eq]
  exact Trie.longest?_ofList_eq_some_iff lexer.table.empty_not_mem_spellings

theorem longest?_eq_none_iff :
    lexer.trie.longest? text = none ↔ Unspelled lexer.table text := by
  rw [lexer.trie_eq]
  exact Trie.longest?_ofList_eq_none_iff lexer.table.empty_not_mem_spellings

theorem read?_of_isLongest {spelling : String}
    (longest : Trie.IsLongest lexer.table.spellings text spelling) :
    lexer.read? text = some (.keyword spelling, spelling.toList) := by
  rw [read?, longest?_eq_some_iff.mpr ⟨longest, rfl⟩]

theorem isAlphanum_of_isLower (isLower : first.isLower = true) : first.isAlphanum = true := by
  change ((first.isUpper || first.isLower) || first.isDigit) = true
  rw [isLower, Bool.or_true, Bool.true_or]

theorem not_isDigit_of_isLower (isLower : first.isLower = true) : first.isDigit = false := by
  change (decide ('a'.val ≤ first.val) && decide (first.val ≤ 'z'.val)) = true at isLower
  change (decide ('0'.val ≤ first.val) && decide (first.val ≤ '9'.val)) = false
  simp [UInt32.le_iff_toNat_le] at isLower ⊢
  omega

/-- Where there is no spelling, the first character decides. -/
theorem read?_of_unspelled (unspelled : Unspelled lexer.table (first :: rest)) :
    lexer.read? (first :: rest) =
      if first.isDigit then
        some (.number (numberValue ((first :: rest).takeWhile continuesNumber)),
          (first :: rest).takeWhile continuesNumber)
      else if first.isLower then
        some (.identifier (String.ofList ((first :: rest).takeWhile Char.isAlphanum)),
          (first :: rest).takeWhile Char.isAlphanum)
      else none := by
  rw [read?, longest?_eq_none_iff.mpr unspelled, numberLexeme, identifierLexeme]
  cases isDigit : first.isDigit with
  | true =>
      have continues : continuesNumber first = true := by simp [continuesNumber, isDigit]
      simp [List.takeWhile_cons_of_pos continues]
  | false =>
      cases isLower : first.isLower with
      | true => simp [List.takeWhile_cons_of_pos (isAlphanum_of_isLower isLower)]
      | false => simp

theorem munch_of_read? (found : lexer.read? text = some (token, lexeme)) :
    Munch lexer.table text token lexeme := by
  cases spelled : lexer.trie.longest? text with
  | some passed =>
      obtain ⟨longest, _⟩ := longest?_eq_some_iff.mp spelled
      rw [read?_of_isLongest longest] at found
      cases found
      exact .keyword longest
  | none =>
      have unspelled := longest?_eq_none_iff.mp spelled
      cases text with
      | nil => simp [read?, spelled, numberLexeme, identifierLexeme] at found
      | cons first rest =>
          rw [read?_of_unspelled unspelled] at found
          split at found
          next isDigit =>
            cases found
            have isRun := isRun_takeWhile continuesNumber (first :: rest)
            obtain ⟨cut, isCut, reads⟩ := (numberValue_eq_iff isRun.inside).mp rfl
            exact .number unspelled isDigit isRun isCut reads
          next =>
            split at found
            next isLower =>
              cases found
              exact .identifier unspelled isLower (isRun_takeWhile _ _)
            next => contradiction

theorem read?_of_munch (munch : Munch lexer.table text token lexeme) :
    lexer.read? text = some (token, lexeme) := by
  cases munch with
  | keyword longest => exact read?_of_isLongest longest
  | number unspelled isDigit isRun isCut reads =>
      rw [read?_of_unspelled unspelled, if_pos isDigit, ← isRun.eq_takeWhile,
        (numberValue_eq_iff isRun.inside).mpr ⟨_, isCut, reads⟩]
  | identifier unspelled isLower isRun =>
      rw [read?_of_unspelled unspelled, if_neg (by simp [not_isDigit_of_isLower isLower]),
        if_pos isLower, ← isRun.eq_takeWhile]

/-- The lexer reads exactly the token of maximal munch. -/
theorem read?_eq_some_iff :
    lexer.read? text = some (token, lexeme) ↔ Munch lexer.table text token lexeme :=
  ⟨munch_of_read?, read?_of_munch⟩

/-- The lexer reads nothing exactly where no kind of token starts. -/
theorem read?_eq_none_iff :
    lexer.read? (first :: rest) = none ↔
      Unspelled lexer.table (first :: rest) ∧ first.isDigit = false ∧ first.isLower = false := by
  cases spelled : lexer.trie.longest? (first :: rest) with
  | some passed =>
      obtain ⟨longest, _⟩ := longest?_eq_some_iff.mp spelled
      have notUnspelled : ¬ Unspelled lexer.table (first :: rest) := by
        intro unspelled
        exact unspelled passed.1 longest.listed longest.starts
      simp [read?_of_isLongest longest, notUnspelled]
  | none =>
      have unspelled := longest?_eq_none_iff.mp spelled
      rw [read?_of_unspelled unspelled]
      cases first.isDigit <;> cases first.isLower <;> simp [unspelled]

end Reading

section Munching

variable {table : KeywordTable} {text lexeme rest consumed : List Char} {token : Token}

theorem Munch.starts (munch : Munch table text token lexeme) : lexeme <+: text := by
  cases munch with
  | keyword longest => exact longest.starts
  | number _ _ isRun => exact isRun.starts
  | identifier _ _ isRun => exact isRun.starts

theorem Munch.ne_nil (munch : Munch table text token lexeme) : lexeme ≠ [] := by
  cases munch with
  | keyword longest =>
      intro blank
      exact table.empty_not_mem_spellings (String.toList_eq_nil_iff.mp blank ▸ longest.listed)
  | number _ isDigit isRun =>
      rw [isRun.eq_takeWhile, List.takeWhile_cons_of_pos (by simp [continuesNumber, isDigit])]
      exact List.cons_ne_nil _ _
  | identifier _ isLower isRun =>
      rw [isRun.eq_takeWhile, List.takeWhile_cons_of_pos (isAlphanum_of_isLower isLower)]
      exact List.cons_ne_nil _ _

/-- Tokens read one after another, from a byte on, that leave the rest of a text. -/
inductive Munches (table : KeywordTable) (rest : List Char) :
    Nat → List Char → List Span → Prop
  | nil (start : Nat) : Munches table rest start [] []
  | cons {start : Nat} {lexeme consumed : List Char} {token : Token} {spans : List Span}
      (munch : Munch table (lexeme ++ (consumed ++ rest)) token lexeme)
      (later : Munches table rest (start + byteSize lexeme) consumed spans) :
      Munches table rest start (lexeme ++ consumed)
        (⟨token, start, start + byteSize lexeme⟩ :: spans)

theorem Munch.listed {spelling : String} (munch : Munch table text token lexeme)
    (isKeyword : token = .keyword spelling) : spelling ∈ table.spellings := by
  cases munch with
  | keyword longest =>
      cases isKeyword
      exact longest.listed
  | number _ _ _ _ _ | identifier _ _ _ => cases isKeyword

/-- The keywords among tokens are spellings of the table. -/
theorem Munches.listed {start : Nat} {spans : List Span} {span : Span} {spelling : String}
    (munches : Munches table rest start consumed spans) (member : span ∈ spans)
    (isKeyword : span.token = .keyword spelling) : spelling ∈ table.spellings := by
  induction munches with
  | nil start => cases member
  | cons munch later ih =>
      obtain rfl | inLater := List.mem_cons.mp member
      · exact munch.listed isKeyword
      · exact ih inLater

theorem byteSize_append (left right : List Char) :
    byteSize (left ++ right) = byteSize left + byteSize right := by
  induction left with
  | nil => simp [byteSize]
  | cons char left ih =>
      simp only [byteSize, List.cons_append, List.foldr_cons] at *
      omega

theorem byteSize_pos (nonempty : text ≠ []) : 0 < byteSize text := by
  cases text with
  | nil => exact absurd rfl nonempty
  | cons char text =>
      have positive := Char.utf8Size_pos char
      simp only [byteSize, List.foldr_cons]
      omega

/-- One token is read, and the others after it. -/
theorem spansFrom_munch {lexer : Lexer} {count : Nat} (start position : Nat)
    (room : count < lexer.limit.toNat)
    (munch : Munch lexer.table (lexeme ++ rest) token lexeme) :
    lexer.spansFrom count start position (lexeme ++ rest) =
      (⟨token, start, start + byteSize lexeme⟩ :: ·) <$>
        lexer.spansFrom (count + 1) (start + byteSize lexeme) (position + lexeme.length) rest := by
  cases lexeme with
  | nil => exact absurd rfl munch.ne_nil
  | cons first lexeme =>
      have read := read?_eq_some_iff.mpr munch
      rw [List.cons_append] at read ⊢
      rw [spansFrom, if_neg (by omega), read]
      simp

/-- Many tokens are read, and the others after them. -/
theorem spansFrom_munches {lexer : Lexer} {start : Nat} (count position : Nat) {spans : List Span}
    (munches : Munches lexer.table rest start consumed spans)
    (room : count + spans.length ≤ lexer.limit.toNat) :
    lexer.spansFrom count start position (consumed ++ rest) =
      (spans ++ ·) <$> lexer.spansFrom (count + spans.length) (start + byteSize consumed)
        (position + consumed.length) rest := by
  induction munches generalizing count position with
  | nil start => simp [byteSize]
  | @cons start lexeme consumed token spans munch later ih =>
      rw [List.length_cons] at room ⊢
      have others := ih (count + 1) (position + lexeme.length) (by omega)
      rw [List.append_assoc, spansFrom_munch start position (by omega) munch, others,
        byteSize_append, List.length_append]
      simp [Nat.add_assoc, Nat.add_comm 1]

/-- A lexer reads tokens until the text ends, as many as are allowed are read, or none starts. -/
theorem exists_munches (lexer : Lexer) (text : List Char) (count start : Nat)
    (room : count ≤ lexer.limit.toNat) :
    ∃ consumed rest spans, text = consumed ++ rest ∧
      Munches lexer.table rest start consumed spans ∧
      count + spans.length ≤ lexer.limit.toNat ∧
      (rest = [] ∨ count + spans.length = lexer.limit.toNat ∨ lexer.read? rest = none) := by
  -- Every token has a character, so what is left after it is shorter.
  induction size : text.length using Nat.strongRecOn generalizing text start count with
  | ind bound ih =>
      by_cases full : count = lexer.limit.toNat
      · exact ⟨[], text, [], rfl, .nil start, room, .inr (.inl full)⟩
      cases found : lexer.read? text with
      | none => exact ⟨[], text, [], rfl, .nil start, room, .inr (.inr found)⟩
      | some read =>
          obtain ⟨token, lexeme⟩ := read
          have munch := read?_eq_some_iff.mp found
          obtain ⟨later, rfl⟩ := munch.starts
          have shorter : later.length < bound := by
            have positive := List.length_pos_iff.mpr munch.ne_nil
            rw [← size, List.length_append]
            omega
          obtain ⟨consumed, rest, spans, rfl, munches, fits, stops⟩ :=
            ih later.length shorter later (count + 1) (start + byteSize lexeme) (by omega) rfl
          refine ⟨lexeme ++ consumed, rest, _ :: spans, by simp, .cons munch munches, ?_, ?_⟩
          · rw [List.length_cons]
            omega
          · rw [List.length_cons]
            obtain ended | limited | none_starts := stops
            · exact .inl ended
            · exact .inr (.inl (by omega))
            · exact .inr (.inr none_starts)

end Munching

/-- Spans that cover the bytes from one to another, each where the one before it ends. -/
def Tiles : Nat → List Span → Nat → Prop
  | start, [], stop => start = stop
  | start, span :: spans, stop =>
      span.start = start ∧ span.start < span.stop ∧ Tiles span.stop spans stop

/-- The bytes of a span are those of the token that a source has at its start. -/
def MunchedAt (table : KeywordTable) (source : String) (span : Span) : Prop :=
  ∃ before lexeme after : String, source = before ++ lexeme ++ after ∧
    before.utf8ByteSize = span.start ∧ (before ++ lexeme).utf8ByteSize = span.stop ∧
    Munch table (lexeme ++ after).toList span.token lexeme.toList

/-- Spans that cover a source up to a byte with the tokens it has there. -/
structure Tiling (table : KeywordTable) (source : String) (spans : List Span) (stop : Nat) :
    Prop where
  tiles : Tiles 0 spans stop
  munched : ∀ span ∈ spans, MunchedAt table source span

section Tiling

variable {table : KeywordTable} {rest consumed before text : List Char} {start stop : Nat}
  {spans : List Span} {source : String}

theorem utf8ByteSize_ofList (text : List Char) :
    (String.ofList text).utf8ByteSize = byteSize text := by
  induction text with
  | nil => rfl
  | cons char text ih =>
      rw [Trie.utf8ByteSize_ofList_cons, ih]
      rfl

theorem utf8ByteSize_eq (source : String) : source.utf8ByteSize = byteSize source.toList := by
  rw [← utf8ByteSize_ofList, String.ofList_toList]

theorem byteSize_eq_zero_iff : byteSize text = 0 ↔ text = [] := by
  constructor
  · intro size
    cases text with
    | nil => rfl
    | cons first rest =>
        have positive := byteSize_pos (List.cons_ne_nil first rest)
        omega
  · rintro rfl
    rfl

theorem utf8ByteSize_split (split : source.toList = consumed ++ rest) :
    source.utf8ByteSize = byteSize consumed + byteSize rest := by
  rw [utf8ByteSize_eq, split, byteSize_append]

theorem Munches.tiles (munches : Munches table rest start consumed spans) :
    Tiles start spans (start + byteSize consumed) := by
  induction munches with
  | nil start => rfl
  | cons munch later ih =>
      have positive := byteSize_pos munch.ne_nil
      refine ⟨rfl, ?_, ?_⟩
      · simpa using positive
      · rwa [byteSize_append, ← Nat.add_assoc]

theorem Munches.munchedAt (munches : Munches table rest start consumed spans)
    (before : List Char) (split : source.toList = before ++ (consumed ++ rest))
    (begins : byteSize before = start) :
    ∀ span ∈ spans, MunchedAt table source span := by
  induction munches generalizing before with
  | nil start => simp
  | @cons start lexeme consumed token spans munch later ih =>
      refine List.forall_mem_cons.mpr ⟨?_, ?_⟩
      · refine ⟨.ofList before, .ofList lexeme, .ofList (consumed ++ rest), ?_, ?_, ?_, ?_⟩
        · rw [← String.toList_inj, split]
          simp
        · rw [utf8ByteSize_ofList, begins]
        · rw [String.utf8ByteSize_append, utf8ByteSize_ofList, utf8ByteSize_ofList, begins]
        · simpa using munch
      · refine ih (before ++ lexeme) ?_ ?_
        · rw [split]
          simp
        · rw [byteSize_append, begins]

/-- A text starts with only one text of a given number of bytes. -/
theorem append_inj_of_byteSize {left right leftRest rightRest : List Char}
    (same : left ++ leftRest = right ++ rightRest) (sizes : byteSize left = byteSize right) :
    left = right ∧ leftRest = rightRest := by
  induction left generalizing right with
  | nil =>
      cases right with
      | nil => exact ⟨rfl, same⟩
      | cons char right =>
          have positive := byteSize_pos (List.cons_ne_nil char right)
          simp only [byteSize, List.foldr_nil] at sizes positive
          omega
  | cons char left ih =>
      cases right with
      | nil =>
          have positive := byteSize_pos (List.cons_ne_nil char left)
          simp only [byteSize, List.foldr_nil] at sizes positive
          omega
      | cons other right =>
          obtain ⟨rfl, tails⟩ := List.cons.inj same
          simp only [byteSize, List.foldr_cons, Nat.add_left_cancel_iff] at sizes
          obtain ⟨rfl, rests⟩ := ih tails sizes
          exact ⟨rfl, rests⟩

/-- Spans that cover a source with its tokens are read one after another. -/
theorem munches_of_tiles (before text : List Char) (split : source.toList = before ++ text)
    (begins : byteSize before = start) (tiles : Tiles start spans stop)
    (munched : ∀ span ∈ spans, MunchedAt table source span) :
    ∃ consumed rest, text = consumed ++ rest ∧ start + byteSize consumed = stop ∧
      Munches table rest start consumed spans := by
  induction spans generalizing before text start with
  | nil => exact ⟨[], text, rfl, tiles, .nil start⟩
  | cons span spans ih =>
      obtain ⟨startsHere, _, others⟩ := tiles
      obtain ⟨here, later⟩ := List.forall_mem_cons.mp munched
      obtain ⟨front, lexeme, after, whole, frontSize, stopSize, munch⟩ := here
      have lists : before ++ text = front.toList ++ (lexeme.toList ++ after.toList) := by
        rw [← split, whole]
        simp
      -- The span says where its token starts only by a number of bytes, but that fixes the text
      -- before it.
      have sizes : byteSize before = byteSize front.toList := by
        rw [begins, ← utf8ByteSize_eq, frontSize, startsHere]
      obtain ⟨rfl, rfl⟩ := append_inj_of_byteSize lists sizes
      obtain ⟨token, spanStart, spanStop⟩ := span
      dsimp only at startsHere stopSize munch others
      subst startsHere
      have ends : spanStop = spanStart + byteSize lexeme.toList := by
        rw [← stopSize, String.utf8ByteSize_append, utf8ByteSize_eq, begins, utf8ByteSize_eq]
      subst ends
      have laterSplit : source.toList = (front.toList ++ lexeme.toList) ++ after.toList := by
        rw [split, List.append_assoc]
      have laterBegins : byteSize (front.toList ++ lexeme.toList) =
          spanStart + byteSize lexeme.toList := by
        rw [byteSize_append, begins]
      obtain ⟨consumed, rest, remains, stops, munches⟩ :=
        ih (front.toList ++ lexeme.toList) after.toList laterSplit laterBegins others later
      refine ⟨lexeme.toList ++ consumed, rest, ?_, ?_, .cons ?_ munches⟩
      · rw [remains, List.append_assoc]
      · rw [byteSize_append, ← Nat.add_assoc, stops]
      · rwa [← remains, ← String.toList_append]

theorem tiling_of_munches (munches : Munches table rest 0 consumed spans)
    (split : source.toList = consumed ++ rest) :
    Tiling table source spans (byteSize consumed) where
  tiles := by simpa using munches.tiles
  munched := munches.munchedAt [] split rfl

theorem Tiling.exists_munches (tiling : Tiling table source spans stop) :
    ∃ consumed rest, source.toList = consumed ++ rest ∧ byteSize consumed = stop ∧
      Munches table rest 0 consumed spans := by
  have munches := munches_of_tiles [] source.toList rfl rfl tiling.tiles tiling.munched
  simpa [byteSize] using munches

end Tiling

/-- What lexing a source by maximal munch comes to, with at most so many tokens. -/
inductive MaximalMunch (table : KeywordTable) (limit : UInt64) (source : String) :
    Except LexError (List Span) → Prop
  /-- The whole source is covered. -/
  | complete {spans : List Span} (tiling : Tiling table source spans source.utf8ByteSize)
      (few : spans.length ≤ limit.toNat) : MaximalMunch table limit source (.ok spans)
  /-- The source is covered up to a character with which no token starts. -/
  | unexpected {before after : String} {char : Char} {spans : List Span}
      (split : source = before ++ String.singleton char ++ after)
      (tiling : Tiling table source spans before.utf8ByteSize) (few : spans.length < limit.toNat)
      (unspelled : Unspelled table (char :: after.toList)) (notDigit : char.isDigit = false)
      (notLower : char.isLower = false) :
      MaximalMunch table limit source (.error (.unexpectedChar char before.length))
  /-- As many tokens as are allowed leave some of the source. -/
  | limited {spans : List Span} {stop : Nat} (tiling : Tiling table source spans stop)
      (full : spans.length = limit.toNat) (more : stop < source.utf8ByteSize) :
      MaximalMunch table limit source (.error (.tokenLimitExceeded limit))

section Spans

variable {lexer : Lexer} {source : String} {spans : List Span} {consumed rest : List Char}

/-- After some tokens, the outcome is decided by the rest of the source. -/
theorem spans_of_munches (split : source.toList = consumed ++ rest)
    (munches : Munches lexer.table rest 0 consumed spans)
    (room : spans.length ≤ lexer.limit.toNat) :
    lexer.spans source =
      (spans ++ ·) <$> lexer.spansFrom spans.length (byteSize consumed) consumed.length rest := by
  rw [Lexer.spans, split]
  simpa using spansFrom_munches 0 0 munches (by omega)

theorem spansFrom_limited {start position : Nat} (more : rest ≠ []) :
    lexer.spansFrom lexer.limit.toNat start position rest =
      .error (.tokenLimitExceeded lexer.limit) := by
  cases rest with
  | nil => exact absurd rfl more
  | cons first rest => rw [spansFrom, if_pos (Nat.le_refl _)]

theorem spansFrom_unexpected {count start position : Nat} {first : Char}
    (room : count < lexer.limit.toNat) (none_starts : lexer.read? (first :: rest) = none) :
    lexer.spansFrom count start position (first :: rest) =
      .error (.unexpectedChar first position) := by
  rw [spansFrom, if_neg (by omega), none_starts]

theorem spans_of_maximalMunch {result : Except LexError (List Span)}
    (munched : MaximalMunch lexer.table lexer.limit source result) :
    lexer.spans source = result := by
  cases munched with
  | complete tiling few =>
      obtain ⟨consumed, rest, split, size, munches⟩ := tiling.exists_munches
      have nothing : byteSize rest = 0 := by
        have total := utf8ByteSize_split split
        omega
      obtain rfl := byteSize_eq_zero_iff.mp nothing
      rw [spans_of_munches split munches few, spansFrom]
      simp [Functor.map, Except.map]
  | @unexpected before after char spans whole tiling few unspelled notDigit notLower =>
      obtain ⟨consumed, rest, split, size, munches⟩ := tiling.exists_munches
      have lists : consumed ++ rest = before.toList ++ char :: after.toList := by
        rw [← split, whole]
        simp
      obtain ⟨rfl, rfl⟩ := append_inj_of_byteSize lists (by rw [size, utf8ByteSize_eq])
      have none_starts : lexer.read? (char :: after.toList) = none :=
        read?_eq_none_iff.mpr ⟨unspelled, notDigit, notLower⟩
      rw [spans_of_munches split munches (by omega), spansFrom_unexpected few none_starts,
        String.length_toList]
      rfl
  | limited tiling full more =>
      obtain ⟨consumed, rest, split, size, munches⟩ := tiling.exists_munches
      have remains : rest ≠ [] := by
        rintro rfl
        have total := utf8ByteSize_split split
        rw [byteSize_eq_zero_iff.mpr rfl] at total
        omega
      rw [spans_of_munches split munches (by omega), full, spansFrom_limited remains]
      rfl

theorem maximalMunch_spans (lexer : Lexer) (source : String) :
    MaximalMunch lexer.table lexer.limit source (lexer.spans source) := by
  obtain ⟨consumed, rest, spans, split, munches, room, stops⟩ :=
    lexer.exists_munches source.toList 0 0 (Nat.zero_le _)
  rw [Nat.zero_add] at room stops
  have tiling := tiling_of_munches munches split
  have total := utf8ByteSize_split split
  have outcome := spans_of_munches split munches room
  rw [outcome]
  cases rest with
  | nil =>
      rw [byteSize_eq_zero_iff.mpr rfl, Nat.add_zero] at total
      rw [spansFrom]
      simpa using .complete (total ▸ tiling) room
  | cons first rest =>
      have positive := byteSize_pos (List.cons_ne_nil first rest)
      obtain full | unfilled := Nat.eq_or_lt_of_le room
      · rw [full, spansFrom_limited (List.cons_ne_nil first rest)]
        exact .limited tiling full (by omega)
      · obtain ended | limited | none_starts := stops
        · exact absurd ended (List.cons_ne_nil first rest)
        · omega
        obtain ⟨unspelled, notDigit, notLower⟩ := read?_eq_none_iff.mp none_starts
        have whole : source =
            String.ofList consumed ++ String.singleton first ++ String.ofList rest := by
          rw [← String.toList_inj, split]
          simp
        have size : (String.ofList consumed).utf8ByteSize = byteSize consumed :=
          utf8ByteSize_ofList consumed
        have munched := MaximalMunch.unexpected whole (size ▸ tiling) unfilled
          (by rwa [String.toList_ofList]) notDigit notLower
        rw [String.length_ofList] at munched
        rw [spansFrom_unexpected unfilled none_starts]
        exact munched

/-- Lexing a source comes to its maximal munch. -/
theorem spans_eq_iff_maximalMunch (lexer : Lexer) (source : String)
    (result : Except LexError (List Span)) :
    lexer.spans source = result ↔ MaximalMunch lexer.table lexer.limit source result := by
  constructor
  · rintro rfl
    exact maximalMunch_spans lexer source
  · exact spans_of_maximalMunch

end Spans

end Lexer

end Tacit
