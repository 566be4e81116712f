import Tacit.Proofs.Checking
import Tacit.Settings

/-!
# Grammar rules and their text

A rule is read from exactly the texts that fall, at white space, into the names of its pattern, and
the text written for it is one of them.  So the rules of a grammar stay the same when every entry is
replaced by the text of the rule that was read from it.
-/

namespace Tacit

namespace Text

/-- What a text falls into when it is split at each character of white space, without the empty
pieces. -/
def pieces (text : String) : List String :=
  ((text.toList.splitOnP isBlank).filter (· ≠ [])).map String.ofList

theorem consWord_filter (word : List Char) (later : List (List Char)) :
    consWord word (later.filter (· ≠ [])) = (word :: later).filter (· ≠ []) := by
  rw [List.filter_cons]
  cases word <;> rfl

/-- The word that a text starts with is its first piece, which may be empty, and the words after it
are the later pieces without the empty ones. -/
theorem splitWords_eq (text : List Char) :
    ∃ word later, text.splitOnP isBlank = word :: later ∧
      splitWords text = (word, later.filter (· ≠ [])) := by
  induction text with
  | nil => exact ⟨[], [], List.splitOnP_nil, rfl⟩
  | cons char rest ih =>
      obtain ⟨word, later, split, words⟩ := ih
      rw [List.splitOnP_cons_eq_if_modifyHead, split, splitWords, words]
      by_cases blank : isBlank char = true
      · simp only [if_pos blank, consWord_filter]
        exact ⟨[], word :: later, rfl, rfl⟩
      · simp only [if_neg blank]
        exact ⟨char :: word, later, rfl, rfl⟩

theorem words_eq_pieces (text : String) : words text = pieces text := by
  obtain ⟨word, later, split, words⟩ := splitWords_eq text.toList
  rw [Text.words, words, pieces, split, ← consWord_filter]

/-- Nothing of the word is white space, and it is not empty. -/
structure Solid (word : String) : Prop where
  nonempty : word ≠ ""
  solid : ∀ char ∈ word.toList, isBlank char = false

theorem pieces_of_solid {word : String} (single : Solid word) : pieces word = [word] := by
  rw [pieces, List.splitOnP_eq_singleton single.solid]
  simp [single.nonempty]

theorem pieces_solid_append {word : String} (single : Solid word) (rest : String) :
    pieces (word ++ " " ++ rest) = word :: pieces rest := by
  have blank : isBlank ' ' = true := by decide
  have apart : (word ++ " " ++ rest).toList = word.toList ++ ' ' :: rest.toList := by simp
  rw [pieces, apart, List.splitOnP_append_cons _ _ blank, List.filter_append, List.map_append,
    ← pieces, ← pieces, pieces_of_solid single]
  rfl

theorem pieces_intercalate {words : List String} (each : ∀ word ∈ words, Solid word) :
    pieces (" ".intercalate words) = words := by
  induction words with
  | nil => rfl
  | cons word words ih =>
      obtain ⟨single, later⟩ := List.forall_mem_cons.mp each
      cases words with
      | nil => rw [String.intercalate_singleton, pieces_of_solid single]
      | cons next words =>
          rw [String.intercalate_cons_cons, pieces_solid_append single, ih later]

end Text

namespace Category

theorem ofName?_eq_some_iff {text : String} {category : Category} :
    ofName? text = some category ↔ text = category.name := by
  constructor
  · intro found
    have named := List.find?_some found
    exact (of_decide_eq_true named).symm
  · rintro rfl
    exact ofName?_name category

theorem mapM_ofName?_eq_some_iff {names : List String} {categories : List Category} :
    names.mapM ofName? = some categories ↔ names = categories.map name := by
  induction names generalizing categories with
  | nil => cases categories <;> simp
  | cons text names ih =>
      simp only [List.mapM_cons, Option.bind_eq_bind, Option.bind_eq_some_iff, ofName?_eq_some_iff,
        ih]
      cases categories <;> simp [eq_comm]

theorem solid_name (category : Category) : Text.Solid category.name := by
  have solid : category.name.toList.all (fun char => !Text.isBlank char) = true := by
    cases category <;> rfl
  refine ⟨by cases category <;> decide, fun char member => ?_⟩
  simpa using List.all_eq_true.mp solid char member

end Category

namespace Rule

variable {pattern : String} {result : CategorySet} {rule : Rule}

/-- The pattern has at least two categories and the group at least one. -/
structure Regular (rule : Rule) : Prop where
  two_le : 2 ≤ rule.pattern.length
  result_ne : rule.result ≠ ∅

theorem regular_iff_not_refused :
    rule.Regular ↔ ¬(rule.pattern.length < 2 || rule.result = ∅) = true := by
  constructor
  · rintro ⟨two_le, result_ne⟩
    simp [result_ne, Nat.not_lt.mpr two_le]
  · intro kept
    simp only [Bool.or_eq_true, decide_eq_true_eq, not_or, Nat.not_lt] at kept
    exact ⟨kept.1, kept.2⟩

theorem parse_eq_ok_iff :
    parse pattern result = .ok rule ↔
      Text.pieces pattern = rule.pattern.map Category.name ∧ rule.result = result ∧
        rule.Regular := by
  rw [← Text.words_eq_pieces, ← Category.mapM_ofName?_eq_some_iff, parse]
  cases (Text.words pattern).mapM Category.ofName? with
  | none => simp
  | some categories =>
      constructor
      · intro parsed
        dsimp only at parsed
        split at parsed
        next => contradiction
        next kept =>
          obtain rfl := Except.ok.inj parsed
          exact ⟨rfl, rfl, regular_iff_not_refused.mpr kept⟩
      · rintro ⟨same, rfl, regular⟩
        obtain rfl := Option.some.inj same
        exact if_neg (regular_iff_not_refused.mp regular)

theorem eq_invalidRule_of_parse {error : TableError}
    (refused : parse pattern result = .error error) : error = .invalidRule pattern := by
  rw [parse] at refused
  split at refused
  next => exact (Except.error.inj refused).symm
  next =>
    split at refused
    next => exact (Except.error.inj refused).symm
    next => contradiction

theorem pieces_patternText (rule : Rule) :
    Text.pieces rule.patternText = rule.pattern.map Category.name :=
  Text.pieces_intercalate (List.forall_mem_map.mpr fun category _ => category.solid_name)

/-- A rule that can be read at all is read back from its own text. -/
theorem parse_ofRule (regular : rule.Regular) :
    parse (RuleEntry.ofRule rule).pattern (RuleEntry.ofRule rule).result = .ok rule :=
  parse_eq_ok_iff.mpr ⟨rule.pieces_patternText, rfl, regular⟩

end Rule

namespace Settings

variable {settings : Settings} {rules : List Rule}

/-- The settings with the text of these rules for a grammar. -/
def withRules (settings : Settings) (rules : List Rule) : Settings :=
  { settings with grammar := rules.map .ofRule }

theorem rules_eq_ok_iff :
    settings.rules = .ok rules ↔
      List.Forall₂ (fun entry rule => Rule.parse entry.pattern entry.result = .ok rule)
        settings.grammar rules :=
  mapM_eq_ok_iff

theorem regular_of_rules (read : settings.rules = .ok rules) {rule : Rule} (member : rule ∈ rules) :
    rule.Regular := by
  obtain ⟨entry, _, parsed⟩ := exists_mem_of_forall₂ (rules_eq_ok_iff.mp read).flip member
  exact (Rule.parse_eq_ok_iff.mp parsed).2.2

theorem rules_withRules (regular : ∀ rule ∈ rules, rule.Regular) :
    (settings.withRules rules).rules = .ok rules := by
  rw [rules_eq_ok_iff, withRules, List.forall₂_map_left_iff, List.forall₂_same]
  exact fun rule member => Rule.parse_ofRule (regular rule member)

end Settings

/-- A rule is read from a text exactly if the text falls into the names of its pattern, and is
otherwise refused with that text.  A rule is read back from the text written for it, and so are the
rules of a grammar. -/
theorem Rule.agrees_with_text :
    (∀ pattern result,
      (∀ rule, Rule.parse pattern result = .ok rule ↔
        Text.pieces pattern = rule.pattern.map Category.name ∧ rule.result = result ∧
          rule.Regular) ∧
      ∀ error, Rule.parse pattern result = .error error → error = .invalidRule pattern) ∧
    (∀ rule : Rule, rule.Regular →
      Rule.parse (RuleEntry.ofRule rule).pattern (RuleEntry.ofRule rule).result = .ok rule) ∧
    ∀ (settings : Settings) (rules : List Rule), settings.rules = .ok rules →
      List.Forall₂ (fun entry rule => Rule.parse entry.pattern entry.result = .ok rule)
          settings.grammar rules ∧
        (settings.withRules rules).rules = .ok rules := by
  refine ⟨fun pattern result => ⟨fun rule => parse_eq_ok_iff, fun error => ?_⟩, ?_, ?_⟩
  · exact eq_invalidRule_of_parse
  · exact fun rule => parse_ofRule
  · intro settings rules read
    exact ⟨Settings.rules_eq_ok_iff.mp read,
      Settings.rules_withRules fun rule => Settings.regular_of_rules read⟩

/-- Two rules with more white space than they need. -/
def Settings.widelySpaced : Settings :=
  { grammar := [⟨"\tnoun\u3000 dyad\n", {.monad}⟩, ⟨"monad noun ", {.noun}⟩] }

/-- Their texts come to have one space between two names, and the same rules are read again.  A
single name is no pattern. -/
theorem Settings.widelySpaced_agrees_with_text :
    widelySpaced.rules = .ok [⟨[.noun, .dyad], {.monad}⟩, ⟨[.monad, .noun], {.noun}⟩] ∧
      ({ widelySpaced with grammar := [⟨"noun dyad", {.monad}⟩, ⟨"monad noun", {.noun}⟩] } :
        Settings).rules = .ok [⟨[.noun, .dyad], {.monad}⟩, ⟨[.monad, .noun], {.noun}⟩] ∧
      ∀ rule, Rule.parse "noun" {.noun} ≠ .ok rule := by
  obtain ⟨exactly, _, again⟩ := Rule.agrees_with_text
  have read : widelySpaced.rules =
      .ok [⟨[.noun, .dyad], {.monad}⟩, ⟨[.monad, .noun], {.noun}⟩] := by decide +kernel
  refine ⟨read, (again _ _ read).2, fun rule parsed => ?_⟩
  obtain ⟨pieces, _, regular⟩ := ((exactly _ _).1 rule).mp parsed
  have short := congrArg List.length pieces
  rw [List.length_map] at short
  have two_le := regular.two_le
  rw [← short] at two_le
  exact absurd two_le (by decide +kernel)

end Tacit
