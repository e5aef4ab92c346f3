import CognitiveComplexity.Proofs.Token.Context
import CognitiveComplexity.Score

set_option autoImplicit false

namespace CognitiveComplexity

namespace Token

def byReference (tokens : List Token) : Bool := tokens.head?.any (·.kind == .bitwiseAnd)

def ownWord? (tokens : List Token) : Option Token :=
  (if byReference tokens = true then tokens[1]? else tokens[0]?).filter
    fun token => readAsWord token.kind token.text

theorem ownWord_cases (tokens : List Token) (word : Token) (stands : ownWord? tokens = some word) :
    readAsWord word.kind word.text = true ∧
      ((byReference tokens = false ∧ ∃ rest, tokens = word :: rest) ∨
        (byReference tokens = true ∧
          ∃ sign rest, sign.kind = .bitwiseAnd ∧ tokens = sign :: word :: rest)) := by
  obtain ⟨found, read⟩ := Option.filter_eq_some_iff.mp stands
  refine ⟨read, ?_⟩
  rcases tokens with _ | ⟨first, rest⟩
  next => simp at found
  next =>
    by_cases sign : first.kind = .bitwiseAnd
    next =>
      rcases rest with _ | ⟨second, rest⟩
      next => simp [byReference, sign] at found
      next =>
        obtain rfl : second = word := by simpa [byReference, sign] using found
        exact .inr ⟨by simp [byReference, sign], first, rest, sign, rfl⟩
    next =>
      obtain rfl : first = word := by simpa [byReference, sign] using found
      exact .inl ⟨by simp [byReference, sign], rest, rfl⟩

theorem wordKind_ne (kind : Kind) (unlisted : kind ∉ .closure :: .function :: Kind.wordTable.map (·.2))
    (other : kind ≠ .identifier) (before : Option Token) (text : Bytes) (behind : List Token) :
    wordKind before text behind ≠ kind := by
  simp only [List.mem_cons, not_or] at unlisted
  unfold wordKind
  split_ifs
  next => exact other.symm
  next => exact Ne.symm unlisted.1
  next => exact Ne.symm unlisted.2.1
  next => exact Kind.ofWord_ne kind unlisted.2.2 other text

theorem wordKind_eq_identifier (before : Token) (plain : ¬ before.introduces) (text : Bytes)
    (behind : List Token) :
    wordKind (some before) text behind = .identifier ↔ Kind.keyword? (Bytes.lower text) = none := by
  rw [← Kind.ofWord_eq_identifier]
  unfold wordKind
  simp only [Option.any_some, plain, decide_false, Bool.false_eq_true, if_false]
  by_cases spelled : Bytes.lower text = Bytes.ofString "function"
  next =>
    have function := (Kind.ofWord_eq_function text).mpr spelled
    rw [if_pos spelled, function]
    split_ifs <;> simp
  next =>
    rw [if_neg spelled]
    rfl

end Token

namespace Scope

open Token

theorem nameOf_shown (rest : List Token) : nameOf (shown rest) = nameOf rest := by
  unfold nameOf
  rw [find_shown (fun kind => kind != .comment && kind != .bitwiseAnd) rfl]

theorem nameOf_cons (word : Token) (rest : List Token) (visible : word.kind ≠ .comment)
    (plain : word.kind ≠ .bitwiseAnd) :
    nameOf (word :: rest) = if word.kind = .identifier then word.text else anonymous := by
  simp [nameOf, visible, plain]

theorem nameOf_sign (sign : Token) (rest : List Token) (refers : sign.kind = .bitwiseAnd) :
    nameOf (sign :: rest) = nameOf rest := by
  simp [nameOf, refers]

theorem word_ne_anonymous (kind : Kind) (text : Bytes) (word : readAsWord kind text = true) :
    text ≠ anonymous := by
  rintro rfl
  have bracket : anonymous.all Byte.isWord = false := by decide +kernel
  simp [readAsWord, bracket] at word

section Keyword

variable (source : Bytes) (position : Nat) (keyword word : Token)
  (found : (ofBytes source)[position]? = some keyword) (function : keyword.kind = .function)
  (stands : ownWord? (after (ofBytes source) position) = some word)

include found function stands

-- Only a by-reference sign can stand between `function` and the word, and it introduces no name.
theorem ownWord_kind :
    ∃ before behind, word.kind = wordKind (some before) word.text behind ∧
      (before.introduces ↔ byReference (after (ofBytes source) position) = false) := by
  obtain ⟨read, ⟨direct, rest, follows⟩ | ⟨referenced, sign, rest, refers, follows⟩⟩ :=
    ownWord_cases _ word stands
  next =>
    obtain ⟨place, foundWord, before, _⟩ := after_cons _ position word rest follows
    have visible : keyword.kind ≠ .comment := by simp [function]
    have kind := word_kind source place word foundWord read
    rw [before, before_succ _ position keyword found visible] at kind
    exact ⟨keyword, _, kind, by simp [direct, introduces, function]⟩
  next =>
    obtain ⟨signPlace, foundSign, _, behind⟩ := after_cons _ position sign _ follows
    obtain ⟨place, foundWord, before, _⟩ := after_cons _ signPlace word rest behind
    have visible : sign.kind ≠ .comment := by simp [refers]
    have kind := word_kind source place word foundWord read
    rw [before, before_succ _ signPlace sign foundSign visible] at kind
    exact ⟨sign, _, kind, by simp [referenced, introduces, refers]⟩

theorem ownWord_named :
    word.kind = .identifier ↔ ¬ (byReference (after (ofBytes source) position) = true ∧
      Kind.keyword? (Bytes.lower word.text) ≠ none) := by
  obtain ⟨before, behind, kind, directly⟩ :=
    ownWord_kind source position keyword word found function stands
  rw [kind]
  by_cases introduced : before.introduces
  next => simp [wordKind_introduced before introduced, directly.mp introduced]
  next =>
    have referenced : byReference (after (ofBytes source) position) = true := by
      simpa using mt directly.mpr introduced
    simp [wordKind_eq_identifier before introduced, referenced]

theorem nameOf_ownWord :
    nameOf ((ofBytes source).drop (position + 1)) =
      if word.kind = .identifier then word.text else anonymous := by
  obtain ⟨before, behind, kind, _⟩ :=
    ownWord_kind source position keyword word found function stands
  have visible : word.kind ≠ .comment :=
    kind ▸ wordKind_ne .comment (by decide +kernel) (by decide) _ _ _
  have plain : word.kind ≠ .bitwiseAnd :=
    kind ▸ wordKind_ne .bitwiseAnd (by decide +kernel) (by decide) _ _ _
  rw [← nameOf_shown]
  change nameOf (after (ofBytes source) position) = _
  obtain ⟨_, ⟨_, rest, follows⟩ | ⟨_, sign, rest, refers, follows⟩⟩ := ownWord_cases _ word stands
  next => rw [follows, nameOf_cons word rest visible plain]
  next => rw [follows, nameOf_sign sign _ refers, nameOf_cons word rest visible plain]

end Keyword

/-- A function is named by the word in the place of its name, which then counts nowhere, unless the
word spells a keyword behind a by-reference sign. Then, and only then, a function with a word there is
anonymous, and the word is still a keyword. -/
theorem named_by_own_word (source : String) (scope : Scope) (member : scope ∈ all (stream source))
    (word : Token) (stands : ownWord? (after (stream source) scope.keyword) = some word) :
    let lost := byReference (after (stream source) scope.keyword) = true ∧
      Kind.keyword? (Bytes.lower word.text) ≠ none
    (scope.name = word.text ↔ ¬ lost) ∧ (scope.name = anonymous ↔ lost) ∧
      (word.kind = .identifier ↔ ¬ lost) ∧ (word.kind.isIncreasing = true → lost) := by
  unfold stream at *
  generalize Bytes.ofString source = bytes at *
  intro lost
  obtain ⟨keyword, _, _, _, _, found, function, _, _, _, _, same⟩ :=
    (at_eq_some _ _ _).mp ((mem_all bytes scope).mp member)
  have named : word.kind = .identifier ↔ ¬ lost :=
    ownWord_named bytes scope.keyword keyword word found function stands
  have name : scope.name = if word.kind = .identifier then word.text else anonymous := by
    rw [same]
    exact nameOf_ownWord bytes scope.keyword keyword word found function stands
  have other : word.text ≠ anonymous :=
    word_ne_anonymous word.kind word.text (ownWord_cases _ word stands).1
  by_cases identifier : word.kind = .identifier
  next =>
    have kept : ¬ lost := named.mp identifier
    have uncounted : Kind.identifier.isIncreasing = false := by decide
    simp [name, identifier, kept, other, uncounted]
  next =>
    have spelled : lost := by simpa using mt named.mpr identifier
    simp [name, identifier, spelled, other.symm]

-- A method may be called `for`, and its name counts nowhere.
theorem named_by_own_word_method :
    let source := "<?php function f() \x7b new class \x7b function /* a */ For() \x7b \x7d \x7d; \x7d"
    let scope : Scope := ⟨Bytes.ofString "For", 9, 14, 15, 2⟩
    let word : Token := ⟨.identifier, Bytes.ofString "For", 11, 2, 1, 51, none⟩
    scope ∈ all (stream source) ∧ ownWord? (after (stream source) scope.keyword) = some word ∧
      scope.name = word.text ∧ scope.name ≠ anonymous := by
  intro source scope word
  obtain ⟨member, stands⟩ : scope ∈ all (stream source) ∧
      ownWord? (after (stream source) scope.keyword) = some word := by
    decide +kernel
  obtain ⟨named, unnamed, kind, _⟩ := named_by_own_word source scope member word stands
  have kept := kind.mp rfl
  exact ⟨member, stands, named.mpr kept, mt unnamed.mp kept⟩

-- Behind a by-reference sign the method has no name, and its name counts in the function around it,
-- where another name does not.
theorem anonymous_by_reference :
    let source := fun name => "<?php function f() \x7b new class \x7b function &" ++ name ++
      "() \x7b \x7d \x7d; \x7d"
    let stream := stream (source "for")
    let outer : Scope := ⟨Bytes.ofString "f", 1, 5, 18, 0⟩
    all stream = [outer, ⟨anonymous, 9, 14, 15, 2⟩] ∧
      ownWord? (after stream 9) = some ⟨.forWord, Bytes.ofString "for", 11, 2, 1, 44, none⟩ ∧
      outer.body.score stream = 3 ∧ outer.body.score (Token.stream (source "each")) = 2 := by
  decide +kernel

end Scope

end CognitiveComplexity
