import CognitiveComplexity.Proofs.Token.Lexeme
import CognitiveComplexity.Proofs.Text.ByteClass

set_option autoImplicit false

namespace CognitiveComplexity

namespace Kind

theorem keyword_listed (word : Bytes) (kind : Kind) (found : keyword? word = some kind) :
    (word, kind) ∈ wordTable := by
  obtain ⟨before, after, split, _⟩ := List.lookup_eq_some_iff.mp found
  simp [split]

theorem ofWord_ne (kind : Kind) (unlisted : kind ∉ wordTable.map (·.2)) (other : kind ≠ .identifier)
    (word : Bytes) : ofWord word ≠ kind := by
  unfold ofWord
  cases found : keyword? (Bytes.lower word) with
  | none => exact other.symm
  | some listed =>
    rintro rfl
    exact unlisted (List.mem_map_of_mem (keyword_listed _ _ found))

theorem ofOperator_ne (kind : Kind) (unlisted : kind ∉ operatorKinds.map (·.2))
    (other : kind ≠ .operator) (text : Bytes) : ofOperator text ≠ kind := by
  unfold ofOperator
  cases found : operatorKinds.lookup text with
  | none => exact other.symm
  | some listed =>
    obtain ⟨before, after, split, _⟩ := List.lookup_eq_some_iff.mp found
    rintro rfl
    exact unlisted (List.mem_map.mpr ⟨(text, _), by simp [split], rfl⟩)

theorem ofWord_eq_function (word : Bytes) :
    ofWord word = .function ↔ Bytes.lower word = Bytes.ofString "function" := by
  have only : ∀ entry ∈ wordTable, entry.2 = .function → entry.1 = Bytes.ofString "function" := by
    decide +kernel
  have listed : keyword? (Bytes.ofString "function") = some .function := by decide +kernel
  unfold ofWord
  constructor
  next =>
    intro named
    cases found : keyword? (Bytes.lower word) with
    | none => simp [found] at named
    | some kind =>
      rw [found, Option.getD_some] at named
      exact only _ (keyword_listed _ _ found) named
  next =>
    intro spelled
    rw [spelled, listed]
    rfl

theorem ofWord_eq_identifier (word : Bytes) :
    ofWord word = .identifier ↔ keyword? (Bytes.lower word) = none := by
  have listed : ∀ entry ∈ wordTable, entry.2 ≠ .identifier := by decide +kernel
  unfold ofWord
  cases found : keyword? (Bytes.lower word) with
  | none => simp
  | some kind => simpa using listed _ (keyword_listed _ _ found)

-- Keywords are spelled in ASCII letters.
theorem keyword_starts (word : Bytes) (plain : word.head?.any Byte.isWordStart = false) :
    keyword? (Bytes.lower word) = none := by
  have starts : ∀ entry ∈ wordTable, entry.1.head?.any Byte.isWordStart = true := by decide +kernel
  have lowered (b : UInt8) : Byte.isWordStart (Byte.lower b) = Byte.isWordStart b := by
    revert b
    exact Byte.forall_bytes (by decide +kernel)
  cases found : keyword? (Bytes.lower word) with
  | none => rfl
  | some kind =>
    have start := starts _ (keyword_listed _ _ found)
    simp only [Bytes.lower, List.head?_map, Option.any_map, lowered] at start
    rw [plain] at start
    cases start

end Kind

theorem Byte.not_isWordStart (b : UInt8) (other : isWord b = false ∨ isDigit b = true) :
    isWordStart b = false := by
  by_contra starts
  obtain ⟨_, _, noDigit, word⟩ := class_of_isWordStart b (by simpa using starts)
  rcases other with symbol | digit
  next => cases symbol.symm.trans word
  next => cases noDigit.symm.trans digit

namespace Reading

open Byte

theorem class_of_isWord (b : UInt8) (word : isWord b = true) :
    isBlank b = false ∧ isQuote b = false ∧ b ≠ question ∧ b ≠ slash ∧ b ≠ hash ∧ b ≠ less ∧
      b ≠ dollar := by
  have each (b : UInt8) : isWord b = true → isBlank b = false ∧ isQuote b = false ∧ b ≠ question ∧
      b ≠ slash ∧ b ≠ hash ∧ b ≠ less ∧ b ≠ dollar := by
    revert b
    exact forall_bytes (by decide +kernel)
  exact each b word

theorem php_of_word (first : UInt8) (rest : Bytes) (word : isWord first = true) :
    php first rest = if isDigit first then token .number (Extent.number rest)
      else token (Kind.ofWord (first :: rest.take (Extent.word rest))) (Extent.word rest) := by
  obtain ⟨blank, quote, noTag, noSlash, noHash, noLess, noDollar⟩ := class_of_isWord first word
  have noHeredoc : heredocAt? first rest = none := by
    unfold heredocAt?
    split
    next => exact absurd rfl noLess
    next => rfl
  simp [php_eq, plain, blank, quote, noTag, noSlash, noHash, noDollar, noHeredoc, word]

theorem php_of_symbol (first : UInt8) (rest : Bytes) (symbol : isWord first = false) :
    (php first rest).kind ∈ [none, some .closeTag, some .comment, some .string, some .variable] ∨
      (php first rest).kind = (operator first rest).kind := by
  have noDigit : isDigit first = false := by
    simp only [isWord, isAlphanumeric, Bool.or_eq_false_iff] at symbol
    exact symbol.1.1.2
  rw [php_eq]
  split_ifs
  iterate 4 simp [token]
  cases heredocAt? first rest with
  | some size => simp [token]
  | none =>
    simp only [plain, noDigit, symbol, Bool.false_eq_true, if_false]
    split_ifs
    next => simp [token]
    next => simp [token]
    next => exact .inr rfl

-- `function` and names are words.
theorem php_symbol_ne (kind : Kind) (named : kind = .function ∨ kind = .identifier) (first : UInt8)
    (rest : Bytes) (symbol : isWord first = false) : (php first rest).kind ≠ some kind := by
  have unlisted : kind ∉ Kind.operatorKinds.map (·.2) := by
    rcases named with rfl | rfl <;> decide +kernel
  have other : kind ≠ .operator := by rcases named with rfl | rfl <;> decide
  rcases php_of_symbol first rest symbol with plain | operator
  next =>
    rintro read
    rw [read] at plain
    rcases named with rfl | rfl <;> simp at plain
  next =>
    rw [operator]
    rcases operator_cases first rest with ⟨more, _, _, reads⟩ | reads
    next => simp [reads, token, Kind.ofOperator_ne kind unlisted other]
    next => simp [reads, token, other.symm]

theorem html_kind (first : UInt8) (rest : Bytes) :
    (html first rest).kind = some .openTag ∨ (html first rest).kind = some .inlineHtml := by
  unfold html
  split <;> simp

theorem plain_mode (first : UInt8) (rest : Bytes) : (plain first rest).mode = .php := by
  unfold plain
  split_ifs
  iterate 4 rfl
  rcases operator_cases first rest with ⟨more, _, _, reads⟩ | reads <;> simp [reads, token]

theorem php_leaves (first : UInt8) (rest : Bytes) (leaves : (php first rest).mode = .html) :
    (php first rest).kind = some .closeTag := by
  rw [php_eq] at leaves ⊢
  split_ifs at leaves ⊢ with blank tag line block
  next => rfl
  next => cases leaves
  next => cases leaves
  next =>
    split at leaves
    next => cases leaves
    next =>
      rw [plain_mode] at leaves
      cases leaves

end Reading

def Token.readAsWord (kind : Kind) (text : Bytes) : Bool :=
  kind != .number && kind != .inlineHtml && text.all Byte.isWord

namespace Lexeme

open Token

def Inside (lexeme : Lexeme) : Prop :=
  ∃ first rest, (Reading.php first rest).kind = some lexeme.kind ∧
    lexeme.text = first :: rest.take (Reading.php first rest).more

theorem inside_cases (lexeme : Lexeme) (inside : lexeme.Inside) :
    (readAsWord lexeme.kind lexeme.text = true ∧ lexeme.kind = Kind.ofWord lexeme.text) ∨
      (readAsWord lexeme.kind lexeme.text = false ∧ lexeme.isWord = false ∧
        lexeme.kind ≠ .function ∧ lexeme.kind ≠ .identifier) := by
  obtain ⟨first, rest, read, text⟩ := inside
  cases word : Byte.isWord first with
  | false =>
    have noStart := Byte.not_isWordStart first (.inl word)
    refine .inr ⟨by simp [readAsWord, text, word], by simp [isWord, text, noStart], ?_, ?_⟩
    next =>
      intro function
      exact Reading.php_symbol_ne .function (.inl rfl) first rest word (function ▸ read)
    next =>
      intro identifier
      exact Reading.php_symbol_ne .identifier (.inr rfl) first rest word (identifier ▸ read)
  | true =>
    rw [Reading.php_of_word first rest word] at read text
    cases digit : Byte.isDigit first with
    | true =>
      have number : lexeme.kind = .number := by simpa [digit, Reading.token] using read.symm
      have noStart := Byte.not_isWordStart first (.inr digit)
      exact .inr ⟨by simp [readAsWord, number], by simp [isWord, text, noStart], by simp [number],
        by simp [number]⟩
    | false =>
      rw [digit] at read text
      have spelled : lexeme.text = first :: rest.take (Extent.word rest) := by
        simpa [Reading.token] using text
      have kind : lexeme.kind = Kind.ofWord lexeme.text := by
        rw [spelled]
        simpa [Reading.token] using read.symm
      refine .inl ⟨?_, kind⟩
      have noNumber := Kind.ofWord_ne .number (by decide +kernel) (by decide) lexeme.text
      have noMarkup := Kind.ofWord_ne .inlineHtml (by decide +kernel) (by decide) lexeme.text
      have bytes : lexeme.text.all Byte.isWord = true := by
        rw [spelled, List.all_cons, word, Bool.true_and, List.all_eq_true]
        exact Extent.word_take rest
      simp [readAsWord, kind, noNumber, noMarkup, bytes]

theorem kindIn_symbol (afterIntroducer : Bool) (lexeme : Lexeme) (rest : List Lexeme)
    (plain : lexeme.isWord = false) (noFunction : lexeme.kind ≠ .function) :
    kindIn afterIntroducer lexeme rest = lexeme.kind := by
  simp [kindIn, plain, noFunction]

theorem inside_symbol (lexeme : Lexeme) (inside : lexeme.Inside)
    (symbol : lexeme.kind = .comment ∨ lexeme.kind = .closeTag) (afterIntroducer : Bool)
    (rest : List Lexeme) : kindIn afterIntroducer lexeme rest = lexeme.kind := by
  rcases inside_cases lexeme inside with ⟨_, spelled⟩ | ⟨_, plain, noFunction, _⟩
  next =>
    have unlisted : lexeme.kind ∉ Kind.wordTable.map (·.2) := by
      rcases symbol with kind | kind <;> rw [kind] <;> decide +kernel
    have noName : lexeme.kind ≠ .identifier := by rcases symbol with kind | kind <;> simp [kind]
    exact absurd spelled.symm (Kind.ofWord_ne lexeme.kind unlisted noName lexeme.text)
  next => exact kindIn_symbol afterIntroducer lexeme rest plain noFunction

theorem introducesName_tag (kind : Kind) (text : Bytes)
    (tag : kind = .openTag ∨ kind = .inlineHtml ∨ kind = .closeTag) :
    introducesName kind text = false := by
  rcases tag with rfl | rfl | rfl <;> rfl

theorem kindsFrom_markup (lexeme : Lexeme) (rest : List Lexeme)
    (markup : lexeme.kind = .openTag ∨ lexeme.kind = .inlineHtml) :
    kindsFrom false (lexeme :: rest) = lexeme.kind :: kindsFrom false rest := by
  have silent := introducesName_tag lexeme.kind lexeme.text (markup.imp_right .inl)
  have kept : kindIn false lexeme rest = lexeme.kind := by
    rcases markup with tag | tag <;> simp [kindIn, tag]
  have visible : lexeme.isComment = false := by
    rcases markup with tag | tag <;> simp [isComment, tag]
  simp [kindsFrom, visible, kept, silent]

theorem kindsFrom_inside (afterIntroducer : Bool) (lexeme : Lexeme) (rest : List Lexeme)
    (inside : lexeme.Inside) :
    ∃ next, kindsFrom afterIntroducer (lexeme :: rest) =
        kindIn afterIntroducer lexeme rest :: kindsFrom next rest ∧
      (lexeme.kind = .closeTag → next = false) := by
  by_cases comment : lexeme.kind = .comment
  next =>
    have kept := inside_symbol lexeme inside (.inl comment) afterIntroducer rest
    exact ⟨afterIntroducer, by simp [kindsFrom, isComment, comment, kept], by simp [comment]⟩
  next =>
    refine ⟨introducesName (kindIn afterIntroducer lexeme rest) lexeme.text,
      by simp [kindsFrom, isComment, comment], fun closes => ?_⟩
    rw [inside_symbol lexeme inside (.inr closes), introducesName_tag _ _ (.inr (.inr closes))]

-- Outside the tags nothing introduces a name, and a closing tag does not either.
theorem kindsFrom_forall (P : Kind → Lexeme → Prop)
    (markup : ∀ lexeme : Lexeme, lexeme.kind = .openTag ∨ lexeme.kind = .inlineHtml →
      P lexeme.kind lexeme)
    (code : ∀ lexeme : Lexeme, lexeme.Inside → ∀ afterIntroducer rest,
      P (kindIn afterIntroducer lexeme rest) lexeme)
    (mode : Mode) (place : Place) (bytes : Bytes) (afterIntroducer : Bool)
    (outside : mode = .html → afterIntroducer = false) :
    List.Forall₂ P (kindsFrom afterIntroducer (list mode place bytes)) (list mode place bytes) := by
  induction mode, place, bytes using reading_induction generalizing afterIntroducer with
  | done mode place => simp [list, kindsFrom]
  | read mode place first rest ih =>
    rw [list_cons]
    cases mode with
    | html =>
      obtain rfl := outside rfl
      obtain ⟨kind, read, tag⟩ : ∃ kind, (Reading.html first rest).kind = some kind ∧
          (kind = .openTag ∨ kind = .inlineHtml) := by
        rcases Reading.html_kind first rest with tag | tag <;> simp [tag]
      simp only [Mode.read, read, Option.toList_some, List.map_cons, List.map_nil,
        List.singleton_append] at ih ⊢
      rw [kindsFrom_markup _ _ tag]
      exact .cons (markup _ tag) (ih false fun _ => rfl)
    | php =>
      simp only [Mode.read] at ih ⊢
      cases read : (Reading.php first rest).kind with
      | none =>
        apply ih afterIntroducer
        intro leaves
        cases read.symm.trans (Reading.php_leaves first rest leaves)
      | some kind =>
        simp only [Option.toList_some, List.map_cons, List.map_nil, List.singleton_append]
        have inside : Inside ⟨kind, first :: rest.take (Reading.php first rest).more, place⟩ :=
          ⟨first, rest, read, rfl⟩
        obtain ⟨next, given, closes⟩ := kindsFrom_inside afterIntroducer _
          (list (Reading.php first rest).mode _ (rest.drop (Reading.php first rest).more)) inside
        rw [given]
        refine .cons (code _ inside _ _) (ih next fun leaves => closes ?_)
        exact Option.some.inj (read.symm.trans (Reading.php_leaves first rest leaves))

end Lexeme

end CognitiveComplexity
