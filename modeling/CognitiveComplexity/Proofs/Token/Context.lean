import CognitiveComplexity.Proofs.Function.Relocation
import CognitiveComplexity.Proofs.Scanner.Safety
import CognitiveComplexity.Proofs.Token.Recoding
import CognitiveComplexity.Proofs.Token.Word

set_option autoImplicit false

namespace CognitiveComplexity

namespace Token

def before? (stream : List Token) (index : Nat) : Option Token := (shown (stream.take index)).getLast?

def after (stream : List Token) (index : Nat) : List Token := shown (stream.drop (index + 1))

def introduces (token : Token) : Prop :=
  token.kind = .function ∨
    (token.kind = .operator ∧ token.text ∈ ["->", "?->", "::"].map Bytes.ofString)

def openParameters (tokens : List Token) : Prop :=
  [.openParen] <+: tokens.map (·.kind) ∨ [.bitwiseAnd, .openParen] <+: tokens.map (·.kind)

instance (token : Token) : Decidable token.introduces := inferInstanceAs (Decidable (_ ∨ _))

instance (tokens : List Token) : Decidable (openParameters tokens) :=
  inferInstanceAs (Decidable (_ ∨ _))

def wordKind (before : Option Token) (text : Bytes) (behind : List Token) : Kind :=
  if before.any (fun token => decide token.introduces) then .identifier
  else if Bytes.lower text = Bytes.ofString "function" then
    if openParameters behind then .closure else .function
  else (Kind.keyword? (Bytes.lower text)).getD .identifier

-- The kind of a token at some position of a stream: only words go by their neighbours.
def contextKind (stream : List Token) (index : Nat) (token : Token) : Kind :=
  if readAsWord token.kind token.text = true then
    wordKind (before? stream index) token.text (after stream index)
  else token.kind

end Token

namespace Lexeme

open Token

theorem list_cases (mode : Mode) (place : Place) (bytes : Bytes) :
    ∀ lexeme ∈ list mode place bytes,
      (readAsWord lexeme.kind lexeme.text = true ∧ lexeme.kind = Kind.ofWord lexeme.text) ∨
        (readAsWord lexeme.kind lexeme.text = false ∧ lexeme.kind ≠ .function) := by
  apply list_forall
  intro mode place first rest kind read
  cases mode with
  | php =>
    have inside : Inside ⟨kind, first :: rest.take (Reading.php first rest).more, place⟩ :=
      ⟨first, rest, read, rfl⟩
    exact (inside_cases _ inside).imp_right fun symbol => ⟨symbol.1, symbol.2.2.1⟩
  | html =>
    simp only [Mode.read, Reading.html] at read ⊢
    cases tag : Extent.openTag? (first :: rest) with
    | none =>
      rw [tag] at read
      cases read
      simp [readAsWord]
    | some size =>
      rw [tag] at read
      cases read
      have starts : first = Byte.less := by
        by_contra other
        rw [Extent.openTag_head first rest other] at tag
        cases tag
      have symbol : Byte.isWord Byte.less = false := by decide
      simp [readAsWord, starts, symbol]

def blurred (kind : Kind) : Kind :=
  match kind with
  | .openParen | .bitwiseAnd | .comment => kind
  | _ => .identifier

theorem parametersFollow_blurred (kinds : List Kind) :
    parametersFollow ((kinds.map blurred).filter (· != .comment)) =
      parametersFollow (kinds.filter (· != .comment)) := by
  have hides : (· != Kind.comment) ∘ blurred = (· != Kind.comment) := by
    funext kind
    cases kind <;> rfl
  have opens (kind : Kind) : (blurred kind == .openParen) = (kind == .openParen) := by
    cases kind <;> rfl
  have refers (kind : Kind) : (blurred kind == .bitwiseAnd) = (kind == .bitwiseAnd) := by
    cases kind <;> rfl
  rw [List.filter_map, hides]
  cases kinds.filter (· != .comment) with
  | nil => rfl
  | cons next more => cases more <;> simp [parametersFollow, opens, refers]

theorem kinds_blurred (source : Bytes) :
    (kinds (ofSource source)).map blurred = ((ofSource source).map (·.kind)).map blurred := by
  have same : List.Forall₂ (fun kind (lexeme : Lexeme) => blurred kind = blurred lexeme.kind)
      (kinds (ofSource source)) (ofSource source) := by
    apply kindsFrom_forall
    next => exact fun _ _ => rfl
    next =>
      intro lexeme inside afterIntroducer rest
      rcases inside_cases lexeme inside with ⟨_, spelled⟩ | ⟨_, plain, noFunction, _⟩
      next =>
        have word : blurred lexeme.kind = .identifier := by
          have noParen := Kind.ofWord_ne .openParen (by decide +kernel) (by decide) lexeme.text
          have noSign := Kind.ofWord_ne .bitwiseAnd (by decide +kernel) (by decide) lexeme.text
          have noComment := Kind.ofWord_ne .comment (by decide +kernel) (by decide) lexeme.text
          rw [← spelled] at noParen noSign noComment
          unfold blurred
          split <;> simp_all
        unfold kindIn
        split_ifs
        next => rw [word]; rfl
        next => rw [word]; rfl
        next => rfl
      next => rw [kindIn_symbol afterIntroducer lexeme rest plain noFunction]
    next => exact fun _ => rfl
  rw [List.map_map, ← List.forall₂_eq_eq_eq, List.forall₂_map_left_iff, List.forall₂_map_right_iff]
  exact same

end Lexeme

namespace Token

open Lexeme

theorem parametersFollow_iff (tokens : List Token) :
    parametersFollow ((tokens.map (·.kind)).filter (· != .comment)) = true ↔
      openParameters (shown tokens) := by
  have kinds : (tokens.map (·.kind)).filter (· != .comment) = (shown tokens).map (·.kind) := by
    rw [List.filter_map]
    rfl
  rw [kinds]
  unfold openParameters
  cases (shown tokens).map (·.kind) with
  | nil => simp [parametersFollow]
  | cons next more =>
    simp only [parametersFollow, Bool.or_eq_true, Bool.and_eq_true, beq_iff_eq,
      List.cons_prefix_cons, List.nil_prefix, and_true]
    cases more <;> simp [eq_comm (a := Kind.openParen), eq_comm (a := Kind.bitwiseAnd)]

-- What the flag of the pass is at some token: the last token before it that is no comment decides.
def introduced (afterIntroducer : Bool) (before : List Token) : Bool :=
  (before.getLast?.map fun token => introducesName token.kind token.text).getD afterIntroducer

theorem introduced_cons (afterIntroducer : Bool) (token : Token) (before : List Token) :
    introduced afterIntroducer (token :: before) =
      introduced (introducesName token.kind token.text) before := by
  unfold introduced
  rw [List.getLast?_cons]
  cases before.getLast? <;> rfl

-- A word that no keyword starts like is a name, whether or not it is introduced.
theorem kindIn_word (afterIntroducer : Bool) (lexeme : Lexeme) (rest : List Lexeme)
    (spelled : lexeme.kind = Kind.ofWord lexeme.text) :
    kindIn afterIntroducer lexeme rest =
      if afterIntroducer then .identifier
      else if Bytes.lower lexeme.text = Bytes.ofString "function" then
        if startsParameters rest = true then .closure else .function
      else (Kind.keyword? (Bytes.lower lexeme.text)).getD .identifier := by
  have function := Kind.ofWord_eq_function lexeme.text
  have given : lexeme.kind = (Kind.keyword? (Bytes.lower lexeme.text)).getD .identifier := spelled
  rw [← spelled] at function
  unfold kindIn
  cases afterIntroducer with
  | true =>
    cases starts : lexeme.isWord with
    | true => rfl
    | false =>
      rw [Kind.keyword_starts lexeme.text starts] at given
      simp [given]
  | false =>
    rw [← given]
    by_cases names : lexeme.kind = .function
    next => simp [names, function.mp names]
    next =>
      have other : Bytes.lower lexeme.text ≠ Bytes.ofString "function" := fun same =>
        names (function.mpr same)
      simp [names, other]

theorem kindIn_ne_comment (afterIntroducer : Bool) (lexeme : Lexeme) (rest : List Lexeme)
    (visible : lexeme.isComment = false) : kindIn afterIntroducer lexeme rest ≠ .comment := by
  unfold kindIn
  split_ifs
  next => decide
  next => decide
  next => simpa [isComment] using visible

theorem assemble_context (position : Nat) (afterIntroducer : Bool) (lexemes : List Lexeme)
    (marks : List Mark) (fits : marks.length = lexemes.length) (index : Nat) (lexeme : Lexeme)
    (found : lexemes[index]? = some lexeme) (visible : lexeme.isComment = false) :
    (kindsFrom afterIntroducer lexemes)[index]? =
      some (kindIn (introduced afterIntroducer
        (shown ((assemble position lexemes (kindsFrom afterIntroducer lexemes) marks).take index)))
        lexeme (lexemes.drop (index + 1))) := by
  induction lexemes generalizing position afterIntroducer marks index with
  | nil => cases found
  | cons first rest ih =>
    rcases marks with _ | ⟨mark, marks⟩
    next => cases fits
    next =>
    have shorter : marks.length = rest.length := Nat.succ.inj fits
    cases index with
    | zero =>
      obtain rfl : first = lexeme := by simpa using found
      simp [kindsFrom, visible, introduced, shown]
    | succ index =>
      rw [List.getElem?_cons_succ] at found
      cases comment : first.isComment with
      | true =>
        have kind : first.kind = .comment := by simpa [isComment] using comment
        have later := ih (position + 1) afterIntroducer marks shorter index found
        simpa [kindsFrom, comment, assemble, shown, ofLexeme, kind] using later
      | false =>
        have kind := kindIn_ne_comment afterIntroducer first rest comment
        have later := ih (position + 1)
          (introducesName (kindIn afterIntroducer first rest) first.text) marks shorter index found
        simpa [kindsFrom, comment, assemble, shown, ofLexeme, kind, introduced_cons] using later

theorem introduced_eq (stream : List Token) (index : Nat) :
    introduced false (shown (stream.take index)) =
      (before? stream index).any (fun token => decide token.introduces) := by
  unfold introduced before?
  cases (shown (stream.take index)).getLast? with
  | none => rfl
  | some token =>
    rw [Bool.eq_iff_iff]
    simp [introducesName, memberAccess, introduces]

section Source

variable (source : Bytes) (index : Nat) (lexeme : Lexeme)

theorem startsParameters_iff :
    startsParameters ((ofSource source).drop (index + 1)) = true ↔
      openParameters (after (ofBytes source) index) := by
  have later : (((ofBytes source).drop (index + 1)).map (·.kind)).map blurred =
      (((ofSource source).drop (index + 1)).map (·.kind)).map blurred := by
    simp only [List.map_drop, kinds_ofBytes, kinds_blurred]
  rw [startsParameters_eq, ← parametersFollow_blurred, ← later, parametersFollow_blurred,
    parametersFollow_iff]
  rfl

variable (foundLexeme : (ofSource source)[index]? = some lexeme)

include foundLexeme

theorem spelled_of_word (word : readAsWord lexeme.kind lexeme.text = true) :
    lexeme.kind = Kind.ofWord lexeme.text := by
  rcases list_cases .html .start source lexeme (List.mem_of_getElem? foundLexeme) with
    ⟨_, spelled⟩ | ⟨symbol, _⟩
  next => exact spelled
  next => cases symbol.symm.trans word

variable (kind : Kind) (foundKind : (Lexeme.kinds (ofSource source))[index]? = some kind)

include foundKind

theorem kind_of_symbol (symbol : readAsWord lexeme.kind lexeme.text = false) :
    kind = lexeme.kind := by
  have kept : List.Forall₂
      (fun kind (lexeme : Lexeme) => readAsWord lexeme.kind lexeme.text = false → kind = lexeme.kind)
      (Lexeme.kinds (ofSource source)) (ofSource source) := by
    apply kindsFrom_forall
    next => exact fun _ _ _ => rfl
    next =>
      intro lexeme inside afterIntroducer rest symbol
      rcases inside_cases lexeme inside with ⟨word, _⟩ | ⟨_, plain, noFunction, _⟩
      next => cases symbol.symm.trans word
      next => exact kindIn_symbol afterIntroducer lexeme rest plain noFunction
    next => exact fun _ => rfl
  obtain ⟨withinLexemes, rfl⟩ := List.getElem?_eq_some_iff.mp foundLexeme
  obtain ⟨withinKinds, rfl⟩ := List.getElem?_eq_some_iff.mp foundKind
  exact kept.get withinKinds withinLexemes symbol

theorem readAsWord_of_function (function : kind = .function) :
    readAsWord kind lexeme.text = true := by
  rcases list_cases .html .start source lexeme (List.mem_of_getElem? foundLexeme) with
    ⟨word, _⟩ | ⟨symbol, noFunction⟩
  next =>
    simp only [readAsWord, Bool.and_eq_true] at word ⊢
    exact ⟨by simp [function], word.2⟩
  next =>
    have kept := kind_of_symbol source index lexeme foundLexeme kind foundKind symbol
    exact absurd (kept.symm.trans function) noFunction

theorem kind_of_word (word : readAsWord lexeme.kind lexeme.text = true) :
    kind = wordKind (before? (ofBytes source) index) lexeme.text (after (ofBytes source) index) := by
  have spelled := spelled_of_word source index lexeme foundLexeme word
  have visible : lexeme.isComment = false := by
    have noComment := Kind.ofWord_ne .comment (by decide +kernel) (by decide) lexeme.text
    simpa [isComment, spelled] using noComment
  have context := assemble_context 0 false (ofSource source) _ (length_marks source) index lexeme
    foundLexeme visible
  change (Lexeme.kinds (ofSource source))[index]? = some (kindIn (introduced false (shown ((assemble 0
    (ofSource source) (Lexeme.kinds (ofSource source)) _).take index))) _ _) at context
  rw [← ofBytes_eq_assemble, introduced_eq, foundKind] at context
  rw [Option.some.inj context, kindIn_word _ lexeme _ spelled]
  simp only [wordKind, startsParameters_iff]

end Source

theorem word_kind (source : Bytes) (index : Nat) (token : Token)
    (found : (ofBytes source)[index]? = some token)
    (word : readAsWord token.kind token.text = true) :
    token.kind = wordKind (before? (ofBytes source) index) token.text (after (ofBytes source) index) := by
  obtain ⟨lexeme, kind, mark, foundLexeme, foundKind, _, rfl⟩ := ofBytes_getElem? source index token found
  cases read : readAsWord lexeme.kind lexeme.text with
  | true => exact kind_of_word source index lexeme foundLexeme kind foundKind read
  | false =>
    have kept := kind_of_symbol source index lexeme foundLexeme kind foundKind read
    subst kept
    cases read.symm.trans word

-- The same marks are put on the tokens of both passes.
theorem assemble_ruled (source : Bytes) (marks : List Mark) (index : Nat) (token : Token)
    (found : (assemble 0 (ofSource source) ((ofSource source).map (·.kind)) marks)[index]? =
      some token) :
    (assemble 0 (ofSource source) (Lexeme.kinds (ofSource source)) marks)[index]? =
      some { token with kind := contextKind (ofBytes source) index token } := by
  rw [assemble_getElem?] at found ⊢
  simp only [Option.bind_eq_some_iff, Option.map_eq_some_iff, List.getElem?_map] at found
  obtain ⟨lexeme, foundLexeme, _, ⟨_, again, rfl⟩, mark, foundMark, rfl⟩ := found
  cases foundLexeme.symm.trans again
  have within : index < (Lexeme.kinds (ofSource source)).length := by
    rw [length_kinds]
    exact (List.getElem?_eq_some_iff.mp foundLexeme).1
  obtain ⟨kind, foundKind⟩ : ∃ kind, (Lexeme.kinds (ofSource source))[index]? = some kind :=
    ⟨_, List.getElem?_eq_getElem within⟩
  have ruled : kind = contextKind (ofBytes source) index (ofLexeme lexeme lexeme.kind index mark) := by
    unfold contextKind
    split_ifs with word
    next => exact kind_of_word source index lexeme foundLexeme kind foundKind word
    next =>
      exact kind_of_symbol source index lexeme foundLexeme kind foundKind (Bool.eq_false_iff.mpr word)
  rw [foundLexeme, foundKind, foundMark, Nat.zero_add, ← ruled]
  rfl

theorem wordKind_introduced (token : Token) (introduced : token.introduces) (text : Bytes)
    (behind : List Token) : wordKind (some token) text behind = .identifier := by
  simp [wordKind, introduced]

theorem wordKind_eq_function (before : Option Token) (text : Bytes) (behind : List Token)
    (function : wordKind before text behind = .function) : ¬ openParameters behind := by
  intro parameters
  unfold wordKind at function
  split_ifs at function with _ spelled
  have other := (Kind.ofWord_eq_function text).mp function
  exact spelled other

theorem after_cons (stream : List Token) (index : Nat) (next : Token) (rest : List Token)
    (follows : after stream index = next :: rest) :
    ∃ later, stream[later]? = some next ∧
      before? stream later = before? stream (index + 1) ∧ after stream later = rest := by
  obtain ⟨gap, tail, split, hidden, _, shownTail⟩ := List.filter_eq_cons_iff.mp follows
  have comments : shown gap = [] := List.filter_eq_nil_iff.mpr hidden
  refine ⟨index + 1 + gap.length, ?_, ?_, ?_⟩
  next => rw [← List.getElem?_drop, split, List.getElem?_append_right le_rfl, Nat.sub_self]; rfl
  next =>
    unfold before?
    rw [List.take_add, split, List.take_left, shown_append, comments, List.append_nil]
  next =>
    have behind : stream.drop (index + 1 + gap.length + 1) = tail := by
      rw [Nat.add_assoc (index + 1), ← List.drop_drop, split]
      simp
    unfold after
    rw [behind]
    exact shownTail

theorem before_succ (stream : List Token) (index : Nat) (token : Token)
    (found : stream[index]? = some token) (visible : token.kind ≠ .comment) :
    before? stream (index + 1) = some token := by
  unfold before?
  rw [List.take_add_one, found, shown_append]
  simp [shown, visible]

theorem no_parameters_behind_function (source : Bytes) (index : Nat) (token : Token)
    (found : (ofBytes source)[index]? = some token) (function : token.kind = .function) :
    ¬ openParameters (after (ofBytes source) index) := by
  have word : readAsWord token.kind token.text = true := by
    obtain ⟨lexeme, kind, mark, foundLexeme, foundKind, _, rfl⟩ :=
      ofBytes_getElem? source index token found
    exact readAsWord_of_function source index lexeme foundLexeme kind foundKind function
  apply wordKind_eq_function (before? (ofBytes source) index) token.text
  rw [← word_kind source index token found word, function]

theorem name_behind_function (source : Bytes) (index : Nat) (token next : Token) (rest : List Token)
    (found : (ofBytes source)[index]? = some token) (function : token.kind = .function)
    (follows : after (ofBytes source) index = next :: rest)
    (word : readAsWord next.kind next.text = true) : next.kind = .identifier := by
  obtain ⟨later, foundNext, before, _⟩ := after_cons _ index next rest follows
  have visible : token.kind ≠ .comment := by simp [function]
  rw [word_kind source later next foundNext word, before, before_succ _ index token found visible]
  exact wordKind_introduced token (.inl function) _ _

end Token

namespace Scanner

theorem run_held (source : String) :
    let lexemes := Lexeme.ofSource (Bytes.ofString source)
    ∃ scanned, run source (Bytes.ofString source).length .start = .ok scanned ∧
      scanned.tokens.toList = Token.assemble 0 lexemes (lexemes.map (·.kind))
        (Nesting.ofKinds (lexemes.map (·.kind))).marks.toList := by
  intro lexemes
  obtain ⟨scanned, read, ran, follows, stop⟩ := run_follows source start []
    (Bytes.ofString source).length (start_follows source) (Nat.le_add_left _ _)
  have all : lexemes = read := by
    change Lexeme.ofSource (Bytes.ofString source) = read
    rw [follows.remaining, stop, List.drop_length, Lexeme.list, List.append_nil]
  obtain ⟨marks, nested, held⟩ := follows.holds
  rw [all, nested]
  exact ⟨scanned, ran, held⟩

end Scanner

namespace Token

open Lexeme

/-- The pass over the scanned tokens gives every token the kind that the rule gives it, by its
neighbours in the finished stream that are no comments, and changes nothing else. So no `function` has
a parameter list or a keyword behind it. -/
theorem reclassify_by_neighbours (source : String) :
    ∃ (scanned : Scanner) (updated : Array Token),
      Scanner.run source (Bytes.ofString source).length .start = .ok scanned ∧
      Scanner.reclassify scanned.tokens = .ok updated ∧ updated.toList = stream source ∧
      updated.size = scanned.tokens.size ∧
      (∀ (index : Nat) (token : Token), scanned.tokens[index]? = some token →
        updated[index]? = some { token with kind := contextKind (stream source) index token }) ∧
      (∀ (index : Nat) (token : Token), updated[index]? = some token → token.kind = .function →
        ¬ openParameters (after (stream source) index) ∧
        ∀ next ∈ (after (stream source) index).head?,
          readAsWord next.kind next.text = true → next.kind = .identifier) := by
  obtain ⟨scanned, ran, held⟩ := Scanner.run_held source
  unfold stream
  generalize Bytes.ofString source = bytes at ran held ⊢
  have fits : (Nesting.ofKinds ((ofSource bytes).map (·.kind))).marks.toList.length =
      (ofSource bytes).length := by
    rw [Lexeme.nesting_kinds]
    exact length_marks bytes
  obtain ⟨updated, passed, same⟩ := Scanner.reclassify_eq (ofSource bytes) _ fits scanned.tokens held
  have finished : updated.toList = ofBytes bytes := same
  refine ⟨scanned, updated, ran, passed, finished, ?_, ?_, ?_⟩
  next =>
    rw [← Array.length_toList, ← Array.length_toList, finished, held, length_ofBytes,
      length_assemble 0 _ _ _ (List.length_map _) fits]
  next =>
    intro index token found
    rw [← Array.getElem?_toList, held] at found
    rw [← Array.getElem?_toList, same]
    exact assemble_ruled bytes _ index token found
  next =>
    intro index token found function
    rw [← Array.getElem?_toList, finished] at found
    constructor
    next => exact no_parameters_behind_function bytes index token found function
    next =>
      intro next first word
      obtain ⟨rest, follows⟩ := List.head?_eq_some_iff.mp first
      exact name_behind_function bytes index token next rest found function follows word

-- Neighbours are found behind comments, and markup is no word.
example :
    let source := "if<?php function /* a */ list() \x7b $a-> /* b */ if; function & /* c */ () \x7b"
    ((stream source).filter fun token => readAsWord token.kind token.text).map (·.kind) =
      [.function, .identifier, .identifier, .closure] := by
  decide +kernel

end Token

end CognitiveComplexity
