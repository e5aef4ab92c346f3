import CognitiveComplexity.Token.Context
import CognitiveComplexity.Proofs.Bracket.Nesting

set_option autoImplicit false

namespace CognitiveComplexity

namespace Lexeme

theorem list_cons (mode : Mode) (place : Place) (first : UInt8) (rest : Bytes) :
    list mode place (first :: rest) =
      ((mode.read first rest).kind.toList.map fun kind =>
        ⟨kind, first :: rest.take (mode.read first rest).more, place⟩) ++
      list (mode.read first rest).mode
        (place.after (first :: rest.take (mode.read first rest).more))
        (rest.drop (mode.read first rest).more) := by
  rw [list]
  cases (mode.read first rest).kind <;> rfl

theorem reading_induction {P : Mode → Place → Bytes → Prop}
    (done : ∀ mode place, P mode place [])
    (read : ∀ (mode : Mode) (place : Place) (first : UInt8) (rest : Bytes),
      P (mode.read first rest).mode
        (place.after (first :: rest.take (mode.read first rest).more))
        (rest.drop (mode.read first rest).more) → P mode place (first :: rest))
    (mode : Mode) (place : Place) (bytes : Bytes) : P mode place bytes := by
  -- On the length: a reading takes at least its first byte.
  induction size : bytes.length using Nat.strong_induction_on generalizing mode place bytes with
  | _ _ ih =>
    cases bytes with
    | nil => exact done mode place
    | cons first rest =>
      refine read mode place first rest (ih _ ?_ _ _ _ rfl)
      simp only [← size, List.length_drop, List.length_cons]
      omega

theorem list_forall (P : Lexeme → Prop)
    (reads : ∀ (mode : Mode) (place : Place) (first : UInt8) (rest : Bytes) (kind : Kind),
      (mode.read first rest).kind = some kind →
        P ⟨kind, first :: rest.take (mode.read first rest).more, place⟩)
    (mode : Mode) (place : Place) (bytes : Bytes) :
    ∀ lexeme ∈ list mode place bytes, P lexeme := by
  induction mode, place, bytes using reading_induction with
  | done mode place =>
    intro lexeme member
    rw [list] at member
    cases member
  | read mode place first rest ih =>
    intro lexeme member
    rw [list_cons, List.mem_append] at member
    rcases member with here | later
    · obtain ⟨kind, found, same⟩ := List.mem_map.mp here
      rw [← same]
      exact reads mode place first rest kind (Option.mem_toList.mp found)
    · exact ih lexeme later

end Lexeme

theorem Kind.ofWord_noBracket (word : Bytes) : (Kind.ofWord word).isBracket = false := by
  have listed : ∀ entry ∈ wordTable, entry.2.isBracket = false := by decide +kernel
  unfold ofWord keyword?
  cases found : wordTable.lookup (Bytes.lower word) with
  | none => rfl
  | some kind =>
    obtain ⟨before, after, split, _⟩ := List.lookup_eq_some_iff.mp found
    exact listed (Bytes.lower word, kind) (by simp [split])

namespace Reading

theorem operatorTable_ascii (text : Bytes) (listed : text ∈ Kind.operatorTable) :
    text.head?.any (fun first => !Byte.isWordStart first) = true ∧
      text.all (fun b => decide (b < 0x80)) = true := by
  have table : ∀ text ∈ Kind.operatorTable,
      text.head?.any (fun first => !Byte.isWordStart first) = true ∧
        text.all (fun b => decide (b < 0x80)) = true := by
    decide +kernel
  exact table text listed

theorem operator_cases (first : UInt8) (rest : Bytes) :
    (∃ more, first :: more ∈ Kind.operatorTable ∧ more <+: rest ∧
      operator first rest = token (Kind.ofOperator (first :: more)) more.length) ∨
    operator first rest = token .operator 0 := by
  unfold operator
  cases found : Kind.operatorTable.find? (·.isPrefixOf (first :: rest)) with
  | none => exact .inr rfl
  | some text =>
    have listed := List.mem_of_find?_eq_some found
    have held := List.find?_some found
    have fits := List.isPrefixOf_iff_prefix.mp held
    cases text with
    -- No operator is empty, and the first byte of the one that fits is the one read here.
    | nil => cases (operatorTable_ascii [] listed).1
    | cons head more =>
      obtain ⟨same, fits⟩ := List.cons_prefix_cons.mp fits
      rw [same] at listed ⊢
      exact .inl ⟨more, listed, fits, rfl⟩

theorem operator_noBracket (first : UInt8) (rest : Bytes) (kind : Kind)
    (read : (operator first rest).kind = some kind) (word : Byte.isWordStart first = true) :
    kind.isBracket = false := by
  rcases operator_cases first rest with ⟨more, listed, _, _⟩ | single
  · have starts := (operatorTable_ascii _ listed).1
    simp [word] at starts
  · rw [single] at read
    cases read
    rfl

theorem operator_isSome (first : UInt8) (rest : Bytes) :
    (operator first rest).kind.isSome = true := by
  rcases operator_cases first rest with ⟨more, _, _, read⟩ | read
  · rw [read]
    rfl
  · rw [read]
    rfl

theorem plain_isSome (first : UInt8) (rest : Bytes) : (plain first rest).kind.isSome = true := by
  unfold plain
  split_ifs
  · rfl
  · rfl
  · rfl
  · rfl
  · exact operator_isSome first rest

theorem plain_noBracket (first : UInt8) (rest : Bytes) (kind : Kind)
    (read : (plain first rest).kind = some kind) (word : Byte.isWordStart first = true) :
    kind.isBracket = false := by
  unfold plain at read
  split_ifs at read
  · cases read
    rfl
  · cases read
    rfl
  · cases read
    rfl
  · cases read
    exact Kind.ofWord_noBracket _
  · exact operator_noBracket first rest kind read word

def heredocAt? (first : UInt8) (rest : Bytes) : Option Nat :=
  match first, rest with
  | Byte.less, Byte.less :: Byte.less :: after => Extent.heredoc? after
  | _, _ => none

-- Inside the tags, the first rule that fits decides.
theorem php_eq (first : UInt8) (rest : Bytes) :
    php first rest =
      if Byte.isBlank first then ⟨none, 0, .php⟩
      else if first = Byte.question ∧ rest.head? = some Byte.greater then ⟨some .closeTag, 1, .html⟩
      else if (first = Byte.slash ∧ rest.head? = some Byte.slash) ∨
          (first = Byte.hash ∧ rest.head? ≠ some Byte.openSquare) then
        token .comment (Extent.lineComment rest)
      else if first = Byte.slash ∧ rest.head? = some Byte.asterisk then
        token .comment (Extent.blockComment (rest.drop 1) + 1)
      else match heredocAt? first rest with
        | some size => token .string (size + 2)
        | none => plain first rest := by
  unfold php
  by_cases blank : Byte.isBlank first = true
  · simp only [blank, if_true]
  · rw [if_neg blank, if_neg blank]
    split
    · rfl
    · rfl
    · rfl
    · next noSquare =>
      have other : rest.head? ≠ some Byte.openSquare := by
        intro found
        cases rest with
        | nil => cases found
        | cons next rest =>
          cases found
          exact noSquare rest rfl
      rw [if_neg (fun tag => absurd tag.1 (by decide)), if_pos (.inr ⟨rfl, other⟩)]
    · rfl
    · rfl
    · next noHash noTag noLine _ noBlock noHeredoc =>
      -- No pattern fits, and each condition would make one of them fit.
      have quiet : heredocAt? first rest = none := by
        unfold heredocAt?
        split
        · exact absurd rfl (noHeredoc _ rfl)
        · rfl
      rw [quiet, if_neg, if_neg, if_neg]
      · rintro ⟨starts, found⟩
        obtain ⟨tail, split⟩ := List.head?_eq_some_iff.mp found
        exact noBlock tail starts split
      · rintro (⟨starts, found⟩ | ⟨starts, _⟩)
        · obtain ⟨tail, split⟩ := List.head?_eq_some_iff.mp found
          exact noLine tail starts split
        · exact noHash starts
      · rintro ⟨starts, found⟩
        obtain ⟨tail, split⟩ := List.head?_eq_some_iff.mp found
        exact noTag tail starts split

theorem php_noBracket (first : UInt8) (rest : Bytes) (kind : Kind)
    (read : (php first rest).kind = some kind) (word : Byte.isWordStart first = true) :
    kind.isBracket = false := by
  rw [php_eq] at read
  split_ifs at read
  · cases read
    rfl
  · cases read
    rfl
  · cases read
    rfl
  · split at read
    · cases read
      rfl
    · exact plain_noBracket first rest kind read word

theorem html_noBracket (first : UInt8) (rest : Bytes) (kind : Kind)
    (read : (html first rest).kind = some kind) : kind.isBracket = false := by
  unfold html at read
  split at read
  · cases read
    rfl
  · cases read
    rfl

theorem blank_of_no_kind (mode : Mode) (first : UInt8) (rest : Bytes)
    (skipped : (mode.read first rest).kind = none) :
    Byte.isBlank first = true ∧ (mode.read first rest).more = 0 := by
  cases mode with
  | html =>
    simp only [Mode.read, html] at skipped
    split at skipped <;> cases skipped
  | php =>
    simp only [Mode.read] at skipped ⊢
    by_cases blank : Byte.isBlank first = true
    · rw [php_eq, if_pos blank]
      exact ⟨blank, rfl⟩
    · rw [php_eq, if_neg blank] at skipped
      split_ifs at skipped
      · cases skipped
      · cases skipped
      split at skipped
      · cases skipped
      · have present := plain_isSome first rest
        rw [skipped] at present
        cases present

end Reading

namespace Lexeme

theorem list_blanks (place : Place) (bytes : Bytes) :
    list .php place bytes =
      list .php (place.after (bytes.takeWhile Byte.isBlank)) (bytes.dropWhile Byte.isBlank) := by
  induction bytes generalizing place with
  | nil => rfl
  | cons b rest ih =>
    by_cases blank : Byte.isBlank b = true
    · have read : Mode.php.read b rest = ⟨none, 0, .php⟩ := by
        simp only [Mode.read, Reading.php, blank, if_true]
      rw [List.takeWhile_cons_of_pos blank, List.dropWhile_cons_of_pos blank, list_cons, read]
      exact ih (place.after [b])
    · rw [List.takeWhile_cons_of_neg blank, List.dropWhile_cons_of_neg blank]
      rfl

theorem list_noBracket (mode : Mode) (place : Place) (bytes : Bytes) :
    ∀ lexeme ∈ list mode place bytes, lexeme.isWord = true → lexeme.kind.isBracket = false := by
  apply list_forall
  intro mode place first rest kind read word
  have starts : Byte.isWordStart first = true := by simpa [isWord] using word
  cases mode with
  | html => exact Reading.html_noBracket first rest kind read
  | php => exact Reading.php_noBracket first rest kind read starts

theorem length_kindsFrom (afterIntroducer : Bool) (lexemes : List Lexeme) :
    (kindsFrom afterIntroducer lexemes).length = lexemes.length := by
  induction lexemes generalizing afterIntroducer with
  | nil => rfl
  | cons lexeme rest ih =>
    unfold kindsFrom
    split <;> simp only [List.length_cons, ih]

end Lexeme

def Kind.SameBracket (one other : Kind) : Prop :=
  one = other ∨ (one.isBracket = false ∧ other.isBracket = false)

namespace Nesting

theorem step_noBracket (nesting : Nesting) (kind : Kind) (noBracket : kind.isBracket = false) :
    nesting.step kind = nesting.plain := by
  cases kind <;> first | rfl | cases noBracket

theorem foldl_step_same (nesting : Nesting) (ones others : List Kind)
    (same : List.Forall₂ Kind.SameBracket ones others) :
    ones.foldl step nesting = others.foldl step nesting := by
  induction same generalizing nesting with
  | nil => rfl
  | cons head _ ih =>
    rcases head with equal | ⟨one, other⟩
    · rw [equal, List.foldl_cons, List.foldl_cons, ih]
    · rw [List.foldl_cons, List.foldl_cons, step_noBracket _ _ one, step_noBracket _ _ other, ih]

end Nesting

namespace Lexeme

theorem kindIn_same (afterIntroducer : Bool) (lexeme : Lexeme) (rest : List Lexeme)
    (noBracket : lexeme.isWord = true → lexeme.kind.isBracket = false) :
    Kind.SameBracket lexeme.kind (kindIn afterIntroducer lexeme rest) := by
  unfold kindIn
  split
  · next name =>
    rw [Bool.and_eq_true] at name
    exact .inr ⟨noBracket name.2, rfl⟩
  · split
    · next closure =>
      rw [Bool.and_eq_true, beq_iff_eq] at closure
      exact .inr ⟨by rw [closure.1]; rfl, rfl⟩
    · exact .inl rfl

theorem kindsFrom_same (afterIntroducer : Bool) (lexemes : List Lexeme)
    (noBracket : ∀ lexeme ∈ lexemes, lexeme.isWord = true → lexeme.kind.isBracket = false) :
    List.Forall₂ Kind.SameBracket (lexemes.map (·.kind)) (kindsFrom afterIntroducer lexemes) := by
  induction lexemes generalizing afterIntroducer with
  | nil => exact .nil
  | cons lexeme rest ih =>
    have later := fun flag => ih flag fun other member =>
      noBracket other (List.mem_cons_of_mem _ member)
    unfold kindsFrom
    split
    · exact .cons (.inl rfl) (later _)
    · exact .cons (kindIn_same _ _ _ (noBracket lexeme List.mem_cons_self)) (later _)

theorem nesting_kinds (source : Bytes) :
    Nesting.ofKinds ((ofSource source).map (·.kind)) = Nesting.ofKinds (kinds (ofSource source)) :=
  Nesting.foldl_step_same _ _ _ (kindsFrom_same false _ (list_noBracket _ _ source))

end Lexeme

end CognitiveComplexity
