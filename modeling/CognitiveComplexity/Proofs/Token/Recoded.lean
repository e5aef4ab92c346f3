import CognitiveComplexity.Proofs.Token.Append
import CognitiveComplexity.Proofs.Token.Concat
import CognitiveComplexity.Proofs.Token.Recoding

set_option autoImplicit false

namespace CognitiveComplexity

namespace Reading

open Byte

variable (recoding : Recoding)

def stretched (rest : Bytes) (reading : Reading) : Reading :=
  { reading with more := recoding.stretch rest reading.more }

theorem operatorTable_fixed (text : Bytes) (listed : text ∈ Kind.operatorTable) :
    ∀ c ∈ text, recoding.Fixed c := by
  have table : ∀ text ∈ Kind.operatorTable, ∀ c ∈ text,
      isLetter c = false ∧ c ≠ newline ∧ c ≠ carriageReturn := by
    decide +kernel
  intro c member
  obtain ⟨plain, noFeed, noReturn⟩ := table text listed c member
  exact recoding.fixed_of_not_letter c plain noFeed noReturn

theorem operator_recode (first : UInt8) (rest : Bytes) (fixed : recoding.Fixed first) :
    operator first (recoding.bytes rest) = (operator first rest).stretched recoding rest := by
  have whole : first :: recoding.bytes rest = recoding.bytes (first :: rest) := by
    rw [Recoding.bytes_cons, recoding.byte_fixed first fixed]
    rfl
  have same : ∀ text ∈ Kind.operatorTable,
      text.isPrefixOf (first :: recoding.bytes rest) = text.isPrefixOf (first :: rest) := by
    intro text listed
    rw [Bool.eq_iff_iff, List.isPrefixOf_iff_prefix, List.isPrefixOf_iff_prefix, whole]
    exact recoding.prefix_bytes text _ (operatorTable_fixed recoding text listed)
  have reads : operator first (recoding.bytes rest) = operator first rest := by
    unfold operator
    rw [← List.head?_filter, ← List.head?_filter, List.filter_congr same]
  rw [reads]
  -- An operator holds no line feed, so it is as long as before.
  rcases operator_cases first rest with ⟨more, listed, fits, reads⟩ | reads
  · have single : newline ∉ more := fun ends =>
      (operatorTable_fixed recoding _ listed newline (List.mem_cons_of_mem _ ends)).1 rfl
    have cut : rest.take more.length = more := (List.prefix_iff_eq_take.mp fits).symm
    simp [reads, stretched, token, Recoding.stretch, cut, recoding.length_bytes more single]
  · simp [reads, stretched, token]

theorem fixed_of_symbol (first : UInt8) (ink : isBlank first = false) (symbol : isWord first = false) :
    recoding.Fixed first := by
  refine recoding.fixed_of_not_letter first ?_ ?_ ?_
  · simp only [isWord, isAlphanumeric, Bool.or_eq_false_iff] at symbol
    exact symbol.1.1.1
  · rintro rfl
    cases ink
  · rintro rfl
    cases ink

theorem plain_recode (first : UInt8) (rest : Bytes) (ink : isBlank first = false) :
    plain (recoding.swap first) (recoding.bytes rest) =
      (plain first rest).stretched recoding rest := by
  obtain ⟨_, _, digit, letter, word⟩ := recoding.sameClass_swap first
  have same (c : UInt8) (plain : isLetter c = false) : (recoding.swap first == c) = (first == c) := by
    rw [Bool.eq_iff_iff, beq_iff_eq, beq_iff_eq, recoding.swap_eq_iff first c plain]
  have quote : isQuote (recoding.swap first) = isQuote first := by
    simp only [isQuote, same singleQuote rfl, same doubleQuote rfl, same backquote rfl]
  have named := recoding.any_head_bytes rest isWord (fun b => (recoding.sameClass_swap b).word) rfl
  unfold plain
  simp only [quote, same dollar rfl, named, digit, word]
  split_ifs with quoted dollar number wordy
  · have symbol : isWord first = false := by
      simp only [isQuote, Bool.or_eq_true, beq_iff_eq] at quoted
      rcases quoted with (rfl | rfl) | rfl <;> rfl
    have fixed := fixed_of_symbol recoding first ink symbol
    rw [(fixed.2.2 first).mpr rfl, Extent.quoted_recode recoding rest first quoted]
    rfl
  · rw [Extent.word_recode]
    rfl
  · rw [Extent.number_recode]
    rfl
  · have single : newline ∉ first :: rest.take (Extent.word rest) := by
      intro ends
      rcases List.mem_cons.mp ends with rfl | later
      · cases wordy
      · cases Extent.word_take rest newline later
    have spelled := recoding.lower_bytes _ single
    rw [Recoding.bytes_cons, recoding.byte_of_ne first (fun same => single (by simp [same]))] at spelled
    rw [Extent.word_recode, recoding.take_stretch, Kind.ofWord, ← List.singleton_append, spelled]
    rfl
  · have fixed := fixed_of_symbol recoding first ink (by simpa using wordy)
    rw [(fixed.2.2 first).mpr rfl]
    exact operator_recode recoding first rest fixed

theorem heredocAt_drop (first : UInt8) (rest : Bytes) :
    heredocAt? first rest =
      if first = less ∧ [less, less] <+: rest then Extent.heredoc? (rest.drop 2) else none := by
  rcases rest with _ | ⟨second, _ | ⟨third, after⟩⟩
  · simp [heredocAt?]
  · simp [heredocAt?, List.cons_prefix_cons]
  · simp only [heredocAt_eq, List.cons_prefix_cons, List.nil_prefix, and_true, List.drop_succ_cons,
      List.drop_zero, eq_comm (a := less)]

end Reading

def Recoding.KeepsHeredoc (recoding : Recoding) (first : UInt8) (rest : Bytes) : Prop :=
  first = Byte.less → [Byte.less, Byte.less] <+: rest →
    Extent.heredoc? (recoding.bytes (rest.drop 2)) =
      (Extent.heredoc? (rest.drop 2)).map (recoding.stretch (rest.drop 2))

namespace Reading

open Byte

variable (recoding : Recoding)

theorem heredocAt_recode (first : UInt8) (rest : Bytes) (keeps : recoding.KeepsHeredoc first rest) :
    (heredocAt? (recoding.swap first) (recoding.bytes rest)).map (· + 2) =
      (heredocAt? first rest).map fun size => recoding.stretch rest (size + 2) := by
  have fixed := recoding.fixed_of_not_letter less rfl (by decide) (by decide)
  have opens := recoding.prefix_bytes [less, less] rest (by simpa using fixed)
  rw [heredocAt_drop, heredocAt_drop]
  simp only [fixed.2.2, opens]
  split
  · next starts =>
    obtain ⟨after, rfl⟩ := starts.2
    have reach := keeps starts.1 starts.2
    simp only [List.cons_append, List.nil_append, List.drop_succ_cons, List.drop_zero] at reach ⊢
    simp [recoding.byte_fixed less fixed, reach, Function.comp_def, ← Nat.add_assoc, Nat.add_comm]
  · rfl

-- Only a line comment may take one more byte, the carriage return in front of the line feed where
-- it stopped.
theorem php_recode (first : UInt8) (rest : Bytes) (ink : isBlank first = false)
    (keeps : recoding.KeepsHeredoc first rest) :
    php (recoding.swap first) (recoding.bytes rest) = (php first rest).stretched recoding rest ∨
      ∃ more, php first rest = token .comment more ∧ recoding.returns = true ∧
        (rest.drop more).head? = some newline ∧
        php (recoding.swap first) (recoding.bytes rest) =
          token .comment (recoding.stretch rest more + 1) := by
  have blank := (recoding.sameClass_swap first).blank
  have same (c : UInt8) (plain : isLetter c = false) : recoding.swap first = c ↔ first = c :=
    recoding.swap_eq_iff first c plain
  have behind (c : UInt8) (plain : isLetter c = false) (noFeed : c ≠ newline)
      (noReturn : c ≠ carriageReturn) :
      (recoding.bytes rest).head? = some c ↔ rest.head? = some c :=
    recoding.head_bytes rest c (recoding.fixed_of_not_letter c plain noFeed noReturn)
  have heredoc := heredocAt_recode recoding first rest keeps
  rw [php_eq, php_eq first rest]
  simp only [blank, ink, same question rfl, same slash rfl, same hash rfl, ne_eq,
    behind greater rfl (by decide) (by decide), behind slash rfl (by decide) (by decide),
    behind openSquare rfl (by decide) (by decide), behind asterisk rfl (by decide) (by decide),
    Bool.false_eq_true, if_false]
  split_ifs with tag line block
  · obtain ⟨_, rfl⟩ := List.head?_eq_some_iff.mp tag.2
    left
    simp [stretched, recoding.byte_of_ne greater (by decide)]
  · by_cases stops : (rest.drop (Extent.lineComment rest)).head? = some newline ∧
        recoding.returns = true
    · right
      refine ⟨_, rfl, stops.2, stops.1, ?_⟩
      rw [Extent.lineComment_recode, if_pos stops]
    · left
      rw [Extent.lineComment_recode, if_neg stops]
      rfl
  · obtain ⟨body, rfl⟩ := List.head?_eq_some_iff.mp block.2
    have star := recoding.byte_fixed asterisk
      (recoding.fixed_of_not_letter asterisk rfl (by decide) (by decide))
    left
    simp [stretched, token, star, Extent.blockComment_recode, Nat.add_comm 1]
  · left
    cases found : heredocAt? first rest with
    | none =>
      rw [found, Option.map_none, Option.map_eq_none_iff] at heredoc
      rw [heredoc]
      exact plain_recode recoding first rest ink
    | some size =>
      rw [found, Option.map_some, Option.map_eq_some_iff] at heredoc
      obtain ⟨long, reads, reach⟩ := heredoc
      rw [reads]
      simp [stretched, token, reach]

theorem html_recode (first : UInt8) (rest : Bytes) :
    ∃ head tail, recoding.bytes (first :: rest) = head :: tail ∧
      (html head tail).kind = (html first rest).kind ∧
      (html head tail).mode = (html first rest).mode ∧
      (html head tail).more + 1 = recoding.stretch (first :: rest) ((html first rest).more + 1) := by
  have tag := Extent.openTag_recode recoding (first :: rest)
  have markup := Extent.html_recode recoding rest
  rcases recoding.byte_cases first with ⟨single, _⟩ | ⟨rfl, _, pair⟩
  · refine ⟨recoding.swap first, recoding.bytes rest, by simp [single], ?_⟩
    rw [Recoding.bytes_cons, single, List.singleton_append] at tag
    unfold html
    rw [tag]
    cases found : Extent.openTag? (first :: rest) with
    | none => simp [single, markup, Nat.add_comm 1]
    | some size =>
      obtain ⟨long, positive⟩ := Extent.stretch_openTag recoding (first :: rest) size found
      simp [Nat.sub_add_cancel positive, long]
  · refine ⟨carriageReturn, newline :: recoding.bytes rest, by simp [pair], ?_⟩
    unfold html
    simp only [Extent.openTag_head newline rest (by decide),
      Extent.openTag_head carriageReturn (newline :: recoding.bytes rest) (by decide), Extent.html,
      Extent.openTag_head newline (recoding.bytes rest) (by decide), markup, pair,
      Recoding.stretch_succ]
    simp [Nat.add_comm 2]

end Reading

theorem Place.after_recode (recoding : Recoding) (place : Place) (text : Bytes) :
    place.after (recoding.bytes text) = place.after text := by
  induction text generalizing place with
  | nil => rfl
  | cons b rest ih =>
    have behind : place.after (recoding.byte b) = place.advance b := by
      rcases recoding.byte_cases b with ⟨single, _⟩ | ⟨rfl, _, pair⟩
      · have same := recoding.swap_eq_iff b Byte.newline rfl
        simp [single, after, advance, same]
      · rw [pair]
        rfl
    rw [Recoding.bytes_cons, after_append, behind]
    exact ih (place.advance b)

namespace Lexeme

open Byte

/-- A lexeme of the text and the lexeme of the text written anew that stands for it. -/
structure Recoded (recoding : Recoding) (one other : Lexeme) : Prop where
  kind : other.kind = one.kind
  place : other.place = one.place
  text : other.text = recoding.bytes one.text ∨
    recoding.returns = true ∧ one.kind = .comment ∧
      other.text = recoding.bytes one.text ++ [carriageReturn]

variable (recoding : Recoding)

theorem list_recode_blank (place : Place) (first : UInt8) (rest : Bytes) (blank : isBlank first = true)
    (following : List.Forall₂ (Recoded recoding) (list .php (place.advance first) rest)
      (list .php (place.advance first) (recoding.bytes rest))) :
    List.Forall₂ (Recoded recoding) (list .php place (first :: rest))
      (list .php place (recoding.bytes (first :: rest))) := by
  rw [list_blank place first rest blank]
  rcases recoding.byte_cases first with ⟨single, _⟩ | ⟨rfl, _, pair⟩
  · have behind : place.advance (recoding.swap first) = place.advance first := by
      have moved := place.after_recode recoding [first]
      rw [Recoding.bytes_cons, single] at moved
      exact moved
    rw [Recoding.bytes_cons, single, List.singleton_append, list_blank _ _ _
      ((recoding.sameClass_swap first).blank.trans blank), behind]
    exact following
  · rw [Recoding.bytes_cons, pair, List.cons_append, List.singleton_append, list_blank _ _ _ rfl,
      list_blank _ _ _ rfl]
    exact following

theorem list_recode_whole (mode : Mode) (place : Place) (first head : UInt8) (rest tail : Bytes)
    (split : recoding.bytes (first :: rest) = head :: tail)
    (kind : (mode.read head tail).kind = (mode.read first rest).kind)
    (after : (mode.read head tail).mode = (mode.read first rest).mode)
    (size : (mode.read head tail).more + 1 =
      recoding.stretch (first :: rest) ((mode.read first rest).more + 1))
    (following : List.Forall₂ (Recoded recoding)
      (list (mode.read first rest).mode
        (place.after (first :: rest.take (mode.read first rest).more))
        (rest.drop (mode.read first rest).more))
      (list (mode.read first rest).mode
        (place.after (first :: rest.take (mode.read first rest).more))
        (recoding.bytes (rest.drop (mode.read first rest).more)))) :
    List.Forall₂ (Recoded recoding) (list mode place (first :: rest))
      (list mode place (recoding.bytes (first :: rest))) := by
  have taken := recoding.take_stretch (first :: rest) ((mode.read first rest).more + 1)
  have dropped := recoding.drop_stretch (first :: rest) ((mode.read first rest).more + 1)
  rw [← size, split, List.take_succ_cons, List.take_succ_cons] at taken
  rw [← size, split, List.drop_succ_cons, List.drop_succ_cons] at dropped
  rw [split, list_cons, list_cons, kind, after, taken, dropped, place.after_recode recoding]
  refine List.rel_append ?_ following
  cases (mode.read first rest).kind with
  | none => exact .nil
  | some kind => exact .cons ⟨rfl, rfl, .inl rfl⟩ .nil

theorem list_recode_returned (place : Place) (first : UInt8) (rest : Bytes) (more : Nat)
    (single : recoding.byte first = [recoding.swap first])
    (reads : Reading.php first rest = .token .comment more) (returns : recoding.returns = true)
    (stops : (rest.drop more).head? = some newline)
    (rereads : Reading.php (recoding.swap first) (recoding.bytes rest) =
      .token .comment (recoding.stretch rest more + 1))
    (following : List.Forall₂ (Recoded recoding)
      (list .php (place.after (first :: rest.take more)) (rest.drop more))
      (list .php (place.after (first :: rest.take more)) (recoding.bytes (rest.drop more)))) :
    List.Forall₂ (Recoded recoding) (list .php place (first :: rest))
      (list .php place (recoding.bytes (first :: rest))) := by
  obtain ⟨line, ends⟩ := List.head?_eq_some_iff.mp stops
  have pair : recoding.byte newline = [carriageReturn, newline] := by
    simp [Recoding.byte, returns]
  have whole : recoding.bytes rest =
      recoding.bytes (rest.take more) ++ carriageReturn :: newline :: recoding.bytes line := by
    rw [recoding.bytes_split rest more, ends, Recoding.bytes_cons, pair]
    rfl
  have taken : (recoding.bytes rest).take (recoding.stretch rest more + 1) =
      recoding.bytes (rest.take more) ++ [carriageReturn] := by
    rw [whole, Recoding.stretch, List.take_length_add_append]
    rfl
  have dropped : (recoding.bytes rest).drop (recoding.stretch rest more + 1) =
      newline :: recoding.bytes line := by
    rw [whole, Recoding.stretch, List.drop_length_add_append]
    rfl
  have text : recoding.swap first :: (recoding.bytes (rest.take more) ++ [carriageReturn]) =
      recoding.bytes (first :: rest.take more) ++ [carriageReturn] := by
    simp [single]
  rw [ends, Recoding.bytes_cons, pair, List.cons_append, List.singleton_append,
    list_blank _ carriageReturn _ rfl] at following
  rw [Recoding.bytes_cons, single, List.singleton_append, list_cons, list_cons, Mode.read, reads,
    rereads]
  simp only [Reading.token, taken, dropped, text, ends, Place.after_append, place.after_recode recoding,
    Option.toList_some, List.map_cons, List.map_nil, List.singleton_append]
  exact .cons ⟨rfl, rfl, .inr ⟨returns, rfl, rfl⟩⟩ following

theorem list_recode (source : Bytes)
    (keeps : ∀ first rest, first :: rest <:+ source → recoding.KeepsHeredoc first rest)
    (mode : Mode) (place : Place) (bytes : Bytes) (inside : bytes <:+ source) :
    List.Forall₂ (Recoded recoding) (list mode place bytes)
      (list mode place (recoding.bytes bytes)) := by
  induction mode, place, bytes using reading_induction with
  | done mode place => simp [list]
  | read mode place first rest ih =>
    have following := ih (((List.drop_suffix _ rest).trans (List.suffix_cons first rest)).trans inside)
    cases mode with
    | html =>
      obtain ⟨head, tail, split, kind, after, size⟩ := Reading.html_recode recoding first rest
      exact list_recode_whole recoding .html place first head rest tail split kind after size following
    | php =>
      by_cases blank : isBlank first = true
      · apply list_recode_blank recoding place first rest blank
        simpa [Mode.read, Reading.php, blank, Place.after] using following
      · have ink : isBlank first = false := by simpa using blank
        have single : recoding.byte first = [recoding.swap first] :=
          recoding.byte_of_ne first fun same => by simp [same, isBlank] at ink
        rcases Reading.php_recode recoding first rest ink (keeps first rest inside) with
          same | ⟨more, reads, returns, stops, rereads⟩
        · refine list_recode_whole recoding .php place first (recoding.swap first) rest
            (recoding.bytes rest) (by simp [single]) ?_ ?_ ?_ following
          · simp [Mode.read, same, Reading.stretched]
          · simp [Mode.read, same, Reading.stretched]
          · simp [Mode.read, same, Reading.stretched, single, Nat.add_comm 1]
        · simp only [Mode.read, reads] at following
          exact list_recode_returned recoding place first rest more single reads returns stops rereads
            following

end Lexeme

end CognitiveComplexity
