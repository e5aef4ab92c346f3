import CognitiveComplexity.Proofs.Text.Boundary
import CognitiveComplexity.Proofs.Token.Lexeme

set_option autoImplicit false

namespace CognitiveComplexity

namespace Byte

theorem ascii_of_not_word (b : UInt8) (noWord : isWord b = false) : b < 0x80 := by
  simp only [isWord, Bool.or_eq_false_iff, decide_eq_false_iff_not, UInt8.not_le] at noWord
  exact noWord.2

theorem ascii_of_alphanumeric (b : UInt8) (found : isAlphanumeric b = true) : b < 0x80 := by
  simp only [isAlphanumeric, isLetter, isUpper, isLower, isDigit, Bool.or_eq_true,
    Bool.and_eq_true, decide_eq_true_eq, UInt8.le_iff_toNat_le] at found
  rw [UInt8.lt_iff_toNat_lt]
  simp only [UInt8.reduceToNat] at found ⊢
  omega

theorem ascii_of_blank (b : UInt8) (found : isBlank b = true) : b < 0x80 := by
  simp only [isBlank, Bool.or_eq_true, beq_iff_eq] at found
  rcases found with (((same | same) | same) | same) | same <;> rw [same] <;> decide

theorem ascii_of_quote (b : UInt8) (found : isQuote b = true) : b < 0x80 := by
  simp only [isQuote, Bool.or_eq_true, beq_iff_eq] at found
  rcases found with (same | same) | same <;> rw [same] <;> decide

theorem ascii_of_lower (b : UInt8) (found : lower b < 0x80) : b < 0x80 := by
  unfold lower at found
  split at found
  · next upper =>
    exact ascii_of_alphanumeric b (by simp [isAlphanumeric, isLetter, upper])
  · exact found

end Byte

namespace Extent

open Byte Bytes

theorem settled_word (bytes : Bytes) : Settled bytes (word bytes) := by
  induction bytes with
  | nil => exact .atEnd rfl
  | cons b rest ih =>
    unfold word
    by_cases inside : isWord b = true
    · rw [List.takeWhile_cons_of_pos inside]
      exact settled_cons b rest _ ih
    · rw [List.takeWhile_cons_of_neg inside]
      exact .before b rfl (ascii_of_not_word b (by simpa using inside))

theorem settled_number (first : UInt8) (rest : Bytes) (ascii : first < 0x80) :
    Settled (first :: rest) (number rest + 1) := by
  -- The bytes of a number are ASCII, so it ends behind one, whatever follows.
  induction rest generalizing first with
  | nil => exact .after 0 first rfl ascii rfl
  | cons b rest ih =>
    unfold number
    split
    · next inside =>
      simp only [Bool.or_eq_true, Bool.and_eq_true, beq_iff_eq] at inside
      have low : b < 0x80 := by
        rcases inside with (letter | same) | ⟨same, _⟩
        · exact ascii_of_alphanumeric b letter
        · rw [same]
          decide
        · rw [same]
          decide
      exact settled_cons first (b :: rest) _ (ih b low)
    · exact .after 0 first rfl ascii rfl

theorem settled_lineComment (bytes : Bytes) : Settled bytes (lineComment bytes) := by
  fun_induction lineComment bytes with
  | case1 => exact .atEnd rfl
  | case2 rest => exact .before newline rfl (by decide)
  | case3 rest => exact .before question rfl (by decide)
  | case4 b rest _ _ ih => exact settled_cons b rest _ ih

theorem settled_blockComment (bytes : Bytes) : Settled bytes (blockComment bytes) := by
  fun_induction blockComment bytes with
  | case1 => exact .atEnd rfl
  | case2 rest => exact .after 1 slash rfl (by decide) rfl
  | case3 b rest _ ih => exact settled_cons b rest _ ih

theorem settled_quoted (quote : UInt8) (bytes : Bytes) (ascii : quote < 0x80) :
    Settled bytes (quoted quote bytes) := by
  fun_induction quoted quote bytes with
  | case1 => exact .atEnd rfl
  | case2 b => exact .atEnd rfl
  -- The byte behind a backslash may be inside a character; the literal does not end there.
  | case3 b next rest escape ih => exact settled_cons b _ _ (settled_cons next rest _ ih)
  | case4 b next rest _ closes =>
    exact .after 0 b rfl (by rw [beq_iff_eq.mp closes]; exact ascii) rfl
  | case5 b next rest _ _ ih => exact settled_cons b (next :: rest) _ ih

theorem settled_of_head (bytes : Bytes) (noWord : bytes.head?.any isWord = false) :
    Settled bytes 0 := by
  cases bytes with
  | nil => exact .atEnd rfl
  | cons b rest => exact .before b rfl (ascii_of_not_word b noWord)

theorem drop_takeWhile (keep : UInt8 → Bool) (bytes : Bytes) :
    bytes.drop (bytes.takeWhile keep).length = bytes.dropWhile keep := by
  induction bytes with
  | nil => rfl
  | cons b rest ih => by_cases kept : keep b = true <;> simp [kept, ih]

theorem heredocLabel_eq (label line : Bytes) :
    heredocLabel? label line =
      if label.isPrefixOf (line.dropWhile isIndent) &&
          !(line.dropWhile isIndent)[label.length]?.any isWord then
        some ((line.takeWhile isIndent).length + label.length)
      else none := by
  unfold heredocLabel?
  simp only [drop_takeWhile, List.head?_drop]

theorem settled_heredocLabel (label line : Bytes) (size : Nat)
    (closes : heredocLabel? label line = some size) : Settled line size := by
  unfold heredocLabel? at closes
  simp only [Option.ite_none_right_eq_some, Option.some.injEq, Bool.and_eq_true,
    Bool.not_eq_true', List.isPrefixOf_iff_prefix] at closes
  obtain ⟨⟨⟨after, split⟩, noWord⟩, same⟩ := closes
  rw [← split, List.drop_left] at noWord
  rw [← same]
  refine settled_drop line _ label.length (List.takeWhile_prefix _).length_le ?_
  rw [← split]
  exact settled_append label after 0 (settled_of_head after noWord)

theorem settled_heredocBody (label : Bytes) (lineStart : Bool) (body : Bytes) :
    Settled body (heredocBody label lineStart body) := by
  induction body generalizing lineStart with
  | nil => exact .atEnd rfl
  | cons b rest ih =>
    unfold heredocBody
    split
    · next size closes =>
      split at closes
      · exact settled_heredocLabel label _ size closes
      · cases closes
    · exact settled_cons b rest _ (ih _)

theorem behindLabel_suffix (quote : Option UInt8) (closed rest : Bytes)
    (found : behindLabel? quote closed = some rest) : rest <:+ closed := by
  unfold behindLabel? at found
  split at found
  · cases found
    exact List.suffix_rfl
  · split at found
    · cases found
      exact List.drop_suffix _ _
    · cases found

theorem behindLine_suffix (line body : Bytes) (found : behindLine? line = some body) :
    body <:+ line := by
  unfold behindLine? at found
  split at found
  · cases found
    exact ⟨[_, _], rfl⟩
  · cases found
    exact ⟨[_], rfl⟩
  · cases found

theorem behindQuote_suffix (start : Bytes) : behindQuote start <:+ start := by
  unfold behindQuote
  split
  · exact List.drop_suffix _ _
  · exact List.suffix_rfl

theorem heredocOpening_suffix (bytes label body : Bytes)
    (opens : heredocOpening? bytes = some (label, body)) : body <:+ bytes := by
  unfold heredocOpening? at opens
  simp only [Option.ite_none_left_eq_some, Option.map_eq_some_iff, Option.bind_eq_some_iff,
    Prod.mk.injEq] at opens
  obtain ⟨_, _, ⟨ended, closes, line⟩, _, same⟩ := opens
  rw [← same]
  exact (behindLine_suffix _ _ line).trans ((behindLabel_suffix _ _ _ closes).trans
    ((List.dropWhile_suffix _).trans ((behindQuote_suffix _).trans (List.dropWhile_suffix _))))

theorem settled_heredoc (bytes : Bytes) (size : Nat) (found : heredoc? bytes = some size) :
    Settled bytes size := by
  obtain ⟨⟨label, body⟩, opens, same⟩ := Option.map_eq_some_iff.mp found
  obtain ⟨opening, split⟩ := heredocOpening_suffix bytes label body opens
  have length : bytes.length - body.length = opening.length := by
    rw [← split, List.length_append]
    omega
  simp only [length] at same
  rw [← same, ← split]
  exact settled_append opening body _ (settled_heredocBody label true body)

theorem ofString_echoTag : ofString "<?=" = [less, question, equals] := by
  decide +kernel

theorem ofString_phpTag : ofString "<?php" = [less, question, 0x70, 0x68, 0x70] := by
  decide +kernel

theorem openTag_cases (bytes : Bytes) (size : Nat) (found : openTag? bytes = some size) :
    (size = 3 ∧ ∃ rest, bytes = less :: question :: equals :: rest) ∨
    (size = 5 ∧ ¬ [less, question, equals] <+: bytes ∧ ∃ first second third fourth fifth rest,
      bytes = first :: second :: third :: fourth :: fifth :: rest ∧
      [first, second, third, fourth, fifth].map Byte.lower = [less, question, 0x70, 0x68, 0x70] ∧
      rest.head?.all isBlank = true) := by
  unfold openTag? at found
  rw [ofString_echoTag, ofString_phpTag] at found
  split at found
  · next fits =>
    obtain ⟨rest, split⟩ := List.isPrefixOf_iff_prefix.mp fits
    cases found
    exact .inl ⟨rfl, rest, split.symm⟩
  · next noEcho =>
    rw [List.isPrefixOf_iff_prefix] at noEcho
    split at found
    · next spelled =>
      rw [Bool.and_eq_true, beq_iff_eq] at spelled
      cases found
      -- A shorter text cannot spell the name.
      rcases bytes with _ | ⟨first, _ | ⟨second, _ | ⟨third, _ | ⟨fourth, _ | ⟨fifth, rest⟩⟩⟩⟩⟩
      all_goals simp only [Bytes.lower, List.take_nil, List.take_succ_cons, List.map_nil,
        List.map_cons, List.take_zero, reduceCtorEq, false_and, List.cons.injEq, and_false]
        at spelled
      exact .inr ⟨rfl, noEcho, first, second, third, fourth, fifth, rest, rfl,
        by simpa [Bytes.lower] using spelled.1, by simpa using spelled.2⟩
    · cases found

theorem settled_openTag (bytes : Bytes) (size : Nat) (found : openTag? bytes = some size) :
    Settled bytes size ∧ Settled bytes 0 := by
  rcases openTag_cases bytes size found with ⟨sized, rest, split⟩ |
    ⟨sized, _, first, second, third, fourth, fifth, rest, split, spelled, _⟩
  · rw [split, sized]
    exact ⟨.after 2 equals rfl (by decide) rfl, .before less rfl (by decide)⟩
  · simp only [List.map_cons, List.map_nil, List.cons.injEq] at spelled
    obtain ⟨start, _, _, _, stop, _⟩ := spelled
    rw [split, sized]
    exact ⟨.after 4 fifth rfl (ascii_of_lower fifth (by rw [stop]; decide)) rfl,
      .before first rfl (ascii_of_lower first (by rw [start]; decide))⟩

theorem settled_html (bytes : Bytes) : Settled bytes (html bytes) := by
  induction bytes with
  | nil => exact .atEnd rfl
  | cons b rest ih =>
    unfold html
    split
    · next opens =>
      obtain ⟨size, found⟩ := Option.isSome_iff_exists.mp opens
      exact (settled_openTag _ size found).2
    · exact settled_cons b rest _ ih

theorem html_stops (bytes : Bytes) :
    bytes.drop (html bytes) = [] ∨
      (openTag? (bytes.drop (html bytes))).isSome = true := by
  induction bytes with
  | nil => exact .inl rfl
  | cons b rest ih =>
    unfold html
    split
    · next opens => exact .inr opens
    · exact ih

end Extent

namespace Reading

open Byte Bytes

theorem settled_operator (first : UInt8) (rest : Bytes) (ascii : first < 0x80) :
    Settled (first :: rest) ((operator first rest).more + 1) := by
  rcases operator_cases first rest with ⟨more, listed, fits, read⟩ | single
  · rw [read]
    have low := (operatorTable_ascii _ listed).2
    rw [List.all_eq_true] at low
    obtain ⟨after, split⟩ := fits
    rw [← split]
    -- The last byte of the operator is the one before its end.
    have last : (first :: (more ++ after))[more.length]? = (first :: more)[more.length]? := by
      rw [← List.cons_append, List.getElem?_append_left (by simp)]
    have found : (first :: more)[more.length]? = some ((first :: more)[more.length]) :=
      List.getElem?_eq_getElem (by simp)
    refine .after more.length _ (last.trans found) ?_ rfl
    exact of_decide_eq_true (low _ (List.getElem_mem _))
  · rw [single]
    exact .after 0 first rfl ascii rfl

theorem settled_plain (first : UInt8) (rest : Bytes) :
    Settled (first :: rest) ((plain first rest).more + 1) := by
  unfold plain
  split_ifs with quote named digit word
  · exact settled_cons first rest _ (Extent.settled_quoted first rest (ascii_of_quote first quote))
  · exact settled_cons first rest _ (Extent.settled_word rest)
  · exact Extent.settled_number first rest
      (ascii_of_alphanumeric first (by simp [isAlphanumeric, digit]))
  · exact settled_cons first rest _ (Extent.settled_word rest)
  · exact settled_operator first rest (ascii_of_not_word first (by simpa using word))

theorem settled_php (first : UInt8) (rest : Bytes) :
    Settled (first :: rest) ((php first rest).more + 1) := by
  rw [php_eq]
  split_ifs with blank tag line block
  · exact .after 0 first rfl (ascii_of_blank first blank) rfl
  · obtain ⟨after, split⟩ := List.head?_eq_some_iff.mp tag.2
    rw [split]
    exact .after 1 greater rfl (by decide) rfl
  · exact settled_cons first rest _ (Extent.settled_lineComment rest)
  · obtain ⟨after, split⟩ := List.head?_eq_some_iff.mp block.2
    rw [split]
    exact settled_cons first _ _ (settled_cons asterisk after _ (Extent.settled_blockComment after))
  · cases found : heredocAt? first rest with
    | none => exact settled_plain first rest
    | some size =>
      unfold heredocAt? at found
      split at found
      · exact settled_cons _ _ _ (settled_cons _ _ _ (settled_cons _ _ _
          (Extent.settled_heredoc _ size found)))
      · cases found

theorem settled_read (mode : Mode) (first : UInt8) (rest : Bytes) :
    Settled (first :: rest) ((mode.read first rest).more + 1) := by
  cases mode with
  | html =>
    simp only [Mode.read, html]
    cases found : Extent.openTag? (first :: rest) with
    | none => exact settled_cons first rest _ (Extent.settled_html rest)
    | some size =>
      have settled := (Extent.settled_openTag _ size found).1
      rcases Extent.openTag_cases _ size found with ⟨sized, _⟩ | ⟨sized, _⟩ <;>
        rw [sized] at settled ⊢ <;> exact settled
  | php => exact settled_php first rest

end Reading

end CognitiveComplexity
