import CognitiveComplexity.Proofs.Scanner.Heredoc

set_option autoImplicit false

namespace CognitiveComplexity

namespace Scanner

open Byte Bytes

structure Spans (offset : Nat) (reading : Reading) (span : Span) : Prop where
  kind : reading.kind = some span.kind
  stop : span.stop = offset + (reading.more + 1)
  mode : reading.mode = span.mode

theorem spans_token (offset : Nat) (kind : Kind) (more stop : Nat)
    (same : stop = offset + (more + 1)) :
    Spans offset (Reading.token kind more) ⟨kind, stop, .php⟩ :=
  ⟨rfl, same, rfl⟩

theorem word_cons (first : UInt8) (rest : Bytes) (word : isWord first = true) :
    Extent.word (first :: rest) = Extent.word rest + 1 := by
  unfold Extent.word
  rw [List.takeWhile_cons_of_pos word, List.length_cons]

theorem number_cons (first : UInt8) (rest : Bytes) (digit : isDigit first = true) :
    Extent.number (first :: rest) = Extent.number rest + 1 := by
  rw [Extent.number, if_pos (by simp [isAlphanumeric, digit])]

variable (source : String) (offset : Nat) (first : UInt8) (rest : Bytes)

theorem operatorSpan_spans (bytes : Bytes) (here : At bytes offset (first :: rest)) :
    ∃ span, operatorSpan bytes offset = .ok span ∧
      Spans offset (Reading.operator first rest) span := by
  unfold operatorSpan Reading.operator
  rw [bytesFrom_eq here, ok_bind]
  cases hit : Kind.operatorTable.find? (·.isPrefixOf (first :: rest)) with
  | none => exact ⟨_, rfl, spans_token offset .operator 0 _ rfl⟩
  | some text =>
    have filled := (Reading.operatorTable_ascii text (List.mem_of_find?_eq_some hit)).1
    cases text with
    | nil => cases filled
    | cons head more => exact ⟨_, rfl, spans_token offset _ more.length _ rfl⟩

theorem plainSpan_spans (here : At (ofString source) offset (first :: rest))
    (between : Boundary source offset) :
    ∃ span, plainSpan source offset first = .ok span ∧
      Spans offset (Reading.plain first rest) span := by
  have behind := at_tail first here
  unfold plainSpan Reading.plain
  simp only [at_head? behind]
  split_ifs with quote named digit word
  · rw [quotedEnd_eq _ first _ _ behind]
    exact ⟨_, rfl, spans_token offset _ _ _ (by omega)⟩
  · rw [wordEnd_eq _ _ _ behind]
    exact ⟨_, rfl, spans_token offset _ _ _ (by omega)⟩
  · rw [numberEnd_eq _ _ _ here, number_cons first rest digit]
    exact ⟨_, rfl, spans_token offset _ _ _ rfl⟩
  -- The word is cut out to look its kind up, so both its ends have to be between characters.
  · have last := boundary_of_settled source _
      (at_settled _ (Extent.settled_word (first :: rest)) here)
    rw [wordEnd_eq _ _ _ here, ok_bind, slice_eq source _ _ _ here between last,
      word_cons first rest word]
    exact ⟨_, rfl, spans_token offset _ _ _ rfl⟩
  · exact operatorSpan_spans offset first rest _ here

theorem pair_isPrefixOf (one two : UInt8) :
    [one, two].isPrefixOf (first :: rest) = true ↔ first = one ∧ rest.head? = some two := by
  rw [List.isPrefixOf_iff_prefix, List.cons_prefix_cons]
  cases rest with
  | nil => simp
  | cons next rest => simp [List.cons_prefix_cons, eq_comm]

theorem heredocSpan_spans (here : At (ofString source) offset (first :: rest))
    (between : Boundary source offset) :
    ∃ span, heredocSpan source offset first = .ok span ∧
      Spans offset (match Reading.heredocAt? first rest with
        | some size => Reading.token .string (size + 2)
        | none => Reading.plain first rest) span := by
  have plain := plainSpan_spans source offset first rest here between
  unfold heredocSpan
  rw [bytesFrom_eq here, ok_bind]
  split
  · next starts =>
    obtain ⟨after, split⟩ := List.isPrefixOf_iff_prefix.mp starts
    cases split
    have found : Reading.heredocAt? less ([less, less] ++ after) = Extent.heredoc? after := rfl
    rw [heredocEnd_eq source offset after here, ok_bind]
    simp only [List.append_eq, found]
    cases Extent.heredoc? after with
    | none => exact plain
    | some size => exact ⟨_, rfl, spans_token offset _ _ (offset + 3 + size) (by omega)⟩
  · next other =>
    unfold Reading.heredocAt?
    split
    · next size found =>
      split at found
      · exact absurd rfl other
      · cases found
    · exact plain

theorem phpSpan_spans (here : At (ofString source) offset (first :: rest))
    (between : Boundary source offset) (visible : ¬ isBlank first = true) :
    ∃ span, phpSpan source offset first = .ok span ∧
      Spans offset (Reading.php first rest) span := by
  have behind := at_tail first here
  rw [Reading.php_eq, if_neg visible]
  unfold phpSpan
  simp only [bytesFrom_eq here, ok_bind, at_head? behind, pair_isPrefixOf, Bool.or_eq_true,
    Bool.and_eq_true, beq_iff_eq, bne_iff_ne]
  split_ifs with tag line block
  · exact ⟨_, rfl, rfl, rfl, rfl⟩
  · have ends : Extent.lineComment (first :: rest) = Extent.lineComment rest + 1 := by
      rcases line with ⟨starts, _⟩ | ⟨starts, _⟩ <;> rw [starts] <;> rfl
    rw [lineCommentEnd_eq _ _ _ here, ends]
    exact ⟨_, rfl, spans_token offset _ _ _ rfl⟩
  · obtain ⟨body, split⟩ := List.head?_eq_some_iff.mp block.2
    rw [split] at behind ⊢
    have start := at_tail asterisk behind
    -- The search for the end starts behind an asterisk.
    have cut := boundary_of_settled source _
      (at_settled 1 (.after 0 asterisk rfl (by decide) rfl) behind)
    rw [blockCommentEnd_eq source (offset + 2) body start cut]
    exact ⟨_, rfl, spans_token offset _ _ _ (by simp; omega)⟩
  · exact heredocSpan_spans source offset first rest here between

end Scanner

end CognitiveComplexity
