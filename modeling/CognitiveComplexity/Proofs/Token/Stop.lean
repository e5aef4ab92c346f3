import CognitiveComplexity.Proofs.Token.Extent
import Mathlib.Data.List.TakeWhile

set_option autoImplicit false

namespace CognitiveComplexity

namespace Byte

def isStop (b : UInt8) : Bool := b == 0x3B || b == 0x7B || b == 0x7D

theorem isStop_cases (b : UInt8) (stop : isStop b = true) : b = 0x3B ∨ b = 0x7B ∨ b = 0x7D := by
  simpa [isStop, or_assoc] using stop

theorem isWord_of_isStop (b : UInt8) (stop : isStop b = true) : isWord b = false := by
  rcases isStop_cases b stop with rfl | rfl | rfl <;> decide

theorem isIndent_of_isStop (b : UInt8) (stop : isStop b = true) : isIndent b = false := by
  rcases isStop_cases b stop with rfl | rfl | rfl <;> decide

end Byte

namespace Bytes

def Stopped (bytes : Bytes) : Prop := ∃ b ∈ bytes, Byte.isStop b = true

instance (bytes : Bytes) : Decidable (Stopped bytes) :=
  inferInstanceAs (Decidable (∃ b ∈ bytes, Byte.isStop b = true))

theorem stopped_cons (b : UInt8) (rest : Bytes) :
    Stopped (b :: rest) ↔ Byte.isStop b = true ∨ Stopped rest := by
  simp [Stopped]

theorem stopped_append (left right : Bytes) :
    Stopped (left ++ right) ↔ Stopped left ∨ Stopped right := by
  simp [Stopped, or_and_right, exists_or]

theorem not_stopped_nil : ¬ Stopped [] := by
  simp [Stopped]

theorem stopped_length_pos (bytes : Bytes) (stopped : Stopped bytes) : 0 < bytes.length := by
  obtain ⟨b, member, _⟩ := stopped
  exact List.length_pos_of_mem member

theorem stopped_of_drop (bytes : Bytes) (size : Nat) (stopped : Stopped (bytes.drop size)) :
    Stopped bytes := by
  obtain ⟨b, member, stop⟩ := stopped
  exact ⟨b, List.mem_of_mem_drop member, stop⟩

theorem stopped_tail (b : UInt8) (rest : Bytes) (other : Byte.isStop b = false)
    (stopped : Stopped (b :: rest)) : Stopped rest := by
  rcases (stopped_cons b rest).mp stopped with here | later
  · rw [other] at here
    cases here
  · exact later

section Append

variable (bytes more : Bytes)

theorem head?_append_stopped (stopped : Stopped bytes) : (bytes ++ more).head? = bytes.head? := by
  cases bytes with
  | nil => exact (not_stopped_nil stopped).elim
  | cons b rest => rfl

theorem stopped_dropWhile (keep : UInt8 → Bool) (ends : ∀ b, Byte.isStop b = true → keep b = false)
    (stopped : Stopped bytes) : Stopped (bytes.dropWhile keep) := by
  rw [← List.takeWhile_append_dropWhile (p := keep) (l := bytes), stopped_append] at stopped
  rcases stopped with ⟨b, member, stop⟩ | later
  · have kept := List.mem_takeWhile_imp member
    rw [ends b stop] at kept
    cases kept
  · exact later

theorem dropWhile_append_stopped (keep : UInt8 → Bool)
    (ends : ∀ b, Byte.isStop b = true → keep b = false) (stopped : Stopped bytes) :
    (bytes ++ more).dropWhile keep = bytes.dropWhile keep ++ more := by
  rw [List.dropWhile_append, if_neg]
  intro gone
  have later := stopped_dropWhile bytes keep ends stopped
  rw [List.isEmpty_iff.mp gone] at later
  exact not_stopped_nil later

theorem takeWhile_append_stopped (keep : UInt8 → Bool)
    (ends : ∀ b, Byte.isStop b = true → keep b = false) (stopped : Stopped bytes) :
    (bytes ++ more).takeWhile keep = bytes.takeWhile keep := by
  have whole := List.takeWhile_append_dropWhile (p := keep) (l := bytes ++ more)
  rw [dropWhile_append_stopped bytes more keep ends stopped, ← List.append_assoc] at whole
  have split := List.append_cancel_right whole
  exact List.append_cancel_right
    (split.trans (List.takeWhile_append_dropWhile (p := keep) (l := bytes)).symm)

-- A text without a stop lies in front of the stop or does not fit at all.
theorem prefix_append_stopped (text : Bytes) (plain : ¬ Stopped text) (stopped : Stopped bytes) :
    text <+: bytes ++ more ↔ text <+: bytes := by
  constructor
  · intro fits
    rcases List.prefix_or_prefix_of_prefix fits (List.prefix_append bytes more) with inside | beyond
    · exact inside
    · obtain ⟨b, member, stop⟩ := stopped
      exact (plain ⟨b, beyond.subset member, stop⟩).elim
  · exact fun fits => fits.trans (List.prefix_append bytes more)

theorem stopped_behind (text after : Bytes) (plain : ¬ Stopped text)
    (stopped : Stopped (text ++ after)) : Stopped after :=
  ((stopped_append text after).mp stopped).resolve_left plain

end Append

end Bytes

namespace Extent

open Byte Bytes

variable (bytes more : Bytes)

theorem word_append (stopped : Stopped bytes) : word (bytes ++ more) = word bytes := by
  rw [word, takeWhile_append_stopped bytes more isWord isWord_of_isStop stopped, word]

theorem number_append (stopped : Stopped bytes) : number (bytes ++ more) = number bytes := by
  induction bytes with
  | nil => exact (not_stopped_nil stopped).elim
  | cons b rest ih =>
    rcases (stopped_cons b rest).mp stopped with here | later
    -- A stop is no part of a number.
    · have other : (isAlphanumeric b || b == underscore || b == dot) = false := by
        rcases isStop_cases b here with rfl | rfl | rfl <;> decide
      simp only [Bool.or_eq_false_iff] at other
      simp [number, other]
    · simp only [List.cons_append, number, ih later, head?_append_stopped rest more later]

theorem lineComment_append (stopped : Stopped (bytes.drop (lineComment bytes))) :
    lineComment (bytes ++ more) = lineComment bytes := by
  fun_induction lineComment bytes with
  | case1 => exact (not_stopped_nil stopped).elim
  | case2 rest => rfl
  | case3 rest => rfl
  | case4 b rest noNewline noTag ih =>
    rw [List.drop_succ_cons] at stopped
    rw [List.cons_append, lineComment, ih stopped]
    · exact noNewline
    -- The rest is not empty, so a closing tag would be seen already.
    · intro tail starts same
      cases rest with
      | nil => exact not_stopped_nil stopped
      | cons next rest =>
        rw [List.cons_append, List.cons.injEq] at same
        exact noTag rest starts (by rw [same.1])

theorem blockComment_append (stopped : Stopped (bytes.drop (blockComment bytes))) :
    blockComment (bytes ++ more) = blockComment bytes := by
  fun_induction blockComment bytes with
  | case1 => exact (not_stopped_nil stopped).elim
  | case2 rest => rfl
  | case3 b rest noEnd ih =>
    rw [List.drop_succ_cons] at stopped
    rw [List.cons_append, blockComment, ih stopped]
    intro tail starts same
    cases rest with
    | nil => exact not_stopped_nil stopped
    | cons next rest =>
      rw [List.cons_append, List.cons.injEq] at same
      exact noEnd rest starts (by rw [same.1])

theorem quoted_append (quote : UInt8) (stopped : Stopped (bytes.drop (quoted quote bytes))) :
    quoted quote (bytes ++ more) = quoted quote bytes := by
  fun_induction quoted quote bytes with
  | case1 => exact (not_stopped_nil stopped).elim
  | case2 b => exact (not_stopped_nil stopped).elim
  | case3 b next rest escape ih =>
    rw [List.drop_succ_cons, List.drop_succ_cons] at stopped
    rw [List.cons_append, List.cons_append, quoted, if_pos escape, ih stopped]
  | case4 b next rest noEscape closes =>
    rw [List.cons_append, List.cons_append, quoted, if_neg noEscape, if_pos closes]
  | case5 b next rest noEscape open' ih =>
    rw [List.drop_succ_cons] at stopped
    rw [List.cons_append, List.cons_append, quoted, if_neg noEscape, if_neg open',
      ← List.cons_append, ih stopped]

theorem not_stopped_label (label : Bytes) (named : ∀ b ∈ label, isWord b = true) :
    ¬ Stopped label := by
  rintro ⟨b, member, stop⟩
  have word := named b member
  rw [isWord_of_isStop b stop] at word
  cases word

theorem heredocLabel_append (label : Bytes) (named : ∀ b ∈ label, isWord b = true)
    (stopped : Stopped bytes) :
    heredocLabel? label (bytes ++ more) = heredocLabel? label bytes := by
  have plain := not_stopped_label label named
  have behind := stopped_dropWhile bytes isIndent isIndent_of_isStop stopped
  rw [heredocLabel_eq, heredocLabel_eq,
    takeWhile_append_stopped bytes more isIndent isIndent_of_isStop stopped,
    dropWhile_append_stopped bytes more isIndent isIndent_of_isStop stopped]
  generalize bytes.dropWhile isIndent = line at behind
  by_cases fits : label <+: line
  · obtain ⟨after, rfl⟩ := fits
    -- The stop is behind the label, so the byte that decides is there already.
    have later := stopped_length_pos after (stopped_behind label after plain behind)
    rw [List.getElem?_append_left (by rw [List.length_append]; omega)]
    simp
  · have misses := mt (prefix_append_stopped line more label plain behind).mp fits
    rw [← List.isPrefixOf_iff_prefix, Bool.not_eq_true] at fits misses
    simp [fits, misses]

theorem heredocBody_append (label : Bytes) (named : ∀ b ∈ label, isWord b = true)
    (lineStart : Bool) (stopped : Stopped (bytes.drop (heredocBody label lineStart bytes))) :
    heredocBody label lineStart (bytes ++ more) = heredocBody label lineStart bytes := by
  induction bytes generalizing lineStart with
  | nil => exact (not_stopped_nil stopped).elim
  | cons b rest ih =>
    have same := heredocLabel_append (b :: rest) more label named (stopped_of_drop _ _ stopped)
    rw [List.cons_append] at same ⊢
    unfold heredocBody at stopped ⊢
    rw [same]
    split
    · rfl
    · next open' =>
      rw [open', List.drop_succ_cons] at stopped
      rw [ih _ stopped]

theorem labelQuote_append (stopped : Stopped bytes) :
    labelQuote? (bytes ++ more) = labelQuote? bytes := by
  rw [labelQuote?, head?_append_stopped bytes more stopped, labelQuote?]

theorem not_stop_of_labelQuote (quote : UInt8) (found : labelQuote? bytes = some quote) :
    bytes.head? = some quote ∧ isStop quote = false := by
  obtain ⟨first, isQuote⟩ := Option.filter_eq_some_iff.mp found
  simp only [Bool.or_eq_true, beq_iff_eq] at isQuote
  rcases isQuote with rfl | rfl <;> exact ⟨first, by decide⟩

theorem stopped_behind_head (b : UInt8) (first : bytes.head? = some b) (other : isStop b = false)
    (stopped : Stopped bytes) : Stopped (bytes.drop 1) := by
  obtain ⟨rest, rfl⟩ := List.head?_eq_some_iff.mp first
  exact stopped_tail b rest other stopped

theorem behindQuote_append (stopped : Stopped bytes) :
    behindQuote (bytes ++ more) = behindQuote bytes ++ more ∧ Stopped (behindQuote bytes) := by
  unfold behindQuote
  rw [labelQuote_append bytes more stopped]
  cases found : labelQuote? bytes with
  | none => exact ⟨rfl, stopped⟩
  | some quote =>
    obtain ⟨first, other⟩ := not_stop_of_labelQuote bytes quote found
    rw [List.drop_append_of_le_length (stopped_length_pos bytes stopped)]
    exact ⟨rfl, stopped_behind_head bytes quote first other stopped⟩

theorem behindLabel_append (quote : Option UInt8) (other : ∀ b ∈ quote, isStop b = false)
    (stopped : Stopped bytes) :
    behindLabel? quote (bytes ++ more) = (behindLabel? quote bytes).map (· ++ more) ∧
      ∀ rest, behindLabel? quote bytes = some rest → Stopped rest := by
  cases quote with
  | none => simpa [behindLabel?] using stopped
  | some quote =>
    unfold behindLabel?
    rw [head?_append_stopped bytes more stopped,
      List.drop_append_of_le_length (stopped_length_pos bytes stopped)]
    by_cases closes : bytes.head? = some quote
    · have behind := stopped_behind_head bytes quote closes (other quote rfl) stopped
      simpa [closes] using behind
    · simp [closes]

theorem behindLine_append (stopped : Stopped bytes) :
    behindLine? (bytes ++ more) = (behindLine? bytes).map (· ++ more) := by
  rcases bytes with _ | ⟨first, _ | ⟨second, rest⟩⟩
  · exact (not_stopped_nil stopped).elim
  · have stop : isStop first = true := by simpa [Stopped] using stopped
    rcases isStop_cases first stop with rfl | rfl | rfl <;> rfl
  · unfold behindLine?
    simp only [List.cons_append]
    split
    · next same =>
      simp only [List.cons.injEq] at same
      obtain ⟨rfl, rfl, rfl⟩ := same
      rfl
    · next same =>
      simp only [List.cons.injEq] at same
      obtain ⟨rfl, rfl⟩ := same
      rfl
    · next noPair noFeed =>
      split
      · next same =>
        simp only [List.cons.injEq] at same
        obtain ⟨rfl, rfl, rfl⟩ := same
        exact (noPair _ rfl).elim
      · next same =>
        simp only [List.cons.injEq] at same
        obtain ⟨rfl, rfl⟩ := same
        exact (noFeed _ rfl).elim
      · rfl

-- None of the parts of a heredoc's first line goes over a stop.
theorem heredocOpening_append (stopped : Stopped bytes) :
    heredocOpening? (bytes ++ more) =
      (heredocOpening? bytes).map fun (label, body) => (label, body ++ more) := by
  have start := stopped_dropWhile bytes isIndent isIndent_of_isStop stopped
  obtain ⟨quoteless, named⟩ := behindQuote_append (bytes.dropWhile isIndent) more start
  have closed := stopped_dropWhile _ isWord isWord_of_isStop named
  obtain ⟨ended, line⟩ := behindLabel_append _ more (labelQuote? (bytes.dropWhile isIndent))
    (fun quote found => (not_stop_of_labelQuote _ quote found).2) closed
  unfold heredocOpening?
  simp only [dropWhile_append_stopped bytes more isIndent isIndent_of_isStop stopped, quoteless,
    labelQuote_append _ more start, takeWhile_append_stopped _ more isWord isWord_of_isStop named,
    dropWhile_append_stopped _ more isWord isWord_of_isStop named, ended]
  split
  · rfl
  · cases found : behindLabel? (labelQuote? (bytes.dropWhile isIndent))
        ((behindQuote (bytes.dropWhile isIndent)).dropWhile isWord) with
    | none => rfl
    | some rest =>
      simp only [Option.map_some, Option.bind_some, behindLine_append rest more (line rest found),
        Option.map_map]
      rfl

theorem heredocOpening_label (label body : Bytes)
    (opens : heredocOpening? bytes = some (label, body)) : ∀ b ∈ label, isWord b = true := by
  unfold heredocOpening? at opens
  simp only [Option.ite_none_left_eq_some, Option.map_eq_some_iff, Prod.mk.injEq] at opens
  obtain ⟨_, _, _, rfl, _⟩ := opens
  exact fun b member => List.mem_takeWhile_imp member

theorem heredoc_append (stopped : Stopped bytes)
    (behind : ∀ size, heredoc? bytes = some size → Stopped (bytes.drop size)) :
    heredoc? (bytes ++ more) = heredoc? bytes := by
  unfold heredoc? at behind ⊢
  rw [heredocOpening_append bytes more stopped]
  cases opens : heredocOpening? bytes with
  | none => rfl
  | some opening =>
    obtain ⟨label, body⟩ := opening
    obtain ⟨front, rfl⟩ := heredocOpening_suffix bytes label body opens
    have named := heredocOpening_label _ label body opens
    have length : (front ++ body).length - body.length = front.length := by simp
    have later := behind _ (by rw [opens]; rfl)
    simp only [length, ← List.drop_drop, List.drop_left] at later
    simp only [Option.map_some, heredocBody_append body more label named true later]
    simp

theorem openTag_eq (text : Bytes) :
    openTag? text =
      if ofString "<?=" <+: text then some 3
      else if ofString "<?php" <+: lower text ∧ (text.drop 5).head?.all isBlank = true then some 5
      else none := by
  have spelled : lower (text.take 5) = ofString "<?php" ↔ ofString "<?php" <+: lower text := by
    rw [List.prefix_iff_eq_take, Bytes.lower, List.map_take, eq_comm]
    rfl
  simp only [openTag?, List.isPrefixOf_iff_prefix, Bool.and_eq_true, beq_iff_eq, spelled]

theorem openTag_append (stopped : Stopped bytes) : openTag? (bytes ++ more) = openTag? bytes := by
  have echo : ¬ Stopped (ofString "<?=") := by
    rw [ofString_echoTag]
    decide
  have php : ¬ Stopped (ofString "<?php") := by
    rw [ofString_phpTag]
    decide
  have lowered : Stopped (lower bytes) := by
    obtain ⟨b, member, stop⟩ := stopped
    refine ⟨Byte.lower b, List.mem_map_of_mem member, ?_⟩
    rcases isStop_cases b stop with rfl | rfl | rfl <;> decide
  have split : lower (bytes ++ more) = lower bytes ++ lower more := List.map_append
  rw [openTag_eq, openTag_eq, split]
  simp only [prefix_append_stopped bytes more _ echo stopped,
    prefix_append_stopped (lower bytes) (lower more) _ php lowered]
  by_cases fits : ofString "<?php" <+: lower bytes
  · have longer : 5 < bytes.length := by
      obtain ⟨after, same⟩ := fits
      have later := stopped_length_pos after (stopped_behind _ after php (same ▸ lowered))
      have length := congrArg List.length same
      rw [ofString_phpTag, List.length_append, Bytes.lower, List.length_map] at length
      simp only [List.length_cons, List.length_nil] at length
      omega
    rw [List.drop_append_of_le_length (by omega), List.head?_append_of_ne_nil]
    simpa using longer
  · simp only [fits, false_and]

theorem html_append (stopped : Stopped (bytes.drop (html bytes))) :
    html (bytes ++ more) = html bytes := by
  induction bytes with
  | nil => exact (not_stopped_nil stopped).elim
  | cons b rest ih =>
    have same := openTag_append (b :: rest) more (stopped_of_drop _ _ stopped)
    rw [List.cons_append] at same ⊢
    unfold html at stopped ⊢
    rw [same]
    split
    · rfl
    · next outside =>
      rw [if_neg outside, List.drop_succ_cons] at stopped
      rw [ih stopped]

end Extent

end CognitiveComplexity
