import CognitiveComplexity.Proofs.Text.ByteClass
import CognitiveComplexity.Proofs.Token.Stop

set_option autoImplicit false

/-!
A text written anew: letters may change their case, and line feeds may get a carriage return in front.
Whatever starts at some byte is then read as before, only that it has other bytes.
-/

namespace CognitiveComplexity

structure Recoding where
  swap : UInt8 → UInt8
  lower_swap : ∀ b, Byte.lower (swap b) = Byte.lower b
  -- Whether line feeds get a carriage return.
  returns : Bool

namespace Recoding

open Byte

variable (recoding : Recoding)

def byte (b : UInt8) : Bytes :=
  if b = newline ∧ recoding.returns = true then [carriageReturn, newline] else [recoding.swap b]

def bytes (source : Bytes) : Bytes := source.flatMap recoding.byte

def stretch (source : Bytes) (size : Nat) : Nat := (recoding.bytes (source.take size)).length

theorem byte_cases (b : UInt8) :
    (recoding.byte b = [recoding.swap b] ∧ (b = newline → recoding.returns = false)) ∨
      (b = newline ∧ recoding.returns = true ∧ recoding.byte b = [carriageReturn, newline]) := by
  unfold byte
  split
  · next ending => exact .inr ⟨ending.1, ending.2, rfl⟩
  · next other => exact .inl ⟨rfl, fun same => by simpa [same] using other⟩

theorem byte_of_ne (b : UInt8) (other : b ≠ newline) : recoding.byte b = [recoding.swap b] := by
  simp [byte, other]

@[simp] theorem bytes_nil : recoding.bytes [] = [] := rfl

@[simp] theorem bytes_cons (b : UInt8) (rest : Bytes) :
    recoding.bytes (b :: rest) = recoding.byte b ++ recoding.bytes rest := rfl

@[simp] theorem bytes_append (left right : Bytes) :
    recoding.bytes (left ++ right) = recoding.bytes left ++ recoding.bytes right := by
  simp [bytes]

@[simp] theorem stretch_zero (source : Bytes) : recoding.stretch source 0 = 0 := rfl

@[simp] theorem stretch_succ (b : UInt8) (rest : Bytes) (size : Nat) :
    recoding.stretch (b :: rest) (size + 1) =
      (recoding.byte b).length + recoding.stretch rest size := by
  simp [stretch]

theorem bytes_split (source : Bytes) (size : Nat) :
    recoding.bytes source =
      recoding.bytes (source.take size) ++ recoding.bytes (source.drop size) := by
  rw [← bytes_append, List.take_append_drop]

theorem take_stretch (source : Bytes) (size : Nat) :
    (recoding.bytes source).take (recoding.stretch source size) =
      recoding.bytes (source.take size) := by
  rw [recoding.bytes_split source size, stretch, List.take_left]

theorem drop_stretch (source : Bytes) (size : Nat) :
    (recoding.bytes source).drop (recoding.stretch source size) =
      recoding.bytes (source.drop size) := by
  rw [recoding.bytes_split source size, stretch, List.drop_left]

theorem sameClass_swap (b : UInt8) : SameClass (recoding.swap b) b := by
  have swapped := sameClass_lower (recoding.swap b)
  rw [recoding.lower_swap] at swapped
  have plain := sameClass_lower b
  exact ⟨swapped.blank.symm.trans plain.blank, swapped.indent.symm.trans plain.indent,
    swapped.digit.symm.trans plain.digit, swapped.letter.symm.trans plain.letter,
    swapped.word.symm.trans plain.word⟩

theorem swap_eq_iff (b c : UInt8) (plain : isLetter c = false) : recoding.swap b = c ↔ b = c := by
  rw [← lower_eq_iff _ c plain, recoding.lower_swap, lower_eq_iff b c plain]

def Fixed (c : UInt8) : Prop := c ≠ newline ∧ c ≠ carriageReturn ∧ ∀ b, recoding.swap b = c ↔ b = c

theorem fixed_of_not_letter (c : UInt8) (plain : isLetter c = false) (noFeed : c ≠ newline)
    (noReturn : c ≠ carriageReturn) : recoding.Fixed c :=
  ⟨noFeed, noReturn, fun b => recoding.swap_eq_iff b c plain⟩

theorem byte_fixed (c : UInt8) (fixed : recoding.Fixed c) : recoding.byte c = [c] := by
  rw [byte_of_ne recoding c fixed.1, (fixed.2.2 c).mpr rfl]

theorem prefix_bytes (text source : Bytes) (fixed : ∀ c ∈ text, recoding.Fixed c) :
    text <+: recoding.bytes source ↔ text <+: source := by
  induction text generalizing source with
  | nil => simp
  | cons c text ih =>
    obtain ⟨noFeed, noReturn, only⟩ := fixed c List.mem_cons_self
    have later (rest : Bytes) := ih rest fun d member => fixed d (List.mem_cons_of_mem _ member)
    cases source with
    | nil => simp
    | cons b rest =>
      rcases recoding.byte_cases b with ⟨single, plain⟩ | ⟨rfl, _, pair⟩
      · rw [bytes_cons, single, List.singleton_append, List.cons_prefix_cons, List.cons_prefix_cons,
          later, eq_comm, only, eq_comm]
      · simp [pair, List.cons_prefix_cons, noFeed, noReturn]

theorem bytes_eq_iff (text source : Bytes) (fixed : ∀ c ∈ text, recoding.Fixed c) :
    recoding.bytes source = text ↔ source = text := by
  have kept : recoding.bytes text = text := by
    induction text with
    | nil => rfl
    | cons c text ih =>
      rw [bytes_cons, recoding.byte_fixed c (fixed c List.mem_cons_self),
        ih fun d member => fixed d (List.mem_cons_of_mem _ member)]
      rfl
  have width (b : UInt8) : recoding.byte b ≠ [] := by
    rcases recoding.byte_cases b with ⟨single, _⟩ | ⟨rfl, _, pair⟩ <;> simp [*]
  constructor
  · intro same
    obtain ⟨rest, rfl⟩ := (recoding.prefix_bytes text source fixed).mp (same ▸ List.prefix_rfl)
    rw [bytes_append, kept, List.append_right_eq_self] at same
    cases rest with
    | nil => simp
    | cons b rest => simp [width] at same
  · rintro rfl
    exact kept

theorem head_bytes (source : Bytes) (c : UInt8) (fixed : recoding.Fixed c) :
    (recoding.bytes source).head? = some c ↔ source.head? = some c := by
  have single (bytes : Bytes) : bytes.head? = some c ↔ [c] <+: bytes := by
    cases bytes <;> simp [List.cons_prefix_cons, eq_comm]
  rw [single, single, recoding.prefix_bytes [c] source (by simpa using fixed)]

theorem any_head_bytes (source : Bytes) (keep : UInt8 → Bool)
    (blind : ∀ b, keep (recoding.swap b) = keep b) (ends : keep carriageReturn = keep newline) :
    (recoding.bytes source).head?.any keep = source.head?.any keep := by
  cases source with
  | nil => rfl
  | cons b rest => rcases recoding.byte_cases b with ⟨single, _⟩ | ⟨rfl, _, pair⟩ <;> simp [*]

theorem all_head_bytes (source : Bytes) (keep : UInt8 → Bool)
    (blind : ∀ b, keep (recoding.swap b) = keep b) (ends : keep carriageReturn = keep newline) :
    (recoding.bytes source).head?.all keep = source.head?.all keep := by
  cases source with
  | nil => rfl
  | cons b rest => rcases recoding.byte_cases b with ⟨single, _⟩ | ⟨rfl, _, pair⟩ <;> simp [*]

theorem length_bytes (source : Bytes) (single : newline ∉ source) :
    (recoding.bytes source).length = source.length := by
  induction source with
  | nil => rfl
  | cons b rest ih =>
    simp only [List.mem_cons, not_or] at single
    simp [recoding.byte_of_ne b (Ne.symm single.1), ih single.2]

theorem lower_bytes (source : Bytes) (single : newline ∉ source) :
    Bytes.lower (recoding.bytes source) = Bytes.lower source := by
  induction source with
  | nil => rfl
  | cons b rest ih =>
    simp only [List.mem_cons, not_or] at single
    simp [Bytes.lower, recoding.byte_of_ne b (Ne.symm single.1), recoding.lower_swap] at ih ⊢
    exact ih single.2

end Recoding

namespace Extent

open Byte

variable (recoding : Recoding) (source : Bytes)

theorem word_recode : word (recoding.bytes source) = recoding.stretch source (word source) := by
  unfold word
  induction source with
  | nil => rfl
  | cons b rest ih =>
    have word := (recoding.sameClass_swap b).word
    rcases recoding.byte_cases b with ⟨single, plain⟩ | ⟨rfl, _, pair⟩
    · by_cases inside : isWord b = true
      · simp [single, word, inside, ih, Nat.add_comm]
      · simp [single, word, inside]
    · rw [Recoding.bytes_cons, pair]
      rfl

theorem number_recode :
    number (recoding.bytes source) = recoding.stretch source (number source) := by
  induction source with
  | nil => rfl
  | cons b rest ih =>
    obtain ⟨_, _, digit, letter, _⟩ := recoding.sameClass_swap b
    have alphanumeric : isAlphanumeric (recoding.swap b) = isAlphanumeric b := by
      rw [isAlphanumeric, letter, digit, isAlphanumeric]
    have same := recoding.any_head_bytes rest isDigit
      (fun b => (recoding.sameClass_swap b).digit) rfl
    have other (c : UInt8) (plain : isLetter c = false) : (recoding.swap b == c) = (b == c) := by
      rw [Bool.eq_iff_iff, beq_iff_eq, beq_iff_eq, recoding.swap_eq_iff b c plain]
    rcases recoding.byte_cases b with ⟨single, plain⟩ | ⟨rfl, _, pair⟩
    · simp only [Recoding.bytes_cons, single, List.singleton_append, number, alphanumeric,
        other underscore rfl, other dot rfl, same, ih]
      split
      · simp [single, Nat.add_comm 1]
      · rfl
    · rw [Recoding.bytes_cons, pair]
      rfl

theorem blockComment_cons (b : UInt8) (rest : Bytes) :
    blockComment (b :: rest) =
      if b = asterisk ∧ rest.head? = some slash then 2 else blockComment rest + 1 := by
  split
  · next closes =>
    obtain ⟨rfl, ends⟩ := closes
    obtain ⟨tail, rfl⟩ := List.head?_eq_some_iff.mp ends
    rfl
  · next stays =>
    rw [blockComment]
    rintro tail rfl rfl
    exact stays ⟨rfl, rfl⟩

theorem blockComment_recode :
    blockComment (recoding.bytes source) = recoding.stretch source (blockComment source) := by
  have passes (b : UInt8) (rest : Bytes) (other : b ≠ asterisk) :
      blockComment (b :: rest) = blockComment rest + 1 := by
    rw [blockComment_cons, if_neg fun closes => other closes.1]
  induction source with
  | nil => rfl
  | cons b rest ih =>
    have star := recoding.swap_eq_iff b asterisk rfl
    have bar := recoding.head_bytes rest slash
      (recoding.fixed_of_not_letter slash rfl (by decide) (by decide))
    rcases recoding.byte_cases b with ⟨single, plain⟩ | ⟨rfl, _, pair⟩
    · simp only [Recoding.bytes_cons, single, List.singleton_append, blockComment_cons, star, bar, ih]
      split
      · next closes =>
        obtain ⟨tail, rfl⟩ := List.head?_eq_some_iff.mp closes.2
        simp [single, recoding.byte_of_ne slash (by decide)]
      · simp [single, Nat.add_comm 1]
    · simp [pair, passes newline _ (by decide), passes carriageReturn _ (by decide), ih,
        Nat.add_comm 2]

theorem lineComment_cons (b : UInt8) (rest : Bytes) :
    lineComment (b :: rest) =
      if b = newline ∨ (b = question ∧ rest.head? = some greater) then 0
      else lineComment rest + 1 := by
  split
  · next ends =>
    rcases ends with rfl | ⟨rfl, tag⟩
    · rfl
    · obtain ⟨tail, rfl⟩ := List.head?_eq_some_iff.mp tag
      rfl
  · next stays =>
    rw [lineComment]
    · rintro rfl
      exact stays (.inl rfl)
    · rintro tail rfl rfl
      exact stays (.inr ⟨rfl, rfl⟩)

-- A line comment in front of a line feed takes the carriage return in.
theorem lineComment_recode :
    lineComment (recoding.bytes source) = recoding.stretch source (lineComment source) +
      if (source.drop (lineComment source)).head? = some newline ∧ recoding.returns = true then 1
      else 0 := by
  induction source with
  | nil => rfl
  | cons b rest ih =>
    have mark := recoding.swap_eq_iff b question rfl
    have feed := recoding.swap_eq_iff b newline rfl
    have tag := recoding.head_bytes rest greater
      (recoding.fixed_of_not_letter greater rfl (by decide) (by decide))
    rcases recoding.byte_cases b with ⟨single, plain⟩ | ⟨rfl, returns, pair⟩
    · simp only [Recoding.bytes_cons, single, List.singleton_append, lineComment_cons, mark, feed, tag,
        ih]
      split
      · next ends =>
        rcases ends with rfl | ⟨rfl, _⟩
        · simp [plain rfl]
        · rw [if_neg fun feeds => absurd (Option.some.inj feeds.1) (by decide)]
          rfl
      · simp [single]
        omega
    · rw [Recoding.bytes_cons, pair, returns]
      rfl

theorem quoted_cons (quote b : UInt8) (rest : Bytes) (noEscape : b ≠ backslash) (inside : b ≠ quote) :
    quoted quote (b :: rest) = quoted quote rest + 1 := by
  cases rest <;> simp [quoted, noEscape, inside]

theorem quoted_recode (quote : UInt8) (closes : isQuote quote = true) :
    quoted quote (recoding.bytes source) = recoding.stretch source (quoted quote source) := by
  have fixed : isLetter quote = false ∧ newline ≠ quote ∧ carriageReturn ≠ quote := by
    simp only [isQuote, Bool.or_eq_true, beq_iff_eq] at closes
    rcases closes with (rfl | rfl) | rfl <;> decide
  have ending (rest : Bytes) :
      quoted quote (carriageReturn :: newline :: rest) = quoted quote rest + 2 := by
    rw [quoted_cons _ _ _ (by decide) fixed.2.2, quoted_cons _ _ _ (by decide) fixed.2.1]
  fun_induction quoted quote source with
  | case1 => rfl
  | case2 b =>
    rcases recoding.byte_cases b with ⟨single, _⟩ | ⟨_, _, pair⟩
    · simp [single, quoted]
    · simp [pair, ending, quoted]
  | case3 b next rest escape ih =>
    rw [beq_iff_eq] at escape
    have slashed : recoding.byte b = [backslash] := by
      rw [recoding.byte_of_ne b (by rw [escape]; decide), (recoding.swap_eq_iff b _ rfl).mpr escape]
    -- A backslash takes the carriage return, and the line feed behind it is like any other byte.
    rcases recoding.byte_cases next with ⟨single, _⟩ | ⟨rfl, _, pair⟩
    · simp [slashed, single, quoted, ih]
      omega
    · simp [slashed, pair, quoted, quoted_cons quote newline _ (by decide) fixed.2.1, ih]
      omega
  | case4 b next rest noEscape ends =>
    rw [beq_iff_eq] at ends noEscape
    have whole : recoding.byte b = [quote] := by
      rw [recoding.byte_of_ne b (by rw [ends]; exact fixed.2.1.symm),
        (recoding.swap_eq_iff b _ fixed.1).mpr ends]
    rw [Recoding.bytes_cons, whole, Recoding.stretch_succ, whole]
    cases recoding.bytes (next :: rest) <;> simp [quoted, ← ends, noEscape]
  | case5 b next rest noEscape open' ih =>
    rw [beq_iff_eq] at open' noEscape
    rcases recoding.byte_cases b with ⟨single, _⟩ | ⟨rfl, _, pair⟩
    · rw [Recoding.bytes_cons, single, List.singleton_append, quoted_cons, ih,
        Recoding.stretch_succ, single, List.length_singleton, Nat.add_comm]
      · rwa [ne_eq, recoding.swap_eq_iff b _ rfl]
      · rwa [ne_eq, recoding.swap_eq_iff b _ fixed.1]
    · rw [Recoding.bytes_cons, pair, List.cons_append, List.singleton_append, ending, ih,
        Recoding.stretch_succ, pair, Nat.add_comm]
      rfl

theorem lower_recode :
    Bytes.lower (recoding.bytes source) =
      (Recoding.mk id (fun _ => rfl) recoding.returns).bytes (Bytes.lower source) := by
  induction source with
  | nil => rfl
  | cons b rest ih =>
    unfold Bytes.lower at ih ⊢
    rw [Recoding.bytes_cons, List.map_append, ih, List.map_cons, Recoding.bytes_cons]
    congr 1
    rcases recoding.byte_cases b with ⟨single, plain⟩ | ⟨rfl, returns, pair⟩
    · rw [single]
      simp only [List.map_cons, List.map_nil, recoding.lower_swap, Recoding.byte,
        lower_eq_iff b newline rfl]
      split
      · next ends => simp [plain ends.1] at ends
      · rfl
    · rw [pair, returns]
      rfl

theorem stretch_phpTag (spelled : Bytes.ofString "<?php" <+: Bytes.lower source) :
    recoding.stretch source 5 = 5 := by
  have cut : Bytes.lower (source.take 5) = Bytes.ofString "<?php" := by
    rw [Bytes.lower, List.map_take, List.prefix_iff_eq_take.mp spelled, ofString_phpTag]
    rfl
  have single : newline ∉ source.take 5 := by
    intro ends
    have named : lower newline ∈ Bytes.ofString "<?php" := cut ▸ List.mem_map_of_mem ends
    rw [ofString_phpTag] at named
    revert named
    decide
  rw [Recoding.stretch, recoding.length_bytes _ single]
  simpa [Bytes.lower, ofString_phpTag] using congrArg List.length cut

theorem openTag_recode : openTag? (recoding.bytes source) = openTag? source := by
  have echo : Bytes.ofString "<?=" <+: recoding.bytes source ↔ Bytes.ofString "<?=" <+: source := by
    refine recoding.prefix_bytes _ source fun c member => ?_
    rw [ofString_echoTag] at member
    simp only [List.mem_cons, List.not_mem_nil, or_false] at member
    rcases member with rfl | rfl | rfl <;>
      exact recoding.fixed_of_not_letter _ rfl (by decide) (by decide)
  have php : Bytes.ofString "<?php" <+: Bytes.lower (recoding.bytes source) ↔
      Bytes.ofString "<?php" <+: Bytes.lower source := by
    rw [lower_recode]
    refine Recoding.prefix_bytes _ _ _ fun c member => ⟨?_, ?_, fun _ => Iff.rfl⟩
    all_goals
      rw [ofString_phpTag] at member
      rintro rfl
      revert member
      decide
  simp only [openTag_eq, echo, php]
  by_cases spelled : Bytes.ofString "<?php" <+: Bytes.lower source
  · -- The name holds no line feed, so what follows it is where it was.
    have behind := recoding.drop_stretch source 5
    rw [stretch_phpTag recoding source spelled] at behind
    rw [behind, recoding.all_head_bytes (source.drop 5) isBlank
      (fun b => (recoding.sameClass_swap b).blank) rfl]
  · simp [spelled]

theorem stretch_openTag (size : Nat) (opens : openTag? source = some size) :
    recoding.stretch source size = size ∧ 0 < size := by
  rw [openTag_eq] at opens
  split_ifs at opens with echo php
  · cases opens
    rw [ofString_echoTag] at echo
    obtain ⟨rest, rfl⟩ := echo
    have fixed (c : UInt8) (other : c ≠ newline) := recoding.byte_of_ne c other
    simp [fixed less (by decide), fixed question (by decide), fixed equals (by decide)]
  · cases opens
    exact ⟨stretch_phpTag recoding source php.1, by decide⟩

theorem openTag_head (b : UInt8) (rest : Bytes) (other : b ≠ less) : openTag? (b :: rest) = none := by
  cases found : openTag? (b :: rest) with
  | none => rfl
  | some size =>
    rcases openTag_cases _ size found with ⟨_, rest, split⟩ |
      ⟨_, _, first, second, third, fourth, fifth, rest, split, spelled, _⟩
    · cases split
      exact (other rfl).elim
    · cases split
      simp only [List.map_cons, List.cons.injEq] at spelled
      exact (other ((lower_eq_iff b less rfl).mp spelled.1)).elim

theorem html_recode : html (recoding.bytes source) = recoding.stretch source (html source) := by
  induction source with
  | nil => rfl
  | cons b rest ih =>
    have tag := openTag_recode recoding (b :: rest)
    rcases recoding.byte_cases b with ⟨single, _⟩ | ⟨rfl, _, pair⟩
    · rw [Recoding.bytes_cons, single, List.singleton_append] at tag ⊢
      simp only [html, tag, ih]
      split
      · rfl
      · simp [single, Nat.add_comm 1]
    · rw [Recoding.bytes_cons, pair]
      simp only [List.cons_append, List.nil_append, html, openTag_head carriageReturn _ (by decide),
        openTag_head newline _ (by decide), ih]
      simp [pair, Nat.add_comm 2]

end Extent

end CognitiveComplexity
