import CognitiveComplexity.Proofs.Scanner.Machine
import CognitiveComplexity.Proofs.Token.Extent

set_option autoImplicit false

namespace CognitiveComplexity

namespace Scanner

open Byte Bytes

@[simp] theorem ok_bind {α β : Type} (value : α) (next : α → Except Fault β) :
    (Except.ok value >>= next) = next value := rfl

@[simp] theorem pure_eq_ok {α : Type} (value : α) : (pure value : Except Fault α) = .ok value := rfl

structure At (bytes : Bytes) (offset : Nat) (rest : Bytes) : Prop where
  within : offset ≤ bytes.length
  drop : bytes.drop offset = rest

section At

variable {bytes rest : Bytes} {offset : Nat}

theorem at_length (here : At bytes offset rest) : offset + rest.length = bytes.length := by
  have within := here.within
  rw [← here.drop, List.length_drop]
  omega

theorem at_getElem? (here : At bytes offset rest) (index : Nat) :
    bytes[offset + index]? = rest[index]? := by
  rw [← here.drop, List.getElem?_drop]

theorem at_head? (here : At bytes offset rest) : bytes[offset]? = rest.head? := by
  rw [← here.drop, List.head?_drop]

theorem at_append (front : Bytes) (here : At bytes offset (front ++ rest)) :
    At bytes (offset + front.length) rest := by
  refine ⟨?_, ?_⟩
  · have total := at_length here
    rw [List.length_append] at total
    omega
  · rw [← List.drop_drop, here.drop, List.drop_left]

theorem at_tail (b : UInt8) (here : At bytes offset (b :: rest)) : At bytes (offset + 1) rest :=
  at_append [b] here

theorem at_drop (count : Nat) (fits : count ≤ rest.length) (here : At bytes offset rest) :
    At bytes (offset + count) (rest.drop count) := by
  have split : At bytes offset (rest.take count ++ rest.drop count) := by
    rwa [List.take_append_drop]
  have moved := at_append _ split
  rwa [List.length_take, Nat.min_eq_left fits] at moved

theorem at_dropWhile (keep : UInt8 → Bool) (here : At bytes offset rest) :
    At bytes (offset + (rest.takeWhile keep).length) (rest.dropWhile keep) :=
  at_append _ (by rwa [List.takeWhile_append_dropWhile])

theorem at_settled (size : Nat) (settled : Settled rest size) (here : At bytes offset rest) :
    Settled bytes (offset + size) := by
  rw [← here.drop] at settled
  exact settled_drop bytes offset size here.within settled

theorem byteAt_eq (b : UInt8) (here : At bytes offset (b :: rest)) :
    byteAt bytes offset = .ok b := by
  unfold byteAt
  rw [at_head? here]
  rfl

theorem bytesFrom_eq (here : At bytes offset rest) : bytesFrom bytes offset = .ok rest := by
  unfold bytesFrom
  rw [if_pos here.within, here.drop]

end At

theorem slice_eq (source : String) (start size : Nat) (rest : Bytes)
    (here : At (ofString source) start rest) (first : Boundary source start)
    (last : Boundary source (start + size)) :
    slice source start (start + size) = .ok (rest.take size) := by
  unfold slice
  rw [if_pos ⟨Nat.le_add_right _ _, first, last⟩, here.drop, Nat.add_sub_cancel_left]

-- Half of a character is no slice.
example : slice "é" 0 1 = .error .slice := by decide +kernel

def stretch (keep : Bytes → Bool) : Bytes → Nat
  | [] => 0
  | b :: rest => if keep (b :: rest) then stretch keep rest + 1 else 0

theorem seek_eq (bytes : Bytes) (stays : Nat → Except Fault Bool) (keep : Bytes → Bool)
    (decides : ∀ offset b rest, At bytes offset (b :: rest) → stays offset = .ok (keep (b :: rest)))
    (offset : Nat) (rest : Bytes) (here : At bytes offset rest) :
    seek bytes stays offset = .ok (offset + stretch keep rest) := by
  -- On what is left of the bytes; at their end the condition is not asked.
  induction rest generalizing offset with
  | nil =>
    have ended := at_length here
    unfold seek
    rw [if_neg (by rw [← ended]; simp)]
    rfl
  | cons b rest ih =>
    have total := at_length here
    rw [List.length_cons] at total
    unfold seek stretch
    rw [if_pos (by omega), decides offset b rest here, ok_bind]
    split
    · rw [ih (offset + 1) (at_tail b here), Nat.add_assoc, Nat.add_comm 1]
    · rfl

theorem seekByte_eq (bytes : Bytes) (keep : UInt8 → Bool) (offset : Nat) (rest : Bytes)
    (here : At bytes offset rest) :
    seekByte bytes keep offset = .ok (offset + (rest.takeWhile keep).length) := by
  have counts (rest : Bytes) :
      stretch (fun rest => rest.head?.any keep) rest = (rest.takeWhile keep).length := by
    induction rest with
    | nil => rfl
    | cons b rest ih =>
      unfold stretch
      rw [List.takeWhile_cons, ih, List.head?_cons, Option.any_some]
      split <;> rfl
  unfold seekByte
  rw [seek_eq bytes _ (fun rest => rest.head?.any keep) _ offset rest here, counts]
  intro offset b rest here
  rw [byteAt_eq b here]
  rfl

theorem wordEnd_eq (bytes : Bytes) (offset : Nat) (rest : Bytes) (here : At bytes offset rest) :
    wordEnd bytes offset = .ok (offset + Extent.word rest) :=
  seekByte_eq bytes isWord offset rest here

theorem numberEnd_eq (bytes : Bytes) (offset : Nat) (rest : Bytes) (here : At bytes offset rest) :
    numberEnd bytes offset = .ok (offset + Extent.number rest) := by
  let keep : Bytes → Bool
    | [] => false
    | b :: rest => isAlphanumeric b || b == underscore || (b == dot && rest.head?.any isDigit)
  have counts (rest : Bytes) : stretch keep rest = Extent.number rest := by
    induction rest with
    | nil => rfl
    | cons b rest ih =>
      unfold stretch Extent.number
      rw [ih]
  unfold numberEnd
  rw [seek_eq bytes _ keep _ offset rest here, counts]
  intro offset b rest here
  rw [byteAt_eq b here, ok_bind, at_head? (at_tail b here)]
  rfl

theorem lineCommentEnd_eq (bytes : Bytes) (offset : Nat) (rest : Bytes)
    (here : At bytes offset rest) :
    lineCommentEnd bytes offset = .ok (offset + Extent.lineComment rest) := by
  let keep (rest : Bytes) : Bool :=
    rest.head?.any (· != newline) && !([question, greater].isPrefixOf rest)
  have counts (rest : Bytes) : stretch keep rest = Extent.lineComment rest := by
    fun_induction Extent.lineComment rest with
    | case1 => rfl
    | case2 rest => rfl
    | case3 rest => rfl
    | case4 b rest noLine noTag ih =>
      have kept : keep (b :: rest) = true := by
        simp only [keep, List.head?_cons, Option.any_some, Bool.and_eq_true, bne_iff_ne,
          Bool.not_eq_true', Bool.eq_false_iff]
        refine ⟨noLine, fun tag => ?_⟩
        obtain ⟨after, split⟩ := List.isPrefixOf_iff_prefix.mp tag
        cases split
        exact noTag after rfl rfl
      unfold stretch
      rw [if_pos kept, ih]
  unfold lineCommentEnd
  rw [seek_eq bytes _ keep _ offset rest here, counts]
  intro offset b rest here
  rw [byteAt_eq b here, bytesFrom_eq here]
  rfl

theorem quotedEnd_eq (bytes : Bytes) (quote : UInt8) (offset : Nat) (rest : Bytes)
    (here : At bytes offset rest) :
    quotedEnd bytes quote offset = .ok (offset + Extent.quoted quote rest) := by
  have ends (offset : Nat) (beyond : ¬ offset < bytes.length) :
      quotedEnd bytes quote offset = .ok bytes.length := by
    unfold quotedEnd
    rw [if_neg beyond]
    rfl
  fun_induction Extent.quoted quote rest generalizing offset with
  | case1 =>
    have total := at_length here
    rw [ends offset (by rw [← total]; simp), ← total]
    rfl
  | case2 b =>
    -- A backslash as the last byte jumps behind the end, and the search stops there.
    have total := at_length here
    rw [List.length_singleton] at total
    unfold quotedEnd
    rw [if_pos (by omega), byteAt_eq b here, ok_bind, ends _ (by omega), ends _ (by omega), total]
    split_ifs <;> rfl
  | case3 b next rest escape ih =>
    have total := at_length here
    unfold quotedEnd
    rw [if_pos (by simp only [List.length_cons] at total; omega), byteAt_eq b here, ok_bind,
      if_pos escape, ih (offset + 2) (at_tail next (at_tail b here)), Nat.add_assoc,
      Nat.add_comm 2]
  | case4 b next rest plain closes =>
    have total := at_length here
    unfold quotedEnd
    rw [if_pos (by simp only [List.length_cons] at total; omega), byteAt_eq b here, ok_bind,
      if_neg plain, if_pos closes]
    rfl
  | case5 b next rest plain opens ih =>
    have total := at_length here
    unfold quotedEnd
    rw [if_pos (by simp only [List.length_cons] at total; omega), byteAt_eq b here, ok_bind,
      if_neg plain, if_neg opens, ih (offset + 1) (at_tail b here), Nat.add_assoc, Nat.add_comm 1]

theorem distance_eq (source : String) (text : Bytes) (offset : Nat) (rest : Bytes)
    (here : At (ofString source) offset rest) (between : Boundary source offset) :
    distance? source text offset = .ok (occurrence? text rest) := by
  have total := at_length here
  unfold distance?
  rw [← total, slice_eq source offset rest.length rest here between
    (by rw [total]; exact boundary_end source), List.take_length]
  rfl

theorem blockComment_eq_occurrence (rest : Bytes) :
    Extent.blockComment rest =
      ((occurrence? [asterisk, slash] rest).map (· + 2)).getD rest.length := by
  fun_induction Extent.blockComment rest with
  | case1 => rfl
  | case2 rest => rfl
  | case3 b rest noClose ih =>
    have later : [asterisk, slash].isPrefixOf (b :: rest) = false := by
      rw [Bool.eq_false_iff]
      intro closes
      obtain ⟨after, split⟩ := List.isPrefixOf_iff_prefix.mp closes
      cases split
      exact noClose after rfl rfl
    rw [ih, occurrence?, later]
    cases occurrence? [asterisk, slash] rest <;> simp

theorem blockCommentEnd_eq (source : String) (offset : Nat) (rest : Bytes)
    (here : At (ofString source) offset rest) (between : Boundary source offset) :
    blockCommentEnd source offset = .ok (offset + Extent.blockComment rest) := by
  unfold blockCommentEnd
  rw [distance_eq source _ offset rest here between, ok_bind, blockComment_eq_occurrence]
  cases occurrence? [asterisk, slash] rest with
  | none => rw [← at_length here]; rfl
  | some distance => simp [Nat.add_assoc]

theorem openTagAt_eq (bytes : Bytes) (offset : Nat) (rest : Bytes) (here : At bytes offset rest) :
    openTagAt bytes offset = .ok (Extent.openTag? rest).isSome := by
  unfold openTagAt Extent.openTag?
  rw [bytesFrom_eq here, ok_bind]
  split
  · rfl
  · split
    · next long =>
      unfold bytesUpTo
      rw [if_pos long, ok_bind, List.head?_drop]
      split <;> simp_all
    · next short =>
      -- A tag that the end of the source cuts off has no five bytes to compare.
      have other : (lower (rest.take 5) == ofString "<?php") = false := by
        rw [beq_eq_false_iff_ne, Extent.ofString_phpTag]
        intro same
        have sizes := congrArg List.length same
        simp only [Bytes.lower, List.length_map, List.length_take, List.length_cons,
          List.length_nil] at sizes
        omega
      rw [other]
      rfl

theorem htmlEnd_eq (bytes : Bytes) (offset : Nat) (rest : Bytes) (here : At bytes offset rest) :
    seek bytes (fun j => do return !(← openTagAt bytes j)) offset =
      .ok (offset + Extent.html rest) := by
  have counts (rest : Bytes) :
      stretch (fun rest => !(Extent.openTag? rest).isSome) rest = Extent.html rest := by
    induction rest with
    | nil => rfl
    | cons b rest ih =>
      unfold stretch Extent.html
      rw [ih]
      cases (Extent.openTag? (b :: rest)).isSome <;> rfl
  rw [seek_eq bytes _ (fun rest => !(Extent.openTag? rest).isSome) _ offset rest here, counts]
  intro offset b rest here
  rw [openTagAt_eq bytes offset _ here]
  rfl

end Scanner

end CognitiveComplexity
