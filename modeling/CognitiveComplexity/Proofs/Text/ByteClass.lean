import CognitiveComplexity.Token.Extent
import Mathlib.Data.List.TakeWhile
import Mathlib.Tactic.Common

set_option autoImplicit false

namespace CognitiveComplexity

namespace Byte

theorem forall_bytes {P : UInt8 → Prop} (each : ∀ value : Fin 256, P (UInt8.ofFin value))
    (b : UInt8) : P b :=
  each b.toFin

theorem class_of_isWordStart (b : UInt8) (starts : isWordStart b = true) :
    isBlank b = false ∧ isQuote b = false ∧ isDigit b = false ∧ isWord b = true := by
  have each (b : UInt8) : isWordStart b = true →
      isBlank b = false ∧ isQuote b = false ∧ isDigit b = false ∧ isWord b = true := by
    revert b
    exact forall_bytes (by decide +kernel)
  exact each b starts

structure SameClass (one other : UInt8) : Prop where
  blank : isBlank one = isBlank other
  indent : isIndent one = isIndent other
  digit : isDigit one = isDigit other
  letter : isLetter one = isLetter other
  word : isWord one = isWord other

theorem sameClass_lower (b : UInt8) : SameClass (lower b) b := by
  have each (b : UInt8) : isBlank (lower b) = isBlank b ∧ isIndent (lower b) = isIndent b ∧
      isDigit (lower b) = isDigit b ∧ isLetter (lower b) = isLetter b ∧
      isWord (lower b) = isWord b := by
    revert b
    exact forall_bytes (by decide +kernel)
  obtain ⟨blank, indent, digit, letter, word⟩ := each b
  exact ⟨blank, indent, digit, letter, word⟩

theorem lower_lower (b : UInt8) : lower (lower b) = lower b := by
  revert b
  exact forall_bytes (by decide +kernel)

theorem lower_of_not_letter (b : UInt8) : isLetter b = false → lower b = b := by
  revert b
  exact forall_bytes (by decide +kernel)

theorem lower_eq_iff (b c : UInt8) (plain : isLetter c = false) : lower b = c ↔ b = c := by
  constructor
  · rintro rfl
    rw [(sameClass_lower b).letter] at plain
    exact (lower_of_not_letter b plain).symm
  · rintro rfl
    exact lower_of_not_letter b plain

end Byte

def Bytes.Word (text : Bytes) : Prop := ∀ b ∈ text, Byte.isWord b = true

theorem Extent.word_take (rest : Bytes) : Bytes.Word (rest.take (word rest)) := by
  intro b member
  have run : rest.takeWhile Byte.isWord = rest.take (word rest) :=
    List.prefix_iff_eq_take.mp (List.takeWhile_prefix Byte.isWord)
  rw [← run] at member
  exact List.mem_takeWhile_imp member

end CognitiveComplexity
