import Mathlib.Data.List.Infix
import Mathlib.Tactic.Common

set_option autoImplicit false

-- A printed line is read from its end, since a path at its start may hold anything.
namespace CognitiveComplexity.Line

-- The longest end of a text whose characters are all kept, and what stands in front of it.
def cutEnd (keep : Char → Bool) (text : List Char) : List Char × List Char :=
  ((text.reverse.dropWhile keep).reverse, (text.reverse.takeWhile keep).reverse)

def cutMark? (mark : String) (text : List Char) : Option (List Char) := mark.toList.isSuffixOf? text

def number? (digits : List Char) : Option Nat :=
  if digits.isEmpty || !digits.all Char.isDigit then none
  else some (Nat.ofDigitChars 10 digits 0)

def cutNumber? (text : List Char) : Option (List Char × Nat) := do
  let (front, digits) := cutEnd Char.isDigit text
  return (front, ← number? digits)

def cutWord? (text : List Char) : Option (List Char × List Char) :=
  let (front, word) := cutEnd (· != ' ') (cutEnd (· == ' ') text).1
  if word.isEmpty then none else some (front, word)

def cutCell? (text : List Char) : Option (List Char × Nat) := do
  let (front, word) ← cutWord? text
  return (front, ← number? word)

-- A number between two texts, with nothing in front and only blanks behind.
def enclosed? (opening closing : String) (text : List Char) : Option Nat := do
  let (text, value) ← cutNumber? (← cutMark? closing (cutEnd (· == ' ') text).1)
  if (← cutMark? opening text).isEmpty then some value else none

def blanks (count : Nat) : List Char := List.replicate count ' '

def IsWord (word : List Char) : Prop := word ≠ [] ∧ ' ' ∉ word

theorem cutMark_append (front : List Char) (mark : String) :
    cutMark? mark (front ++ mark.toList) = some front :=
  List.isSuffixOf?_eq_some_iff_append_eq.mpr rfl

theorem cutEnd_append (keep : Char → Bool) (front run : List Char)
    (stops : ∀ c ∈ front.getLast?, keep c = false) (kept : ∀ c ∈ run, keep c = true) :
    cutEnd keep (front ++ run) = (front, run) := by
  have keptBack : ∀ c ∈ run.reverse, keep c = true := fun c member => kept c (List.mem_reverse.mp member)
  unfold cutEnd
  rw [List.reverse_append, List.takeWhile_append_of_pos keptBack, List.dropWhile_append_of_pos keptBack]
  cases back : front.reverse with
  | nil => simp [List.reverse_eq_nil_iff.mp back]
  | cons last rest =>
    have stop : ¬ keep last = true := by
      have ends : front.getLast? = some last := by rw [← List.head?_reverse, back, List.head?_cons]
      simpa using stops last (by simp [ends])
    rw [List.takeWhile_cons_of_neg stop, List.dropWhile_cons_of_neg stop, ← back]
    simp

theorem isDigit_toString (value : Nat) : ∀ c ∈ (toString value).toList, c.isDigit = true := by
  intro c member
  rw [Nat.toString_eq_ofList_toDigits, String.toList_ofList] at member
  exact Nat.isDigit_of_mem_toDigits (by decide) (by decide) member

theorem toString_ne_nil (value : Nat) : (toString value).toList ≠ [] := by
  rw [Nat.toString_eq_ofList_toDigits, String.toList_ofList]
  exact Nat.toDigits_ne_nil

theorem isWord_toString (value : Nat) : IsWord (toString value).toList :=
  ⟨toString_ne_nil value, fun member => absurd (isDigit_toString value ' ' member) (by decide)⟩

theorem number_toString (value : Nat) : number? (toString value).toList = some value := by
  have filled : (toString value).toList.isEmpty = false :=
    List.isEmpty_eq_false_iff.mpr (toString_ne_nil value)
  have digits : (toString value).toList.all Char.isDigit = true :=
    List.all_eq_true.mpr (isDigit_toString value)
  rw [number?, filled, digits, Nat.toString_eq_ofList_toDigits, String.toList_ofList,
    Nat.ofDigitChars_ten_toDigits]
  rfl

theorem cutNumber_append (front : List Char) (value : Nat)
    (stops : ∀ c ∈ front.getLast?, c.isDigit = false) :
    cutNumber? (front ++ (toString value).toList) = some (front, value) := by
  simp only [cutNumber?, cutEnd_append _ front _ stops (isDigit_toString value), number_toString]
  rfl

theorem blanks_append (one other : Nat) : blanks one ++ blanks other = blanks (one + other) :=
  List.replicate_append_replicate

theorem getLast_blanks (front : List Char) (count : Nat) :
    (front ++ blanks (count + 1)).getLast? = some ' ' := by
  rw [blanks, List.replicate_succ', ← List.append_assoc, List.getLast?_concat]

theorem enclosed_append (opening closing : String) (value count : Nat)
    (stops : ∀ c ∈ opening.toList.getLast?, c.isDigit = false) (filled : closing.toList ≠ [])
    (solid : ∀ c ∈ closing.toList.getLast?, c ≠ ' ') :
    enclosed? opening closing
      (opening.toList ++ (toString value).toList ++ closing.toList ++ blanks count) = some value := by
  have trimmed := cutEnd_append (· == ' ')
    (opening.toList ++ (toString value).toList ++ closing.toList) (blanks count)
    (by
      rw [List.getLast?_append_of_ne_nil _ filled]
      simpa using solid)
    (fun c member => by simpa using List.eq_of_mem_replicate member)
  have nothing : cutMark? opening opening.toList = some [] := cutMark_append [] opening
  simp only [enclosed?, trimmed, cutMark_append, cutNumber_append _ value stops, nothing,
    Option.bind_eq_bind, Option.bind_some, List.isEmpty_nil, if_true]

theorem cutWord_blanks (text : List Char) (count : Nat) :
    cutWord? (text ++ blanks count) = cutWord? text := by
  have blank : ∀ c ∈ (blanks count).reverse, (c == ' ') = true := by
    intro c member
    simpa using List.eq_of_mem_replicate (List.mem_reverse.mp member)
  have trimmed : (cutEnd (· == ' ') (text ++ blanks count)).1 = (cutEnd (· == ' ') text).1 := by
    simp only [cutEnd, List.reverse_append, List.dropWhile_append_of_pos blank]
  simp only [cutWord?, trimmed]

theorem cutWord_append (front word : List Char) (count : Nat) (isWord : IsWord word) :
    cutWord? (front ++ blanks (count + 1) ++ word) = some (front ++ blanks (count + 1), word) := by
  obtain ⟨filled, solid⟩ := isWord
  have other (c : Char) (member : c ∈ word) : c ≠ ' ' := fun same => solid (same ▸ member)
  have trimmed := cutEnd_append (· == ' ') (front ++ blanks (count + 1) ++ word) []
    (by
      intro c last
      rw [List.getLast?_append_of_ne_nil _ filled] at last
      simpa using other c (List.mem_of_mem_getLast? last))
    (List.forall_mem_nil _)
  rw [List.append_nil] at trimmed
  have cut := cutEnd_append (· != ' ') (front ++ blanks (count + 1)) word
    (by rw [getLast_blanks]; simp)
    (fun c member => bne_iff_ne.mpr (other c member))
  simp only [cutWord?, trimmed, cut, List.isEmpty_iff, filled, if_false]

theorem cutCell_blanks (text : List Char) (count : Nat) :
    cutCell? (text ++ blanks count) = cutCell? text := by
  rw [cutCell?, cutCell?, cutWord_blanks]

theorem cutCell_append (front : List Char) (value count : Nat) :
    cutCell? (front ++ blanks (count + 1) ++ (toString value).toList) =
      some (front ++ blanks (count + 1), value) := by
  simp only [cutCell?, cutWord_append front _ count (isWord_toString value), Option.bind_eq_bind,
    Option.bind_some, number_toString]
  rfl

end CognitiveComplexity.Line
