import CognitiveComplexity.Byte
import Mathlib.Tactic.Common

set_option autoImplicit false

namespace CognitiveComplexity

namespace Bytes

theorem decode_eq_some (bytes : Bytes) (text : String) :
    decode? bytes = some text ↔ bytes = ofString text := by
  constructor
  next =>
    intro decodes
    unfold decode? String.fromUTF8? at decodes
    split at decodes
    next =>
      cases decodes
      rfl
    next => cases decodes
  next =>
    rintro rfl
    have found : ∃ valid, String.fromUTF8 text.toByteArray valid = text := ⟨text.isValidUTF8, rfl⟩
    simpa [decode?, String.fromUTF8?, ofString] using found

/-- The offset does not cut a character of the text in two. -/
def Boundary (source : String) (offset : Nat) : Prop :=
  (⟨offset⟩ : String.Pos.Raw).IsValid source

instance (source : String) (offset : Nat) : Decidable (Boundary source offset) :=
  inferInstanceAs (Decidable ((⟨offset⟩ : String.Pos.Raw).IsValid source))

theorem ofString_eq_flatMap (source : String) :
    ofString source = source.toList.flatMap String.utf8EncodeChar := by
  unfold ofString
  rw [String.toUTF8_eq_toByteArray, ← String.utf8Encode_toList, List.utf8Encode,
    List.data_toByteArray]

theorem length_ofString (source : String) : (ofString source).length = source.utf8ByteSize := by
  unfold ofString
  rw [String.toUTF8_eq_toByteArray, Array.length_toList]
  rfl

theorem utf8EncodeChar_of_ascii (c : Char) (b : UInt8) (member : b ∈ String.utf8EncodeChar c)
    (ascii : b < 0x80) : String.utf8EncodeChar c = [b] := by
  -- The bytes of a longer encoding carry markers, which are not ASCII.
  have low (bits marker : Nat) (high : 0x80 ≤ marker) (fits : bits + marker < 256)
      (same : b = UInt8.ofNat (bits + marker)) : False := by
    rw [same, UInt8.lt_iff_toNat_lt, UInt8.toNat_ofNat', Nat.mod_eq_of_lt fits] at ascii
    have bound : (0x80 : UInt8).toNat = 0x80 := rfl
    omega
  unfold String.utf8EncodeChar at member ⊢
  simp only at member ⊢
  split_ifs at member ⊢
  · rw [List.mem_singleton.mp member]
  all_goals simp only [List.mem_cons, List.not_mem_nil, or_false] at member
  · rcases member with same | same <;> exact (low _ _ (by omega) (by omega) same).elim
  · rcases member with same | same | same <;> exact (low _ _ (by omega) (by omega) same).elim
  · rcases member with same | same | same | same <;>
      exact (low _ _ (by omega) (by omega) same).elim

theorem flatMap_split_of_ascii (characters : List Char) (offset : Nat) (b : UInt8)
    (found : (characters.flatMap String.utf8EncodeChar)[offset]? = some b) (ascii : b < 0x80) :
    ∃ count, offset = ((characters.take count).flatMap String.utf8EncodeChar).length ∧
      offset + 1 = ((characters.take (count + 1)).flatMap String.utf8EncodeChar).length := by
  induction characters generalizing offset with
  | nil => cases found
  | cons c characters ih =>
    rw [List.flatMap_cons] at found
    -- The byte is all of the first character, or it is behind it.
    by_cases inside : offset < (String.utf8EncodeChar c).length
    · rw [List.getElem?_append_left inside] at found
      have whole := utf8EncodeChar_of_ascii c b (List.mem_of_getElem? found) ascii
      rw [whole, List.length_singleton, Nat.lt_one_iff] at inside
      exact ⟨0, by simp [inside], by simp [inside, whole]⟩
    · rw [List.getElem?_append_right (by omega)] at found
      obtain ⟨count, before, behind⟩ := ih _ found
      refine ⟨count + 1, ?_, ?_⟩
      · rw [List.take_succ_cons, List.flatMap_cons, List.length_append, ← before]
        omega
      · rw [List.take_succ_cons, List.flatMap_cons, List.length_append, ← behind]
        omega

theorem boundary_of_take (source : String) (offset count : Nat)
    (reached : offset = ((source.toList.take count).flatMap String.utf8EncodeChar).length) :
    Boundary source offset := by
  refine String.Pos.Raw.isValid_iff_exists_take_toList.mpr ⟨count, ?_⟩
  rw [← length_ofString, ofString_eq_flatMap, String.toList_ofList]
  exact reached

theorem boundary_end (source : String) : Boundary source (ofString source).length := by
  rw [length_ofString]
  exact String.Pos.Raw.isValid_rawEndPos

inductive Settled (bytes : Bytes) (offset : Nat) : Prop where
  | atEnd (ended : offset = bytes.length)
  | before (b : UInt8) (found : bytes[offset]? = some b) (ascii : b < 0x80)
  | after (earlier : Nat) (b : UInt8) (found : bytes[earlier]? = some b) (ascii : b < 0x80)
      (behind : offset = earlier + 1)

theorem settled_le_length (bytes : Bytes) (offset : Nat) (settled : Settled bytes offset) :
    offset ≤ bytes.length := by
  cases settled with
  | atEnd ended => omega
  | before b found ascii => exact Nat.le_of_lt (List.getElem?_eq_some_iff.mp found).1
  | after earlier b found ascii behind =>
    have within := (List.getElem?_eq_some_iff.mp found).1
    omega

theorem boundary_of_settled (source : String) (offset : Nat)
    (settled : Settled (ofString source) offset) : Boundary source offset := by
  cases settled with
  | atEnd ended =>
    rw [ended]
    exact boundary_end source
  | before b found ascii =>
    rw [ofString_eq_flatMap] at found
    obtain ⟨count, reached, _⟩ := flatMap_split_of_ascii source.toList offset b found ascii
    exact boundary_of_take source offset count reached
  | after earlier b found ascii behind =>
    rw [ofString_eq_flatMap] at found
    obtain ⟨count, _, reached⟩ := flatMap_split_of_ascii source.toList earlier b found ascii
    rw [behind]
    exact boundary_of_take source (earlier + 1) (count + 1) reached

theorem settled_append (start rest : Bytes) (offset : Nat) (settled : Settled rest offset) :
    Settled (start ++ rest) (start.length + offset) := by
  cases settled with
  | atEnd ended => exact .atEnd (by rw [ended, List.length_append])
  | before b found ascii =>
    refine .before b ?_ ascii
    rw [List.getElem?_append_right (Nat.le_add_right _ _), Nat.add_sub_cancel_left]
    exact found
  | after earlier b found ascii behind =>
    refine .after (start.length + earlier) b ?_ ascii (by omega)
    rw [List.getElem?_append_right (Nat.le_add_right _ _), Nat.add_sub_cancel_left]
    exact found

theorem settled_cons (first : UInt8) (rest : Bytes) (offset : Nat) (settled : Settled rest offset) :
    Settled (first :: rest) (offset + 1) := by
  have longer := settled_append [first] rest offset settled
  rwa [List.length_singleton, Nat.add_comm] at longer

-- A run of ASCII bytes ends behind one of them, or behind the ASCII byte before it.
theorem settled_takeWhile (keep : UInt8 → Bool) (low : ∀ b, keep b = true → b < 0x80)
    (first : UInt8) (rest : Bytes) (ascii : first < 0x80) :
    Settled (first :: rest) ((rest.takeWhile keep).length + 1) := by
  induction rest generalizing first with
  | nil => exact .after 0 first rfl ascii rfl
  | cons b rest ih =>
    by_cases kept : keep b = true
    · rw [List.takeWhile_cons_of_pos kept, List.length_cons]
      exact settled_cons first (b :: rest) _ (ih b (low b kept))
    · rw [List.takeWhile_cons_of_neg kept]
      exact .after 0 first rfl ascii rfl

theorem settled_drop (bytes : Bytes) (start offset : Nat) (within : start ≤ bytes.length)
    (settled : Settled (bytes.drop start) offset) : Settled bytes (start + offset) := by
  have whole := settled_append (bytes.take start) (bytes.drop start) offset settled
  rwa [List.take_append_drop, List.length_take, Nat.min_eq_left within] at whole

end Bytes

end CognitiveComplexity
