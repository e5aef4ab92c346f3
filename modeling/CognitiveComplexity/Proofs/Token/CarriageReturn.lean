import CognitiveComplexity.Proofs.Token.Recoded

set_option autoImplicit false

namespace CognitiveComplexity

namespace Recoding

open Byte Bytes

def crlf : Recoding := ⟨id, fun _ => rfl, true⟩

theorem fixed_crlf (c : UInt8) (noFeed : c ≠ newline) (noReturn : c ≠ carriageReturn) :
    crlf.Fixed c :=
  ⟨noFeed, noReturn, fun _ => Iff.rfl⟩

theorem fixed_word (c : UInt8) (word : isWord c = true) : crlf.Fixed c := by
  refine fixed_crlf c ?_ ?_
  · rintro rfl
    cases word
  · rintro rfl
    cases word

theorem byte_crlf (b : UInt8) (other : b ≠ newline) : crlf.byte b = [b] :=
  crlf.byte_of_ne b other

theorem byte_newline : crlf.byte newline = [carriageReturn, newline] := rfl

theorem bytes_crlf (text : Bytes) (single : newline ∉ text) : crlf.bytes text = text := by
  induction text with
  | nil => rfl
  | cons b rest ih =>
    simp only [List.mem_cons, not_or] at single
    simp [byte_crlf b (Ne.symm single.1), ih single.2]

section Runs

variable (source : Bytes) (keep : UInt8 → Bool)

theorem takeWhile_crlf (noFeed : keep newline = false) (noReturn : keep carriageReturn = false) :
    (crlf.bytes source).takeWhile keep = source.takeWhile keep := by
  induction source with
  | nil => rfl
  | cons b rest ih =>
    by_cases ends : b = newline
    · subst ends
      simp [byte_newline, noFeed, noReturn]
    · simp [byte_crlf b ends, List.takeWhile_cons, ih]

theorem dropWhile_crlf (noFeed : keep newline = false) (noReturn : keep carriageReturn = false) :
    (crlf.bytes source).dropWhile keep = crlf.bytes (source.dropWhile keep) := by
  induction source with
  | nil => rfl
  | cons b rest ih =>
    by_cases ends : b = newline
    · subst ends
      simp [byte_newline, noFeed, noReturn]
    · by_cases kept : keep b = true
      · simp [byte_crlf b ends, kept, ih]
      · simp [byte_crlf b ends, kept]

end Runs

end Recoding

namespace Extent

open Byte Bytes Recoding

section Label

variable (label : Bytes)

theorem newline_not_mem_word (named : Word label) : newline ∉ label := by
  intro ends
  cases named newline ends

theorem heredocLabel_crlf (line : Bytes) (named : Word label) :
    heredocLabel? label (crlf.bytes line) = heredocLabel? label line := by
  have kept := bytes_crlf label (newline_not_mem_word label named)
  have fits : label.isPrefixOf (crlf.bytes (line.dropWhile isIndent)) =
      label.isPrefixOf (line.dropWhile isIndent) := by
    rw [Bool.eq_iff_iff, List.isPrefixOf_iff_prefix, List.isPrefixOf_iff_prefix]
    exact crlf.prefix_bytes label _ fun c member => fixed_word c (named c member)
  unfold heredocLabel?
  simp only [drop_takeWhile]
  rw [takeWhile_crlf line isIndent rfl rfl, dropWhile_crlf line isIndent rfl rfl, fits]
  by_cases closes : label <+: line.dropWhile isIndent
  · obtain ⟨after, split⟩ := closes
    rw [← split, bytes_append, kept, List.drop_left, List.drop_left,
      crlf.any_head_bytes after isWord (fun _ => rfl) rfl]
  · have open' : label.isPrefixOf (line.dropWhile isIndent) = false := by
      rwa [Bool.eq_false_iff, ne_eq, List.isPrefixOf_iff_prefix]
    simp [open']

theorem stretch_heredocLabel (line : Bytes) (named : Word label) (size : Nat)
    (closes : heredocLabel? label line = some size) : crlf.stretch line size = size := by
  unfold heredocLabel? at closes
  simp only [drop_takeWhile, Option.ite_none_right_eq_some, Option.some.injEq, Bool.and_eq_true,
    List.isPrefixOf_iff_prefix] at closes
  obtain ⟨⟨⟨after, split⟩, _⟩, rfl⟩ := closes
  have front : line.takeWhile isIndent ++ label <+: line :=
    ⟨after, by rw [List.append_assoc, split, List.takeWhile_append_dropWhile]⟩
  have cut := List.prefix_iff_eq_take.mp front
  have single : newline ∉ line.takeWhile isIndent ++ label := by
    intro ends
    rcases List.mem_append.mp ends with indented | spelled
    · cases List.mem_takeWhile_imp indented
    · exact newline_not_mem_word label named spelled
  rw [stretch, ← List.length_append, ← cut, crlf.length_bytes _ single]

theorem heredocLabel_other (b : UInt8) (rest : Bytes) (filled : label ≠ []) (named : Word label)
    (noIndent : isIndent b = false) (noWord : isWord b = false) :
    heredocLabel? label (b :: rest) = none := by
  cases label with
  | nil => exact (filled rfl).elim
  | cons c label =>
    have differs : (c == b) = false := by
      rw [beq_eq_false_iff_ne]
      rintro rfl
      rw [named c List.mem_cons_self] at noWord
      cases noWord
    simp [heredocLabel?, noIndent, List.isPrefixOf, differs]

theorem heredocBody_passes (b : UInt8) (rest : Bytes) (lineStart : Bool)
    (stays : heredocLabel? label (b :: rest) = none) :
    heredocBody label lineStart (b :: rest) = heredocBody label (b == newline) rest + 1 := by
  cases lineStart <;> simp [heredocBody, stays]

-- A carriage return starts no line, and a line does not close at one.
theorem heredocBody_crlf (lineStart : Bool) (body : Bytes) (filled : label ≠ []) (named : Word label) :
    heredocBody label lineStart (crlf.bytes body) =
      crlf.stretch body (heredocBody label lineStart body) := by
  induction body generalizing lineStart with
  | nil => rfl
  | cons b rest ih =>
    by_cases ends : b = newline
    · subst ends
      have stays (b : UInt8) (rest : Bytes) := heredocLabel_other label b rest filled named
      rw [bytes_cons, byte_newline, List.cons_append, List.singleton_append,
        heredocBody_passes label _ _ _ (stays carriageReturn _ rfl rfl),
        heredocBody_passes label _ _ _ (stays newline _ rfl rfl),
        heredocBody_passes label newline rest lineStart (stays newline _ rfl rfl), ih, stretch_succ,
        byte_newline, List.length_cons, List.length_singleton]
      omega
    · have same := heredocLabel_crlf label (b :: rest) named
      rw [bytes_cons, byte_crlf b ends, List.singleton_append] at same ⊢
      unfold heredocBody
      rw [same]
      split
      · next size closes =>
        split at closes
        · exact (stretch_heredocLabel label _ named size closes).symm
        · cases closes
      · rw [ih, stretch_succ, byte_crlf b ends, Nat.add_comm]
        rfl

end Label

theorem labelQuote_crlf (start : Bytes) : labelQuote? (crlf.bytes start) = labelQuote? start := by
  cases start with
  | nil => rfl
  | cons b rest =>
    by_cases ends : b = newline
    · subst ends
      rfl
    · rw [bytes_cons, byte_crlf b ends]
      rfl

theorem labelQuote_fixed (start : Bytes) : ∀ quote ∈ labelQuote? start, crlf.Fixed quote := by
  intro quote found
  simp only [labelQuote?, Option.mem_def, Option.filter_eq_some_iff, Bool.or_eq_true, beq_iff_eq]
    at found
  rcases found.2 with rfl | rfl <;> exact fixed_crlf _ (by decide) (by decide)

theorem drop_one_crlf (text : Bytes) (b : UInt8) (starts : text.head? = some b) (fixed : crlf.Fixed b) :
    (crlf.bytes text).drop 1 = crlf.bytes (text.drop 1) := by
  obtain ⟨rest, rfl⟩ := List.head?_eq_some_iff.mp starts
  rw [bytes_cons, crlf.byte_fixed b fixed]
  rfl

theorem behindQuote_crlf (start : Bytes) :
    behindQuote (crlf.bytes start) = crlf.bytes (behindQuote start) := by
  unfold behindQuote
  rw [labelQuote_crlf]
  cases found : labelQuote? start with
  | none => rfl
  | some quote =>
    have starts := (Option.filter_eq_some_iff.mp found).1
    exact drop_one_crlf start quote starts (labelQuote_fixed start quote found)

theorem behindLabel_crlf (quote : Option UInt8) (closed : Bytes) (fixed : ∀ b ∈ quote, crlf.Fixed b) :
    behindLabel? quote (crlf.bytes closed) = (behindLabel? quote closed).map crlf.bytes := by
  cases quote with
  | none => rfl
  | some quote =>
    have same := crlf.head_bytes closed quote (fixed quote rfl)
    simp only [behindLabel?, beq_iff_eq, same]
    split
    · next closes => rw [drop_one_crlf closed quote closes (fixed quote rfl), Option.map_some]
    · rfl

theorem behindLine_crlf (line : Bytes) (noReturn : carriageReturn ∉ line) :
    behindLine? (crlf.bytes line) = (behindLine? line).map crlf.bytes := by
  cases line with
  | nil => rfl
  | cons b rest =>
    by_cases ends : b = newline
    · subst ends
      rfl
    · have other : b ≠ carriageReturn := by
        rintro rfl
        exact noReturn List.mem_cons_self
      have refused (tail : Bytes) : behindLine? (b :: tail) = none := by
        unfold behindLine?
        split
        · next same => exact (other (List.cons.inj same).1).elim
        · next same => exact (ends (List.cons.inj same).1).elim
        · rfl
      rw [bytes_cons, byte_crlf b ends, List.singleton_append, refused, refused]
      rfl

theorem heredocOpening_crlf (bytes : Bytes) (noReturn : carriageReturn ∉ bytes) :
    heredocOpening? (crlf.bytes bytes) =
      (heredocOpening? bytes).map fun (label, body) => (label, crlf.bytes body) := by
  have within (rest : Bytes)
      (found : behindLabel? (labelQuote? (bytes.dropWhile isIndent))
        ((behindQuote (bytes.dropWhile isIndent)).dropWhile isWord) = some rest) :
      carriageReturn ∉ rest := by
    intro inside
    have suffix := (behindLabel_suffix _ _ _ found).trans
      ((List.dropWhile_suffix _).trans ((behindQuote_suffix _).trans (List.dropWhile_suffix _)))
    exact noReturn (suffix.subset inside)
  unfold heredocOpening?
  simp only [dropWhile_crlf bytes isIndent rfl rfl, labelQuote_crlf, behindQuote_crlf,
    takeWhile_crlf _ isWord rfl rfl, dropWhile_crlf _ isWord rfl rfl,
    behindLabel_crlf _ _ (labelQuote_fixed _)]
  split
  · rfl
  · cases found : behindLabel? (labelQuote? (bytes.dropWhile isIndent))
        ((behindQuote (bytes.dropWhile isIndent)).dropWhile isWord) with
    | none => rfl
    | some rest =>
      simp only [Option.map_some, Option.bind_some, behindLine_crlf rest (within rest found),
        Option.map_map]
      rfl

theorem heredocOpening_filled (bytes label body : Bytes)
    (opens : heredocOpening? bytes = some (label, body)) : label ≠ [] := by
  unfold heredocOpening? at opens
  simp only [Option.ite_none_left_eq_some, Option.map_eq_some_iff, Prod.mk.injEq] at opens
  obtain ⟨filled, _, _, rfl, _⟩ := opens
  simpa using filled

theorem heredoc_crlf (bytes : Bytes) (noReturn : carriageReturn ∉ bytes) :
    heredoc? (crlf.bytes bytes) = (heredoc? bytes).map (crlf.stretch bytes) := by
  unfold heredoc?
  rw [heredocOpening_crlf bytes noReturn]
  cases opens : heredocOpening? bytes with
  | none => rfl
  | some opening =>
    obtain ⟨label, body⟩ := opening
    obtain ⟨front, rfl⟩ := heredocOpening_suffix bytes label body opens
    have reach := heredocBody_crlf label true body (heredocOpening_filled _ label body opens)
      (heredocOpening_label _ label body opens)
    simp only [Option.map_some, reach, bytes_append, List.length_append, Nat.add_sub_cancel, stretch,
      List.take_length_add_append]

end Extent

end CognitiveComplexity
