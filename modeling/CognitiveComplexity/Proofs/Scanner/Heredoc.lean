import CognitiveComplexity.Proofs.Scanner.Search

set_option autoImplicit false

namespace CognitiveComplexity

namespace Scanner

open Byte Bytes

theorem occurrence_prefix (text bytes : Bytes) (distance : Nat)
    (found : occurrence? text bytes = some distance) :
    text <+: bytes.drop distance ∧ distance < bytes.length := by
  induction bytes generalizing distance with
  | nil => cases found
  | cons b rest ih =>
    unfold occurrence? at found
    split at found
    · next fits =>
      cases found
      exact ⟨List.isPrefixOf_iff_prefix.mp fits, Nat.zero_lt_succ _⟩
    · obtain ⟨earlier, foundEarlier, same⟩ := Option.map_eq_some_iff.mp found
      obtain ⟨fits, within⟩ := ih earlier foundEarlier
      rw [← same]
      exact ⟨fits, Nat.succ_lt_succ within⟩

theorem heredocBody_skip (label : Bytes) (b : UInt8) (rest : Bytes) :
    Extent.heredocBody label false (b :: rest) =
      Extent.heredocBody label (b == newline) rest + 1 := rfl

theorem heredocBody_line (label : Bytes) (b : UInt8) (rest : Bytes) :
    Extent.heredocBody label true (b :: rest) =
      (Extent.heredocLabel? label (b :: rest)).getD
        (Extent.heredocBody label false (b :: rest)) := by
  rw [heredocBody_skip, Extent.heredocBody, if_pos rfl]
  cases Extent.heredocLabel? label (b :: rest) <;> rfl

theorem heredocBody_rest (label body : Bytes) :
    Extent.heredocBody label false body =
      ((occurrence? [newline] body).map fun distance =>
        distance + 1 + Extent.heredocBody label true (body.drop (distance + 1))).getD
          body.length := by
  induction body with
  | nil => rfl
  | cons b rest ih =>
    rw [heredocBody_skip]
    by_cases ends : b = newline
    · rw [ends]
      exact Nat.add_comm _ _
    · have other : [newline].isPrefixOf (b :: rest) = false := by
        simp [List.isPrefixOf, Ne.symm ends]
      rw [beq_eq_false_iff_ne.mpr ends, ih, occurrence?, other]
      cases occurrence? [newline] rest with
      | none => rfl
      | some distance =>
        simp only [Option.map_some, Option.getD_some, List.drop_succ_cons, Bool.false_eq_true,
          if_false]
        omega

theorem heredocClose_eq (source : String) (label : Bytes) (lineStart : Nat) (body : Bytes)
    (here : At (ofString source) lineStart body) (between : Boundary source lineStart) :
    ∃ close?, heredocClose source label lineStart = .ok close? ∧
      close?.getD (ofString source).length = lineStart + Extent.heredocBody label true body := by
  -- Line by line: every line takes at least its line feed.
  induction size : body.length using Nat.strong_induction_on generalizing lineStart body with
  | _ _ ih =>
    have total := at_length here
    cases body with
    | nil =>
      refine ⟨none, ?_, total.symm⟩
      unfold heredocClose
      rw [if_neg (by rw [← total]; simp)]
      rfl
    | cons b rest =>
      have text := at_dropWhile isIndent here
      unfold heredocClose
      rw [if_pos (by rw [← total]; simp), seekByte_eq _ isIndent _ _ here, ok_bind,
        bytesFrom_eq text, ok_bind, heredocBody_line, Extent.heredocLabel_eq]
      simp only [at_getElem? text]
      split
      · exact ⟨_, rfl, by simp only [Option.getD_some, Nat.add_assoc]⟩
      · rw [distance_eq source _ _ _ here between, ok_bind, heredocBody_rest]
        cases found : occurrence? [newline] (b :: rest) with
        | none => exact ⟨none, rfl, total.symm⟩
        | some distance =>
          obtain ⟨⟨after, starts⟩, within⟩ := occurrence_prefix _ _ _ found
          have feed := at_drop distance (Nat.le_of_lt within) here
          rw [← starts] at feed
          have next := at_drop (distance + 1) within here
          -- The next line starts behind a line feed, so the source may be cut there.
          have nextBetween : Boundary source (lineStart + (distance + 1)) :=
            boundary_of_settled source _
              (at_settled 1 (.after 0 newline rfl (by decide) rfl) feed)
          obtain ⟨close?, closes, same⟩ := ih _ (by rw [← size, List.length_drop]; omega) _ _ next
            nextBetween rfl
          refine ⟨close?, closes, ?_⟩
          rw [same]
          simp only [Option.map_some, Option.getD_some, Option.getD_none]
          omega

theorem at_behindHead (bytes rest : Bytes) (offset : Nat) (b : UInt8) (here : At bytes offset rest)
    (found : rest.head? = some b) : At bytes (offset + 1) (rest.drop 1) := by
  obtain ⟨tail, split⟩ := List.head?_eq_some_iff.mp found
  rw [split] at here ⊢
  exact at_tail b here

theorem ascii_of_indent (b : UInt8) (indent : isIndent b = true) : b < 0x80 := by
  simp only [isIndent, Bool.or_eq_true, beq_iff_eq] at indent
  rcases indent with same | same <;> rw [same] <;> decide

theorem ascii_of_labelQuote (start : Bytes) (quote : UInt8)
    (found : Extent.labelQuote? start = some quote) : start.head? = some quote ∧ quote < 0x80 := by
  obtain ⟨heads, isQuote⟩ := Option.filter_eq_some_iff.mp found
  rw [Bool.or_eq_true, beq_iff_eq, beq_iff_eq] at isQuote
  refine ⟨heads, ?_⟩
  rcases isQuote with same | same <;> rw [same] <;> decide

theorem at_label (bytes start : Bytes) (offset : Nat) (here : At bytes offset start)
    (settled : Settled bytes offset) :
    At bytes (if (Extent.labelQuote? start).isSome then offset + 1 else offset)
        (Extent.behindQuote start) ∧
      Settled bytes (if (Extent.labelQuote? start).isSome then offset + 1 else offset) := by
  unfold Extent.behindQuote
  cases found : Extent.labelQuote? start with
  | none => exact ⟨here, settled⟩
  | some quote =>
    obtain ⟨heads, ascii⟩ := ascii_of_labelQuote start quote found
    refine ⟨at_behindHead bytes start offset quote here heads, ?_⟩
    exact .after offset quote ((at_head? here).trans heads) ascii rfl

theorem behindLabel_eq (quote : Option UInt8) (closed : Bytes) :
    Extent.behindLabel? quote closed =
      if quote.isSome && closed.head? != quote then none
      else some (if quote.isSome then closed.drop 1 else closed) := by
  cases quote with
  | none => rfl
  | some quote =>
    unfold Extent.behindLabel?
    by_cases same : closed.head? = some quote <;> simp [same]

theorem at_behindLabel (bytes closed rest : Bytes) (quote : Option UInt8) (offset : Nat)
    (here : At bytes offset closed) (closes : Extent.behindLabel? quote closed = some rest) :
    At bytes (if quote.isSome then offset + 1 else offset) rest := by
  cases quote with
  | none =>
    cases closes
    exact here
  | some quote =>
    obtain ⟨heads, same⟩ := Option.ite_none_right_eq_some.mp closes
    cases same
    exact at_behindHead bytes closed offset quote here (beq_iff_eq.mp heads)

theorem at_behindLine (bytes line : Bytes) (offset : Nat) (here : At bytes offset line) :
    let ended := if bytes[offset]? == some carriageReturn then offset + 1 else offset
    (bytes[ended]? = some newline ∧
      ∃ body, Extent.behindLine? line = some body ∧ At bytes (ended + 1) body) ∨
    (bytes[ended]? ≠ some newline ∧ Extent.behindLine? line = none) := by
  intro ended
  have stop : ended = if bytes[offset]? == some carriageReturn then offset + 1 else offset := rfl
  rw [at_head? here] at stop
  unfold Extent.behindLine?
  split
  · next body =>
    rw [stop]
    exact .inl ⟨at_getElem? here 1, body, rfl, at_tail newline (at_tail carriageReturn here)⟩
  · next body =>
    rw [stop]
    exact .inl ⟨at_getElem? here 0, body, rfl, at_tail newline here⟩
  · next noReturn noLine =>
    refine .inr ⟨?_, rfl⟩
    cases line with
    | nil =>
      rw [stop]
      exact (at_head? here).trans_ne (by simp)
    | cons b rest =>
      by_cases returns : b = carriageReturn
      · rw [stop, returns]
        intro feed
        rw [returns] at here
        obtain ⟨body, split⟩ :=
          List.head?_eq_some_iff.mp ((at_head? (at_tail _ here)).symm.trans feed)
        exact noReturn body (by rw [returns, split]; rfl)
      · rw [stop, if_neg (by simpa using returns), at_head? here]
        intro feed
        exact noLine rest (by cases feed; rfl)

theorem heredocBehind_eq (source : String) (label closed : Bytes) (quote : Option UInt8)
    (labelEnd : Nat) (here : At (ofString source) labelEnd closed) :
    heredocBehind? source label quote labelEnd =
      .ok (((Extent.behindLabel? quote closed).bind Extent.behindLine?).map fun body =>
        (ofString source).length - body.length + Extent.heredocBody label true body) := by
  unfold heredocBehind?
  simp only [at_head? here]
  rw [behindLabel_eq]
  split
  · rfl
  · next closes =>
    have line := at_behindLabel _ closed _ quote labelEnd here
      (by rw [behindLabel_eq, if_neg closes])
    rw [Option.bind_some]
    generalize (if quote.isSome then closed.drop 1 else closed) = line? at *
    generalize (if quote.isSome then labelEnd + 1 else labelEnd) = lineEnd at *
    rcases at_behindLine _ _ _ line with ⟨feed, body, found, behind⟩ | ⟨noFeed, found⟩
    · have between := boundary_of_settled source _ (.after _ newline feed (by decide) rfl)
      obtain ⟨close?, closed, same⟩ := heredocClose_eq source label _ body behind between
      have total := at_length behind
      rw [if_pos (beq_iff_eq.mpr feed), closed, ok_bind, same, found, ← total]
      simp
    · rw [if_neg (by simpa using noFeed), found]
      rfl

theorem heredocEnd_eq (source : String) (offset : Nat) (after : Bytes)
    (here : At (ofString source) offset (less :: less :: less :: after)) :
    heredocEnd? source offset = .ok ((Extent.heredoc? after).map (offset + 3 + ·)) := by
  have third := at_tail less (at_tail less here)
  have behind : At (ofString source) (offset + 3) after := at_tail less third
  have start := at_dropWhile isIndent behind
  have startSettled : Settled (ofString source)
      (offset + 3 + (after.takeWhile isIndent).length) := by
    have settled := at_settled _
      (settled_takeWhile isIndent ascii_of_indent less after (by decide)) third
    rwa [show offset + 3 + (after.takeWhile isIndent).length =
      offset + 1 + 1 + ((after.takeWhile isIndent).length + 1) by omega]
  -- A sign, a blank or a quote stands before the label, and no word byte behind it.
  obtain ⟨named, namedSettled⟩ := at_label _ _ _ start startSettled
  have quoteFound : (after.dropWhile isIndent).head?.filter
      (fun b => b == singleQuote || b == doubleQuote) =
        Extent.labelQuote? (after.dropWhile isIndent) := rfl
  have suffix := Extent.heredocOpening_suffix after
  unfold Extent.heredocOpening? at suffix
  unfold heredocEnd? Extent.heredoc? Extent.heredocOpening?
  simp only [seekByte_eq _ isIndent _ _ behind, ok_bind, at_head? start, quoteFound] at suffix ⊢
  generalize Extent.labelQuote? (after.dropWhile isIndent) = quote at *
  generalize Extent.behindQuote (after.dropWhile isIndent) = name at *
  generalize (if quote.isSome then _ else _) = labelStart at *
  have closed := at_dropWhile isWord named
  rw [wordEnd_eq _ _ _ named, ok_bind]
  by_cases empty : name.takeWhile isWord = []
  · simp [empty, Extent.word]
  · have filled : (name.takeWhile isWord).length ≠ 0 := by simpa using empty
    have notEmpty : (name.takeWhile isWord).isEmpty = false := by simpa using empty
    rw [if_neg (by simpa [Extent.word] using filled), notEmpty,
      slice_eq source labelStart _ name named (boundary_of_settled source _ namedSettled)
        (boundary_of_settled source _ (at_settled _ (Extent.settled_word name) named)), ok_bind]
    have label : name.take (Extent.word name) = name.takeWhile isWord :=
      (List.prefix_iff_eq_take.mp (List.takeWhile_prefix _)).symm
    have total := at_length behind
    rw [label, heredocBehind_eq source _ _ quote (labelStart + Extent.word name) closed]
    cases found : (Extent.behindLabel? quote (name.dropWhile isWord)).bind Extent.behindLine? with
    | none => rfl
    | some body =>
      have shorter := (suffix (name.takeWhile isWord) body (by rw [notEmpty, found]; rfl)).length_le
      simp only [Option.map_some, Bool.false_eq_true, if_false]
      congr 2
      omega

end Scanner

end CognitiveComplexity
