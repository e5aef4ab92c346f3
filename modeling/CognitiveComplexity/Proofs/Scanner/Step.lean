import CognitiveComplexity.Proofs.Scanner.Tokens
import CognitiveComplexity.Proofs.Token.Layout

set_option autoImplicit false

namespace CognitiveComplexity

namespace Scanner

open Byte Bytes

def place (scanner : Scanner) : Place :=
  ⟨scanner.line, scanner.cursor - scanner.lineStart + 1⟩

/-- A scanner has the lexemes so far, and the rest of the source gives the others. -/
structure Follows (source : String) (scanner : Scanner) (lexemes : List Lexeme) : Prop where
  within : scanner.cursor ≤ (ofString source).length
  between : Boundary source scanner.cursor
  lineStart : scanner.lineStart ≤ scanner.cursor
  holds : Holds scanner lexemes
  remaining : Lexeme.ofSource (ofString source) =
    lexemes ++ Lexeme.list scanner.mode scanner.place ((ofString source).drop scanner.cursor)

theorem start_follows (source : String) : Follows source start [] := by
  refine ⟨Nat.zero_le _, ?_, Nat.le_refl _, start_holds, rfl⟩
  exact boundary_of_take source 0 0 rfl

theorem advanceTo_eq (bytes rest : Bytes) (size : Nat) (scanner : Scanner)
    (here : At bytes scanner.cursor rest) (fits : size ≤ rest.length)
    (lineStarted : scanner.lineStart ≤ scanner.cursor) :
    ∃ line lineStart,
      advanceTo bytes scanner (scanner.cursor + size) =
        .ok { scanner with cursor := scanner.cursor + size, line, lineStart } ∧
      lineStart ≤ scanner.cursor + size ∧
      (⟨line, scanner.cursor + size - lineStart + 1⟩ : Place) =
        scanner.place.after (rest.take size) := by
  induction size generalizing scanner rest with
  | zero =>
    refine ⟨scanner.line, scanner.lineStart, ?_, lineStarted, rfl⟩
    unfold advanceTo
    rw [if_neg (by omega)]
    rfl
  | succ size ih =>
    cases rest with
    | nil => cases fits
    | cons b rest =>
      have behind := at_tail b here
      have shorter := Nat.le_of_succ_le_succ fits
      unfold advanceTo
      rw [if_pos (by omega), byteAt_eq b here, ok_bind, List.take_succ_cons,
        show scanner.cursor + (size + 1) = scanner.cursor + 1 + size by omega]
      -- A line feed starts a line right behind itself, which is where the cursor goes.
      by_cases feed : (b == newline) = true
      · rw [if_pos feed]
        obtain ⟨line, lineStart, moved, started, placed⟩ := ih rest
          { scanner with
            cursor := scanner.cursor + 1
            line := scanner.line + 1
            lineStart := scanner.cursor + 1 } behind shorter (Nat.le_refl _)
        refine ⟨line, lineStart, moved, started, placed.trans ?_⟩
        simp only [Place.after, List.foldl_cons, Place.advance, if_pos feed, place, Nat.sub_self]
      · rw [if_neg feed]
        obtain ⟨line, lineStart, moved, started, placed⟩ := ih rest
          { scanner with cursor := scanner.cursor + 1 } behind shorter
          (Nat.le_succ_of_le lineStarted)
        refine ⟨line, lineStart, moved, started, placed.trans ?_⟩
        simp only [Place.after, List.foldl_cons, Place.advance, if_neg feed, place,
          Nat.sub_add_comm lineStarted]

variable (source : String) (scanner : Scanner) (lexemes : List Lexeme)

theorem follows_at (follows : Follows source scanner lexemes) :
    At (ofString source) scanner.cursor ((ofString source).drop scanner.cursor) :=
  ⟨follows.within, rfl⟩

theorem emit_follows (follows : Follows source scanner lexemes) (first : UInt8) (rest : Bytes)
    (here : At (ofString source) scanner.cursor (first :: rest)) (reading : Reading)
    (read : scanner.mode.read first rest = reading) (kind : Kind)
    (kindRead : reading.kind = some kind) :
    ∃ next, emit source scanner kind (scanner.cursor + (reading.more + 1)) = .ok next ∧
      next.cursor = scanner.cursor + (reading.more + 1) ∧ next.mode = scanner.mode ∧
      Follows source { next with mode := reading.mode }
        (lexemes ++ [⟨kind, first :: rest.take reading.more, scanner.place⟩]) := by
  have settled := Reading.settled_read scanner.mode first rest
  rw [read] at settled
  -- A reading ends where the source may be cut, and so did the one before it.
  have last := boundary_of_settled source _ (at_settled _ settled here)
  obtain ⟨line, lineStart, moved, started, placed⟩ := advanceTo_eq _ _ (reading.more + 1) scanner
    here (settled_le_length _ _ settled) follows.lineStart
  obtain ⟨depth, curlies, parens, tokens, pushed, holds⟩ := push_holds source _ lexemes
    (show Holds { scanner with cursor := scanner.cursor + (reading.more + 1), line, lineStart }
      lexemes from follows.holds) kind scanner.cursor scanner.line
    (scanner.cursor - scanner.lineStart + 1) _
    (slice_eq source _ _ _ here follows.between last)
  have emitted : emit source scanner kind (scanner.cursor + (reading.more + 1)) =
      .ok { scanner with
        cursor := scanner.cursor + (reading.more + 1), line, lineStart, depth, curlies, parens
        tokens } := by
    unfold emit column
    rw [if_pos follows.lineStart, ok_bind, moved, ok_bind, pushed]
  have following := at_drop (reading.more + 1) (settled_le_length _ _ settled) here
  refine ⟨_, emitted, rfl, rfl, ⟨following.within, last, started, holds, ?_⟩⟩
  have remaining := follows.remaining
  rw [here.drop, Lexeme.list_cons, read, kindRead] at remaining
  simp only [place, placed, following.drop]
  rw [remaining, List.append_assoc]
  rfl

theorem openTag_third (bytes rest : Bytes) (offset size : Nat) (here : At bytes offset rest)
    (opens : Extent.openTag? rest = some size) :
    ∃ third, byteAt bytes (offset + 2) = .ok third ∧ (if third == equals then 3 else 5) = size := by
  rcases Extent.openTag_cases rest size opens with ⟨sized, after, split⟩ |
    ⟨sized, _, one, two, three, four, five, after, split, spelled, _⟩
  · rw [split] at here
    exact ⟨equals, byteAt_eq equals (at_tail _ (at_tail _ here)), sized.symm⟩
  · rw [split] at here
    refine ⟨three, byteAt_eq three (at_tail _ (at_tail _ here)), ?_⟩
    simp only [List.map_cons, List.map_nil, List.cons.injEq] at spelled
    -- The third byte tells the two tags apart: it is a letter here.
    have other : three ≠ equals := by
      intro same
      rw [same] at spelled
      exact absurd spelled.2.2.1 (by decide)
    rw [if_neg (by simpa using other), sized]

theorem scanTag_follows (follows : Follows source scanner lexemes) (outside : scanner.mode = .html)
    (rest : Bytes) (here : At (ofString source) scanner.cursor rest)
    (stops : rest = [] ∨ (Extent.openTag? rest).isSome = true) :
    ∃ next later, scanTag source scanner scanner.cursor = .ok next ∧
      Follows source next later ∧
      scanner.cursor ≤ next.cursor ∧ (rest ≠ [] → scanner.cursor < next.cursor) := by
  have total := at_length here
  unfold scanTag
  rcases rest with _ | ⟨first, rest⟩
  · rw [if_neg (by rw [← total]; simp)]
    exact ⟨scanner, lexemes, rfl, follows, Nat.le_refl _, fun filled => absurd rfl filled⟩
  · obtain ⟨size, opens⟩ := Option.isSome_iff_exists.mp (stops.resolve_left (List.cons_ne_nil _ _))
    obtain ⟨third, found, sized⟩ := openTag_third _ _ _ size here opens
    have read : scanner.mode.read first rest = ⟨some .openTag, size - 1, .php⟩ := by
      rw [outside]
      simp only [Mode.read, Reading.html, opens]
    have positive : size - 1 + 1 = size := by
      rw [← sized]
      split <;> rfl
    obtain ⟨next, emitted, cursor, _, following⟩ :=
      emit_follows source scanner lexemes follows first rest here _ read .openTag rfl
    simp only [positive] at emitted cursor
    simp only [if_pos (show scanner.cursor < (ofString source).length by rw [← total]; simp), found,
      ok_bind, sized, emitted]
    exact ⟨_, _, rfl, following, by simp only; omega, fun _ => by simp only; omega⟩

theorem scanHtml_follows (follows : Follows source scanner lexemes) (outside : scanner.mode = .html)
    (unfinished : scanner.cursor < (ofString source).length) :
    ∃ next later, scanHtml source scanner = .ok next ∧ Follows source next later ∧
      scanner.cursor < next.cursor := by
  have here := follows_at source scanner lexemes follows
  have total := at_length here
  generalize (ofString source).drop scanner.cursor = rest at here total
  have stops := Extent.html_stops rest
  unfold scanHtml
  simp only [htmlEnd_eq _ _ _ here, ok_bind]
  rcases rest with _ | ⟨first, rest⟩
  · simp only [List.length_nil] at total
    omega
  cases opens : Extent.openTag? (first :: rest) with
  | some size =>
    have none : Extent.html (first :: rest) = 0 := by
      rw [Extent.html, opens, if_pos Option.isSome_some]
    rw [none] at stops ⊢
    simp only [Nat.add_zero, Nat.lt_irrefl, if_false, pure_eq_ok, ok_bind]
    obtain ⟨next, later, tagged, following, _, further⟩ :=
      scanTag_follows source scanner lexemes follows outside _ here stops
    exact ⟨next, later, tagged, following, further (List.cons_ne_nil _ _)⟩
  | none =>
    have size : Extent.html (first :: rest) = Extent.html rest + 1 := by
      rw [Extent.html, opens, if_neg (by simp)]
    have read : scanner.mode.read first rest = ⟨some .inlineHtml, Extent.html rest, .html⟩ := by
      rw [outside]
      simp only [Mode.read, Reading.html, opens]
    obtain ⟨shown, emitted, cursor, mode, following⟩ :=
      emit_follows source scanner lexemes follows first rest here _ read .inlineHtml rfl
    rw [outside] at mode
    -- The mode is outside the tags before and after the markup.
    rw [show { shown with mode := Mode.html } = shown by rw [← mode]] at following
    have behind := at_drop (Extent.html (first :: rest))
      (settled_le_length _ _ (Extent.settled_html _)) here
    rw [size] at stops behind ⊢
    rw [if_pos (by omega), emitted, ok_bind, ← cursor]
    rw [← cursor] at behind
    obtain ⟨next, later, tagged, reached, further, _⟩ :=
      scanTag_follows source shown _ following mode _ behind stops
    exact ⟨next, later, tagged, reached, by omega⟩

theorem scanPhp_follows (follows : Follows source scanner lexemes) (inside : scanner.mode = .php)
    (unfinished : scanner.cursor < (ofString source).length) :
    ∃ next later, scanPhp source scanner = .ok next ∧ Follows source next later ∧
      scanner.cursor < next.cursor := by
  have here := follows_at source scanner lexemes follows
  have total := at_length here
  have remaining := follows.remaining
  generalize (ofString source).drop scanner.cursor = rest at here total remaining
  rcases rest with _ | ⟨first, rest⟩
  · simp only [List.length_nil] at total
    omega
  unfold scanPhp
  simp only [byteAt_eq first here, ok_bind]
  by_cases blank : isBlank first = true
  · rw [if_pos blank, seekByte_eq _ isBlank _ _ here, ok_bind]
    have behind := at_dropWhile isBlank here
    obtain ⟨line, lineStart, moved, started, placed⟩ := advanceTo_eq _ _
      ((first :: rest).takeWhile isBlank).length scanner here
      (List.takeWhile_prefix _).length_le follows.lineStart
    have settled := settled_takeWhile isBlank ascii_of_blank first rest (ascii_of_blank first blank)
    have size : ((first :: rest).takeWhile isBlank).length =
        (rest.takeWhile isBlank).length + 1 := by
      rw [List.takeWhile_cons_of_pos blank, List.length_cons]
    refine ⟨_, lexemes, moved, ⟨behind.within, ?_, started, follows.holds, ?_⟩, by simp only; omega⟩
    · rw [size]
      exact boundary_of_settled source _ (at_settled _ settled here)
    · rw [remaining, inside, Lexeme.list_blanks]
      simp only [place, placed, behind.drop]
      rw [← List.prefix_iff_eq_take.mp (List.takeWhile_prefix _)]
  · obtain ⟨span, found, spans⟩ :=
      phpSpan_spans source scanner.cursor first rest here follows.between blank
    obtain ⟨next, emitted, cursor, _, following⟩ :=
      emit_follows source scanner lexemes follows first rest here (Reading.php first rest)
        (by rw [inside]; rfl) span.kind spans.kind
    rw [if_neg blank, found, ok_bind, spans.stop, emitted, ok_bind]
    rw [spans.mode] at following
    exact ⟨_, _, rfl, following, by simp only; omega⟩

theorem step_follows (follows : Follows source scanner lexemes)
    (unfinished : scanner.cursor < (ofString source).length) :
    ∃ next later, step source scanner = .ok next ∧ Follows source next later ∧
      scanner.cursor < next.cursor := by
  unfold step
  cases mode : scanner.mode with
  | html => exact scanHtml_follows source scanner lexemes follows mode unfinished
  | php => exact scanPhp_follows source scanner lexemes follows mode unfinished

theorem run_follows (steps : Nat) (follows : Follows source scanner lexemes)
    (enough : (ofString source).length ≤ scanner.cursor + steps) :
    ∃ final later, run source steps scanner = .ok final ∧ Follows source final later ∧
      final.cursor = (ofString source).length := by
  -- Every step takes a byte at least, so the bytes left never outnumber the steps left.
  have within := follows.within
  induction steps generalizing scanner lexemes with
  | zero => exact ⟨scanner, lexemes, if_neg (by omega), follows, by omega⟩
  | succ steps ih =>
    unfold run
    by_cases unfinished : scanner.cursor < (ofString source).length
    · obtain ⟨next, later, stepped, following, further⟩ :=
        step_follows source scanner lexemes follows unfinished
      rw [if_pos unfinished, stepped, ok_bind]
      exact ih next later following (by omega) following.within
    · exact ⟨scanner, lexemes, if_neg unfinished, follows, by omega⟩

end Scanner

end CognitiveComplexity
