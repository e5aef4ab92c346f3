import CognitiveComplexity.Proofs.Token.Append

set_option autoImplicit false

namespace CognitiveComplexity

theorem Bytes.ofString_append (left right : String) :
    ofString (left ++ right) = ofString left ++ ofString right := by
  simp [ofString_eq_flatMap]

namespace Lexeme

open Byte Bytes

def inside (bytes : Bytes) : List Lexeme := list .php .start bytes

def spelled (lexemes : List Lexeme) : List (Kind × Bytes) :=
  (kinds lexemes).zip (lexemes.map (·.text))

theorem spelled_place (place : Place) (bytes : Bytes) :
    spelled (list .php place bytes) = spelled (inside bytes) := by
  have same := list_spelling .php place .start bytes
  have texts := congrArg (List.map Prod.snd) same
  rw [List.map_map, List.map_map] at texts
  unfold spelled kinds inside
  rw [kindsFrom_spelling false _ _ same]
  exact congrArg _ texts

theorem spelled_append (bytes : Bytes) (more : List Lexeme) (closed : Closed (ofSource bytes)) :
    spelled (ofSource bytes ++ more) = spelled (ofSource bytes) ++ spelled more := by
  have split := kindsFrom_append false _ more closed (isWord_of_stop _ _ bytes)
  unfold spelled kinds
  rw [split, List.map_append, List.zip_append]
  simp [length_kindsFrom]

theorem kindsFrom_comments (afterIntroducer : Bool) (comments more : List Lexeme)
    (all : ∀ lexeme ∈ comments, lexeme.kind = .comment) :
    kindsFrom afterIntroducer (comments ++ more) =
      comments.map (·.kind) ++ kindsFrom afterIntroducer more := by
  induction comments with
  | nil => rfl
  | cons lexeme comments ih =>
    have later := ih fun other member => all other (List.mem_cons_of_mem _ member)
    simp [kindsFrom, isComment, all lexeme List.mem_cons_self, later]

theorem spelled_comments (comments more : List Lexeme)
    (all : ∀ lexeme ∈ comments, lexeme.kind = .comment) :
    spelled (comments ++ more) = comments.map spelling ++ spelled more := by
  unfold spelled kinds
  rw [kindsFrom_comments false comments more all, List.map_append, List.zip_append (by simp),
    List.zip_map']
  rfl

theorem list_blank (place : Place) (b : UInt8) (rest : Bytes) (blank : isBlank b = true) :
    list .php place (b :: rest) = list .php (place.advance b) rest := by
  have skips : Mode.php.read b rest = ⟨none, 0, .php⟩ := by
    simp only [Mode.read, Reading.php, blank, if_true]
  rw [list_cons, skips]
  rfl

theorem ofSource_openTag (bytes : Bytes) :
    ofSource (ofString "<?php " ++ bytes) =
      ⟨.openTag, ofString "<?php", .start⟩ :: list .php ⟨1, 7⟩ bytes := by
  have text : ofString "<?php " = [less, question, 0x70, 0x68, 0x70, 0x20] := by decide +kernel
  have tag : Mode.html.read less ([question, 0x70, 0x68, 0x70, 0x20] ++ bytes) =
      ⟨some .openTag, 4, .php⟩ := by
    simp only [Mode.read, Reading.html, Extent.openTag?, Extent.ofString_echoTag,
      Extent.ofString_phpTag]
    rfl
  rw [text, ofSource, List.cons_append, list_cons, tag, Extent.ofString_phpTag]
  exact congrArg _ (list_blank ⟨1, 6⟩ 0x20 bytes rfl)

theorem spelled_openTag (bytes : Bytes) :
    spelled (ofSource (ofString "<?php " ++ bytes)) =
      (.openTag, ofString "<?php") :: spelled (inside bytes) := by
  rw [ofSource_openTag, ← spelled_place ⟨1, 7⟩, Extent.ofString_phpTag]
  rfl

end Lexeme

/-- A text that a reader passes over: blanks, a block comment or a line comment. -/
inductive Filler : String → Prop where
  | blanks (text : String) (blank : ∀ b ∈ Bytes.ofString text, Byte.isBlank b = true) : Filler text
  | block (text : String) (within : ¬ Bytes.ofString "*/" <:+: Bytes.ofString text) :
      Filler ("/*" ++ text ++ "*/")
  | line (text : String) (single : Byte.newline ∉ Bytes.ofString text)
      (within : ¬ Bytes.ofString "?>" <:+: Bytes.ofString text) : Filler ("//" ++ text ++ "\n")

namespace Extent

open Byte

theorem not_infix_of_cons (b : UInt8) (needle text : Bytes) (within : ¬ needle <:+: b :: text) :
    ¬ needle <:+: text :=
  fun found => within (found.trans (List.suffix_cons b text).isInfix)

theorem blockComment_closed (text more : Bytes) (within : ¬ [asterisk, slash] <:+: text) :
    blockComment (text ++ asterisk :: slash :: more) = text.length + 2 := by
  induction text with
  | nil => rfl
  | cons b text ih =>
    rw [List.cons_append, blockComment, ih (not_infix_of_cons b _ text within), List.length_cons]
    -- A comment that ended here would hold the ending itself.
    rintro tail rfl starts
    cases text with
    | nil => cases starts
    | cons next text =>
      rw [List.cons_append, List.cons.injEq] at starts
      exact within ⟨[], text, by simp [starts.1]⟩

theorem lineComment_closed (text more : Bytes) (single : newline ∉ text)
    (within : ¬ [question, greater] <:+: text) :
    lineComment (text ++ newline :: more) = text.length := by
  induction text with
  | nil => rfl
  | cons b text ih =>
    rw [List.mem_cons, not_or] at single
    rw [List.cons_append, lineComment, ih single.2 (not_infix_of_cons b _ text within),
      List.length_cons]
    · exact fun same => single.1 same.symm
    · rintro tail rfl starts
      cases text with
      | nil => cases starts
      | cons next text =>
        rw [List.cons_append, List.cons.injEq] at starts
        exact within ⟨[], text, by simp [starts.1]⟩

end Extent

namespace Lexeme

open Byte Bytes

theorem list_blockComment (place : Place) (text more : Bytes)
    (within : ¬ [asterisk, slash] <:+: text) :
    list .php place (slash :: asterisk :: (text ++ asterisk :: slash :: more)) =
      ⟨.comment, slash :: asterisk :: (text ++ [asterisk, slash]), place⟩ ::
        list .php (place.after (slash :: asterisk :: (text ++ [asterisk, slash]))) more := by
  have split : text ++ asterisk :: slash :: more = (text ++ [asterisk, slash]) ++ more := by simp
  have read : Mode.php.read slash (asterisk :: (text ++ asterisk :: slash :: more)) =
      .token .comment (text.length + 2 + 1) := by
    rw [← Extent.blockComment_closed text more within]
    rfl
  rw [list_cons, read]
  simp only [Reading.token, List.take_succ_cons, List.drop_succ_cons, split]
  rw [List.take_left' (by simp), List.drop_left' (by simp)]
  rfl

theorem list_lineComment (place : Place) (text more : Bytes) (single : newline ∉ text)
    (within : ¬ [question, greater] <:+: text) :
    list .php place (slash :: slash :: (text ++ newline :: more)) =
      ⟨.comment, slash :: slash :: text, place⟩ ::
        list .php (place.after (slash :: slash :: (text ++ [newline]))) more := by
  have read : Mode.php.read slash (slash :: (text ++ newline :: more)) =
      .token .comment (text.length + 1) := by
    rw [← Extent.lineComment_closed text more single within]
    rfl
  rw [list_cons, read]
  simp only [Reading.token, List.take_succ_cons, List.drop_succ_cons, List.take_left,
    List.drop_left]
  rw [list_blank _ newline more rfl, ← List.cons_append, ← List.cons_append, Place.after_append]
  rfl

theorem list_filler (text : String) (filler : Filler text) (place : Place) (more : Bytes) :
    ∃ comments, (∀ lexeme ∈ comments, lexeme.kind = .comment) ∧
      list .php place (ofString text ++ more) =
        comments ++ list .php (place.after (ofString text)) more := by
  cases filler with
  | blanks text blank =>
    have empty : list .php place (ofString text) = [] := by
      rw [list_blanks, List.dropWhile_eq_nil_iff.mpr blank, list]
    exact ⟨[], by simp, list_append_of_empty place _ more empty⟩
  | block text within =>
    have opening : ofString "/*" = [slash, asterisk] := by decide +kernel
    have closing : ofString "*/" = [asterisk, slash] := by decide +kernel
    rw [closing] at within
    have comment := list_blockComment place (ofString text) more within
    exact ⟨[⟨.comment, slash :: asterisk :: (ofString text ++ [asterisk, slash]), place⟩], by simp,
      by simpa [ofString_append, opening, closing] using comment⟩
  | line text single within =>
    have opening : ofString "//" = [slash, slash] := by decide +kernel
    have closing : ofString "\n" = [newline] := by decide +kernel
    have tag : ofString "?>" = [question, greater] := by decide +kernel
    rw [tag] at within
    have comment := list_lineComment place (ofString text) more single within
    exact ⟨[⟨.comment, slash :: slash :: ofString text, place⟩], by simp,
      by simpa [ofString_append, opening, closing] using comment⟩

theorem kindIn_isStop (afterIntroducer : Bool) (lexeme : Lexeme) (rest : List Lexeme)
    (stop : (kindIn afterIntroducer lexeme rest).isStop = true) : lexeme.kind.isStop = true := by
  unfold kindIn at stop
  split_ifs at stop
  · cases stop
  · cases stop
  · exact stop

theorem closed_of_kindsFrom (afterIntroducer : Bool) (lexemes : List Lexeme) (kind : Kind)
    (last : (kindsFrom afterIntroducer lexemes).getLast? = some kind) (stop : kind.isStop = true) :
    Closed lexemes := by
  induction lexemes generalizing afterIntroducer with
  | nil => cases last
  | cons lexeme rest ih =>
    cases rest with
    | nil =>
      refine ⟨lexeme, rfl, ?_⟩
      unfold kindsFrom at last
      split at last
      · cases last
        exact stop
      · cases last
        exact kindIn_isStop _ _ _ stop
    | cons next rest =>
      have later (flag : Bool) (head : Kind)
          (found : (head :: kindsFrom flag (next :: rest)).getLast? = some kind) :
          Closed (lexeme :: next :: rest) := by
        have length := length_kindsFrom flag (next :: rest)
        have filled : kindsFrom flag (next :: rest) ≠ [] := by
          rw [← List.length_pos_iff, length]
          simp
        rw [List.getLast?_cons_of_ne_nil filled] at found
        exact (closed_cons _ _).mpr (.inr (ih flag found))
      rw [kindsFrom] at last
      split at last
      · exact later _ _ last
      · exact later _ _ last

end Lexeme

namespace Token

open Bytes

def Closed (stream : List Token) : Prop :=
  ∃ token, stream.getLast? = some token ∧ token.kind.isStop = true

def spelling (token : Token) : Kind × Bytes := (token.kind, token.text)

theorem kinds_spelling (source : Bytes) :
    (ofBytes source).map (·.kind) = ((ofBytes source).map spelling).map Prod.fst := by
  rw [List.map_map]
  rfl

theorem spelling_ofBytes (source : Bytes) :
    (ofBytes source).map spelling = Lexeme.spelled (Lexeme.ofSource source) := by
  rw [Lexeme.spelled, ← kinds_ofBytes, ← texts_ofBytes, List.zip_map']
  rfl

section Closed

variable (source more : Bytes) (closed : Closed (ofBytes source))
include closed

theorem lexemes_closed : Lexeme.Closed (Lexeme.ofSource source) := by
  obtain ⟨token, last, stop⟩ := closed
  refine Lexeme.closed_of_kindsFrom false _ token.kind ?_ stop
  have kinds := congrArg List.getLast? (kinds_ofBytes source)
  rw [List.getLast?_map, last, Option.map_some] at kinds
  exact kinds.symm

theorem ofSource_append :
    Lexeme.ofSource (source ++ more) =
      Lexeme.ofSource source ++ Lexeme.list .php (Place.start.after source) more :=
  Lexeme.list_append .html .start source more (lexemes_closed source closed)

theorem spelling_append :
    (ofBytes (source ++ more)).map spelling =
      (ofBytes source).map spelling ++ Lexeme.spelled (Lexeme.inside more) := by
  rw [spelling_ofBytes, ofSource_append source more closed,
    Lexeme.spelled_append source _ (lexemes_closed source closed), Lexeme.spelled_place,
    spelling_ofBytes]

theorem spelling_filler (text : String) (filler : Filler text) :
    ∃ comments : List (Kind × Bytes), (∀ comment ∈ comments, comment.1 = .comment) ∧
      (ofBytes (source ++ ofString text ++ more)).map spelling =
        (ofBytes source).map spelling ++ (comments ++ Lexeme.spelled (Lexeme.inside more)) := by
  obtain ⟨comments, all, split⟩ :=
    Lexeme.list_filler text filler (Place.start.after source) more
  refine ⟨comments.map Lexeme.spelling, ?_, ?_⟩
  · intro comment member
    obtain ⟨lexeme, inside, rfl⟩ := List.mem_map.mp member
    exact all lexeme inside
  · rw [List.append_assoc, spelling_ofBytes, ofSource_append source _ closed, split,
      Lexeme.spelled_append source _ (lexemes_closed source closed),
      Lexeme.spelled_comments _ _ all, Lexeme.spelled_place, spelling_ofBytes]

end Closed

theorem spelling_openTag (source : Bytes) :
    (ofBytes (ofString "<?php " ++ source)).map spelling =
      (.openTag, ofString "<?php") :: Lexeme.spelled (Lexeme.inside source) := by
  rw [spelling_ofBytes, Lexeme.spelled_openTag]

end Token

end CognitiveComplexity
