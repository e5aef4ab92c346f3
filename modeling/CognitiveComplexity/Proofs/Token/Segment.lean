import CognitiveComplexity.Proofs.Token.Munch
import CognitiveComplexity.Proofs.Token.Terminator

set_option autoImplicit false

namespace CognitiveComplexity

namespace Bytes

open Byte

def OpensTag (bytes : Bytes) : Prop :=
  ofString "<?=" <+: bytes ∨
    ofString "<?php" <+: lower bytes ∧ ∀ b ∈ (bytes.drop 5).head?, isBlank b = true

end Bytes

namespace Extent

open Byte Bytes

theorem openTag_isSome (bytes : Bytes) : (openTag? bytes).isSome = true ↔ OpensTag bytes := by
  have blanks : (∀ b ∈ (bytes.drop 5).head?, isBlank b = true) ↔
      (bytes.drop 5).head?.all isBlank = true := (Option.all_eq_true ..).symm
  rw [openTag_eq, OpensTag, blanks]
  split_ifs with echo php
  next => exact iff_of_true rfl (.inl echo)
  next => exact iff_of_true rfl (.inr php)
  next => exact iff_of_false (by decide) (not_or.mpr ⟨echo, php⟩)

theorem html_quiet (bytes : Bytes) :
    ∀ offset < html bytes, ¬ OpensTag (bytes.drop offset) := by
  induction bytes with
  | nil => simp [html]
  | cons b rest ih =>
    rw [html]
    split_ifs with opens
    next => simp
    next =>
      intro offset within
      cases offset with
      | zero => rwa [List.drop_zero, ← openTag_isSome]
      | succ offset => exact ih offset (Nat.lt_of_succ_lt_succ within)

theorem lineComment_open (rest : Bytes) :
    ¬ [question, greater] <:+: rest.take (lineComment rest) := by
  induction rest with
  | nil => simp
  | cons b rest ih =>
    rw [lineComment_cons]
    split_ifs with ends
    next => simp
    next =>
      rw [List.take_succ_cons, List.infix_cons_iff, List.cons_prefix_cons]
      rintro (⟨starts, closes⟩ | later)
      next =>
        apply ends
        have follows := closes.trans (List.take_prefix _ _)
        exact .inr ⟨starts.symm, List.singleton_prefix_iff_head?_eq_some.mp follows⟩
      next => exact ih later

end Extent

namespace Kind

def tags : List Kind := [.inlineHtml, .openTag, .closeTag]

theorem InContext.tag {own kind : Kind} {text : Bytes} (context : own.InContext text kind)
    (tag : own ∈ tags ∨ kind ∈ tags) : kind = own := by
  have unlisted : ∀ own ∈ tags, own ∉ wordTable.map (·.2) ∧ own ≠ .identifier ∧ own ≠ .closure := by
    decide +kernel
  rcases tag with own | kind
  next => exact context.eq_of_unlisted (unlisted _ own).1 (unlisted _ own).2.1
  next => exact context.eq_own (unlisted _ kind).2.1 (unlisted _ kind).2.2

/-- The kinds of one stretch of markup and code: perhaps markup, then the code between its tags. -/
def Segment (kinds : List Kind) : Prop :=
  ∃ markup code, markup ∈ [[], [Kind.inlineHtml]] ∧ (∀ kind ∈ code, kind ∉ tags) ∧
    kinds = markup ++ .openTag :: (code ++ [.closeTag])

def Outside (kinds : List Kind) : Prop :=
  ∃ segments : List (List Kind),
    (∀ segment ∈ segments, Segment segment) ∧ kinds <+: segments.flatten

def Inside (kinds : List Kind) : Prop :=
  ∃ code rest, (∀ kind ∈ code, kind ∉ tags) ∧ Outside rest ∧ kinds <+: code ++ .closeTag :: rest

def AtTag (kinds : List Kind) : Prop := kinds = [] ∨ ∃ code, kinds = .openTag :: code ∧ Inside code

theorem outside_nil : Outside [] := ⟨[], by simp, List.nil_prefix⟩

theorem inside_nil : Inside [] := ⟨[], [], by simp, outside_nil, List.nil_prefix⟩

theorem inside_close (kinds : List Kind) (outside : Outside kinds) : Inside (.closeTag :: kinds) :=
  ⟨[], kinds, by simp, outside, List.prefix_rfl⟩

theorem inside_code (kind : Kind) (kinds : List Kind) (other : kind ∉ tags) (inside : Inside kinds) :
    Inside (kind :: kinds) := by
  obtain ⟨code, rest, plain, outside, starts⟩ := inside
  refine ⟨kind :: code, rest, ?_, outside, List.cons_prefix_cons.mpr ⟨rfl, starts⟩⟩
  exact List.forall_mem_cons.mpr ⟨other, plain⟩

theorem outside_open (markup : List Kind) (code : List Kind) (listed : markup ∈ [[], [.inlineHtml]])
    (inside : Inside code) : Outside (markup ++ .openTag :: code) := by
  obtain ⟨own, rest, plain, ⟨segments, each, within⟩, starts⟩ := inside
  refine ⟨(markup ++ .openTag :: (own ++ [.closeTag])) :: segments, ?_, ?_⟩
  next => exact List.forall_mem_cons.mpr ⟨⟨markup, own, listed, plain, rfl⟩, each⟩
  next =>
    have longer : own ++ .closeTag :: rest <+: own ++ .closeTag :: segments.flatten :=
      (List.prefix_append_right_inj own).mpr (List.cons_prefix_cons.mpr ⟨rfl, within⟩)
    have whole : markup ++ .openTag :: code <+:
        markup ++ .openTag :: (own ++ .closeTag :: segments.flatten) :=
      (List.prefix_append_right_inj markup).mpr
        (List.cons_prefix_cons.mpr ⟨rfl, starts.trans longer⟩)
    simpa using whole

theorem outside_of_atTag (markup kinds : List Kind) (listed : markup ∈ [[], [.inlineHtml]])
    (follows : AtTag kinds) : Outside (markup ++ kinds) := by
  rcases follows with rfl | ⟨code, rfl, inside⟩
  next =>
    -- The markup at the end is the start of a segment without its tags.
    obtain ⟨segments, each, starts⟩ := outside_open markup [] listed inside_nil
    exact ⟨segments, each, ((List.prefix_append_right_inj markup).mpr List.nil_prefix).trans starts⟩
  next => exact outside_open markup code listed inside

end Kind

namespace Reading

open Byte

theorem php_stays (first : UInt8) (rest : Bytes) (stays : (php first rest).mode = .php) :
    ∀ kind ∈ (php first rest).kind, kind ∉ Kind.tags := by
  have form := php_form first rest
  generalize php first rest = reading at form stays ⊢
  have noWord (text : Bytes) : Kind.ofWord text ∉ Kind.tags := by
    have unlisted : ∀ kind ∈ Kind.tags, kind ∉ Kind.wordTable.map (·.2) ∧ kind ≠ .identifier := by
      decide +kernel
    exact fun tag => Kind.ofWord_ne _ (unlisted _ tag).1 (unlisted _ tag).2 text rfl
  have noOperator (text : Bytes) : Kind.ofOperator text ∉ Kind.tags := by
    have unlisted : ∀ kind ∈ Kind.tags, kind ∉ Kind.operatorKinds.map (·.2) ∧ kind ≠ .operator := by
      decide +kernel
    exact fun tag => Kind.ofOperator_ne _ (unlisted _ tag).1 (unlisted _ tag).2 text rfl
  intro kind found
  cases form with
  | blank => cases found
  | closeTag => cases stays
  | word =>
    cases found
    exact noWord _
  | operator =>
    cases found
    exact noOperator _
  | _ =>
    cases found
    decide

end Reading

namespace Lexeme

open Byte Bytes

def Alternates : Mode → Bytes → List Kind → Prop
  | .php, _, kinds => Kind.Inside kinds
  | .html, bytes, kinds =>
    Kind.Outside kinds ∧ (bytes = [] ∨ OpensTag bytes → Kind.AtTag kinds)

section Step

variable (first : UInt8) (rest : Bytes) (own kind : Kind) (text : Bytes) (kinds : List Kind)
  (context : own.InContext text kind)

include context

theorem alternates_html (read : (Reading.html first rest).kind = some own)
    (follows : Alternates (Reading.html first rest).mode
      (rest.drop (Reading.html first rest).more) kinds) :
    Alternates .html (first :: rest) (kind :: kinds) := by
  simp only [Reading.html] at read follows
  cases found : Extent.openTag? (first :: rest) with
  | some size =>
    rw [found] at read follows
    cases read
    obtain rfl := context.tag (.inl (by decide))
    have tag : Kind.AtTag (.openTag :: kinds) := .inr ⟨kinds, rfl, follows⟩
    exact ⟨Kind.outside_of_atTag [] _ (by simp) tag, fun _ => tag⟩
  | none =>
    rw [found] at read follows
    cases read
    obtain rfl := context.tag (.inl (by decide))
    have quiet : ¬ OpensTag (first :: rest) := by
      rw [← Extent.openTag_isSome, found]
      decide
    have stops := Extent.html_stops rest
    rw [Extent.openTag_isSome] at stops
    refine ⟨Kind.outside_of_atTag [.inlineHtml] kinds (by simp) (follows.2 stops), ?_⟩
    rintro (empty | opens)
    next => cases empty
    next => exact absurd opens quiet

theorem alternates_php (read : (Reading.php first rest).kind = some own)
    (follows : Alternates (Reading.php first rest).mode
      (rest.drop (Reading.php first rest).more) kinds) :
    Alternates .php (first :: rest) (kind :: kinds) := by
  cases after : (Reading.php first rest).mode with
  | html =>
    rw [after] at follows
    obtain rfl : own = .closeTag :=
      Option.some.inj (read.symm.trans (Reading.php_leaves first rest after))
    obtain rfl := context.tag (.inl (by decide))
    exact Kind.inside_close kinds follows.1
  | php =>
    rw [after] at follows
    have other := Reading.php_stays first rest after own read
    exact Kind.inside_code kind kinds (fun tag => other (context.tag (.inr tag) ▸ tag)) follows

end Step

-- Only a closing tag leaves the code, and a blank is none.
theorem read_blank (mode : Mode) (first : UInt8) (rest : Bytes)
    (read : (mode.read first rest).kind = none) :
    mode = .php ∧ (mode.read first rest).mode = .php := by
  cases mode with
  | html =>
    rcases Reading.html_kind first rest with tag | markup
    next => cases read.symm.trans tag
    next => cases read.symm.trans markup
  | php =>
    cases after : (Reading.php first rest).mode with
    | html => cases read.symm.trans (Reading.php_leaves first rest after)
    | php => exact ⟨rfl, after⟩

theorem list_alternates (mode : Mode) (place : Place) (bytes : Bytes) (kinds : List Kind)
    (context : List.Forall₂ (fun kind (lexeme : Lexeme) => lexeme.kind.InContext lexeme.text kind)
      kinds (list mode place bytes)) : Alternates mode bytes kinds := by
  induction mode, place, bytes using reading_induction generalizing kinds with
  | done mode place =>
    rw [list] at context
    cases context
    cases mode with
    | html => exact ⟨Kind.outside_nil, fun _ => .inl rfl⟩
    | php => exact Kind.inside_nil
  | read mode place first rest ih =>
    rw [list_cons] at context
    cases read : (mode.read first rest).kind with
    | none =>
      obtain ⟨rfl, after⟩ := read_blank mode first rest read
      rw [read] at context
      have follows := ih kinds context
      rw [after] at follows
      exact follows
    | some own =>
      rw [read] at context
      cases context with
      | cons here later =>
        cases mode with
        | html => exact alternates_html first rest own _ _ _ here read (ih _ later)
        | php => exact alternates_php first rest own _ _ _ here read (ih _ later)

theorem kinds_outside (source : Bytes) : Kind.Outside (kinds (ofSource source)) :=
  (list_alternates .html .start source _ (kinds_inContext source)).1

theorem read_leaves (mode : Mode) (first : UInt8) (rest : Bytes) (kind : Kind)
    (read : (mode.read first rest).kind = some kind) (leaves : (mode.read first rest).mode = .html) :
    kind ∈ [Kind.closeTag, .inlineHtml] := by
  cases mode with
  | php =>
    obtain rfl := Option.some.inj (read.symm.trans (Reading.php_leaves first rest leaves))
    decide
  | html =>
    simp only [Mode.read, Reading.html] at read leaves
    cases found : Extent.openTag? (first :: rest) with
    | some size =>
      rw [found] at leaves
      cases leaves
    | none =>
      rw [found] at read
      cases read
      decide

theorem read_markup (mode : Mode) (first : UInt8) (rest : Bytes) (kind : Kind)
    (read : (mode.read first rest).kind = some kind) (markup : kind ∈ [Kind.inlineHtml, .openTag]) :
    mode = .html := by
  cases mode with
  | html => rfl
  | php =>
    have tag : kind ∈ Kind.tags := by
      simp only [Kind.tags, List.mem_cons, List.not_mem_nil, or_false] at markup ⊢
      exact markup.imp_right .inl
    cases after : (Reading.php first rest).mode with
    | php => exact absurd tag (Reading.php_stays first rest after kind read)
    | html =>
      obtain rfl := Option.some.inj (read.symm.trans (Reading.php_leaves first rest after))
      exact absurd markup (by decide)

-- Markup and opening tags stand at the start, or right behind a closing tag or markup.
theorem list_preceded (mode : Mode) (place : Place) (bytes : Bytes) (index : Nat) (lexeme : Lexeme)
    (found : (list mode place bytes)[index]? = some lexeme)
    (markup : lexeme.kind ∈ [Kind.inlineHtml, .openTag]) :
    (index = 0 ∧ mode = .html ∧ lexeme.place = place) ∨
      ∃ earlier previous, index = earlier + 1 ∧ (list mode place bytes)[earlier]? = some previous ∧
        previous.kind ∈ [Kind.closeTag, .inlineHtml] ∧
        lexeme.place = previous.place.after previous.text := by
  induction mode, place, bytes using reading_induction generalizing index with
  | done mode place => simp [list] at found
  | read mode place first rest ih =>
    rw [list_cons] at found ⊢
    cases read : (mode.read first rest).kind with
    | none =>
      rw [read] at found
      obtain ⟨_, leaves, _⟩ | later := ih index found
      next => cases leaves.symm.trans (read_blank mode first rest read).2
      next => exact .inr later
    | some kind =>
      rw [read] at found
      cases index with
      | zero =>
        cases found
        exact .inl ⟨rfl, read_markup mode first rest kind read markup, rfl⟩
      | succ index =>
        right
        obtain ⟨rfl, leaves, place_eq⟩ | ⟨earlier, previous, rfl, foundPrevious, kinds, place_eq⟩ :=
          ih index found
        next => exact ⟨0, _, rfl, rfl, read_leaves mode first rest kind read leaves, place_eq⟩
        next => exact ⟨earlier + 1, previous, rfl, foundPrevious, kinds, place_eq⟩

end Lexeme

namespace Token

open Byte Bytes

theorem stands_behind (source : Bytes) (previous token : Token) (front rest before behind : Bytes)
    (one : previous.Stands source front rest) (two : token.Stands source before behind)
    (touch : (⟨token.line, token.column⟩ : Place) =
      Place.after ⟨previous.line, previous.column⟩ previous.text) :
    before = front ++ previous.text ∧ rest = token.text ++ behind := by
  obtain ⟨left, start⟩ := (stands_iff _ _ _ _).mp one
  obtain ⟨right, later⟩ := (stands_iff _ _ _ _).mp two
  have offsets : before = front ++ previous.text := by
    apply Place.after_injective .start source _ _ ⟨_, right.symm⟩
      ⟨rest, by rw [List.append_assoc, left]⟩
    rw [← later, touch, start, ← Place.after_append]
  subst offsets
  rw [List.append_assoc] at right
  exact ⟨rfl, List.append_cancel_left (List.append_cancel_left (left.symm.trans right))⟩

theorem preceded (source : Bytes) (index : Nat) (token : Token)
    (found : (ofBytes source)[index]? = some token) (markup : token.kind ∈ [Kind.inlineHtml, .openTag])
    (before behind : Bytes) (stands : token.Stands source before behind) :
    before = [] ∨ ∃ earlier previous front, index = earlier + 1 ∧
      (ofBytes source)[earlier]? = some previous ∧ previous.kind ∈ [Kind.closeTag, .inlineHtml] ∧
      before = front ++ previous.text ∧ previous.Stands source front (token.text ++ behind) := by
  obtain ⟨lexeme, foundLexeme, _, place, context⟩ := getElem?_readBehind source index token found
  obtain ⟨spells, start⟩ := (stands_iff _ _ _ _).mp stands
  have tag : ∀ kind ∈ [Kind.inlineHtml, .openTag], kind ∈ Kind.tags := by decide
  obtain same := context.tag (.inr (tag _ markup))
  obtain ⟨_, _, first⟩ | ⟨earlier, previous, rfl, foundPrevious, kinds, behindIt⟩ :=
    Lexeme.list_preceded .html .start source index lexeme foundLexeme (same ▸ markup)
  next =>
    left
    apply Place.after_injective .start source before [] ⟨_, spells.symm⟩ List.nil_prefix
    rw [← start, place, first]
    rfl
  next =>
    right
    have within : earlier < (ofBytes source).length := by
      have bound := (List.getElem?_eq_some_iff.mp found).1
      omega
    have foundToken := List.getElem?_eq_getElem within
    obtain ⟨lexeme', foundAgain, text, placePrevious, contextPrevious⟩ :=
      getElem?_readBehind source earlier _ foundToken
    obtain rfl : lexeme' = previous := Option.some.inj (foundAgain.symm.trans foundPrevious)
    obtain ⟨front, mode, first, rest, reads⟩ := readAt_of_mem source _ (List.getElem_mem within)
    obtain ⟨offsets, follows⟩ := stands_behind source _ token front _ before behind reads.stands stands
      (by rw [place, behindIt, placePrevious, text])
    have tagPrevious : ∀ kind ∈ [Kind.closeTag, .inlineHtml], kind ∈ Kind.tags := by decide
    have kindPrevious := contextPrevious.tag (.inl (tagPrevious _ kinds))
    exact ⟨earlier, _, front, rfl, foundToken, kindPrevious ▸ kinds, offsets, follows ▸ reads.stands⟩

/-- What the kind of a token says about the tags in and around it, where `behind` is the source behind
it. -/
structure AroundTags (token : Token) (behind : Bytes) : Prop where
  markup : token.kind = .inlineHtml →
    (∀ offset < token.text.length, ¬ OpensTag ((token.text ++ behind).drop offset)) ∧
      (behind = [] ∨ OpensTag behind)
  opens : token.kind = .openTag → OpensTag (token.text ++ behind)
  closes : token.kind = .closeTag → token.text = ofString "?>"
  closing : ofString "?>" <:+: token.text →
    token.kind ∈ [Kind.inlineHtml, .closeTag, .string] ∨
      token.kind = .comment ∧ ofString "/*" <+: token.text

section ReadAt

variable {source : Bytes} {token : Token} {before : Bytes} {mode : Mode} {first : UInt8} {rest : Bytes}
  (reads : token.ReadAt source before mode first rest)

include reads

theorem ReadAt.markup (kind : token.kind = .inlineHtml) :
    (∀ offset < token.text.length, ¬ OpensTag ((first :: rest).drop offset)) ∧
      (rest.drop (mode.read first rest).more = [] ∨
        OpensTag (rest.drop (mode.read first rest).more)) := by
  have read := reads.kind_eq _ kind (by decide) (by decide)
  obtain rfl := Lexeme.read_markup mode first rest _ read (by decide)
  rw [reads.size]
  simp only [Mode.read, Reading.html] at read ⊢
  cases found : Extent.openTag? (first :: rest) with
  | some size =>
    rw [found] at read
    cases read
  | none =>
    have stops := Extent.html_stops rest
    rw [Extent.openTag_isSome] at stops
    refine ⟨fun offset within => ?_, stops⟩
    cases offset with
    | zero =>
      rw [List.drop_zero, ← Extent.openTag_isSome, found]
      decide
    | succ offset => exact Extent.html_quiet rest offset (Nat.lt_of_succ_lt_succ within)

theorem ReadAt.openTag (kind : token.kind = .openTag) :
    OpensTag (first :: rest) ∧ greater ∉ token.text := by
  have read := reads.kind_eq _ kind (by decide) (by decide)
  obtain rfl := Lexeme.read_markup mode first rest _ read (by decide)
  have text := reads.text
  simp only [Mode.read, Reading.html] at read text
  cases found : Extent.openTag? (first :: rest) with
  | none =>
    rw [found] at read
    cases read
  | some size =>
    rw [found] at text
    refine ⟨(Extent.openTag_isSome _).mp (by rw [found]; rfl), ?_⟩
    rcases Extent.openTag_cases _ size found with ⟨rfl, tail, split⟩ |
      ⟨rfl, _, one, two, three, four, five, tail, split, spelled, _⟩
    next =>
      cases split
      have whole : token.text = [less, question, equals] := text
      rw [whole]
      decide
    next =>
      cases split
      have whole : token.text = [first, two, three, four, five] := text
      intro inside
      have lowered := List.mem_map_of_mem (f := Byte.lower) (whole ▸ inside)
      rw [spelled] at lowered
      revert lowered
      decide

theorem ReadAt.closeTag (kind : token.kind = .closeTag) : token.text = ofString "?>" := by
  have mark : ofString "?>" = [question, greater] := by decide +kernel
  obtain rfl := reads.mode_eq (by simp [kind]) (by simp [kind])
  have read := reads.kind_eq _ kind (by decide) (by decide)
  have text := reads.text
  have form := Reading.php_form first rest
  simp only [Mode.read] at read text
  generalize Reading.php first rest = reading at form read text
  cases form with
  | closeTag starts closes =>
    obtain ⟨tail, rfl⟩ := List.head?_eq_some_iff.mp closes
    rw [mark, text, starts]
    rfl
  | word => exact absurd (Option.some.inj read) (Kind.ofWord_ne _ (by decide +kernel) (by decide) _)
  | operator =>
    exact absurd (Option.some.inj read) (Kind.ofOperator_ne _ (by decide +kernel) (by decide) _)
  | _ => cases read

end ReadAt

theorem Munched.no_closing {token : Token} {here : Bytes} (munched : token.Munched here)
    (within : token.text <+: here) : ¬ [question, greater] <:+: token.text := by
  have noWord (rest : Bytes) : ¬ StartsWord (question :: rest) := by
    rintro ⟨b, head, word⟩
    cases head
    cases word
  intro inside
  have mark : question ∈ token.text := inside.subset List.mem_cons_self
  cases munched with
  | «variable» name kind text filled run =>
    obtain ⟨behind, rfl⟩ := within
    rw [text] at mark
    rcases List.mem_cons.mp mark with same | named
    next => cases same
    next =>
      rw [text, List.cons_append, List.tail_cons] at run
      exact run.not_mem (List.prefix_append _ _) question noWord named
  | number kind digit run =>
    apply run.not_mem within question _ mark
    intro rest starts
    rw [Extent.startsNumber_cons] at starts
    cases starts
  | word kind noDigit run => exact run.not_mem within question noWord mark
  | operator kind listed =>
    have table : ∀ text ∈ Kind.operatorTable, ¬ [question, greater] <:+: text := by decide +kernel
    exact table _ listed inside
  | symbol kind single =>
    have long := inside.length_le
    rw [single] at long
    exact absurd long (by decide)

theorem ReadAt.closing_within {source : Bytes} {token : Token} {before : Bytes} {mode : Mode}
    {first : UInt8} {rest : Bytes} (reads : token.ReadAt source before mode first rest)
    (inside : ofString "?>" <:+: token.text) :
    token.kind ∈ [Kind.inlineHtml, .closeTag, .string] ∨
      token.kind = .comment ∧ ofString "/*" <+: token.text := by
  have mark : ofString "?>" = [question, greater] := by decide +kernel
  rw [mark] at inside
  by_cases tag : token.kind = .openTag
  next => exact absurd (inside.subset (by simp)) (reads.openTag tag).2
  next =>
    by_cases comment : token.kind = .comment
    next =>
      obtain rfl := reads.mode_eq (by simp [comment]) (by simp [comment])
      rcases Reading.php_comment first rest (reads.kind_eq _ comment (by decide) (by decide)) with
        ⟨_, other, more⟩ | ⟨body, here, more⟩
      next =>
        have text := reads.text
        simp only [Mode.read, more] at text
        rw [text, List.infix_cons_iff, List.cons_prefix_cons] at inside
        rcases inside with ⟨same, _⟩ | later
        next => exact absurd same.symm other
        next => exact absurd later (Extent.lineComment_open rest)
      next =>
        right
        refine ⟨comment, List.prefix_of_prefix_length_le ⟨body, here.symm⟩ reads.text_prefix_here ?_⟩
        have length : (ofString "/*").length = 2 := by decide +kernel
        rw [reads.size, length, Mode.read, more]
        omega
    next =>
      left
      by_contra listed
      have code : token.kind ∉ [Kind.string, .comment, .inlineHtml, .openTag, .closeTag] := by
        simp only [List.mem_cons, List.not_mem_nil, or_false] at listed ⊢
        grind
      exact (munched_of_readAt reads code).no_closing reads.text_prefix_here inside

theorem ReadAt.aroundTags {source : Bytes} {token : Token} {before : Bytes} {mode : Mode}
    {first : UInt8} {rest : Bytes} (reads : token.ReadAt source before mode first rest) :
    token.AroundTags (rest.drop (mode.read first rest).more) where
  markup kind := by
    rw [reads.here]
    exact reads.markup kind
  opens kind := by
    rw [reads.here]
    exact (reads.openTag kind).1
  closes := reads.closeTag
  closing := reads.closing_within

/-- Markup and code are separated exactly at the tags. -/
theorem separated_at_tags (source : String) :
    (∃ segments : List (List Kind), (∀ segment ∈ segments, Kind.Segment segment) ∧
      (stream source).map (·.kind) <+: segments.flatten) ∧
    ∀ (index : Nat) (token : Token), (stream source)[index]? = some token →
      (∃ before behind, token.Stands (ofString source) before behind) ∧
      ∀ before behind, token.Stands (ofString source) before behind →
        (token.kind ∈ [Kind.inlineHtml, .openTag] →
          before = [] ∨ ∃ earlier previous front, index = earlier + 1 ∧
            (stream source)[earlier]? = some previous ∧
            previous.kind ∈ [Kind.closeTag, .inlineHtml] ∧ before = front ++ previous.text ∧
            previous.Stands (ofString source) front (token.text ++ behind)) ∧
        token.AroundTags behind := by
  refine ⟨?_, fun index token found => ?_⟩
  next =>
    have outside := Lexeme.kinds_outside (ofString source)
    rw [← kinds_ofBytes] at outside
    exact outside
  next =>
    have member := List.mem_of_getElem? found
    obtain ⟨placed, around⟩ := forall_stands (ofString source) token member
      (fun _ behind => token.AroundTags behind)
      (fun _ _ _ _ reads => reads.aroundTags)
    refine ⟨placed, fun before behind stands => ⟨fun markup => ?_, around before behind stands⟩⟩
    exact preceded (ofString source) index token found markup before behind stands

end Token

end CognitiveComplexity
