import CognitiveComplexity.Proofs.Token.CarriageReturn
import CognitiveComplexity.Proofs.Token.Standing

set_option autoImplicit false

namespace CognitiveComplexity

/-- The first terminator gives the end, where `closes offset stop` says that a terminator at some offset
gives the end `stop`. Without a terminator it is the end of input. -/
def EndsFirst (closes : Nat → Nat → Prop) (length stop : Nat) : Prop :=
  (∃ offset, closes offset stop ∧ ∀ earlier < offset, ∀ other, ¬ closes earlier other) ∨
    (∀ offset other, ¬ closes offset other) ∧ stop = length

theorem EndsFirst.here {closes : Nat → Nat → Prop} {stop : Nat} (length : Nat)
    (found : closes 0 stop) : EndsFirst closes length stop :=
  .inl ⟨0, found, fun _ within => absurd within (Nat.not_lt_zero _)⟩

theorem EndsFirst.later {inner outer : Nat → Nat → Prop} {length stop : Nat} (size : Nat)
    (quiet : ∀ offset < size, ∀ other, ¬ outer offset other)
    (same : ∀ offset other, outer (offset + size) other ↔
      ∃ stop, inner offset stop ∧ other = stop + size)
    (ends : EndsFirst inner length stop) : EndsFirst outer (length + size) (stop + size) := by
  -- An offset lies in front of the inner text or is one of it.
  have split (offset other : Nat) (closes : outer offset other) :
      ∃ inside stop, offset = inside + size ∧ inner inside stop := by
    rcases Nat.lt_or_ge offset size with front | behind
    next => exact absurd closes (quiet offset front other)
    next =>
      obtain ⟨inside, rfl⟩ := Nat.exists_eq_add_of_le' behind
      obtain ⟨stop, found, _⟩ := (same inside other).mp closes
      exact ⟨inside, stop, rfl, found⟩
  rcases ends with ⟨offset, found, first⟩ | ⟨never, rfl⟩
  next =>
    refine .inl ⟨offset + size, (same offset _).mpr ⟨stop, found, rfl⟩, ?_⟩
    intro earlier within other closes
    obtain ⟨inside, early, rfl, closed⟩ := split earlier other closes
    exact first inside (by omega) early closed
  next =>
    refine .inr ⟨fun offset other closes => ?_, rfl⟩
    obtain ⟨inside, early, _, closed⟩ := split offset other closes
    exact never inside early closed

namespace Terminator

open Byte Bytes

def line (least : Nat) (text : Bytes) (offset stop : Nat) : Prop :=
  least ≤ offset ∧ (text[offset]? = some newline ∨ [question, greater] <+: text.drop offset) ∧
    stop = offset

def block (least : Nat) (text : Bytes) (offset stop : Nat) : Prop :=
  least ≤ offset ∧ [asterisk, slash] <+: text.drop offset ∧ stop = offset + 2

/-- A backslash consumes the byte behind it, unless it is consumed itself. -/
def consumed (text : Bytes) : Nat → Bool
  | 0 => false
  | offset + 1 => text[offset]? == some backslash && !consumed text offset

def quote (mark : UInt8) (least : Nat) (text : Bytes) (offset stop : Nat) : Prop :=
  least ≤ offset ∧ text[offset]? = some mark ∧ consumed text offset = false ∧ stop = offset + 1

/-- Whether a line starts at an offset: behind a line feed, and at the start of the text if a line feed
is in front of it. -/
def startsLine (opened : Bool) (text : Bytes) : Nat → Prop
  | 0 => opened = true
  | offset + 1 => text[offset]? = some newline

def closesLine (label line : Bytes) (size : Nat) : Prop :=
  ∃ indent tail, line = indent ++ (label ++ tail) ∧ (∀ b ∈ indent, isIndent b = true) ∧
    (∀ b ∈ tail.head?, isWord b = false) ∧ size = indent.length + label.length

def heredoc (opened : Bool) (label text : Bytes) (offset stop : Nat) : Prop :=
  startsLine opened text offset ∧
    ∃ size, closesLine label (text.drop offset) size ∧ stop = offset + size

def opensHeredoc (label line : Bytes) : Prop :=
  ∃ indent quote ending, line = ofString "<<<" ++ (indent ++ (quote ++ (label ++ (quote ++ ending)))) ∧
    (∀ b ∈ indent, isIndent b = true) ∧ quote ∈ [[], [singleQuote], [doubleQuote]] ∧
    label ≠ [] ∧ Word label ∧ ending ∈ [[], [carriageReturn]]

theorem consumed_cons (b : UInt8) (rest : Bytes) (other : b ≠ backslash) (offset : Nat) :
    consumed (b :: rest) (offset + 1) = consumed rest offset := by
  induction offset with
  | zero => simp [consumed, other]
  | succ offset ih => rw [consumed, ih, consumed, List.getElem?_cons_succ]

theorem consumed_escape (next : UInt8) (rest : Bytes) (offset : Nat) :
    consumed (backslash :: next :: rest) (offset + 2) = consumed rest offset := by
  induction offset with
  | zero => simp [consumed]
  | succ offset ih =>
    rw [consumed, ih, consumed, List.getElem?_cons_succ, List.getElem?_cons_succ]

end Terminator

namespace Extent

open Byte Bytes Terminator

theorem lineComment_ends (rest : Bytes) :
    EndsFirst (line 0 rest) rest.length (lineComment rest) := by
  induction rest with
  | nil => exact .inr ⟨by simp [line], rfl⟩
  | cons b rest ih =>
    rw [lineComment_cons]
    split_ifs with found
    next =>
      apply EndsFirst.here
      rcases found with rfl | ⟨rfl, tag⟩
      next => simp [line]
      next =>
        obtain ⟨tail, rfl⟩ := List.head?_eq_some_iff.mp tag
        simp [line]
    next =>
      apply EndsFirst.later 1 _ _ ih
      next =>
        intro offset within other closes
        obtain rfl : offset = 0 := by omega
        apply found
        simpa [line, List.cons_prefix_cons, List.singleton_prefix_iff_head?_eq_some, eq_comm]
          using closes.2.1
      next => simp [line]

theorem blockComment_ends (rest : Bytes) :
    EndsFirst (block 0 rest) rest.length (blockComment rest) := by
  induction rest with
  | nil => exact .inr ⟨by simp [block], rfl⟩
  | cons b rest ih =>
    rw [blockComment_cons]
    split_ifs with found
    next =>
      apply EndsFirst.here
      obtain ⟨rfl, ends⟩ := found
      obtain ⟨tail, rfl⟩ := List.head?_eq_some_iff.mp ends
      simp [block]
    next =>
      apply EndsFirst.later 1 _ _ ih
      next =>
        intro offset within other closes
        obtain rfl : offset = 0 := by omega
        apply found
        simpa [block, List.cons_prefix_cons, List.singleton_prefix_iff_head?_eq_some, eq_comm]
          using closes.2.1
      next => simp [block]

theorem quoted_ends (mark : UInt8) (noEscape : mark ≠ backslash) (rest : Bytes) :
    EndsFirst (quote mark 0 rest) rest.length (quoted mark rest) := by
  fun_induction quoted mark rest with
  | case1 => exact .inr ⟨by simp [quote], rfl⟩
  | case2 b =>
    by_cases closes : b = mark
    next => exact .here _ (by simp [quote, consumed, closes])
    next =>
      refine .inr ⟨fun offset other found => ?_, rfl⟩
      cases offset <;> simp [quote, closes] at found
  | case3 b next rest escape ih =>
    obtain rfl : b = backslash := by simpa using escape
    apply EndsFirst.later 2 _ _ ih
    next =>
      intro offset within other found
      obtain rfl | rfl : offset = 0 ∨ offset = 1 := by omega
      next => simp [quote, noEscape.symm] at found
      next => simp [quote, consumed] at found
    next => simp [quote, consumed_escape, and_assoc]
  | case4 b next rest other closes => exact .here _ (by simpa [quote, consumed] using closes)
  | case5 b next rest other open' ih =>
    apply EndsFirst.later 1 _ _ ih
    next =>
      intro offset within stop found
      obtain rfl : offset = 0 := by omega
      apply open'
      simpa [quote] using found.2.1
    next =>
      have plain : b ≠ backslash := by simpa using other
      simp [quote, consumed_cons b (next :: rest) plain, and_assoc]

theorem isIndent_of_isWord (b : UInt8) : isWord b = true → isIndent b = false := by
  revert b
  exact forall_bytes (by decide +kernel)

section Heredoc

variable (label : Bytes) (filled : label ≠ []) (named : Word label)

include filled named

theorem heredocLabel_iff (line : Bytes) (size : Nat) :
    heredocLabel? label line = some size ↔ closesLine label line size := by
  rw [heredocLabel_eq]
  constructor
  next =>
    intro closes
    simp only [Option.ite_none_right_eq_some, Bool.and_eq_true, List.isPrefixOf_iff_prefix,
      Bool.not_eq_true', Option.some.injEq] at closes
    obtain ⟨⟨⟨tail, split⟩, stops⟩, rfl⟩ := closes
    rw [← split, List.getElem?_append_right le_rfl, Nat.sub_self] at stops
    refine ⟨line.takeWhile isIndent, tail, ?_, fun b member => List.mem_takeWhile_imp member, ?_, rfl⟩
    next => rw [split, List.takeWhile_append_dropWhile]
    next =>
      cases tail with
      | nil => simp
      | cons next tail => simpa using stops
  next =>
    rintro ⟨indent, tail, rfl, indents, stops, rfl⟩
    obtain ⟨b, more, rfl⟩ := List.exists_cons_of_ne_nil filled
    have noIndent := isIndent_of_isWord b (named b List.mem_cons_self)
    have behind : (indent ++ (b :: more ++ tail)).dropWhile isIndent = b :: more ++ tail := by
      rw [List.dropWhile_append_of_pos indents, List.cons_append,
        List.dropWhile_cons_of_neg (by simp [noIndent])]
    have front : (indent ++ (b :: more ++ tail)).takeWhile isIndent = indent := by
      rw [List.takeWhile_append_of_pos indents, List.cons_append,
        List.takeWhile_cons_of_neg (by simp [noIndent]), List.append_nil]
    rw [behind, front, List.getElem?_append_right le_rfl, Nat.sub_self, ← List.head?_eq_getElem?,
      if_pos]
    cases tail with
    | nil => simp [List.isPrefixOf_iff_prefix]
    | cons next tail => simp [List.isPrefixOf_iff_prefix, stops next rfl]

theorem heredocBody_ends (opened : Bool) (body : Bytes) :
    EndsFirst (heredoc opened label body) body.length (heredocBody label opened body) := by
  induction body generalizing opened with
  | nil =>
    refine .inr ⟨?_, rfl⟩
    rintro offset other ⟨_, _, ⟨indent, tail, empty, _⟩, _⟩
    simp [filled] at empty
  | cons b rest ih =>
    have closes := heredocLabel_iff label filled named (b :: rest)
    rw [heredocBody]
    split
    next size found =>
      cases opened with
      | false => simp at found
      | true => exact .here _ ⟨rfl, size, (closes size).mp found, by simp⟩
    next open' =>
      apply EndsFirst.later 1 _ _ (ih (b == newline))
      next =>
        rintro offset within other ⟨starts, size, closed, _⟩
        obtain rfl : offset = 0 := by omega
        obtain rfl : opened = true := starts
        rw [if_pos rfl, (closes size).mpr closed] at open'
        cases open'
      next =>
        intro offset other
        have lines : startsLine opened (b :: rest) (offset + 1) ↔
            startsLine (b == newline) rest offset := by
          cases offset <;> simp [startsLine]
        simp only [heredoc, lines, List.drop_succ_cons]
        grind

end Heredoc

theorem mem_labelQuote (start : Bytes) (quote : UInt8) (found : labelQuote? start = some quote) :
    quote = singleQuote ∨ quote = doubleQuote := by
  have chosen := (Option.filter_eq_some_iff.mp found).2
  simpa using chosen

theorem behindQuote_split (start : Bytes) :
    start = (labelQuote? start).toList ++ behindQuote start := by
  cases found : labelQuote? start with
  | none => simp [behindQuote, found]
  | some quote =>
    obtain ⟨rest, rfl⟩ := List.head?_eq_some_iff.mp (Option.filter_eq_some_iff.mp found).1
    simp [behindQuote, found]

theorem behindLabel_split (quote : Option UInt8) (closed rest : Bytes)
    (found : behindLabel? quote closed = some rest) : closed = quote.toList ++ rest := by
  cases quote with
  | none =>
    cases found
    rfl
  | some quote =>
    simp only [behindLabel?, Option.ite_none_right_eq_some, beq_iff_eq, Option.some.injEq] at found
    obtain ⟨starts, rfl⟩ := found
    obtain ⟨rest, rfl⟩ := List.head?_eq_some_iff.mp starts
    rfl

theorem behindLine_split (closed body : Bytes) (found : behindLine? closed = some body) :
    ∃ ending ∈ [[], [carriageReturn]], closed = ending ++ newline :: body := by
  simp only [behindLine?] at found
  split at found
  next =>
    cases found
    exact ⟨[carriageReturn], by simp, rfl⟩
  next =>
    cases found
    exact ⟨[], by simp, rfl⟩
  next => cases found

-- A heredoc has a first line, which ends in the only line feed of it.
theorem heredocOpening_line (bytes label body : Bytes)
    (opens : heredocOpening? bytes = some (label, body)) :
    ∃ line, opensHeredoc label line ∧ ofString "<<<" ++ bytes = line ++ newline :: body := by
  have filled := heredocOpening_filled bytes label body opens
  have named := heredocOpening_label bytes label body opens
  simp only [heredocOpening?, Option.ite_none_left_eq_some, Option.map_eq_some_iff,
    Option.bind_eq_some_iff, Prod.mk.injEq] at opens
  obtain ⟨_, _, ⟨closed, quoted, line⟩, rfl, rfl⟩ := opens
  obtain ⟨ending, listed, split⟩ := behindLine_split closed _ line
  -- The parts of the line, from left to right.
  have start : bytes = bytes.takeWhile isIndent ++ bytes.dropWhile isIndent :=
    List.takeWhile_append_dropWhile.symm
  have name := behindQuote_split (bytes.dropWhile isIndent)
  have spelled : behindQuote (bytes.dropWhile isIndent) =
      (behindQuote (bytes.dropWhile isIndent)).takeWhile isWord ++
        (behindQuote (bytes.dropWhile isIndent)).dropWhile isWord :=
    List.takeWhile_append_dropWhile.symm
  have close := behindLabel_split _ _ closed quoted
  have quotes : (labelQuote? (bytes.dropWhile isIndent)).toList ∈
      [[], [singleQuote], [doubleQuote]] := by
    cases found : labelQuote? (bytes.dropWhile isIndent) with
    | none => simp
    | some quote => rcases mem_labelQuote _ quote found with rfl | rfl <;> simp
  rw [close, split] at spelled
  rw [spelled] at name
  rw [name] at start
  refine ⟨_, ⟨bytes.takeWhile isIndent, _, ending, rfl, fun b member => List.mem_takeWhile_imp member,
    quotes, filled, named, listed⟩, ?_⟩
  simpa [List.append_assoc] using start

theorem newline_not_mem_opening (label line : Bytes) (opens : opensHeredoc label line) :
    newline ∉ line := by
  obtain ⟨indent, quote, ending, rfl, indents, quotes, _, named, endings⟩ := opens
  have mark : newline ∉ ofString "<<<" := by decide +kernel
  have blanks : newline ∉ indent := by
    intro inside
    cases indents newline inside
  have quoted : newline ∉ quote := by
    simp only [List.mem_cons, List.not_mem_nil, or_false] at quotes
    rcases quotes with rfl | rfl | rfl <;> decide
  have ended : newline ∉ ending := by
    simp only [List.mem_cons, List.not_mem_nil, or_false] at endings
    rcases endings with rfl | rfl <;> decide
  simp [mark, blanks, quoted, ended, newline_not_mem_word label named]

-- No line starts inside the first line of a heredoc, so its lines are those of its body.
theorem heredoc_behind_line (label line body : Bytes) (stop : Nat) (opens : opensHeredoc label line)
    (ends : EndsFirst (heredoc true label body) body.length stop) :
    EndsFirst (heredoc false label (line ++ newline :: body)) (body.length + (line.length + 1))
      (stop + (line.length + 1)) := by
  have oneLine := newline_not_mem_opening label line opens
  apply EndsFirst.later (line.length + 1) _ _ ends
  next =>
    rintro offset within other ⟨starts, _⟩
    cases offset with
    | zero => cases starts
    | succ offset =>
      apply oneLine
      apply List.mem_of_getElem?
      rwa [startsLine, List.getElem?_append_left (by omega)] at starts
  next =>
    intro offset other
    have lines : startsLine false (line ++ newline :: body) (offset + (line.length + 1)) ↔
        startsLine true body offset := by
      cases offset with
      | zero => simp [startsLine]
      | succ offset =>
        have index : offset + 1 + line.length - line.length = offset + 1 := by omega
        rw [← Nat.add_assoc, startsLine, startsLine, List.getElem?_append_right (by omega), index,
          List.getElem?_cons_succ]
    have behind : (line ++ newline :: body).drop (offset + (line.length + 1)) = body.drop offset := by
      rw [Nat.add_comm, ← List.drop_drop]
      simp
    simp only [heredoc, lines, behind]
    grind

theorem heredoc_ends (after : Bytes) (size : Nat) (found : heredoc? after = some size) :
    ∃ label line, opensHeredoc label line ∧ line ++ [newline] <+: ofString "<<<" ++ after ∧
      EndsFirst (heredoc false label (ofString "<<<" ++ after)) (after.length + 3) (size + 3) := by
  obtain ⟨⟨label, body⟩, opens, sized⟩ := Option.map_eq_some_iff.mp found
  obtain ⟨line, opening, split⟩ := heredocOpening_line after label body opens
  have filled := heredocOpening_filled after label body opens
  have named := heredocOpening_label after label body opens
  have ends := heredoc_behind_line label line body _ opening
    (heredocBody_ends label filled named true body)
  have lengths : after.length + 3 = body.length + (line.length + 1) := by
    have total := congrArg List.length split
    have mark : (ofString "<<<").length = 3 := by decide +kernel
    simp only [List.length_append, List.length_cons, mark] at total
    omega
  refine ⟨label, line, opening, ⟨body, by simp [split]⟩, ?_⟩
  rw [split, lengths]
  convert ends using 1
  have short := (heredocOpening_suffix after label body opens).length_le
  simp only at sized
  omega

end Extent

namespace Reading

open Byte Bytes

theorem php_string (first : UInt8) (rest : Bytes) (kind : (php first rest).kind = some .string) :
    (isQuote first = true ∧ (php first rest).more = Extent.quoted first rest) ∨
      ∃ after size, first :: rest = ofString "<<<" ++ after ∧ Extent.heredoc? after = some size ∧
        (php first rest).more = size + 2 := by
  have form := php_form first rest
  generalize php first rest = reading at form kind ⊢
  have noWord (text : Bytes) := Kind.ofWord_ne .string (by decide +kernel) (by decide) text
  have noOperator (text : Bytes) := Kind.ofOperator_ne .string (by decide +kernel) (by decide) text
  have mark : ofString "<<<" = [less, less, less] := by decide +kernel
  cases form with
  | quoted quote => exact .inl ⟨quote, rfl⟩
  | heredoc after size starts opens found =>
    exact .inr ⟨after, size, by rw [mark, starts, opens]; rfl, found, rfl⟩
  | word => exact absurd (Option.some.inj kind) (noWord _)
  | operator => exact absurd (Option.some.inj kind) (noOperator _)
  | _ => cases kind

theorem php_comment (first : UInt8) (rest : Bytes) (kind : (php first rest).kind = some .comment) :
    (¬ ofString "/*" <+: first :: rest ∧ first ≠ question ∧
        (php first rest).more = Extent.lineComment rest) ∨
      ∃ body, first :: rest = ofString "/*" ++ body ∧
        (php first rest).more = Extent.blockComment body + 1 := by
  have form := php_form first rest
  generalize php first rest = reading at form kind ⊢
  have noWord (text : Bytes) := Kind.ofWord_ne .comment (by decide +kernel) (by decide) text
  have noOperator (text : Bytes) := Kind.ofOperator_ne .comment (by decide +kernel) (by decide) text
  have mark : ofString "/*" = [slash, asterisk] := by decide +kernel
  cases form with
  | lineComment starts =>
    refine .inl ⟨?_, ?_, rfl⟩
    next =>
      rw [mark, List.cons_prefix_cons, List.singleton_prefix_iff_head?_eq_some]
      rintro ⟨rfl, block⟩
      rcases starts with ⟨_, line⟩ | sharp
      next => cases line.symm.trans block
      next => cases sharp
    next => rcases starts with ⟨rfl, _⟩ | rfl <;> decide
  | blockComment body starts opens => exact .inr ⟨body, by rw [mark, starts, opens]; rfl, rfl⟩
  | word => exact absurd (Option.some.inj kind) (noWord _)
  | operator => exact absurd (Option.some.inj kind) (noOperator _)
  | _ => cases kind

end Reading

namespace Token

open Byte Bytes

/-- A string or a comment ends at the first terminator, where `here` is the source from its start on. -/
structure Terminated (token : Token) (here : Bytes) : Prop where
  starts : token.kind = .string →
    (∃ mark ∈ token.text.head?, isQuote mark = true) ∨ ofString "<<<" <+: token.text
  quoted : token.kind = .string → ∀ mark ∈ token.text.head?, isQuote mark = true →
    EndsFirst (Terminator.quote mark 1 here) here.length token.text.length
  heredoc : token.kind = .string → ofString "<<<" <+: token.text →
    ∃ label line, Terminator.opensHeredoc label line ∧ line ++ [newline] <+: here ∧
      EndsFirst (Terminator.heredoc false label here) here.length token.text.length
  block : token.kind = .comment → ofString "/*" <+: token.text →
    EndsFirst (Terminator.block 2 here) here.length token.text.length
  line : token.kind = .comment → ¬ ofString "/*" <+: token.text →
    EndsFirst (Terminator.line 1 here) here.length token.text.length

section ReadAt

variable {source : Bytes} {token : Token} {before : Bytes} {mode : Mode} {first : UInt8} {rest : Bytes}
  (reads : token.ReadAt source before mode first rest)

include reads

theorem ReadAt.text_prefix_here : token.text <+: first :: rest :=
  ⟨_, reads.here⟩

theorem ReadAt.string_terminated (kind : token.kind = .string) :
    (isQuote first = true ∧
      EndsFirst (Terminator.quote first 1 (first :: rest)) (rest.length + 1) token.text.length) ∨
    (isQuote first = false ∧ ofString "<<<" <+: token.text ∧
      ∃ label line, Terminator.opensHeredoc label line ∧ line ++ [newline] <+: first :: rest ∧
        EndsFirst (Terminator.heredoc false label (first :: rest)) (rest.length + 1)
          token.text.length) := by
  obtain rfl := reads.mode_eq (by simp [kind]) (by simp [kind])
  rw [reads.size]
  rcases Reading.php_string first rest (reads.kind_eq _ kind (by decide) (by decide)) with
    ⟨quote, more⟩ | ⟨after, size, here, found, more⟩
  next =>
    have plain : first ≠ backslash := by
      rintro rfl
      cases quote
    refine .inl ⟨quote, ?_⟩
    simp only [Mode.read, more]
    apply EndsFirst.later 1 _ _ (Extent.quoted_ends first plain rest)
    next =>
      rintro offset within other ⟨least, _⟩
      omega
    next => simp [Terminator.quote, Terminator.consumed_cons first rest plain, and_assoc]
  next =>
    have mark : ofString "<<<" = [less, less, less] := by decide +kernel
    have starts : first = less := by
      rw [mark] at here
      exact (List.cons.inj here).1
    have length : rest.length + 1 = after.length + 3 := by
      have total := congrArg List.length here
      rw [mark] at total
      simpa using total
    refine .inr ⟨by rw [starts]; rfl, ?_, ?_⟩
    next =>
      apply List.prefix_of_prefix_length_le ⟨after, here.symm⟩ reads.text_prefix_here
      rw [reads.size, mark]
      simp [Mode.read, more]
    next =>
      rw [here, length]
      simpa [Mode.read, more] using Extent.heredoc_ends after size found

theorem ReadAt.comment_terminated (kind : token.kind = .comment) :
    (ofString "/*" <+: token.text ∧
      EndsFirst (Terminator.block 2 (first :: rest)) (rest.length + 1) token.text.length) ∨
    (¬ ofString "/*" <+: token.text ∧
      EndsFirst (Terminator.line 1 (first :: rest)) (rest.length + 1) token.text.length) := by
  obtain rfl := reads.mode_eq (by simp [kind]) (by simp [kind])
  rw [reads.size]
  rcases Reading.php_comment first rest (reads.kind_eq _ kind (by decide) (by decide)) with
    ⟨noBlock, _, more⟩ | ⟨body, here, more⟩
  next =>
    refine .inr ⟨fun starts => noBlock (starts.trans reads.text_prefix_here), ?_⟩
    simp only [Mode.read, more]
    apply EndsFirst.later 1 _ _ (Extent.lineComment_ends rest)
    next =>
      rintro offset within other ⟨least, _⟩
      omega
    next => simp [Terminator.line]
  next =>
    have mark : ofString "/*" = [slash, asterisk] := by decide +kernel
    refine .inl ⟨?_, ?_⟩
    next =>
      apply List.prefix_of_prefix_length_le ⟨body, here.symm⟩ reads.text_prefix_here
      rw [reads.size, mark]
      simp [Mode.read, more]
    next =>
      rw [mark] at here
      obtain ⟨rfl, rfl⟩ := List.cons.inj here
      simp only [Mode.read, more]
      apply EndsFirst.later 2 _ _ (Extent.blockComment_ends body)
      next =>
        rintro offset within other ⟨least, _⟩
        omega
      next => simp [Terminator.block]

theorem ReadAt.terminated : token.Terminated (first :: rest) := by
  have head : token.text.head? = some first := by rw [reads.text, List.head?_cons]
  have heredocQuote (quote : isQuote first = true) : ¬ ofString "<<<" <+: token.text := by
    intro opens
    have mark : ofString "<<<" = [less, less, less] := by decide +kernel
    rw [mark, reads.text, List.cons_prefix_cons] at opens
    rw [← opens.1] at quote
    cases quote
  constructor
  case starts =>
    intro kind
    rcases reads.string_terminated kind with ⟨quote, _⟩ | ⟨_, opens, _⟩
    next => exact .inl ⟨first, head, quote⟩
    next => exact .inr opens
  case quoted =>
    intro kind mark isHead quote
    obtain rfl : first = mark := Option.some.inj (head.symm.trans isHead)
    rcases reads.string_terminated kind with ⟨_, ends⟩ | ⟨noQuote, _⟩
    next => exact ends
    next => cases noQuote.symm.trans quote
  case heredoc =>
    intro kind opens
    rcases reads.string_terminated kind with ⟨quote, _⟩ | ⟨_, _, ends⟩
    next => exact absurd opens (heredocQuote quote)
    next => exact ends
  case block =>
    intro kind opens
    rcases reads.comment_terminated kind with ⟨_, ends⟩ | ⟨noBlock, _⟩
    next => exact ends
    next => exact absurd opens noBlock
  case line =>
    intro kind noBlock
    rcases reads.comment_terminated kind with ⟨opens, _⟩ | ⟨_, ends⟩
    next => exact absurd opens noBlock
    next => exact ends

end ReadAt

/-- Strings and comments end exactly where their terminator is. -/
theorem literals_end_at_terminator (source : String) (token : Token) (member : token ∈ stream source) :
    (∃ before behind, token.Stands (Bytes.ofString source) before behind) ∧
      ∀ before behind, token.Stands (Bytes.ofString source) before behind →
        token.Terminated (token.text ++ behind) := by
  apply forall_stands (Bytes.ofString source) token member
  intro before mode first rest reads
  rw [reads.here]
  exact reads.terminated

-- The label also starts a longer word of the body, and closes behind blanks.
theorem literals_end_at_terminator_label :
    let source := "<?php <<<E\n EX \x7d\n E;"
    let token : Token := ⟨.string, ofString "<<<E\n EX \x7d\n E", 1, 0, 1, 7, none⟩
    token ∈ stream source ∧ token.Stands (ofString source) (ofString "<?php ") (ofString ";") ∧
      token.Terminated (token.text ++ ofString ";") := by
  intro source token
  have member : token ∈ stream source := by decide +kernel
  have stands : token.Stands (ofString source) (ofString "<?php ") (ofString ";") := by
    constructor <;> decide +kernel
  exact ⟨member, stands, (literals_end_at_terminator source token member).2 _ _ stands⟩

end Token

end CognitiveComplexity
