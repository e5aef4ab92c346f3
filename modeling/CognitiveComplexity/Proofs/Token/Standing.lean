import CognitiveComplexity.Proofs.Token.Extent
import CognitiveComplexity.Proofs.Token.Layout
import CognitiveComplexity.Proofs.Token.Word

set_option autoImplicit false

namespace CognitiveComplexity

namespace Place

def Precedes (one other : Place) : Prop :=
  one.line < other.line ∨ one.line = other.line ∧ one.column < other.column

theorem precedes_trans (first second third : Place) (lower : first.Precedes second)
    (upper : second.Precedes third) : first.Precedes third := by
  simp only [Precedes] at lower upper ⊢
  omega

theorem precedes_advance (place : Place) (b : UInt8) : place.Precedes (place.advance b) := by
  simp only [Precedes, advance]
  split
  next => exact .inl (Nat.lt_succ_self _)
  next => exact .inr ⟨rfl, Nat.lt_succ_self _⟩

theorem precedes_after (place : Place) (bytes : Bytes) (filled : bytes ≠ []) :
    place.Precedes (place.after bytes) := by
  induction bytes generalizing place with
  | nil => exact absurd rfl filled
  | cons b rest ih =>
    have first := precedes_advance place b
    cases rest with
    | nil => exact first
    | cons next rest => exact precedes_trans _ _ _ first (ih _ (List.cons_ne_nil _ _))

theorem eq_of_after_eq (place : Place) (one other : Bytes) (within : one <+: other)
    (same : place.after one = place.after other) : one = other := by
  obtain ⟨more, rfl⟩ := within
  by_cases filled : more = []
  next => simp [filled]
  next =>
    have later := precedes_after (place.after one) more filled
    rw [← after_append, ← same] at later
    simp [Precedes] at later

theorem after_injective (place : Place) (source one other : Bytes) (left : one <+: source)
    (right : other <+: source) (same : place.after one = place.after other) : one = other := by
  rcases List.prefix_or_prefix_of_prefix left right with shorter | longer
  next => exact eq_of_after_eq place one other shorter same
  next => exact (eq_of_after_eq place other one longer same.symm).symm

end Place

namespace Token

structure Stands (source : Bytes) (token : Token) (before behind : Bytes) : Prop where
  spells : source = before ++ (token.text ++ behind)
  line : token.line = lineAt source before.length
  column : token.column = columnAt source before.length

theorem stands_iff (source : Bytes) (token : Token) (before behind : Bytes) :
    token.Stands source before behind ↔ source = before ++ (token.text ++ behind) ∧
      (⟨token.line, token.column⟩ : Place) = Place.start.after before := by
  have places : source = before ++ (token.text ++ behind) → Place.start.after before =
      ⟨lineAt source before.length, columnAt source before.length⟩ := by
    rintro rfl
    simp [Place.after_start, lineAt, columnAt]
  constructor
  next =>
    intro stands
    exact ⟨stands.spells, by rw [places stands.spells, stands.line, stands.column]⟩
  next =>
    rintro ⟨spells, place⟩
    rw [places spells] at place
    exact ⟨spells, congrArg Place.line place, congrArg Place.column place⟩

theorem stands_unique (source : Bytes) (token : Token) (before behind other rest : Bytes)
    (one : token.Stands source before behind) (two : token.Stands source other rest) :
    before = other ∧ behind = rest := by
  obtain ⟨spells, place⟩ := (stands_iff _ _ _ _).mp one
  obtain ⟨again, same⟩ := (stands_iff _ _ _ _).mp two
  have start : before = other := Place.after_injective .start source before other
    ⟨_, spells.symm⟩ ⟨_, again.symm⟩ (place.symm.trans same)
  subst start
  exact ⟨rfl, List.append_cancel_left (List.append_cancel_left (spells.symm.trans again))⟩

end Token

namespace Lexeme

structure ReadBehind (place : Place) (bytes : Bytes) (lexeme : Lexeme) (before : Bytes) (mode : Mode)
    (first : UInt8) (rest : Bytes) : Prop where
  spells : bytes = before ++ first :: rest
  place : lexeme.place = place.after before
  kind : (mode.read first rest).kind = some lexeme.kind
  text : lexeme.text = first :: rest.take (mode.read first rest).more

theorem ReadBehind.later {place : Place} {bytes : Bytes} {lexeme : Lexeme} {before : Bytes}
    {mode : Mode} {first : UInt8} {rest : Bytes} (text : Bytes)
    (reads : ReadBehind (place.after text) bytes lexeme before mode first rest) :
    ReadBehind place (text ++ bytes) lexeme (text ++ before) mode first rest where
  spells := by rw [reads.spells, List.append_assoc]
  place := by rw [reads.place, Place.after_append]
  kind := reads.kind
  text := reads.text

theorem list_readBehind (mode : Mode) (place : Place) (bytes : Bytes) :
    ∀ lexeme ∈ list mode place bytes, ∃ before mode first rest,
      ReadBehind place bytes lexeme before mode first rest := by
  induction mode, place, bytes using reading_induction with
  | done mode place => simp [list]
  | read mode place first rest ih =>
    intro lexeme member
    rw [list_cons, List.mem_append] at member
    rcases member with here | later
    next =>
      obtain ⟨kind, found, rfl⟩ := List.mem_map.mp here
      exact ⟨[], mode, first, rest, rfl, rfl, Option.mem_toList.mp found, rfl⟩
    next =>
      obtain ⟨before, inner, head, tail, reads⟩ := ih lexeme later
      have whole := reads.later
      rw [List.cons_append, List.take_append_drop] at whole
      exact ⟨_, inner, head, tail, whole⟩

end Lexeme

/-- What may become of the kind of a lexeme: a word may turn out to be a name, and `function` a
closure. -/
def Kind.InContext (own : Kind) (text : Bytes) (kind : Kind) : Prop :=
  kind = own ∨ (Token.readAsWord own text = true ∧ own = Kind.ofWord text ∧
    (kind = .identifier ∨ own = .function ∧ kind = .closure))

theorem Kind.InContext.eq_own {own kind : Kind} {text : Bytes} (context : own.InContext text kind)
    (noName : kind ≠ .identifier) (noClosure : kind ≠ .closure) : kind = own := by
  rcases context with same | ⟨_, _, name | ⟨_, closure⟩⟩
  next => exact same
  next => exact absurd name noName
  next => exact absurd closure noClosure

theorem Kind.InContext.eq_of_unlisted {own kind : Kind} {text : Bytes}
    (context : own.InContext text kind) (unlisted : own ∉ wordTable.map (·.2))
    (noName : own ≠ .identifier) : kind = own := by
  rcases context with same | ⟨_, spelled, _⟩
  next => exact same
  next => exact absurd spelled.symm (ofWord_ne own unlisted noName text)

namespace Lexeme

theorem kindIn_inContext (lexeme : Lexeme) (inside : lexeme.Inside) (afterIntroducer : Bool)
    (rest : List Lexeme) :
    lexeme.kind.InContext lexeme.text (kindIn afterIntroducer lexeme rest) := by
  rcases inside_cases lexeme inside with ⟨word, spelled⟩ | ⟨_, plain, noFunction, _⟩
  next =>
    simp only [kindIn]
    split_ifs with named closure
    next => exact .inr ⟨word, spelled, .inl rfl⟩
    next =>
      rw [Bool.and_eq_true, beq_iff_eq] at closure
      exact .inr ⟨word, spelled, .inr ⟨closure.1, rfl⟩⟩
    next => exact .inl rfl
  next => exact .inl (kindIn_symbol afterIntroducer lexeme rest plain noFunction)

theorem kinds_inContext (source : Bytes) :
    List.Forall₂ (fun kind (lexeme : Lexeme) => lexeme.kind.InContext lexeme.text kind)
      (kinds (ofSource source)) (ofSource source) := by
  apply kindsFrom_forall
  next => exact fun _ _ => .inl rfl
  next => exact fun lexeme inside afterIntroducer rest => kindIn_inContext lexeme inside _ rest
  next => exact fun _ => rfl

end Lexeme

namespace Token

/-- A token is what a reading takes where the token stands, with a kind that its context may give. -/
structure ReadAt (source : Bytes) (token : Token) (before : Bytes) (mode : Mode) (first : UInt8)
    (rest : Bytes) : Prop where
  stands : token.Stands source before (rest.drop (mode.read first rest).more)
  text : token.text = first :: rest.take (mode.read first rest).more
  kind : ∃ own, (mode.read first rest).kind = some own ∧ own.InContext token.text token.kind

theorem getElem?_readBehind (source : Bytes) (index : Nat) (token : Token)
    (found : (ofBytes source)[index]? = some token) :
    ∃ lexeme, (Lexeme.ofSource source)[index]? = some lexeme ∧
      token.text = lexeme.text ∧ (⟨token.line, token.column⟩ : Place) = lexeme.place ∧
      lexeme.kind.InContext lexeme.text token.kind := by
  obtain ⟨lexeme, kind, mark, foundLexeme, foundKind, _, rfl⟩ :=
    ofBytes_getElem? source index token found
  refine ⟨lexeme, foundLexeme, rfl, rfl, ?_⟩
  obtain ⟨withinLexemes, rfl⟩ := List.getElem?_eq_some_iff.mp foundLexeme
  obtain ⟨withinKinds, rfl⟩ := List.getElem?_eq_some_iff.mp foundKind
  exact (Lexeme.kinds_inContext source).get withinKinds withinLexemes

theorem readAt_of_readBehind (source : Bytes) (token : Token) (lexeme : Lexeme) (before : Bytes)
    (mode : Mode) (first : UInt8) (rest : Bytes)
    (reads : lexeme.ReadBehind .start source before mode first rest)
    (text : token.text = lexeme.text)
    (place : (⟨token.line, token.column⟩ : Place) = lexeme.place)
    (context : lexeme.kind.InContext lexeme.text token.kind) :
    token.ReadAt source before mode first rest where
  stands := by
    rw [stands_iff, text, reads.text, List.cons_append, List.take_append_drop]
    exact ⟨reads.spells, place.trans reads.place⟩
  text := text.trans reads.text
  kind := ⟨lexeme.kind, reads.kind, text ▸ context⟩

theorem readAt_of_mem (source : Bytes) (token : Token) (member : token ∈ ofBytes source) :
    ∃ before mode first rest, token.ReadAt source before mode first rest := by
  obtain ⟨index, found⟩ := List.mem_iff_getElem?.mp member
  obtain ⟨lexeme, foundLexeme, text, place, context⟩ := getElem?_readBehind source index token found
  obtain ⟨before, mode, first, rest, reads⟩ :=
    Lexeme.list_readBehind .html .start source lexeme (List.mem_of_getElem? foundLexeme)
  exact ⟨before, mode, first, rest, readAt_of_readBehind source token lexeme before mode first rest
    reads text place context⟩

theorem forall_stands (source : Bytes) (token : Token) (member : token ∈ ofBytes source)
    (P : Bytes → Bytes → Prop)
    (each : ∀ before mode first rest, token.ReadAt source before mode first rest →
      P before (rest.drop (mode.read first rest).more)) :
    (∃ before behind, token.Stands source before behind) ∧
      ∀ before behind, token.Stands source before behind → P before behind := by
  obtain ⟨before, mode, first, rest, reads⟩ := readAt_of_mem source token member
  refine ⟨⟨_, _, reads.stands⟩, fun other behind stands => ?_⟩
  obtain ⟨rfl, rfl⟩ := stands_unique source token _ _ _ _ reads.stands stands
  exact each before mode first rest reads

section ReadAt

variable {source : Bytes} {token : Token} {before : Bytes} {mode : Mode} {first : UInt8} {rest : Bytes}
  (reads : token.ReadAt source before mode first rest)

include reads

theorem ReadAt.here :
    token.text ++ rest.drop (mode.read first rest).more = first :: rest := by
  rw [reads.text, List.cons_append, List.take_append_drop]

theorem ReadAt.size : token.text.length = (mode.read first rest).more + 1 := by
  have within := Bytes.settled_le_length _ _ (Reading.settled_read mode first rest)
  rw [List.length_cons] at within
  rw [reads.text, List.length_cons, List.length_take, Nat.min_eq_left (by omega)]

theorem ReadAt.kind_eq (kind : Kind) (same : token.kind = kind) (noName : kind ≠ .identifier)
    (noClosure : kind ≠ .closure) : (mode.read first rest).kind = some kind := by
  obtain ⟨own, read, context⟩ := reads.kind
  rw [read, ← context.eq_own (same ▸ noName) (same ▸ noClosure), same]

theorem ReadAt.mode_eq (noTag : token.kind ≠ .openTag) (noMarkup : token.kind ≠ .inlineHtml) :
    mode = .php := by
  obtain ⟨own, read, context⟩ := reads.kind
  cases mode with
  | php => rfl
  | html =>
    rcases Reading.html_kind first rest with opens | text
    next =>
      obtain rfl : own = .openTag := Option.some.inj (read.symm.trans opens)
      exact absurd (context.eq_of_unlisted (by decide +kernel) (by decide)) noTag
    next =>
      obtain rfl : own = .inlineHtml := Option.some.inj (read.symm.trans text)
      exact absurd (context.eq_of_unlisted (by decide +kernel) (by decide)) noMarkup

end ReadAt

end Token

namespace Reading

open Byte

inductive Form (first : UInt8) (rest : Bytes) : Reading → Prop
  | blank (skipped : isBlank first = true) : Form first rest ⟨none, 0, .php⟩
  | closeTag (starts : first = question) (closes : rest.head? = some greater) :
      Form first rest ⟨some .closeTag, 1, .html⟩
  | lineComment (starts : first = slash ∧ rest.head? = some slash ∨ first = hash) :
      Form first rest (token .comment (Extent.lineComment rest))
  | blockComment (body : Bytes) (starts : first = slash) (opens : rest = asterisk :: body) :
      Form first rest (token .comment (Extent.blockComment body + 1))
  | heredoc (after : Bytes) (size : Nat) (starts : first = less) (opens : rest = less :: less :: after)
      (found : Extent.heredoc? after = some size) : Form first rest (token .string (size + 2))
  | quoted (quote : isQuote first = true) :
      Form first rest (token .string (Extent.quoted first rest))
  | variable (starts : first = dollar) (named : rest.head?.any isWord = true) :
      Form first rest (token .variable (Extent.word rest))
  | number (digit : isDigit first = true) : Form first rest (token .number (Extent.number rest))
  | word (starts : isWord first = true) (noDigit : isDigit first = false) :
      Form first rest
        (token (Kind.ofWord (first :: rest.take (Extent.word rest))) (Extent.word rest))
  | operator (more : Bytes) (symbol : isWord first = false)
      (listed : first :: more ∈ Kind.operatorTable) (fits : more <+: rest)
      (longest : ∀ other ∈ Kind.operatorTable, other <+: first :: rest →
        other.length ≤ (first :: more).length) :
      Form first rest (token (Kind.ofOperator (first :: more)) more.length)
  | symbol (symbol : isWord first = false)
      (unlisted : ∀ other ∈ Kind.operatorTable, ¬ other <+: first :: rest) :
      Form first rest (token .operator 0)

-- The table has the longer operators first, so the first that fits is the longest that fits.
theorem operator_longest (bytes text : Bytes)
    (found : Kind.operatorTable.find? (·.isPrefixOf bytes) = some text) :
    ∀ other ∈ Kind.operatorTable, other <+: bytes → other.length ≤ text.length := by
  have sorted : Kind.operatorTable.Pairwise fun one other => other.length ≤ one.length := by
    decide +kernel
  obtain ⟨_, before, after, split, misses⟩ := List.find?_eq_some_iff_append.mp found
  intro other member fits
  rw [split, List.mem_append, List.mem_cons] at member
  rw [split, List.pairwise_append, List.pairwise_cons] at sorted
  rcases member with earlier | rfl | later
  next =>
    have misfit := misses other earlier
    rw [List.isPrefixOf_iff_prefix.mpr fits] at misfit
    cases misfit
  next => exact le_rfl
  next => exact sorted.2.1.1 other later

theorem operator_form (first : UInt8) (rest : Bytes) (symbol : isWord first = false) :
    Form first rest (operator first rest) := by
  simp only [Reading.operator]
  cases found : Kind.operatorTable.find? (·.isPrefixOf (first :: rest)) with
  | none =>
    refine .symbol symbol fun other member fits => ?_
    exact List.find?_eq_none.mp found other member (List.isPrefixOf_iff_prefix.mpr fits)
  | some text =>
    have listed := List.mem_of_find?_eq_some found
    have held := List.find?_some found
    have longest := operator_longest (first :: rest) text found
    cases text with
    | nil => cases (operatorTable_ascii [] listed).1
    | cons head more =>
      obtain ⟨rfl, fits⟩ := List.cons_prefix_cons.mp (List.isPrefixOf_iff_prefix.mp held)
      exact .operator more symbol listed fits longest

theorem plain_form (first : UInt8) (rest : Bytes) : Form first rest (plain first rest) := by
  simp only [plain]
  split_ifs with quote named digit word
  next => exact .quoted quote
  next =>
    rw [Bool.and_eq_true, beq_iff_eq] at named
    exact .variable named.1 named.2
  next => exact .number digit
  next => exact .word word (by simpa using digit)
  next => exact operator_form first rest (by simpa using word)

theorem php_form (first : UInt8) (rest : Bytes) : Form first rest (php first rest) := by
  rw [php_eq]
  split_ifs with blank tag line block
  next => exact .blank blank
  next => exact .closeTag tag.1 tag.2
  next => exact .lineComment (line.imp_right And.left)
  next =>
    obtain ⟨body, rfl⟩ := List.head?_eq_some_iff.mp block.2
    exact .blockComment body block.1 rfl
  next =>
    cases found : heredocAt? first rest with
    | none => exact plain_form first rest
    | some size =>
      simp only [heredocAt?] at found
      split at found
      next => exact .heredoc _ size rfl rfl found
      next => cases found

end Reading

end CognitiveComplexity
