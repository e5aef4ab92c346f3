import CognitiveComplexity.Proofs.Token.Standing

set_option autoImplicit false

namespace CognitiveComplexity

def LongestRun (starts : Bytes → Prop) (bytes : Bytes) (size : Nat) : Prop :=
  (∀ offset < size, starts (bytes.drop offset)) ∧ ¬ starts (bytes.drop size)

theorem LongestRun.stop {starts : Bytes → Prop} {bytes : Bytes} (other : ¬ starts bytes) :
    LongestRun starts bytes 0 :=
  ⟨fun _ within => absurd within (Nat.not_lt_zero _), other⟩

theorem LongestRun.cons {starts : Bytes → Prop} {b : UInt8} {rest : Bytes} {size : Nat}
    (first : starts (b :: rest)) (run : LongestRun starts rest size) :
    LongestRun starts (b :: rest) (size + 1) := by
  refine ⟨fun offset within => ?_, run.2⟩
  cases offset with
  | zero => exact first
  | succ offset => exact run.1 offset (Nat.lt_of_succ_lt_succ within)

theorem LongestRun.not_mem {starts : Bytes → Prop} {here text : Bytes}
    (run : LongestRun starts here text.length) (within : text <+: here) (b : UInt8)
    (never : ∀ rest, ¬ starts (b :: rest)) : b ∉ text := by
  intro inside
  obtain ⟨offset, bound, rfl⟩ := List.getElem_of_mem inside
  obtain ⟨behind, rfl⟩ := within
  apply never ((text ++ behind).drop (offset + 1))
  have here := run.1 offset bound
  rwa [List.drop_eq_getElem_cons (by simp; omega), List.getElem_append_left bound] at here

namespace Bytes

open Byte

def StartsWord (bytes : Bytes) : Prop := ∃ b ∈ bytes.head?, isWord b = true

-- A byte of a number. A dot is one only directly before a digit.
def StartsNumber (bytes : Bytes) : Prop :=
  ∃ b rest, bytes = b :: rest ∧
    (isAlphanumeric b = true ∨ b = underscore ∨ b = dot ∧ ∃ digit ∈ rest.head?, isDigit digit = true)

end Bytes

namespace Extent

open Byte Bytes

theorem word_run (bytes : Bytes) : LongestRun StartsWord bytes (word bytes) := by
  induction bytes with
  | nil =>
    apply LongestRun.stop
    simp [StartsWord]
  | cons b rest ih =>
    cases inside : isWord b with
    | true =>
      rw [word, List.takeWhile_cons_of_pos inside]
      apply LongestRun.cons _ ih
      simp [StartsWord, inside]
    | false =>
      rw [word, List.takeWhile_cons_of_neg (by simp [inside])]
      apply LongestRun.stop
      simp [StartsWord, inside]

theorem take_word_ne_nil (rest : Bytes) (named : rest.head?.any isWord = true) :
    rest.take (word rest) ≠ [] := by
  obtain ⟨b, found, inside⟩ := (Option.any_eq_true _ _).mp named
  obtain ⟨tail, rfl⟩ := List.head?_eq_some_iff.mp found
  simp [word, inside]

theorem startsNumber_cons (b : UInt8) (rest : Bytes) :
    StartsNumber (b :: rest) ↔
      (isAlphanumeric b || b == underscore || (b == dot && rest.head?.any isDigit)) = true := by
  simp [StartsNumber, Option.any_eq_true, or_assoc]

theorem number_run (bytes : Bytes) : LongestRun StartsNumber bytes (number bytes) := by
  induction bytes with
  | nil =>
    apply LongestRun.stop
    simp [StartsNumber]
  | cons b rest ih =>
    rw [number]
    split_ifs with inside
    next => exact .cons ((startsNumber_cons b rest).mpr inside) ih
    next => exact .stop fun starts => inside ((startsNumber_cons b rest).mp starts)

end Extent

namespace Token

open Byte Bytes

/-- The forms of a token that is neither a literal nor a tag, where `here` is the source from its start
on. -/
inductive Munched (token : Token) (here : Bytes) : Prop
  | variable (name : Bytes) (kind : token.kind = .variable) (text : token.text = dollar :: name)
      (filled : name ≠ []) (run : LongestRun StartsWord here.tail name.length)
  | number (kind : token.kind = .number) (digit : ∃ b ∈ token.text.head?, isDigit b = true)
      (run : LongestRun StartsNumber here token.text.length)
  | word (kind : token.kind = .identifier ∨ Kind.keyword? (lower token.text) = some token.kind ∨
        token.kind = .closure ∧ lower token.text = ofString "function")
      (noDigit : ∃ b ∈ token.text.head?, isDigit b = false)
      (run : LongestRun StartsWord here token.text.length)
  | operator (kind : token.kind = Kind.ofOperator token.text)
      (listed : token.text ∈ Kind.operatorTable)
      (longest : ∀ other ∈ Kind.operatorTable, other <+: here → other.length ≤ token.text.length)
  | symbol (kind : token.kind = .operator) (single : token.text.length = 1)
      (unlisted : ∀ other ∈ Kind.operatorTable, ¬ other <+: here)

theorem word_kind_of_context (kind : Kind) (text : Bytes)
    (context : (Kind.ofWord text).InContext text kind) :
    kind = .identifier ∨ Kind.keyword? (lower text) = some kind ∨
      kind = .closure ∧ lower text = ofString "function" := by
  rcases context with rfl | ⟨_, _, name | ⟨function, closure⟩⟩
  next =>
    cases found : Kind.keyword? (lower text) with
    | none => exact .inl (by simp [Kind.ofWord, found])
    | some kind => exact .inr (.inl (by simp [Kind.ofWord, found]))
  next => exact .inl name
  next => exact .inr (.inr ⟨closure, (Kind.ofWord_eq_function text).mp function⟩)

theorem eq_own_of_symbol (own kind : Kind) (first : UInt8) (rest : Bytes)
    (symbol : isWord first = false) (context : own.InContext (first :: rest) kind) : kind = own := by
  rcases context with same | ⟨word, _⟩
  next => exact same
  next => simp [readAsWord, symbol] at word

theorem literal_kept (own kind : Kind) (text : Bytes)
    (listed : own ∈ [Kind.string, .comment, .closeTag]) (context : own.InContext text kind) :
    kind = own := by
  have unlisted : ∀ own ∈ [Kind.string, .comment, .closeTag],
      own ∉ Kind.wordTable.map (·.2) ∧ own ≠ .identifier := by decide +kernel
  exact context.eq_of_unlisted (unlisted own listed).1 (unlisted own listed).2

theorem munched_of_readAt {source : Bytes} {token : Token} {before : Bytes} {mode : Mode}
    {first : UInt8} {rest : Bytes} (reads : token.ReadAt source before mode first rest)
    (code : token.kind ∉ [.string, .comment, .inlineHtml, .openTag, .closeTag]) :
    token.Munched (first :: rest) := by
  have noTag : token.kind ≠ .openTag := fun tag => code (by simp [tag])
  have noMarkup : token.kind ≠ .inlineHtml := fun markup => code (by simp [markup])
  obtain rfl := reads.mode_eq noTag noMarkup
  obtain ⟨own, kind, context⟩ := reads.kind
  have text := reads.text
  have size := reads.size
  have form := Reading.php_form first rest
  simp only [Mode.read] at kind text size
  have literal (listed : own ∈ [Kind.string, .comment, .closeTag]) : False := by
    apply code
    rw [literal_kept own _ _ listed context]
    simp only [List.mem_cons, List.not_mem_nil, or_false] at listed ⊢
    grind
  have head : token.text.head? = some first := by rw [text, List.head?_cons]
  generalize Reading.php first rest = reading at form kind text size
  cases form with
  | blank => cases kind
  | closeTag | lineComment | blockComment | heredoc | quoted =>
    cases kind
    exact (literal (by decide)).elim
  | «variable» starts named =>
    cases kind
    have length : (rest.take (Extent.word rest)).length = Extent.word rest := by
      rw [text, List.length_cons] at size
      exact Nat.succ.inj size
    apply Munched.variable (rest.take (Extent.word rest))
    next => exact context.eq_of_unlisted (by decide +kernel) (by decide)
    next => rw [text, starts]; rfl
    next => exact Extent.take_word_ne_nil rest named
    next =>
      rw [length]
      exact Extent.word_run rest
  | number digit =>
    cases kind
    apply Munched.number
    next => exact context.eq_of_unlisted (by decide +kernel) (by decide)
    next => exact ⟨first, head, digit⟩
    next =>
      rw [size]
      apply LongestRun.cons _ (Extent.number_run rest)
      simp [Extent.startsNumber_cons, isAlphanumeric, digit]
  | word starts noDigit =>
    cases kind
    apply Munched.word
    next =>
      apply word_kind_of_context
      simpa [text, Reading.token] using context
    next => exact ⟨first, head, noDigit⟩
    next =>
      rw [size]
      exact .cons ⟨first, rfl, starts⟩ (Extent.word_run rest)
  | operator more symbol listed fits longest =>
    cases kind
    have spelled : token.text = first :: more := by
      rw [text]
      exact congrArg _ (List.prefix_iff_eq_take.mp fits).symm
    rw [spelled] at context
    apply Munched.operator
    next => rw [spelled, eq_own_of_symbol _ _ _ _ symbol context]
    next => rwa [spelled]
    next => rwa [spelled]
  | symbol symbol unlisted =>
    cases kind
    rw [text] at context
    exact .symbol (eq_own_of_symbol _ _ _ _ symbol context) size unlisted

-- No operator starts like a word, a number or a variable.
theorem operatorTable_starts (text : Bytes) (listed : text ∈ Kind.operatorTable) :
    ∃ first rest, text = first :: rest ∧ isWord first = false ∧ first ≠ dollar := by
  have table : ∀ text ∈ Kind.operatorTable,
      text.head?.any (fun first => !isWord first && first != dollar) = true := by decide +kernel
  obtain ⟨first, found, plain⟩ := (Option.any_eq_true _ _).mp (table text listed)
  obtain ⟨rest, rfl⟩ := List.head?_eq_some_iff.mp found
  exact ⟨first, rest, rfl, by simpa using plain⟩

theorem isWord_of_isDigit (b : UInt8) : isDigit b = true → isWord b = true := by
  revert b
  exact forall_bytes (by decide +kernel)

theorem Munched.longest {token : Token} {here : Bytes} (munched : token.Munched here)
    (starts : token.text <+: here) (other : Bytes) (listed : other ∈ Kind.operatorTable)
    (fits : other <+: here) : other.length ≤ token.text.length := by
  obtain ⟨first, rest, rfl, symbol, noDollar⟩ := operatorTable_starts other listed
  -- Both start with the first byte of the source here.
  have shared (b : UInt8) (head : token.text.head? = some b) : b = first := by
    obtain ⟨tail, spelled⟩ := List.head?_eq_some_iff.mp head
    obtain ⟨behind, rfl⟩ := fits
    rw [spelled] at starts
    exact (List.cons_prefix_cons.mp starts).1
  cases munched with
  | «variable» name kind text => exact absurd (shared dollar (by simp [text])).symm noDollar
  | number kind digit =>
    obtain ⟨b, head, digit⟩ := digit
    rw [shared b head] at digit
    cases symbol.symm.trans (isWord_of_isDigit first digit)
  | word kind noDigit run =>
    obtain ⟨b, head, _⟩ := noDigit
    obtain ⟨tail, spelled⟩ := List.head?_eq_some_iff.mp head
    obtain ⟨c, found, word⟩ := run.1 0 (by simp [spelled])
    obtain ⟨behind, rfl⟩ := fits
    obtain rfl : first = c := by simpa using found
    cases symbol.symm.trans word
  | operator kind own longest => exact longest _ listed fits
  | symbol kind single unlisted => exact absurd fits (unlisted _ listed)

end Token

namespace Kind

def symbolKinds : List Kind :=
  [.openCurly, .closeCurly, .openParen, .closeParen, .semicolon] ++
    increasing.filter (operatorKinds.map (·.2)).contains

theorem mem_operatorKinds (text : Bytes) (kind : Kind) (same : kind = ofOperator text)
    (other : kind ≠ .operator) : (text, kind) ∈ operatorKinds := by
  cases found : operatorKinds.lookup text with
  | none => exact absurd (by simp [same, ofOperator, found]) other
  | some listed =>
    obtain ⟨before, after, split, _⟩ := List.lookup_eq_some_iff.mp found
    have kind_eq : kind = listed := by rw [same, ofOperator, found, Option.getD_some]
    simp [kind_eq, split]

end Kind

namespace Token

open Byte Bytes

theorem Munched.own_symbol {token : Token} {here : Bytes} (munched : token.Munched here)
    (symbol : token.kind ∈ Kind.symbolKinds) : (token.text, token.kind) ∈ Kind.operatorKinds := by
  have table : ∀ kind ∈ Kind.symbolKinds, kind ∉ Kind.wordTable.map (·.2) ∧
      kind ∉ [Kind.variable, .number, .identifier, .closure, .operator] := by decide +kernel
  obtain ⟨noWord, other⟩ := table token.kind symbol
  simp only [List.mem_cons, List.not_mem_nil, or_false, not_or] at other
  cases munched with
  | «variable» name kind => exact absurd kind other.1
  | number kind => exact absurd kind other.2.1
  | word kind =>
    rcases kind with name | keyword | ⟨closure, _⟩
    next => exact absurd name other.2.2.1
    next => exact absurd (List.mem_map_of_mem (Kind.keyword_listed _ _ keyword)) noWord
    next => exact absurd closure other.2.2.2.1
  | operator kind => exact Kind.mem_operatorKinds _ _ kind other.2.2.2.2
  | symbol kind => exact absurd kind other.2.2.2.2

theorem Munched.bitwiseAnd_text {token : Token} {here : Bytes} (munched : token.Munched here)
    (kind : token.kind = .bitwiseAnd) : token.text = ofString "&" := by
  have table : ∀ entry ∈ Kind.operatorKinds, entry.2 = .bitwiseAnd → entry.1 = ofString "&" := by
    decide +kernel
  have symbol : Kind.bitwiseAnd ∈ Kind.symbolKinds := by decide +kernel
  exact table _ (munched.own_symbol (kind ▸ symbol)) kind

theorem munched_of_stands (source : Bytes) (token : Token) (member : token ∈ ofBytes source)
    (code : token.kind ∉ [.string, .comment, .inlineHtml, .openTag, .closeTag]) :
    (∃ before behind, token.Stands source before behind) ∧
      ∀ before behind, token.Stands source before behind →
        token.Munched (token.text ++ behind) := by
  apply forall_stands source token member
  intro before mode first rest reads
  rw [reads.here]
  exact munched_of_readAt reads code

/-- Words, variables, numbers and operators are as long as they can be, and their text decides their
kind. So two operators never touch where the table has a longer one for both. -/
theorem longest_and_kind_of_text (source : String) (token : Token) (member : token ∈ stream source)
    (code : token.kind ∉ [.string, .comment, .inlineHtml, .openTag, .closeTag]) :
    (∃ before behind, token.Stands (ofString source) before behind) ∧
      ∀ before behind, token.Stands (ofString source) before behind →
        token.Munched (token.text ++ behind) ∧
        (token.kind ∈ Kind.symbolKinds → (token.text, token.kind) ∈ Kind.operatorKinds) ∧
        ∀ next ∈ stream source, ∀ later,
          next.Stands (ofString source) (before ++ token.text) later →
            (∀ other ∈ Kind.operatorTable, other <+: token.text ++ next.text →
              other.length ≤ token.text.length) ∧
            (token.kind = .bitwiseAnd → next.kind ≠ .bitwiseAnd) := by
  obtain ⟨placed, all⟩ := munched_of_stands (ofString source) token member code
  refine ⟨placed, fun before behind stands => ?_⟩
  have munched := all before behind stands
  refine ⟨munched, munched.own_symbol, fun next follows later adjacent => ?_⟩
  have split : behind = next.text ++ later := by
    have spells := stands.spells.symm.trans adjacent.spells
    rw [List.append_assoc] at spells
    exact List.append_cancel_left (List.append_cancel_left spells)
  have longest (other : Bytes) (listed : other ∈ Kind.operatorTable)
      (fits : other <+: token.text ++ next.text) : other.length ≤ token.text.length := by
    apply munched.longest (List.prefix_append _ _) other listed
    rw [split, ← List.append_assoc]
    exact fits.trans (List.prefix_append _ _)
  refine ⟨longest, fun kind again => ?_⟩
  have behindIt := (munched_of_stands (ofString source) next follows (by simp [again])).2 _ _ adjacent
  have text := munched.bitwiseAnd_text kind
  have both : ofString "&&" <+: token.text ++ next.text := by
    rw [text, behindIt.bitwiseAnd_text again]
    decide +kernel
  have short := longest (ofString "&&") (by decide +kernel) both
  rw [text] at short
  revert short
  decide +kernel

-- Of three signs in a row the first two are one operator.
theorem longest_and_kind_of_text_signs :
    let source := "<?php $a&&&$b;"
    let token : Token := ⟨.bitwiseAnd, ofString "&", 3, 0, 1, 11, none⟩
    let next : Token := ⟨.variable, ofString "$b", 4, 0, 1, 12, none⟩
    token ∈ stream source ∧ next ∈ stream source ∧
      token.Stands (ofString source) (ofString "<?php $a&&") (ofString "$b;") ∧
      next.Stands (ofString source) (ofString "<?php $a&&" ++ token.text) (ofString ";") ∧
      token.Munched (token.text ++ ofString "$b;") ∧
      (token.text, token.kind) ∈ Kind.operatorKinds ∧
      ∀ other ∈ Kind.operatorTable, other <+: token.text ++ next.text →
        other.length ≤ token.text.length := by
  intro source token next
  have member : token ∈ stream source := by decide +kernel
  have follows : next ∈ stream source := by decide +kernel
  have stands : token.Stands (ofString source) (ofString "<?php $a&&") (ofString "$b;") := by
    constructor <;> decide +kernel
  have adjacent : next.Stands (ofString source) (ofString "<?php $a&&" ++ token.text)
      (ofString ";") := by
    constructor <;> decide +kernel
  obtain ⟨munched, own, touching⟩ :=
    (longest_and_kind_of_text source token member (by decide)).2 _ _ stands
  exact ⟨member, follows, stands, adjacent, munched, own (by decide +kernel),
    (touching next follows _ adjacent).1⟩

end Token

end CognitiveComplexity
