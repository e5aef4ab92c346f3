import CognitiveComplexity.Proofs.Scanner.Safety
import CognitiveComplexity.Proofs.Token.Layout
import CognitiveComplexity.Proofs.Token.Stop

set_option autoImplicit false

namespace CognitiveComplexity

def Kind.isStop : Kind → Bool
  | .semicolon | .openCurly | .closeCurly => true
  | _ => false

theorem Kind.beq_of_isStop (kind other : Kind) (stop : kind.isStop = true)
    (plain : other.isStop = false) : (kind == other) = false := by
  rw [beq_eq_false_iff_ne]
  rintro rfl
  rw [stop] at plain
  cases plain

theorem Kind.ofWord_isStop (word : Bytes) : (Kind.ofWord word).isStop = false := by
  have listed : ∀ entry ∈ wordTable, entry.2.isStop = false := by decide +kernel
  unfold ofWord keyword?
  cases found : wordTable.lookup (Bytes.lower word) with
  | none => rfl
  | some kind =>
    obtain ⟨before, after, split, _⟩ := List.lookup_eq_some_iff.mp found
    exact listed (Bytes.lower word, kind) (by simp [split])

namespace Reading

open Byte Bytes

theorem operatorTable_stop (text : Bytes) (listed : text ∈ Kind.operatorTable) :
    (Stopped text → text.length = 1) ∧ ((Kind.ofOperator text).isStop = true → Stopped text) := by
  have table : ∀ text ∈ Kind.operatorTable,
      (Stopped text → text.length = 1) ∧
        ((Kind.ofOperator text).isStop = true → Stopped text) := by
    decide +kernel
  exact table text listed

section Append

variable (first : UInt8) (rest more : Bytes)

theorem operator_append (stopped : Stopped (first :: rest)) :
    operator first (rest ++ more) = operator first rest := by
  have same : ∀ text ∈ Kind.operatorTable,
      text.isPrefixOf (first :: (rest ++ more)) = text.isPrefixOf (first :: rest) := by
    intro text listed
    by_cases single : Stopped text
    · obtain ⟨b, rfl⟩ := List.length_eq_one_iff.mp ((operatorTable_stop text listed).1 single)
      rfl
    · rw [Bool.eq_iff_iff, List.isPrefixOf_iff_prefix, List.isPrefixOf_iff_prefix,
        ← List.cons_append]
      exact prefix_append_stopped (first :: rest) more text single stopped
  have found : Kind.operatorTable.find? (·.isPrefixOf (first :: (rest ++ more))) =
      Kind.operatorTable.find? (·.isPrefixOf (first :: rest)) := by
    rw [← List.head?_filter, ← List.head?_filter, List.filter_congr same]
  unfold operator
  rw [found]

theorem plain_append (stopped : Stopped (rest.drop (plain first rest).more)) :
    plain first (rest ++ more) = plain first rest := by
  have inside := stopped_of_drop _ _ stopped
  have whole : Stopped (first :: rest) := (stopped_cons first rest).mpr (.inr inside)
  unfold plain at stopped ⊢
  rw [head?_append_stopped rest more inside, Extent.word_append rest more inside,
    Extent.number_append rest more inside, operator_append first rest more whole]
  split_ifs at stopped ⊢
  · rw [Extent.quoted_append rest more first stopped]
  · rfl
  · rfl
  · have within : Extent.word rest ≤ rest.length := (List.takeWhile_prefix _).length_le
    simp only [List.take_append_of_le_length within]
  · rfl

theorem heredocAt_eq (second third : UInt8) (after : Bytes) :
    heredocAt? first (second :: third :: after) =
      if first = less ∧ second = less ∧ third = less then Extent.heredoc? after else none := by
  unfold heredocAt?
  split
  · next same =>
    simp only [List.cons.injEq] at same
    obtain ⟨rfl, rfl, rfl⟩ := same
    rfl
  · next other =>
    rw [if_neg]
    rintro ⟨rfl, rfl, rfl⟩
    exact other after rfl rfl

theorem heredocAt_append (stopped : Stopped rest)
    (behind : ∀ size, heredocAt? first rest = some size → Stopped (rest.drop (size + 2))) :
    heredocAt? first (rest ++ more) = heredocAt? first rest := by
  rcases rest with _ | ⟨second, _ | ⟨third, after⟩⟩
  · exact (not_stopped_nil stopped).elim
  · have other : second ≠ less := by
      rintro rfl
      revert stopped
      decide
    simp [heredocAt?, other]
  · rw [List.cons_append, List.cons_append, heredocAt_eq, heredocAt_eq]
    split
    · next opens =>
      obtain ⟨rfl, rfl, rfl⟩ := opens
      have later : Stopped after :=
        stopped_tail less after (by decide) (stopped_tail less _ (by decide) stopped)
      exact Extent.heredoc_append after more later behind
    · rfl

theorem php_append (stopped : Stopped (rest.drop (php first rest).more)) :
    php first (rest ++ more) = php first rest := by
  have inside := stopped_of_drop _ _ stopped
  rw [php_eq] at stopped
  rw [php_eq, php_eq, head?_append_stopped rest more inside]
  split_ifs at stopped ⊢
  · rfl
  · rfl
  · rw [Extent.lineComment_append rest more stopped]
  · rw [List.drop_append_of_le_length (stopped_length_pos rest inside),
      Extent.blockComment_append (rest.drop 1) more]
    rwa [List.drop_drop, Nat.add_comm]
  · have same : heredocAt? first (rest ++ more) = heredocAt? first rest := by
      refine heredocAt_append first rest more inside fun size found => ?_
      rwa [found] at stopped
    rw [same]
    cases found : heredocAt? first rest with
    | some size => rfl
    | none =>
      rw [found] at stopped
      exact plain_append first rest more stopped

theorem html_append (stopped : Stopped (rest.drop (html first rest).more)) :
    html first (rest ++ more) = html first rest := by
  have inside := stopped_of_drop _ _ stopped
  have tag := Extent.openTag_append (first :: rest) more ((stopped_cons first rest).mpr (.inr inside))
  rw [List.cons_append] at tag
  unfold html at stopped ⊢
  rw [tag]
  cases found : Extent.openTag? (first :: rest) with
  | some size => rfl
  | none =>
    rw [found] at stopped
    simp only [Extent.html_append rest more stopped]

-- A reading that ends in front of a stop is the same whatever is put behind.
theorem read_append (mode : Mode) (stopped : Stopped (rest.drop (mode.read first rest).more)) :
    mode.read first (rest ++ more) = mode.read first rest := by
  cases mode with
  | html => exact html_append first rest more stopped
  | php => exact php_append first rest more stopped

theorem plain_of_isStop (stop : isStop first = true) :
    plain first rest = token (Kind.ofOperator [first]) 0 := by
  have other : isQuote first = false ∧ first ≠ dollar ∧ isDigit first = false := by
    rcases isStop_cases first stop with rfl | rfl | rfl <;> decide
  have alone : operator first rest = operator first [] :=
    operator_append first [] rest ⟨first, List.mem_singleton_self first, stop⟩
  have single : operator first [] = token (Kind.ofOperator [first]) 0 := by
    rcases isStop_cases first stop with rfl | rfl | rfl <;> decide +kernel
  simp [plain, other, isWord_of_isStop first stop, alone, single]

theorem read_of_isStop (stop : isStop first = true) :
    Mode.php.read first rest = token (Kind.ofOperator [first]) 0 := by
  have other : isBlank first = false ∧ first ≠ question ∧ first ≠ slash ∧ first ≠ hash ∧
      first ≠ less := by
    rcases isStop_cases first stop with rfl | rfl | rfl <;> decide
  have noHeredoc : heredocAt? first rest = none := by
    unfold heredocAt?
    split
    · exact absurd rfl other.2.2.2.2
    · rfl
  simp only [Mode.read]
  rw [php_eq, noHeredoc]
  simp [other, plain_of_isStop first rest stop]

theorem isStop_of_operator (kind : Kind) (found : (operator first rest).kind = some kind)
    (stop : kind.isStop = true) : isStop first = true := by
  rcases operator_cases first rest with ⟨more, listed, _, read⟩ | single
  · rw [read] at found
    cases found
    obtain ⟨alone, stopped⟩ := operatorTable_stop _ listed
    have text := stopped stop
    have length := alone text
    rw [List.length_cons, Nat.add_eq_right, List.length_eq_zero_iff] at length
    simpa [length, Stopped] using text
  · rw [single] at found
    cases found
    cases stop

theorem isStop_of_read (mode : Mode) (kind : Kind) (found : (mode.read first rest).kind = some kind)
    (stop : kind.isStop = true) : mode = .php ∧ isStop first = true := by
  -- Only operators have such kinds.
  have never (other : Kind) (plain : other.isStop = false) : some other ≠ some kind := by
    rintro ⟨⟩
    cases stop.symm.trans plain
  cases mode with
  | html =>
    simp only [Mode.read, html] at found
    split at found
    · exact (never _ rfl found).elim
    · exact (never _ rfl found).elim
  | php =>
    refine ⟨rfl, ?_⟩
    simp only [Mode.read, php_eq] at found
    split_ifs at found
    · exact (never _ rfl found).elim
    · exact (never _ rfl found).elim
    · exact (never _ rfl found).elim
    split at found
    · exact (never _ rfl found).elim
    unfold plain at found
    split_ifs at found
    · exact (never _ rfl found).elim
    · exact (never _ rfl found).elim
    · exact (never _ rfl found).elim
    · exact (never _ (Kind.ofWord_isStop _) found).elim
    · exact isStop_of_operator first rest kind found stop

end Append

end Reading

namespace Lexeme

open Byte Bytes

def Closed (lexemes : List Lexeme) : Prop :=
  ∃ lexeme, lexemes.getLast? = some lexeme ∧ lexeme.kind.isStop = true

theorem closed_cons (lexeme : Lexeme) (rest : List Lexeme) :
    Closed (lexeme :: rest) ↔ (rest = [] ∧ lexeme.kind.isStop = true) ∨ Closed rest := by
  cases rest with
  | nil => simp [Closed]
  | cons next rest => simp [Closed]

theorem list_subset (mode : Mode) (place : Place) (bytes : Bytes) :
    ∀ lexeme ∈ list mode place bytes, ∀ b ∈ lexeme.text, b ∈ bytes := by
  induction mode, place, bytes using reading_induction with
  | done mode place => simp [list]
  | read mode place first rest ih =>
    intro lexeme member b inside
    rw [list_cons, List.mem_append] at member
    rcases member with here | later
    · obtain ⟨kind, _, rfl⟩ := List.mem_map.mp here
      rcases List.mem_cons.mp inside with rfl | taken
      · exact List.mem_cons_self
      · exact List.mem_cons_of_mem _ (List.mem_of_mem_take taken)
    · exact List.mem_cons_of_mem _ (List.mem_of_mem_drop (ih lexeme later b inside))

theorem list_stop_text (mode : Mode) (place : Place) (bytes : Bytes) :
    ∀ lexeme ∈ list mode place bytes, lexeme.kind.isStop = true →
      ∃ b, lexeme.text = [b] ∧ isStop b = true := by
  apply list_forall
  intro mode place first rest kind read stop
  obtain ⟨rfl, isStop⟩ := Reading.isStop_of_read first rest mode kind read stop
  rw [Reading.read_of_isStop first rest isStop]
  exact ⟨first, rfl, isStop⟩

theorem stopped_of_closed (mode : Mode) (place : Place) (bytes : Bytes)
    (closed : Closed (list mode place bytes)) : Stopped bytes := by
  obtain ⟨lexeme, last, stop⟩ := closed
  have member := List.mem_of_getLast? last
  obtain ⟨b, text, isStop⟩ := list_stop_text mode place bytes lexeme member stop
  exact ⟨b, list_subset mode place bytes lexeme member b (by simp [text]), isStop⟩

theorem list_append_of_empty (place : Place) (bytes more : Bytes)
    (empty : list .php place bytes = []) :
    list .php place (bytes ++ more) = list .php (place.after bytes) more := by
  induction bytes generalizing place with
  | nil => rfl
  | cons b rest ih =>
    rw [list_cons, List.append_eq_nil_iff, List.map_eq_nil_iff, Option.toList_eq_nil_iff] at empty
    -- Nothing is read here, so the byte is a blank.
    obtain ⟨blank, single⟩ := Reading.blank_of_no_kind .php b rest empty.1
    have skips (tail : Bytes) : Mode.php.read b tail = ⟨none, 0, .php⟩ := by
      simp only [Mode.read, Reading.php, blank, if_true]
    have later := empty.2
    rw [skips] at later
    rw [List.cons_append, list_cons, skips]
    exact ih (place.after [b]) later

/-- Behind a semicolon or a curly bracket the lexemes go on as if they began there. -/
theorem list_append (mode : Mode) (place : Place) (bytes more : Bytes)
    (closed : Closed (list mode place bytes)) :
    list mode place (bytes ++ more) =
      list mode place bytes ++ list .php (place.after bytes) more := by
  induction mode, place, bytes using reading_induction with
  | done mode place =>
    obtain ⟨lexeme, last, _⟩ := closed
    simp [list] at last
  | read mode place first rest ih =>
    rw [list_cons] at closed
    cases later : list (mode.read first rest).mode
        (place.after (first :: rest.take (mode.read first rest).more))
        (rest.drop (mode.read first rest).more) with
    -- The stop is read here and only blanks follow it.
    | nil =>
      rw [later, List.append_nil] at closed
      obtain ⟨lexeme, last, stop⟩ := closed
      obtain ⟨kind, found, rfl⟩ := List.mem_map.mp (List.mem_of_getLast? last)
      obtain ⟨rfl, isStop⟩ :=
        Reading.isStop_of_read first rest mode kind (Option.mem_toList.mp found) stop
      have reads (tail : Bytes) := Reading.read_of_isStop first tail isStop
      rw [reads] at later
      have rested := list_append_of_empty (place.after [first]) rest more later
      rw [List.cons_append, list_cons, list_cons, reads, reads]
      simp only [Reading.token, List.take_zero, List.drop_zero] at later rested ⊢
      rw [rested, later, List.append_nil]
      rfl
    -- The stop is behind what is read here, which then does not see the text put behind.
    | cons next others =>
      have closedLater : Closed (list (mode.read first rest).mode
          (place.after (first :: rest.take (mode.read first rest).more))
          (rest.drop (mode.read first rest).more)) := by
        obtain ⟨lexeme, last, stop⟩ := closed
        rw [List.getLast?_append_of_ne_nil _ (by simp [later])] at last
        exact ⟨lexeme, last, stop⟩
      have stopped := stopped_of_closed _ _ _ closedLater
      have within : (mode.read first rest).more ≤ rest.length := by
        have length := stopped_length_pos _ stopped
        rw [List.length_drop] at length
        omega
      have following := ih closedLater
      rw [List.cons_append, list_cons, Reading.read_append first rest more mode stopped,
        List.take_append_of_le_length within, List.drop_append_of_le_length within, following,
        list_cons, List.append_assoc, ← Place.after_append, List.cons_append,
        List.take_append_drop]

theorem parametersFollow_append (kinds more : List Kind)
    (stop : ∃ kind ∈ kinds, kind.isStop = true) :
    parametersFollow (kinds ++ more) = parametersFollow kinds := by
  obtain ⟨kind, member, stop⟩ := stop
  cases kinds with
  | nil => cases member
  | cons next rest =>
    rcases List.mem_cons.mp member with rfl | later
    · simp [parametersFollow, Kind.beq_of_isStop kind .openParen stop rfl,
        Kind.beq_of_isStop kind .bitwiseAnd stop rfl]
    -- What decides are the next two kinds, and both are in front of the stop or it itself.
    · cases rest with
      | nil => cases later
      | cons second rest => rfl

theorem startsParameters_append (lexemes more : List Lexeme)
    (stop : ∃ lexeme ∈ lexemes, lexeme.kind.isStop = true) :
    startsParameters (lexemes ++ more) = startsParameters lexemes := by
  obtain ⟨lexeme, member, stop⟩ := stop
  rw [startsParameters_eq, startsParameters_eq, List.map_append, List.filter_append]
  refine parametersFollow_append _ _ ⟨lexeme.kind, ?_, stop⟩
  refine List.mem_filter.mpr ⟨List.mem_map_of_mem member, ?_⟩
  rw [bne, Kind.beq_of_isStop _ _ stop rfl]
  rfl

theorem kindsFrom_append (afterIntroducer : Bool) (lexemes more : List Lexeme)
    (closed : Closed lexemes)
    (noWord : ∀ lexeme ∈ lexemes, lexeme.kind.isStop = true → lexeme.isWord = false) :
    kindsFrom afterIntroducer (lexemes ++ more) =
      kindsFrom afterIntroducer lexemes ++ kindsFrom false more := by
  induction lexemes generalizing afterIntroducer with
  | nil =>
    obtain ⟨lexeme, last, _⟩ := closed
    cases last
  | cons lexeme rest ih =>
    rcases (closed_cons lexeme rest).mp closed with ⟨rfl, stop⟩ | later
    -- The stop is no word and no `function`, and introduces no name.
    · have plain := noWord lexeme List.mem_cons_self stop
      simp [kindsFrom, kindIn, isComment, introducesName, plain,
        Kind.beq_of_isStop lexeme.kind .comment stop rfl,
        Kind.beq_of_isStop lexeme.kind .function stop rfl,
        Kind.beq_of_isStop lexeme.kind .operator stop rfl]
    · have following := fun flag => ih flag later fun other member =>
        noWord other (List.mem_cons_of_mem _ member)
      have same : startsParameters (rest ++ more) = startsParameters rest := by
        obtain ⟨last, isLast, stop⟩ := later
        exact startsParameters_append rest more ⟨last, List.mem_of_getLast? isLast, stop⟩
      simp only [List.cons_append, kindsFrom, kindIn, same, following]
      split <;> rfl

theorem isWord_of_stop (mode : Mode) (place : Place) (bytes : Bytes) :
    ∀ lexeme ∈ list mode place bytes, lexeme.kind.isStop = true → lexeme.isWord = false := by
  intro lexeme member stop
  obtain ⟨b, text, isStop⟩ := list_stop_text mode place bytes lexeme member stop
  rcases isStop_cases b isStop with rfl | rfl | rfl <;> simp only [isWord, text] <;> decide

-- A lexeme without its place, which is all that its context goes by.

def spelling (lexeme : Lexeme) : Kind × Bytes := (lexeme.kind, lexeme.text)

theorem list_spelling (mode : Mode) (place other : Place) (bytes : Bytes) :
    (list mode place bytes).map spelling = (list mode other bytes).map spelling := by
  induction mode, place, bytes using reading_induction generalizing other with
  | done mode place => simp [list]
  | read mode place first rest ih =>
    rw [list_cons, list_cons, List.map_append, List.map_append, List.map_map, List.map_map,
      ih (other.after (first :: rest.take (mode.read first rest).more))]
    rfl

theorem kindsFrom_spelling (afterIntroducer : Bool) (lexemes others : List Lexeme)
    (same : lexemes.map spelling = others.map spelling) :
    kindsFrom afterIntroducer lexemes = kindsFrom afterIntroducer others := by
  induction lexemes generalizing afterIntroducer others with
  | nil =>
    rw [List.map_nil, eq_comm, List.map_eq_nil_iff] at same
    rw [same]
  | cons lexeme rest ih =>
    cases others with
    | nil => cases same
    | cons other others =>
      rw [List.map_cons, List.map_cons, List.cons.injEq] at same
      obtain ⟨⟨kind, text⟩, rests⟩ := And.imp_left Prod.mk.inj same
      have kinds := congrArg (List.map Prod.fst) rests
      rw [List.map_map, List.map_map] at kinds
      have parameters : startsParameters rest = startsParameters others := by
        rw [startsParameters_eq, startsParameters_eq]
        exact congrArg (fun kinds => parametersFollow (kinds.filter (· != .comment))) kinds
      have comment : lexeme.isComment = other.isComment := by rw [isComment, kind, isComment]
      have word : lexeme.isWord = other.isWord := by rw [isWord, text, isWord]
      have inContext : kindIn afterIntroducer lexeme rest = kindIn afterIntroducer other others := by
        simp only [kindIn, word, kind, parameters]
      simp only [kindsFrom, comment, inContext, kind, text, ih _ others rests]

end Lexeme

end CognitiveComplexity
