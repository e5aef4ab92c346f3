import CognitiveComplexity.Proofs.Function.Scope
import CognitiveComplexity.Proofs.Score.Step

set_option autoImplicit false

/-!
Where a level is measured one less. The scan knows the words `try` and `catch` and no brackets: the
levels from a `try` up to the next `catch` are reduced. These are the levels inside the `try` blocks
just if no block holds a `catch` and every token that counts behind a block and outside the others
comes with or after a `catch`, which a `finally` clause alone does not bring.
-/

namespace CognitiveComplexity

namespace Token

def kindAt? (stream : List Token) (index : Nat) : Option Kind := stream[index]?.map (·.kind)

/-- The block of the `try` at a position: the pair of curly brackets that the first token behind it
opens, comments left out. -/
def tryBlock? (stream : List Token) (word : Nat) : Option (Nat × Nat) := do
  let opener ← ((stream.drop (word + 1)).find? (·.kind != .comment)).filter (·.kind == .openCurly)
  let closer ← opener.partner
  return (opener.position, closer)

end Token

namespace Body

open Token

def tries (body : Body) (stream : List Token) : List Nat :=
  ((body.tokens stream).filter (·.kind == .tryWord)).map (·.position)

def tryBlocks (body : Body) (stream : List Token) : List (Nat × Nat) :=
  (body.tries stream).filterMap (tryBlock? stream)

def inTryBlock (body : Body) (stream : List Token) (index : Nat) : Prop :=
  ∃ block ∈ body.tryBlocks stream, block.1 < index ∧ index < block.2

-- Whether a `try` before a position has met no `catch` up to it.
def awaitsCatch (body : Body) (stream : List Token) (index : Nat) : Prop :=
  ∃ word ∈ body.tries stream, word < index ∧
    ∀ later ≤ index, word < later → kindAt? stream later ≠ some .catchWord

instance (body : Body) (stream : List Token) (index : Nat) :
    Decidable (body.inTryBlock stream index) :=
  inferInstanceAs (Decidable (∃ block ∈ _, _))

instance (body : Body) (stream : List Token) (index : Nat) :
    Decidable (body.awaitsCatch stream index) :=
  inferInstanceAs (Decidable (∃ word ∈ _, _))

def scanThrough (body : Body) (stream : List Token) (index : Nat) : Scan :=
  ((body.tokens stream).take (index - body.start)).foldl Scan.feedToken (.start body.baseLevel)

/-- The levels of a body are measured one less inside its `try` blocks and nowhere else. -/
def ReducesInBlocks (body : Body) (stream : List Token) : Prop :=
  ∀ index token, body.start < index → index < body.stop → stream[index]? = some token →
    token.kind.isIncreasing = true →
    (body.scanThrough stream index).previous =
      (token.level : Int) - body.baseLevel - if body.inTryBlock stream index then 1 else 0

/-- A block without `catch` such that nothing counts behind it and outside the other blocks before a
`catch` does. -/
structure Handled (body : Body) (stream : List Token) (left right : Nat) : Prop where
  inner : ∀ index, left < index → index < right → kindAt? stream index ≠ some .catchWord
  outer : ∀ index token, right < index → index < body.stop → stream[index]? = some token →
    token.kind.isIncreasing = true → ¬ body.inTryBlock stream index →
    ∃ handler, right < handler ∧ handler ≤ index ∧ kindAt? stream handler = some .catchWord

end Body

namespace Scan

open Token

theorem kindAt_snoc (tokens : List Token) (token : Token) (index : Nat) (kind : Kind) :
    kindAt? (tokens ++ [token]) index = some kind ↔
      kindAt? tokens index = some kind ∨ (index = tokens.length ∧ token.kind = kind) := by
  unfold kindAt?
  rw [List.getElem?_append]
  split
  next within =>
    have other : index ≠ tokens.length := by omega
    simp [other]
  next beyond =>
    have missing : tokens[index]? = none := List.getElem?_eq_none (by omega)
    rw [missing]
    rcases Nat.lt_or_eq_of_le (Nat.le_of_not_lt beyond) with later | same
    next =>
      have other : index ≠ tokens.length := by omega
      have after : [token][index - tokens.length]? = none := List.getElem?_eq_none (by simp; omega)
      simp [other, after]
    next => simp [← same]

theorem lt_length_of_kindAt (tokens : List Token) (index : Nat) (kind : Kind)
    (found : kindAt? tokens index = some kind) : index < tokens.length := by
  obtain ⟨token, here, _⟩ := Option.map_eq_some_iff.mp found
  exact (List.getElem?_eq_some_iff.mp here).1

-- A scan stands inside `try` just if some `try` has no `catch` behind it.
theorem scan_isInside (baseLevel : Nat) (tokens : List Token) :
    (tokens.foldl feedToken (start baseLevel)).state.isInside = true ↔
      ∃ word, kindAt? tokens word = some .tryWord ∧
        ∀ later, word < later → kindAt? tokens later ≠ some .catchWord := by
  induction tokens using List.reverseRecOn with
  | nil => simp [start, TryState.isInside, kindAt?]
  | append_singleton tokens token ih =>
    rw [List.foldl_append, List.foldl_cons, List.foldl_nil, feedToken_state, next_isInside, ih]
    simp only [ne_eq, kindAt_snoc]
    constructor
    next =>
      rintro (tries | ⟨noCatch, word, here, free⟩)
      next =>
        refine ⟨tokens.length, .inr ⟨rfl, tries⟩, ?_⟩
        rintro later after (found | ⟨same, _⟩)
        next =>
          have within := lt_length_of_kindAt tokens later _ found
          omega
        next => omega
      next =>
        refine ⟨word, .inl here, ?_⟩
        rintro later after (found | ⟨_, catches⟩)
        next => exact free later after found
        next => exact noCatch catches
    next =>
      rintro ⟨word, here | ⟨_, tries⟩, free⟩
      next =>
        have within := lt_length_of_kindAt tokens word _ here
        refine .inr ⟨fun catches => free tokens.length within (.inr ⟨rfl, catches⟩), word, here, ?_⟩
        exact fun later after found => free later after (.inl found)
      next => exact .inl tries

end Scan

namespace Body

open Token

section Window

variable {body : Body} (ordered : body.start < body.stop)

include ordered

theorem kindAt_through (stream : List Token) (index : Nat) (within : index < body.stop) (offset : Nat)
    (kind : Kind) :
    kindAt? ((body.tokens stream).take (index - body.start)) offset = some kind ↔
      body.start + 1 + offset ≤ index ∧ kindAt? stream (body.start + 1 + offset) = some kind := by
  rw [tokens, List.take_take]
  unfold kindAt?
  rw [List.getElem?_take]
  split
  next early =>
    have reached : body.start + 1 + offset ≤ index := by omega
    simp [reached]
  next late =>
    have beyond : ¬ body.start + 1 + offset ≤ index := by omega
    simp [beyond]

theorem mem_tries (source : Bytes) (word : Nat) :
    word ∈ body.tries (ofBytes source) ↔
      body.start < word ∧ word < body.stop ∧ kindAt? (ofBytes source) word = some .tryWord := by
  simp only [tries, tokens, List.mem_map, List.mem_filter, beq_iff_eq]
  constructor
  next =>
    rintro ⟨token, ⟨member, tries⟩, rfl⟩
    obtain ⟨offset, here⟩ := List.mem_iff_getElem?.mp member
    rw [List.getElem?_take] at here
    split at here
    next early =>
      rw [List.getElem?_drop] at here
      rw [position_ofBytes source _ token here]
      exact ⟨by omega, by omega, by simp [kindAt?, here, tries]⟩
    next => cases here
  next =>
    rintro ⟨after, before, found⟩
    obtain ⟨token, here, tries⟩ := Option.map_eq_some_iff.mp found
    refine ⟨token, ⟨List.mem_iff_getElem?.mpr ⟨word - (body.start + 1), ?_⟩, tries⟩,
      position_ofBytes source word token here⟩
    rw [List.getElem?_take, if_pos (by omega), List.getElem?_drop, ← here]
    congr 1
    omega

theorem scanThrough_isInside (source : Bytes) (index : Nat) (before : index < body.stop)
    (noTry : kindAt? (ofBytes source) index ≠ some .tryWord) :
    (body.scanThrough (ofBytes source) index).state.isInside = true ↔
      body.awaitsCatch (ofBytes source) index := by
  simp only [scanThrough, Scan.scan_isInside, ne_eq,
    kindAt_through ordered (ofBytes source) index before, awaitsCatch, mem_tries ordered]
  constructor
  next =>
    rintro ⟨offset, ⟨reached, tries⟩, free⟩
    have other : body.start + 1 + offset ≠ index := by
      intro same
      exact noTry (same ▸ tries)
    refine ⟨body.start + 1 + offset, ⟨by omega, by omega, tries⟩, by omega, ?_⟩
    intro later upTo behind catches
    have place : body.start + 1 + (later - (body.start + 1)) = later := by omega
    exact free (later - (body.start + 1)) (by omega) ⟨by omega, by rw [place, catches]⟩
  next =>
    rintro ⟨word, ⟨inside, _, tries⟩, earlier, free⟩
    have place : body.start + 1 + (word - (body.start + 1)) = word := by omega
    refine ⟨word - (body.start + 1), ⟨by omega, by rw [place, tries]⟩, ?_⟩
    rintro offset behind ⟨reached, catches⟩
    exact free (body.start + 1 + offset) reached (by omega) catches

theorem scanThrough_previous (stream : List Token) (index : Nat) (token : Token)
    (after : body.start < index) (before : index < body.stop) (found : stream[index]? = some token)
    (counts : token.kind.isIncreasing = true) :
    (body.scanThrough stream index).previous =
      Scan.measure body.baseLevel (body.scanThrough stream index).state token.level := by
  have here : (body.tokens stream)[index - (body.start + 1)]? = some token := by
    rw [tokens, List.getElem?_take, if_pos (by omega), List.getElem?_drop, ← found]
    congr 1
    omega
  -- The last token scanned is the one at the position.
  have last : (body.tokens stream).take (index - body.start) =
      (body.tokens stream).take (index - (body.start + 1)) ++ [token] := by
    rw [show index - body.start = index - (body.start + 1) + 1 by omega, List.take_add_one, here]
    rfl
  simp only [scanThrough, last, List.foldl_append, List.foldl_cons, List.foldl_nil,
    Scan.feedToken_previous _ token counts, Scan.feedToken_baseLevel, Scan.scan_baseLevel, Scan.start]

end Window

structure BlockBehind (stream : List Token) (word left right : Nat) : Prop where
  behind : word < left
  ordered : left < right
  opener : ∃ token, stream[left]? = some token ∧ token.kind = .openCurly ∧ token.partner = some right
  closes : kindAt? stream right = some .closeCurly
  comments : ∀ index, word < index → index < left → kindAt? stream index = some .comment

section Blocks

variable {source : Bytes} {word left right : Nat}

theorem blockBehind (found : tryBlock? (ofBytes source) word = some (left, right)) :
    BlockBehind (ofBytes source) word left right := by
  simp only [tryBlock?, Option.bind_eq_bind, Option.pure_def, Option.bind_eq_some_iff,
    Option.filter_eq_some_iff, Option.some.injEq, Prod.mk.injEq, beq_iff_eq] at found
  obtain ⟨opener, ⟨first, opens⟩, closer, closes, rfl, rfl⟩ := found
  obtain ⟨_, offset, within, here, comments⟩ := List.find?_eq_some_iff_getElem.mp first
  have place : (ofBytes source)[word + 1 + offset]? = some opener := by
    rw [← List.getElem?_drop, List.getElem?_eq_getElem within, here]
  have position := position_ofBytes source _ opener place
  have pair := (partner_opener source _ opener .curly place opens closer).mp closes
  rw [← position] at place pair
  refine ⟨by omega, pair.ordered, ⟨opener, place, opens, closes⟩, ?_, ?_⟩
  next => simpa [kindAt?, Shape.closer] using pair.closes
  next =>
    intro index after before
    have early : index - (word + 1) < offset := by omega
    have comment := comments (index - (word + 1)) early
    have there : (ofBytes source)[index]? =
        some ((ofBytes source).drop (word + 1))[index - (word + 1)] := by
      rw [← List.getElem?_eq_getElem, List.getElem?_drop]
      congr 1
      omega
    simpa [kindAt?, there] using comment

variable (block : BlockBehind (ofBytes source) word left right) (index : Nat)
  (margin : word < index ∧ index ≤ left ∨ index = right)

include block margin

-- Between a `try` and its block, and at the brackets of the block, nothing counts.
theorem margin_neutral (token : Token) (here : (ofBytes source)[index]? = some token) :
    token.kind.isIncreasing = false := by
  have kind : kindAt? (ofBytes source) index = some token.kind := by simp [kindAt?, here]
  rcases margin with ⟨after, upTo⟩ | rfl
  next =>
    rcases Nat.lt_or_eq_of_le upTo with before | rfl
    next =>
      rw [← Option.some.inj ((block.comments index after before).symm.trans kind)]
      decide
    next =>
      obtain ⟨opener, place, opens, _⟩ := block.opener
      rw [← Option.some.inj (place.symm.trans here), opens]
      decide
  next =>
    rw [← Option.some.inj (block.closes.symm.trans kind)]
    decide

theorem margin_no_catch : kindAt? (ofBytes source) index ≠ some .catchWord := by
  intro catches
  obtain ⟨token, here, kind⟩ := Option.map_eq_some_iff.mp catches
  have quiet := margin_neutral block index margin token here
  rw [kind] at quiet
  cases quiet

end Blocks

section Adjustment

variable {source : Bytes} {scope : Scope} (wellFormed : scope.WellFormed (ofBytes source))

theorem mem_tryBlocks (body : Body) (left right : Nat) :
    (left, right) ∈ body.tryBlocks (ofBytes source) ↔
      ∃ word ∈ body.tries (ofBytes source), tryBlock? (ofBytes source) word = some (left, right) := by
  simp [tryBlocks]

theorem awaitsCatch_of_inTryBlock {body : Body}
    (handled : ∀ block ∈ body.tryBlocks (ofBytes source),
      body.Handled (ofBytes source) block.1 block.2)
    (index : Nat) (inside : body.inTryBlock (ofBytes source) index) :
    body.awaitsCatch (ofBytes source) index := by
  obtain ⟨⟨left, right⟩, listed, after, before⟩ := inside
  obtain ⟨word, tries, found⟩ := (mem_tryBlocks body left right).mp listed
  have block := blockBehind found
  have opens := block.behind
  simp only at after before
  refine ⟨word, tries, by omega, ?_⟩
  intro later upTo since
  by_cases margin : later ≤ left
  next => exact margin_no_catch block later (.inl ⟨since, margin⟩)
  next => exact (handled _ listed).inner later (Nat.lt_of_not_le margin) (by simp only; omega)

theorem inTryBlock_of_awaitsCatch {body : Body}
    (blocked : ∀ word ∈ body.tries (ofBytes source), (tryBlock? (ofBytes source) word).isSome = true)
    (handled : ∀ block ∈ body.tryBlocks (ofBytes source),
      body.Handled (ofBytes source) block.1 block.2)
    (index : Nat) (token : Token) (before : index < body.stop)
    (here : (ofBytes source)[index]? = some token) (counts : token.kind.isIncreasing = true)
    (awaits : body.awaitsCatch (ofBytes source) index) :
    body.inTryBlock (ofBytes source) index := by
  obtain ⟨word, tries, earlier, free⟩ := awaits
  obtain ⟨⟨left, right⟩, found⟩ := Option.isSome_iff_exists.mp (blocked word tries)
  have listed := (mem_tryBlocks body left right).mpr ⟨word, tries, found⟩
  have block := blockBehind found
  have margin : ¬ (word < index ∧ index ≤ left ∨ index = right) := by
    intro margin
    rw [margin_neutral block index margin token here] at counts
    cases counts
  by_contra outside
  rcases Nat.lt_or_ge index right with within | beyond
  next => exact outside ⟨(left, right), listed, by simp only; omega, within⟩
  next =>
    obtain ⟨handler, after, upTo, catches⟩ := (handled _ listed).outer index token
      (by simp only; omega) before here counts outside
    have opens := block.behind
    have wide := block.ordered
    exact free handler upTo (by simp only at after; omega) catches

include wellFormed

theorem block_within (word left right : Nat) (tries : word ∈ scope.body.tries (ofBytes source))
    (block : BlockBehind (ofBytes source) word left right) :
    scope.body.start < word ∧ right < scope.body.stop := by
  obtain ⟨after, before, _⟩ := (mem_tries wellFormed.start_lt source word).mp tries
  obtain ⟨opener, place, opens, partner⟩ := block.opener
  obtain ⟨closer, stop, closes, _⟩ := wellFormed.closer
  have opened := block.behind
  -- The bracket that ends the body is no comment and opens nothing, so the block opens before it.
  have early : left < scope.body.stop := by
    rcases Nat.lt_trichotomy left scope.body.stop with lower | same | higher
    next => exact lower
    next =>
      rw [← same, place, Option.some.injEq] at stop
      rw [← stop, opens] at closes
      cases closes
    next =>
      have clash := block.comments scope.body.stop before higher
      simp [kindAt?, stop, closes] at clash
  obtain ⟨_, same, _, inside⟩ := wellFormed.matched left opener (by omega) early place (.inl opens)
  rw [partner, Option.some.injEq] at same
  exact ⟨after, same ▸ inside⟩

theorem scanThrough_reduced (small : source.length < 0x8000000000000000) (index : Nat) (token : Token)
    (after : scope.body.start < index) (before : index < scope.body.stop)
    (here : (ofBytes source)[index]? = some token) (counts : token.kind.isIncreasing = true) :
    (scope.body.scanThrough (ofBytes source) index).previous =
      (token.level : Int) - scope.body.baseLevel -
        if scope.body.awaitsCatch (ofBytes source) index then 1 else 0 := by
  have ordered := wellFormed.start_lt
  have levelFits := Scope.level_lt_length source index token here
  obtain ⟨opener, start, _, _, level⟩ := wellFormed.opener
  have baseFits := Scope.level_lt_length source scope.body.start opener start
  have noTry : kindAt? (ofBytes source) index ≠ some .tryWord := by
    simp only [kindAt?, here, Option.map_some, ne_eq, Option.some.injEq]
    intro tries
    rw [tries] at counts
    cases counts
  rw [scanThrough_previous ordered _ index token after before here counts,
    Scan.measure_exact _ _ _ (by omega) (by omega),
    if_congr (scanThrough_isInside ordered source index before noTry) rfl rfl]

theorem handled_of_agreement
    (agree : ∀ index token, scope.body.start < index → index < scope.body.stop →
      (ofBytes source)[index]? = some token → token.kind.isIncreasing = true →
      (scope.body.awaitsCatch (ofBytes source) index ↔
        scope.body.inTryBlock (ofBytes source) index)) :
    ∀ block ∈ scope.body.tryBlocks (ofBytes source),
      scope.body.Handled (ofBytes source) block.1 block.2 := by
  rintro ⟨left, right⟩ listed
  obtain ⟨word, tries, found⟩ := (mem_tryBlocks scope.body left right).mp listed
  have block := blockBehind found
  have opens := block.behind
  have wide := block.ordered
  obtain ⟨after, within⟩ := block_within wellFormed word left right tries block
  -- A `catch` in the block is measured with the state it leaves behind.
  have inner : ∀ index, left < index → index < right →
      kindAt? (ofBytes source) index ≠ some .catchWord := by
    intro index behind inside catches
    obtain ⟨token, here, kind⟩ := Option.map_eq_some_iff.mp catches
    have counts : token.kind.isIncreasing = true := by
      rw [kind]
      decide
    obtain ⟨_, _, earlier, free⟩ := (agree index token (by omega) (by omega) here counts).mpr
      ⟨(left, right), listed, behind, inside⟩
    exact free index (Nat.le_refl _) earlier catches
  refine ⟨inner, ?_⟩
  intro index token behind early here counts outside
  simp only at behind
  have settled : ¬ scope.body.awaitsCatch (ofBytes source) index := fun awaits =>
    outside ((agree index token (by omega) early here counts).mp awaits)
  by_contra unhandled
  apply settled
  refine ⟨word, tries, by omega, ?_⟩
  intro later upTo since catches
  by_cases margin : later ≤ left ∨ later = right
  next =>
    exact margin_no_catch block later (margin.imp_left fun upToLeft => ⟨since, upToLeft⟩) catches
  next =>
    rcases Nat.lt_or_ge later right with inside | beyond
    next => exact inner later (by omega) inside catches
    next => exact unhandled ⟨later, by simp only; omega, upTo, catches⟩

end Adjustment

end Body

namespace Scope

open Token Body

theorem ite_one_iff (one other : Prop) [Decidable one] [Decidable other] :
    ((if one then 1 else 0 : Int) = if other then 1 else 0) ↔ (one ↔ other) := by
  split_ifs <;> simp_all

/-- The scan of a function measures the level of a token that counts one less just where a `try` has
met no `catch` yet. If every `try` has a block, these are the tokens in the blocks just if every block
is handled. A text in memory has fewer than `2 ^ 63` bytes, so no level leaves 64 bits. -/
theorem reduced_in_blocks (source : String)
    (fits : (Bytes.ofString source).length < 0x8000000000000000) (scope : Scope)
    (found : scope ∈ all (Token.stream source)) :
    (∀ index token, scope.body.start < index → index < scope.body.stop →
      (Token.stream source)[index]? = some token → token.kind.isIncreasing = true →
      (scope.body.scanThrough (Token.stream source) index).previous =
        (token.level : Int) - scope.body.baseLevel -
          if scope.body.awaitsCatch (Token.stream source) index then 1 else 0) ∧
    ((∀ word ∈ scope.body.tries (Token.stream source),
        (tryBlock? (Token.stream source) word).isSome = true) →
      (scope.body.ReducesInBlocks (Token.stream source) ↔
        ∀ block ∈ scope.body.tryBlocks (Token.stream source),
          scope.body.Handled (Token.stream source) block.1 block.2)) := by
  unfold Token.stream at *
  generalize Bytes.ofString source = bytes at *
  have wellFormed := at_wellFormed bytes _ scope ((mem_all bytes scope).mp found)
  have measured := scanThrough_reduced wellFormed fits
  refine ⟨measured, fun blocked => ⟨fun reduces => ?_, fun handled => ?_⟩⟩
  next =>
    apply handled_of_agreement wellFormed
    intro index token after before here counts
    have one := measured index token after before here counts
    have other := reduces index token after before here counts
    rw [← ite_one_iff]
    omega
  next =>
    intro index token after before here counts
    have agree : scope.body.awaitsCatch (ofBytes bytes) index ↔
        scope.body.inTryBlock (ofBytes bytes) index :=
      ⟨inTryBlock_of_awaitsCatch blocked handled index token before here counts,
        awaitsCatch_of_inTryBlock handled index⟩
    rw [measured index token after before here counts, (ite_one_iff _ _).mpr agree]

theorem reduced_in_blocks_guarded :
    let stream := Token.stream Scan.guardedLoops
    let scope : Scope := ⟨Bytes.ofString "f", 1, 5, 36, 0⟩
    scope ∈ all stream ∧ scope.body.tryBlocks stream = [(7, 20)] ∧
      scope.body.ReducesInBlocks stream := by
  intro stream scope
  obtain ⟨found, blocks, blocked, handler, inner⟩ : scope ∈ all stream ∧
      scope.body.tryBlocks stream = [(7, 20)] ∧
      (∀ word ∈ scope.body.tries stream, (tryBlock? stream word).isSome = true) ∧
      kindAt? stream 21 = some .catchWord ∧
      ∀ index < 20, 7 < index → kindAt? stream index ≠ some .catchWord := by decide +kernel
  have handled : scope.body.Handled stream 7 20 := by
    refine ⟨fun index after before => inner index before after, ?_⟩
    exact fun index _ after _ _ _ _ => ⟨21, by decide, after, handler⟩
  refine ⟨found, blocks, ?_⟩
  apply ((reduced_in_blocks Scan.guardedLoops (by decide +kernel) scope found).2 blocked).mpr
  intro block listed
  have only : block ∈ [(7, 20)] := blocks ▸ listed
  rw [List.mem_singleton.mp only]
  exact handled

-- A `finally` clause without a `catch` is measured as if it stood in the `try` block.
theorem finally_reduced :
    let stream := Token.stream
      "<?php function f() \x7b try \x7b \x7d finally \x7b if ($a) \x7b \x7d \x7d \x7d"
    let scope : Scope := ⟨Bytes.ofString "f", 1, 5, 18, 0⟩
    scope ∈ all stream ∧ scope.body.tryBlocks stream = [(7, 8)] ∧
      (∀ word ∈ scope.body.tries stream, (tryBlock? stream word).isSome = true) ∧
      ¬ scope.body.ReducesInBlocks stream := by
  intro stream scope
  obtain ⟨found, blocks, blocked, branch, measured, outside⟩ : scope ∈ all stream ∧
      scope.body.tryBlocks stream = [(7, 8)] ∧
      (∀ word ∈ scope.body.tries stream, (tryBlock? stream word).isSome = true) ∧
      stream[11]? = some ⟨.ifWord, Bytes.ofString "if", 11, 2, 1, 40, none⟩ ∧
      (scope.body.scanThrough stream 11).previous = 1 ∧ ¬ scope.body.inTryBlock stream 11 := by
    decide +kernel
  refine ⟨found, blocks, blocked, fun reduces => ?_⟩
  have exact := reduces 11 _ (by decide) (by decide) branch (by decide)
  rw [measured, if_neg outside] at exact
  cases exact

end Scope

end CognitiveComplexity
