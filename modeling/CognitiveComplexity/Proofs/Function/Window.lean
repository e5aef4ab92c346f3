import CognitiveComplexity.Proofs.Function.Scope
import CognitiveComplexity.Proofs.Score.Step

set_option autoImplicit false

namespace CognitiveComplexity

namespace Scan

theorem signed_eq {value : Nat} (fits : value < 0x8000000000000000) : signed value = value := by
  have size : ((wordCount : Nat) : Int) = 0x10000000000000000 := rfl
  apply Int.bmod_eq_of_le_mul_two <;> omega

theorem measureChecked_eq {baseLevel level : Nat} (state : TryState)
    (baseFits : baseLevel < 0x8000000000000000) (levelFits : level < 0x8000000000000000) :
    measureChecked baseLevel state level = .ok (measure baseLevel state level) := by
  obtain ⟨plain, less⟩ := signed_difference baseLevel level baseFits levelFits
  have first : subtract (signed level) (signed baseLevel) = .ok ((level : Int) - baseLevel) := by
    rw [signed_eq levelFits, signed_eq baseFits]
    exact if_pos plain
  rw [measure_exact baseLevel level state baseFits levelFits, measureChecked, first]
  cases state.isInside with
  | false => simp
  | true => exact if_pos less

theorem feedChecked_eq {scan : Scan} (kind : Kind) {level : Nat}
    (baseFits : scan.baseLevel < 0x8000000000000000) (levelFits : level < 0x8000000000000000) :
    scan.feedChecked kind level = .ok (scan.feed kind level) := by
  unfold feedChecked
  rw [measureChecked_eq (scan.state.next kind) baseFits levelFits]
  split <;> rfl

theorem feedAllChecked_eq (tokens : List Token) (scan : Scan)
    (baseFits : scan.baseLevel < 0x8000000000000000)
    (levelsFit : ∀ token ∈ tokens, token.level < 0x8000000000000000) :
    tokens.foldlM feedTokenChecked scan = .ok (tokens.foldl feedToken scan) := by
  induction tokens generalizing scan with
  | nil => rfl
  | cons token rest ih =>
    have here : scan.feedTokenChecked token = .ok (scan.feedToken token) :=
      feedChecked_eq token.kind baseFits (levelsFit token List.mem_cons_self)
    rw [List.foldlM_cons, here, List.foldl_cons]
    apply ih
    next => rwa [feedToken_baseLevel]
    next => exact fun later member => levelsFit later (List.mem_cons_of_mem _ member)

end Scan

namespace Body

def between (start stop : Nat) (stream : List Token) : List Token :=
  (stream.zipIdx.filter fun (_, index) => start < index ∧ index < stop).map (·.1)

-- The stream is counted from an offset, since the induction takes tokens off its front.
theorem between_from (start stop offset : Nat) (stream : List Token) :
    ((stream.zipIdx offset).filter fun (_, index) => start < index ∧ index < stop).map (·.1) =
      (stream.drop (start + 1 - offset)).take (stop - max (start + 1) offset) := by
  induction stream generalizing offset with
  | nil => simp
  | cons token rest ih =>
    rw [List.zipIdx_cons]
    by_cases early : offset ≤ start
    next =>
      have outside : ¬ (start < offset ∧ offset < stop) := by omega
      have further : start + 1 - offset = start + 1 - (offset + 1) + 1 := by omega
      have same : max (start + 1) offset = max (start + 1) (offset + 1) := by omega
      rw [List.filter_cons_of_neg (by simpa using outside), ih, further, List.drop_succ_cons, same]
    next =>
      have front : start + 1 - offset = 0 := by omega
      have behind : start + 1 - (offset + 1) = 0 := by omega
      have here : max (start + 1) offset = offset := by omega
      have next : max (start + 1) (offset + 1) = offset + 1 := by omega
      rw [front, here, List.drop_zero]
      by_cases late : stop ≤ offset
      next =>
        have outside : ¬ (start < offset ∧ offset < stop) := by omega
        rw [List.filter_cons_of_neg (by simpa using outside), ih, next,
          Nat.sub_eq_zero_of_le late, Nat.sub_eq_zero_of_le (Nat.le_succ_of_le late),
          List.take_zero, List.take_zero]
      next =>
        have inside : start < offset ∧ offset < stop := by omega
        have left : stop - offset = stop - (offset + 1) + 1 := by omega
        rw [List.filter_cons_of_pos (by simpa using inside), List.map_cons, ih, behind, next,
          List.drop_zero, left, List.take_succ_cons]

theorem between_eq (start stop : Nat) (stream : List Token) :
    between start stop stream = (stream.drop (start + 1)).take (stop - (start + 1)) := by
  unfold between
  rw [between_from, Nat.sub_zero, Nat.max_zero]

theorem between_congr (start stop : Nat) (stream others : List Token)
    (agree : ∀ index, start < index → index < stop → stream[index]? = others[index]?) :
    between start stop stream = between start stop others := by
  apply List.ext_getElem?
  intro offset
  simp only [between_eq, List.getElem?_take, List.getElem?_drop]
  split
  next => exact agree _ (by omega) (by omega)
  next => rfl

-- An end past the stream is moved to its end, and a start past the end there too.
theorem slice_clamped (start stop : Nat) (stream : List Token) :
    let last := min stop stream.length
    slice stream (min (start + 1) last) last = .ok (between start stop stream) := by
  intro last
  have ordered : min (start + 1) last ≤ last := Nat.min_le_right _ _
  have within : last ≤ stream.length := Nat.min_le_right _ _
  simp only [slice, ordered, within, and_self, if_true, Except.ok.injEq, between_eq]
  apply List.ext_getElem?
  intro offset
  simp only [List.getElem?_take, List.getElem?_drop]
  -- A start past the end leaves no offset, and an end past the stream none that finds a token.
  by_cases reached : start + 1 + offset < last
  next =>
    have here : min (start + 1) last = start + 1 := by omega
    rw [here, if_pos (by omega), if_pos (by omega)]
  next =>
    rw [if_neg (by omega)]
    split
    next => exact (List.getElem?_eq_none (by omega)).symm
    next => rfl

theorem window_eq {body : Body} (inner : body.start + 1 < wordCount) (stream : List Token) :
    body.window stream = .ok (between body.start body.stop stream) := by
  rw [window, advance, if_pos inner]
  exact slice_clamped body.start body.stop stream

theorem window_fault {body : Body} (last : body.start + 1 = wordCount) (stream : List Token) :
    body.window stream = .error .overflow := by
  rw [window, advance, if_neg (by omega)]
  rfl

theorem scoreChecked_fault {body : Body} (last : body.start + 1 = wordCount)
    (stream : List Token) : body.scoreChecked stream = .error .overflow := by
  rw [scoreChecked, window_fault last]
  rfl

theorem scoreChecked_empty {body : Body} (inner : body.start + 1 < wordCount)
    {stream : List Token} (empty : between body.start body.stop stream = []) :
    body.scoreChecked stream = .ok 0 := by
  rw [scoreChecked, window_eq inner, empty]
  rfl

theorem scoreChecked_congr {body : Body} (inner : body.start + 1 < wordCount)
    {stream others : List Token}
    (same : between body.start body.stop stream = between body.start body.stop others) :
    body.scoreChecked stream = body.scoreChecked others := by
  rw [scoreChecked, scoreChecked, window_eq inner, window_eq inner, same]

theorem scoreChecked_eq {body : Body} (inner : body.start + 1 < wordCount) (stream : List Token)
    (baseFits : body.baseLevel < 0x8000000000000000)
    (levelsFit : ∀ token ∈ body.tokens stream, token.level < 0x8000000000000000) :
    body.scoreChecked stream = .ok (body.score stream) := by
  have same : between body.start body.stop stream = body.tokens stream := between_eq _ _ stream
  have fed := Scan.feedAllChecked_eq _ (.start body.baseLevel) baseFits levelsFit
  rw [scoreChecked, window_eq inner, same]
  exact congrArg (· >>= fun scan => pure scan.score) fed

/-- The checked body is the tokens strictly between the ends, wherever these are. They alone decide
about score and violation, and without any the score is zero. Only the last position there is cannot
be a start: stepping behind it overflows. -/
theorem scored_by_window (body : Body) (fits : body.start < wordCount) (stream : List Token) :
    (body.start + 1 < wordCount →
      body.window stream = .ok (between body.start body.stop stream) ∧
      (∀ others : List Token,
        (∀ index, body.start < index → index < body.stop → stream[index]? = others[index]?) →
        body.scoreChecked stream = body.scoreChecked others ∧
          ∀ threshold, body.evaluate stream threshold = body.evaluate others threshold) ∧
      (between body.start body.stop stream = [] →
        body.scoreChecked stream = .ok 0 ∧
          ∀ threshold, body.evaluate stream threshold = .ok none)) ∧
    (¬ body.start + 1 < wordCount →
      body.start = 0xffffffffffffffff ∧
      body.window stream = .error .overflow ∧ body.scoreChecked stream = .error .overflow ∧
        ∀ threshold, body.evaluate stream threshold = .error .overflow) := by
  constructor
  next =>
    intro inner
    refine ⟨window_eq inner stream, ?_, ?_⟩
    next =>
      intro others agree
      have scores := scoreChecked_congr inner (between_congr _ _ stream others agree)
      refine ⟨scores, fun threshold => ?_⟩
      rw [evaluate, evaluate, scores]
    next =>
      intro empty
      have nothing := scoreChecked_empty inner empty
      refine ⟨nothing, fun threshold => ?_⟩
      rw [evaluate, nothing]
      exact congrArg Except.ok (if_neg (Nat.not_lt_zero threshold))
  next =>
    intro outer
    have last : body.start + 1 = wordCount := by omega
    refine ⟨Nat.succ.inj last, window_fault last stream, scoreChecked_fault last stream, ?_⟩
    intro threshold
    rw [evaluate, scoreChecked_fault last]
    rfl

-- An `if` that deepens, with other tokens in front of it and one or none behind it.
theorem scored_by_window_neighbours :
    let token := fun kind level => (⟨kind, [], 0, level, 1, 1, none⟩ : Token)
    let stream := [token .whileWord 3, token .tryWord 1, token .ifWord 2, token .catchWord 0]
    let others := [token .tryWord 0, token .whileWord 1, token .ifWord 2]
    let body : Body := ⟨1, 3, 0⟩
    body.start < wordCount ∧
      (∀ index, body.start < index → index < body.stop → stream[index]? = others[index]?) ∧
      body.window stream = .ok [token .ifWord 2] ∧
      body.evaluate stream 1 = .ok (some ⟨1, 2, 1⟩) ∧
      body.evaluate others 1 = .ok (some ⟨1, 2, 1⟩) := by
  intro token stream others body
  have fits : body.start < wordCount := by decide
  have inner : body.start + 1 < wordCount := by decide
  have agree : ∀ index, body.start < index → index < body.stop →
      stream[index]? = others[index]? := by
    intro index after before
    have only : index = 2 := Nat.le_antisymm (Nat.le_of_lt_succ before) after
    rw [only]
    rfl
  obtain ⟨window, unread, _⟩ := (scored_by_window body fits stream).1 inner
  have violation : body.evaluate stream 1 = .ok (some ⟨1, 2, 1⟩) := by decide +kernel
  refine ⟨fits, agree, window, violation, ?_⟩
  rw [← (unread others agree).2 1, violation]

-- No position is between the ends, and still the body is a fault.
theorem last_start_faults :
    let stream := Token.stream "<?php if ($a) \x7b \x7d"
    let body : Body := ⟨0xffffffffffffffff, 3, 0⟩
    body.start < wordCount ∧ between body.start body.stop stream = [] ∧
      body.window stream = .error .overflow ∧ body.scoreChecked stream = .error .overflow ∧
      body.evaluate stream 0 = .error .overflow := by
  intro stream body
  exact ⟨by decide, by decide +kernel, rfl, rfl, rfl⟩

end Body

namespace Scope

theorem evaluate_resolved (source : String)
    (fits : (Bytes.ofString source).length < 0x8000000000000000) (scope : Scope)
    (member : scope ∈ all (Token.stream source)) (threshold : Nat) :
    scope.body.scoreChecked (Token.stream source) = .ok (scope.body.score (Token.stream source)) ∧
      scope.body.evaluate (Token.stream source) threshold =
        .ok (scope.body.violation? (Token.stream source) threshold) := by
  unfold Token.stream at *
  generalize Bytes.ofString source = bytes at *
  have wellFormed := at_wellFormed bytes _ scope ((mem_all bytes scope).mp member)
  obtain ⟨opener, found, _, _, level⟩ := wellFormed.opener
  have inner : scope.body.start + 1 < wordCount := by
    have size := Nat.lt_of_lt_of_le wellFormed.stop_lt (length_ofBytes_le bytes)
    have ordered := wellFormed.start_lt
    unfold wordCount
    omega
  have baseFits := level_lt_length bytes scope.body.start opener found
  have scores := Body.scoreChecked_eq inner (Token.ofBytes bytes) (by omega) fun token here =>
    Nat.lt_trans (level_in_body bytes scope.body token here) fits
  refine ⟨scores, ?_⟩
  rw [Body.evaluate, scores]
  rfl

end Scope

end CognitiveComplexity
