import CognitiveComplexity.Proofs.Token.Stream

set_option autoImplicit false

namespace CognitiveComplexity

def weave : List Bytes → List Bytes → Bytes
  | gap :: gaps, text :: texts => gap ++ text ++ weave gaps texts
  | gaps, _ => gaps.flatten

def offsetOf (gaps texts : List Bytes) (index : Nat) : Nat :=
  (weave (gaps.take (index + 1)) (texts.take index)).length

def lineAt (source : Bytes) (offset : Nat) : Nat :=
  1 + (source.take offset).count Byte.newline

def columnAt (source : Bytes) (offset : Nat) : Nat :=
  1 + ((source.take offset).reverse.takeWhile (· != Byte.newline)).length

namespace Place

theorem after_append (place : Place) (left right : Bytes) :
    place.after (left ++ right) = (place.after left).after right := by
  simp only [after, List.foldl_append]

theorem after_start (source : Bytes) :
    start.after source = ⟨1 + source.count Byte.newline,
      1 + (source.reverse.takeWhile (· != Byte.newline)).length⟩ := by
  induction source using List.reverseRecOn with
  | nil => rfl
  | append_singleton source b ih =>
    rw [after_append, ih]
    simp only [after, List.foldl_cons, List.foldl_nil, advance, List.count_append,
      List.reverse_append, List.reverse_singleton, List.singleton_append, List.takeWhile_cons]
    by_cases newline : b = Byte.newline
    · simp [newline]
      omega
    · simp [newline]
      omega

end Place

theorem weave_take_succ (gap text : Bytes) (gaps texts : List Bytes) (index : Nat) :
    weave ((gap :: gaps).take (index + 1 + 1)) ((text :: texts).take (index + 1)) =
      gap ++ text ++ weave (gaps.take (index + 1)) (texts.take index) := rfl

theorem weave_take_prefix (gaps texts : List Bytes) (index : Nat)
    (fits : gaps.length = texts.length + 1) (within : index < texts.length) :
    weave (gaps.take (index + 1)) (texts.take index) <+: weave gaps texts := by
  induction index generalizing gaps texts with
  | zero =>
    rcases gaps with _ | ⟨gap, gaps⟩
    · cases fits
    · rcases texts with _ | ⟨text, texts⟩
      · cases within
      · exact ⟨text ++ weave gaps texts, by simp [weave]⟩
  | succ index ih =>
    rcases gaps with _ | ⟨gap, gaps⟩
    · cases fits
    · rcases texts with _ | ⟨text, texts⟩
      · cases within
      · rw [weave_take_succ, weave]
        exact (List.prefix_append_right_inj _).mpr
          (ih gaps texts (Nat.succ.inj fits) (Nat.lt_of_succ_lt_succ within))

/-- Lexemes and the gaps around them spell some bytes, each lexeme with the place it starts at. -/
structure Laid (place : Place) (lexemes : List Lexeme) (gaps : List Bytes) (bytes : Bytes) :
    Prop where
  fits : gaps.length = lexemes.length + 1
  blank : ∀ gap ∈ gaps, ∀ b ∈ gap, Byte.isBlank b = true
  spells : weave gaps (lexemes.map (·.text)) = bytes
  placed : ∀ index lexeme, lexemes[index]? = some lexeme → lexeme.text ≠ [] ∧
    lexeme.place =
      place.after (weave (gaps.take (index + 1)) ((lexemes.map (·.text)).take index))

theorem laid_blank (place : Place) (lexemes : List Lexeme) (gap : Bytes) (gaps : List Bytes)
    (b : UInt8) (bytes : Bytes) (isBlank : Byte.isBlank b = true)
    (laid : Laid (place.after [b]) lexemes (gap :: gaps) bytes) :
    Laid place lexemes ((b :: gap) :: gaps) (b :: bytes) := by
  -- The blank goes into the first gap, so everything woven starts with it.
  have shifted (texts : List Bytes) (rest : List Bytes) :
      weave ((b :: gap) :: rest) texts = b :: weave (gap :: rest) texts := by
    cases texts <;> simp [weave]
  refine ⟨laid.fits, ?_, ?_, ?_⟩
  · intro wider member
    rcases List.mem_cons.mp member with first | later
    · rw [first]
      intro c inside
      rcases List.mem_cons.mp inside with here | old
      · rw [here]
        exact isBlank
      · exact laid.blank gap List.mem_cons_self c old
    · exact laid.blank wider (List.mem_cons_of_mem _ later)
  · rw [shifted, laid.spells]
  · intro index lexeme found
    obtain ⟨filled, same⟩ := laid.placed index lexeme found
    refine ⟨filled, ?_⟩
    rw [same, List.take_succ_cons, List.take_succ_cons, shifted, ← Place.after_append]
    rfl

theorem laid_lexeme (place : Place) (lexemes : List Lexeme) (gaps : List Bytes) (kind : Kind)
    (text bytes : Bytes) (filled : text ≠ [])
    (laid : Laid (place.after text) lexemes gaps bytes) :
    Laid place (⟨kind, text, place⟩ :: lexemes) ([] :: gaps) (text ++ bytes) := by
  refine ⟨by simp [laid.fits], ?_, ?_, ?_⟩
  · intro gap member b inside
    rcases List.mem_cons.mp member with first | later
    · rw [first] at inside
      cases inside
    · exact laid.blank gap later b inside
  · rw [List.map_cons, weave, laid.spells]
    rfl
  · intro index lexeme found
    cases index with
    | zero =>
      cases found
      exact ⟨filled, by simp [weave, Place.after]⟩
    | succ index =>
      obtain ⟨full, same⟩ := laid.placed index lexeme found
      refine ⟨full, ?_⟩
      rw [same, List.map_cons, weave_take_succ, ← Place.after_append]
      rfl

theorem list_laid (mode : Mode) (place : Place) (bytes : Bytes) :
    ∃ gaps, Laid place (Lexeme.list mode place bytes) gaps bytes := by
  induction mode, place, bytes using Lexeme.reading_induction with
  | done mode place =>
    rw [Lexeme.list]
    exact ⟨[[]], by simp, by simp, by simp [weave], by simp⟩
  | read mode place first rest ih =>
    obtain ⟨gaps, laid⟩ := ih
    rw [Lexeme.list_cons]
    cases read : (mode.read first rest).kind with
    | none =>
      obtain ⟨isBlank, single⟩ := Reading.blank_of_no_kind mode first rest read
      rw [single] at laid ⊢
      cases gaps with
      | nil => cases laid.fits
      | cons gap gaps => exact ⟨_, laid_blank place _ gap gaps first rest isBlank laid⟩
    | some kind =>
      have whole := laid_lexeme place _ gaps kind _ _ (List.cons_ne_nil _ _) laid
      rw [List.cons_append, List.take_append_drop] at whole
      exact ⟨_, whole⟩

namespace Token

/-- Nothing of a source is lost, repeated or moved: blanks and token texts in turn spell it, and
every token has the line and the column of the offset where its text starts. -/
theorem stream_spells_source (source : String) :
    ∃ gaps : List Bytes, gaps.length = (stream source).length + 1 ∧
      (∀ gap ∈ gaps, ∀ b ∈ gap, Byte.isBlank b = true) ∧
      Bytes.ofString source = weave gaps ((stream source).map (·.text)) ∧
      ∀ index token, (stream source)[index]? = some token → token.text ≠ [] ∧
        token.line = lineAt (Bytes.ofString source)
          (offsetOf gaps ((stream source).map (·.text)) index) ∧
        token.column = columnAt (Bytes.ofString source)
          (offsetOf gaps ((stream source).map (·.text)) index) := by
  unfold stream
  generalize Bytes.ofString source = bytes
  obtain ⟨gaps, laid⟩ : ∃ gaps, Laid .start (Lexeme.ofSource bytes) gaps bytes :=
    list_laid .html .start bytes
  have texts := texts_ofBytes bytes
  have size := length_ofBytes bytes
  refine ⟨gaps, ?_, laid.blank, ?_, ?_⟩
  · rw [size]
    exact laid.fits
  · rw [texts]
    exact laid.spells.symm
  · intro index token found
    obtain ⟨lexeme, kind, mark, foundLexeme, _, _, same⟩ :=
      ofBytes_getElem? bytes index token found
    obtain ⟨filled, placed⟩ := laid.placed index lexeme foundLexeme
    have within := (List.getElem?_eq_some_iff.mp foundLexeme).1
    -- What is woven before the token is what the source has before its offset.
    have start := weave_take_prefix gaps ((Lexeme.ofSource bytes).map (·.text)) index
      (by simpa using laid.fits) (by simpa using within)
    rw [laid.spells, List.prefix_iff_eq_take] at start
    rw [Place.after_start, start] at placed
    rw [same, texts]
    exact ⟨filled, congrArg Place.line placed, congrArg Place.column placed⟩

end Token

end CognitiveComplexity
