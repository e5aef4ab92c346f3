import CognitiveComplexity.Score
import CognitiveComplexity.Proofs.Scanner.Safety
import CognitiveComplexity.Proofs.Token.Recoded

set_option autoImplicit false

namespace CognitiveComplexity

def Lexeme.respell (spell : Bytes → Bytes) (lexeme : Lexeme) : Lexeme :=
  { lexeme with text := spell lexeme.text }

def Token.respell (spell : Bytes → Bytes) (token : Token) : Token :=
  { token with text := spell token.text }

def Scope.rename (spell : Bytes → Bytes) (scope : Scope) : Scope :=
  { scope with name := spell scope.name }

namespace Lexeme

structure Alike (one other : Lexeme) : Prop where
  kind : one.kind = other.kind
  word : one.isWord = other.isWord
  access : one.kind ≠ .comment → memberAccess.contains one.text = memberAccess.contains other.text

theorem startsParameters_alike (ones others : List Lexeme) (alike : List.Forall₂ Alike ones others) :
    startsParameters ones = startsParameters others := by
  have kinds : ones.map (·.kind) = others.map (·.kind) := by
    induction alike with
    | nil => rfl
    | cons head _ ih => simp [head.kind, ih]
  rw [startsParameters_eq, startsParameters_eq, kinds]

theorem kindsFrom_alike (afterIntroducer : Bool) (ones others : List Lexeme)
    (alike : List.Forall₂ Alike ones others) :
    kindsFrom afterIntroducer ones = kindsFrom afterIntroducer others := by
  induction alike generalizing afterIntroducer with
  | nil => rfl
  | @cons one other ones others head tail ih =>
    have parameters := startsParameters_alike ones others tail
    by_cases comment : one.kind = .comment
    · simp [kindsFrom, isComment, ← head.kind, comment, ih]
    · have access := head.access comment
      simp only [kindsFrom, isComment, kindIn, introducesName, ← head.kind, ← head.word, access,
        parameters, ih]

theorem alike_of_recoded (recoding : Recoding) (one other : Lexeme)
    (recoded : Recoded recoding one other) : Alike one other := by
  have start (b : UInt8) : Byte.isWordStart (recoding.swap b) = Byte.isWordStart b := by
    rw [Byte.isWordStart, Byte.isWordStart, (recoding.sameClass_swap b).letter, Bool.eq_iff_iff]
    simp [recoding.swap_eq_iff b Byte.underscore rfl]
  have head := recoding.any_head_bytes one.text Byte.isWordStart start rfl
  refine ⟨recoded.kind.symm, ?_, fun noComment => ?_⟩
  · unfold isWord
    rcases recoded.text with same | ⟨_, _, longer⟩
    · rw [same, head]
    · rw [longer, ← head]
      cases recoding.bytes one.text <;> rfl
  · have same : other.text = recoding.bytes one.text :=
      recoded.text.resolve_right fun comment => noComment comment.2.1
    have plain : ∀ access ∈ memberAccess, ∀ c ∈ access,
        Byte.isLetter c = false ∧ c ≠ Byte.newline ∧ c ≠ Byte.carriageReturn := by
      decide +kernel
    have fixed : ∀ access ∈ memberAccess, (recoding.bytes one.text = access ↔ one.text = access) := by
      intro access listed
      refine recoding.bytes_eq_iff access one.text fun c member => ?_
      obtain ⟨noLetter, noFeed, noReturn⟩ := plain access listed c member
      exact recoding.fixed_of_not_letter c noLetter noFeed noReturn
    rw [same, Bool.eq_iff_iff, List.contains_iff_mem, List.contains_iff_mem]
    exact ⟨fun listed => ((fixed _ listed).mpr rfl).symm ▸ listed,
      fun listed => ((fixed _ listed).mp rfl).symm ▸ listed⟩

end Lexeme

namespace Token

theorem assemble_respell (spell : Bytes → Bytes) (position : Nat) (ones others : List Lexeme)
    (kinds : List Kind) (marks : List Mark)
    (same : ones.map (Lexeme.respell spell) = others.map (Lexeme.respell spell)) :
    (assemble position ones kinds marks).map (respell spell) =
      (assemble position others kinds marks).map (respell spell) := by
  induction ones generalizing position others kinds marks with
  | nil => simp_all
  | cons one ones ih =>
    cases others with
    | nil => simp at same
    | cons other others =>
      simp only [List.map_cons, List.cons.injEq, Lexeme.respell, Lexeme.mk.injEq] at same
      obtain ⟨⟨_, text, place⟩, rests⟩ := same
      cases kinds <;> cases marks <;> simp [assemble]
      exact ⟨by simp [ofLexeme, respell, text, place], ih _ _ _ _ rests⟩

theorem ofLexemes_respell (spell : Bytes → Bytes) (ones others : List Lexeme)
    (alike : List.Forall₂ Lexeme.Alike ones others)
    (same : ones.map (Lexeme.respell spell) = others.map (Lexeme.respell spell)) :
    (ofLexemes ones).map (respell spell) = (ofLexemes others).map (respell spell) := by
  have kinds : ones.map (·.kind) = others.map (·.kind) := by
    simpa [Function.comp_def, Lexeme.respell] using congrArg (List.map Lexeme.kind) same
  unfold ofLexemes Lexeme.kinds
  simp only [kinds, Lexeme.kindsFrom_alike false ones others alike]
  exact assemble_respell spell 0 ones others _ _ same

theorem ofBytes_recode (recoding : Recoding) (source : Bytes)
    (keeps : ∀ first rest, first :: rest <:+ source → recoding.KeepsHeredoc first rest)
    (spell : Bytes → Bytes) (blind : ∀ text, spell (recoding.bytes text) = spell text)
    (returned : recoding.returns = true → ∀ text, spell (text ++ [Byte.carriageReturn]) = spell text) :
    (ofBytes (recoding.bytes source)).map (respell spell) = (ofBytes source).map (respell spell) := by
  have recoded := Lexeme.list_recode recoding source keeps .html .start source List.suffix_rfl
  refine (ofLexemes_respell spell _ _ (recoded.imp (Lexeme.alike_of_recoded recoding)) ?_).symm
  have same (one other : Lexeme) (pair : Lexeme.Recoded recoding one other) :
      one.respell spell = other.respell spell := by
    have text : spell other.text = spell one.text := by
      rcases pair.text with same | ⟨returns, _, longer⟩
      · rw [same, blind]
      · rw [longer, returned returns, blind]
    simp [Lexeme.respell, pair.kind, pair.place, text]
  rw [← List.forall₂_eq_eq_eq, List.forall₂_map_left_iff, List.forall₂_map_right_iff]
  exact recoded.imp same

end Token

namespace Scope

open Token

variable (spell : Bytes → Bytes)

theorem find_respell (choose : Kind → Bool) (tokens : List Token) :
    (tokens.map (respell spell)).find? (fun token => choose token.kind) =
      (tokens.find? fun token => choose token.kind).map (respell spell) := by
  rw [List.find?_map]
  rfl

theorem nameOf_respell (kept : spell anonymous = anonymous) (rest : List Token) :
    nameOf (rest.map (respell spell)) = spell (nameOf rest) := by
  unfold nameOf
  rw [find_respell spell (fun kind => kind != .comment && kind != .bitwiseAnd)]
  cases rest.find? fun token => token.kind != .comment && token.kind != .bitwiseAnd with
  | none => simp [kept]
  | some token => by_cases named : token.kind = .identifier <;> simp [respell, named, kept]

theorem parameters_respell (rest : List Token) :
    parameters? (rest.map (respell spell)) = (parameters? rest).map (respell spell) := by
  unfold parameters?
  rw [find_respell spell
    (fun kind => kind == .openParen || kind == .openCurly || kind == .semicolon), Option.filter_map]
  rfl

theorem opener_respell (level : Nat) (rest : List Token) :
    opener? level (rest.map (respell spell)) = (opener? level rest).map (respell spell) := by
  unfold opener?
  rw [find_respell spell (fun kind => kind == .openCurly || kind == .semicolon), Option.filter_map]
  rfl

theorem at_respell (kept : spell anonymous = anonymous) (stream : List Token) (position : Nat) :
    at? (stream.map (respell spell)) position = (at? stream position).map (rename spell) := by
  unfold at?
  simp only [List.getElem?_map, Option.filter_map, ← List.map_drop, parameters_respell,
    opener_respell, nameOf_respell spell kept, Option.bind_eq_bind, Option.bind_map,
    Option.map_bind, Function.comp_def]
  rfl

theorem all_respell (kept : spell anonymous = anonymous) (stream : List Token) :
    all (stream.map (respell spell)) = (all stream).map (rename spell) := by
  have positions_same : positions (stream.map (respell spell)) = positions stream := by
    simp [positions, List.filter_map, Function.comp_def, respell]
  unfold all
  rw [positions_same, List.map_filterMap]
  simp only [at_respell spell kept]

theorem score_respell (body : Body) (stream : List Token) :
    body.score (stream.map (respell spell)) = body.score stream := by
  unfold Body.score Body.scan Body.tokens
  rw [← List.map_drop, ← List.map_take, List.foldl_map]
  rfl

/-- Streams that are spelled alike have the same functions, spelled alike, and every body has the same
score in both. -/
theorem all_of_respell (kept : spell anonymous = anonymous) (ones others : List Token)
    (same : ones.map (respell spell) = others.map (respell spell)) :
    (all ones).map (rename spell) = (all others).map (rename spell) ∧
      ∀ body : Body, body.score ones = body.score others := by
  refine ⟨?_, fun body => ?_⟩
  · rw [← all_respell spell kept, ← all_respell spell kept, same]
  · rw [← score_respell spell body ones, same, score_respell]

end Scope

end CognitiveComplexity
