import CognitiveComplexity.JsonText
import Mathlib.Data.List.Infix
import Mathlib.Tactic.Common

set_option autoImplicit false

namespace CognitiveComplexity

-- What a reader of the report gets. A number is kept as it is written.
inductive Json where
  | null
  | boolean (value : Bool)
  | number (literal : String)
  | string (text : String)
  | array (items : List Json)
  | object (fields : List (String × Json))

namespace Json

abbrev Reader (α : Type) := List Char → Option (α × List Char)

def isBlank (c : Char) : Bool := c == ' ' || c == '\n' || c == '\r' || c == '\t'

def isNumeric (c : Char) : Bool :=
  c.isDigit || c == '-' || c == '+' || c == '.' || c == 'e' || c == 'E'

def skip (input : List Char) : List Char := input.dropWhile isBlank

def hexDigits : List Char := "0123456789abcdef".toList

def unit? (digits : List Char) : Option Char := do
  let values ← digits.mapM fun digit => hexDigits.idxOf? digit.toLower
  let unit := values.foldl (fun value digit => 16 * value + digit) 0
  if unit.isValidChar then some (Char.ofNat unit) else none

def shortEscapes : List (Char × Char) :=
  [('"', '"'), ('\\', '\\'), ('/', '/'), ('b', '\x08'), ('f', '\x0c'), ('n', '\n'), ('r', '\r'),
    ('t', '\t')]

-- The rest of a string, up to its closing quote.
def characters : Reader (List Char)
  | [] => none
  | '"' :: rest => some ([], rest)
  | '\\' :: 'u' :: first :: second :: third :: fourth :: rest => do
    let unit ← unit? [first, second, third, fourth]
    let (text, rest) ← characters rest
    return (unit :: text, rest)
  | '\\' :: mark :: rest => do
    let character ← shortEscapes.lookup mark
    let (text, rest) ← characters rest
    return (character :: text, rest)
  | character :: rest => do
    if character.toNat < 0x20 then none
    let (text, rest) ← characters rest
    return (character :: text, rest)

-- Items up to the closing bracket, with a comma after each but the last.
def sequence {α : Type} (closing : Char) (item : Reader α) : Nat → Reader (List α)
  | 0, _ => none
  | fuel + 1, input => do
    let (first, rest) ← item input
    match skip rest with
    | [] => none
    | mark :: rest =>
      if mark == closing then return ([first], rest)
      else if mark == ',' then
        let (others, rest) ← sequence closing item fuel rest
        return (first :: others, rest)
      else none

def bracketed {α : Type} (closing : Char) (item : Reader α) (fuel : Nat) : Reader (List α) :=
  fun input =>
    if (skip input).head? == some closing then some ([], (skip input).tail)
    else sequence closing item fuel input

def field (item : Reader Json) : Reader (String × Json) := fun input =>
  match skip input with
  | '"' :: rest => do
    let (name, rest) ← characters rest
    match skip rest with
    | ':' :: rest =>
      let (value, rest) ← item rest
      return ((String.ofList name, value), rest)
    | _ => none
  | _ => none

def keywords : List (String × Json) :=
  [("null", .null), ("true", .boolean true), ("false", .boolean false)]

-- Fuel bounds the nesting and the number of items in one bracket; the length of the text is enough.
def value : Nat → Reader Json
  | 0, _ => none
  | fuel + 1, input =>
    match skip input with
    | [] => none
    | first :: rest =>
      if first == '"' then do
        let (text, rest) ← characters rest
        return (.string (String.ofList text), rest)
      else if first == '[' then do
        let (items, rest) ← bracketed ']' (value fuel) fuel rest
        return (.array items, rest)
      else if first == '\x7b' then do
        let (fields, rest) ← bracketed '\x7d' (field (value fuel)) fuel rest
        return (.object fields, rest)
      else if isNumeric first then
        some (.number (String.ofList ((first :: rest).takeWhile isNumeric)),
          (first :: rest).dropWhile isNumeric)
      else
        keywords.findSome? fun (word, json) =>
          (word.toList.isPrefixOf? (first :: rest)).map fun rest => (json, rest)

def read (text : String) : Option Json := do
  let (json, rest) ← value text.length text.toList
  if (skip rest).isEmpty then some json else none

def field? (name : String) : Json → Option Json
  | .object fields => fields.lookup name
  | _ => none

def string? : Json → Option String
  | .string text => some text
  | _ => none

def boolean? : Json → Option Bool
  | .boolean value => some value
  | _ => none

def natural? : Json → Option Nat
  | .number literal =>
    if literal.toList.all Char.isDigit then some (Nat.ofDigitChars 10 literal.toList 0) else none
  | _ => none

def readAll? {α : Type} (item? : Json → Option α) : Json → Option (List α)
  | .array items => items.mapM item?
  | _ => none

end Json

namespace JsonText

mutual

def plain : JsonText → Json
  | .string text => .string text
  | .natural value => .number (toString value)
  | .fraction value => .number (Decimal.shortest value).text
  | .boolean value => .boolean value
  | .array items => .array (plainItems items)
  | .object fields => .object (plainFields fields)

def plainItems : List JsonText → List Json
  | [] => []
  | item :: rest => plain item :: plainItems rest

def plainFields : List (String × JsonText) → List (String × Json)
  | [] => []
  | (name, value) :: rest => (name, plain value) :: plainFields rest

end

theorem plainItems_eq_map (items : List JsonText) : plainItems items = items.map plain := by
  induction items with
  | nil => rfl
  | cons item rest ih => rw [plainItems, ih, List.map_cons]

theorem plainFields_eq_map (fields : List (String × JsonText)) :
    plainFields fields = fields.map fun (name, value) => (name, value.plain) := by
  induction fields with
  | nil => rfl
  | cons field rest ih => rw [plainFields, ih, List.map_cons]

theorem renderItems_eq_map (depth : Nat) (items : List JsonText) :
    renderItems depth items = items.map (render depth) := by
  induction items with
  | nil => rfl
  | cons item rest ih => rw [renderItems, ih, List.map_cons]

theorem renderFields_eq_map (depth : Nat) (fields : List (String × JsonText)) :
    renderFields depth fields =
      fields.map fun (name, value) => quote name ++ ": " ++ value.render depth := by
  induction fields with
  | nil => rfl
  | cons field rest ih => rw [renderFields, ih, List.map_cons]

end JsonText

namespace Json

open JsonText (escape quote lineBreak)

def Blank (gap : List Char) : Prop := ∀ c ∈ gap, isBlank c = true

-- What follows a number must not go on with it.
def Stops (rest : List Char) : Prop := ∀ c ∈ rest.head?, isNumeric c = false

def Reads {α : Type} (item : Reader α) (text : List Char) (result : α) : Prop :=
  ∀ gap rest, Blank gap → Stops rest → item (gap ++ (text ++ rest)) = some (result, rest)

def Opens (closing : Char) (text : List Char) : Prop :=
  ∃ c rest, text = c :: rest ∧ isBlank c = false ∧ c ≠ closing

theorem skip_blank (gap : List Char) (blank : Blank gap) (rest : List Char) :
    skip (gap ++ rest) = skip rest :=
  List.dropWhile_append_of_pos blank

theorem skip_cons (c : Char) (rest : List Char) (solid : isBlank c = false) :
    skip (c :: rest) = c :: rest :=
  List.dropWhile_cons_of_neg (by simp [solid])

theorem blank_lineBreak (depth : Nat) : Blank (lineBreak depth).toList := by
  intro c member
  simp only [lineBreak, String.toList_append, String.toList_ofList, List.mem_append,
    List.mem_replicate] at member
  rcases member with newline | ⟨_, rfl⟩
  · have same : c = '\n' := by simpa using newline
    rw [same]
    rfl
  · rfl

theorem stops_cons (c : Char) (rest : List Char) (solid : isNumeric c = false) : Stops (c :: rest) := by
  intro head member
  cases member
  exact solid

theorem isNumeric_of_isBlank (c : Char) (blank : isBlank c = true) : isNumeric c = false := by
  simp only [isBlank, Bool.or_eq_true, beq_iff_eq] at blank
  rcases blank with ((rfl | rfl) | rfl) | rfl <;> rfl

theorem stops_blank (gap : List Char) (blank : Blank gap) (c : Char) (rest : List Char)
    (solid : isNumeric c = false) : Stops (gap ++ c :: rest) := by
  cases gap with
  | nil => exact stops_cons c rest solid
  | cons first more => exact stops_cons _ _ (isNumeric_of_isBlank _ (blank first (by simp)))

theorem unit_control : ∀ code < 0x20,
    unit? ['0', '0', Nat.digitChar (code / 16), Nat.digitChar (code % 16)] =
      some (Char.ofNat code) := by
  decide +kernel

theorem characters_escape (c : Char) (rest : List Char) :
    characters (escape c ++ rest) = (characters rest).map fun (text, rest) => (c :: text, rest) := by
  have mapped (result : Option (List Char × List Char)) (c : Char) :
      (result.bind fun read => some (c :: read.1, read.2)) =
        result.map fun read => (c :: read.1, read.2) := by
    cases result <;> rfl
  fun_cases escape c with
  | case8 c quote backslash _ _ _ _ _ control =>
    have unit := unit_control c.toNat control
    rw [Char.ofNat_toNat] at unit
    simp [characters, unit, mapped]
  | case9 c quote backslash _ _ _ _ _ plain =>
    rw [List.singleton_append, characters]
    · simp [plain, mapped]
    · exact quote
    · exact fun _ _ _ _ _ same _ => backslash same
    · exact fun _ _ same _ => backslash same
  | _ => simp [characters, shortEscapes, List.lookup_cons, mapped]

theorem characters_quote (text rest : List Char) :
    characters (text.flatMap escape ++ '"' :: rest) = some (text, rest) := by
  induction text with
  | nil => rfl
  | cons c text ih => rw [List.flatMap_cons, List.append_assoc, characters_escape, ih]; rfl

theorem toList_quote (text : String) :
    (quote text).toList = '"' :: (text.toList.flatMap escape ++ ['"']) := by
  simp [quote]

theorem toList_bracketed (opening closing : String) (depth : Nat) (first : String)
    (others : List String) :
    (JsonText.bracketed opening closing depth (first :: others)).toList =
      opening.toList ++ ((lineBreak (depth + 1)).toList ++ (first.toList ++
        (others.flatMap (fun part => ',' :: ((lineBreak (depth + 1)).toList ++ part.toList)) ++
          ((lineBreak depth).toList ++ closing.toList)))) := by
  have joined : ∀ (first : String),
      (String.intercalate ("," ++ lineBreak (depth + 1)) (first :: others)).toList =
        first.toList ++
          others.flatMap (fun part => ',' :: ((lineBreak (depth + 1)).toList ++ part.toList)) := by
    simp only [String.toList_intercalate]
    induction others with
    | nil => simp
    | cons next others ih =>
      intro first
      rw [List.map_cons, List.map_cons, List.intercalate_cons_cons, ← List.map_cons, ih next]
      simp
  rw [JsonText.bracketed]
  simp [joined]

section Sequence

variable {α : Type} {closing : Char} {item : Reader α} {gap last : List Char}
  (blank : Blank gap) (lastBlank : Blank last) (solid : isBlank closing = false)
  (stop : isNumeric closing = false) (closes : closing ≠ ',')

include blank lastBlank solid stop closes

theorem sequence_reads (others : List (List Char × α)) :
    ∀ (text : List Char) (result : α) (fuel : Nat) (before rest : List Char), Blank before →
      Reads item text result → (∀ part ∈ others, Reads item part.1 part.2) → others.length < fuel →
      sequence closing item fuel (before ++ (text ++
        (others.flatMap (fun part => ',' :: (gap ++ part.1)) ++ (last ++ closing :: rest)))) =
        some (result :: others.map Prod.snd, rest) := by
  induction others with
  | nil =>
    intro text result fuel before rest blankBefore reads _ enough
    obtain ⟨fuel, rfl⟩ : ∃ less, fuel = less + 1 := ⟨fuel - 1, by simp at enough; omega⟩
    have first := reads before (last ++ closing :: rest) blankBefore
      (stops_blank last lastBlank closing rest stop)
    rw [List.flatMap_nil, List.nil_append, sequence, first]
    simp [skip_blank last lastBlank, skip_cons closing rest solid]
  | cons part others ih =>
    intro text result fuel before rest blankBefore reads readsAll enough
    obtain ⟨fuel, rfl⟩ : ∃ less, fuel = less + 1 := ⟨fuel - 1, by simp at enough; omega⟩
    have first := reads before _ blankBefore (stops_cons ',' (gap ++ (part.1 ++
      (others.flatMap (fun part => ',' :: (gap ++ part.1)) ++ (last ++ closing :: rest)))) (by decide))
    have more := ih part.1 part.2 fuel gap rest blank (readsAll part (by simp))
      (fun other member => readsAll other (by simp [member])) (by simpa using enough)
    rw [List.flatMap_cons, List.cons_append, List.cons_append, List.append_assoc, List.append_assoc,
      sequence, first]
    simp [skip_cons ',' _ (by decide : isBlank ',' = false), closes.symm, more]

end Sequence

theorem bracketed_empty {α : Type} (closing : Char) (item : Reader α) (fuel : Nat) (rest : List Char)
    (solid : isBlank closing = false) :
    bracketed closing item fuel (closing :: rest) = some ([], rest) := by
  simp [bracketed, skip_cons closing rest solid]

theorem bracketed_of_opens {α : Type} (closing : Char) (item : Reader α) (fuel : Nat)
    (gap text rest : List Char) (blank : Blank gap) (opens : Opens closing text) :
    bracketed closing item fuel (gap ++ (text ++ rest)) =
      sequence closing item fuel (gap ++ (text ++ rest)) := by
  obtain ⟨c, more, rfl, solid, different⟩ := opens
  simp [bracketed, skip_blank gap blank, skip_cons c _ solid, different]

structure IsClosing (closing : Char) : Prop where
  solid : isBlank closing = false
  stop : isNumeric closing = false
  noComma : closing ≠ ','

theorem isClosing_square : IsClosing ']' := by constructor <;> decide

theorem isClosing_curly : IsClosing '\x7d' := by constructor <;> decide

theorem length_le_flatMap (gap : List Char) (parts : List String) :
    parts.length ≤ (parts.flatMap fun part => ',' :: (gap ++ part.toList)).length ∧
      ∀ part ∈ parts,
        part.length ≤ (parts.flatMap fun part => ',' :: (gap ++ part.toList)).length := by
  induction parts with
  | nil => simp
  | cons part parts ih =>
    obtain ⟨count, each⟩ := ih
    simp only [List.flatMap_cons, List.length_append, List.length_cons, String.length_toList]
    refine ⟨by omega, fun other member => ?_⟩
    rcases List.mem_cons.mp member with rfl | member
    · omega
    · have := each other member
      omega

theorem length_bracketed (opening closing : String) (depth : Nat) (parts : List String) :
    opening.length + closing.length + parts.length ≤
        (JsonText.bracketed opening closing depth parts).length ∧
      ∀ part ∈ parts, opening.length + closing.length + part.length ≤
        (JsonText.bracketed opening closing depth parts).length := by
  cases parts with
  | nil => simp [JsonText.bracketed]
  | cons first others =>
    obtain ⟨count, each⟩ := length_le_flatMap (lineBreak (depth + 1)).toList others
    have long := congrArg List.length (toList_bracketed opening closing depth first others)
    have gap : 0 < (lineBreak depth).length := by
      rw [lineBreak, String.length_append]
      exact Nat.add_pos_left (by decide) _
    simp only [List.length_append, String.length_toList] at long
    refine ⟨by rw [List.length_cons]; omega, fun part member => ?_⟩
    rcases List.mem_cons.mp member with rfl | member
    · omega
    · have := each part member
      omega

theorem bracketed_reads {α : Type} {closing : Char} (isClosing : IsClosing closing) (opening : Char)
    (item : Reader α) (depth fuel : Nat) (parts : List (String × α))
    (enough : (JsonText.bracketed (String.singleton opening) (String.singleton closing) depth
      (parts.map Prod.fst)).length ≤ fuel + 1)
    (reads : ∀ part ∈ parts, part.1.length ≤ fuel → Reads item part.1.toList part.2)
    (opens : ∀ part ∈ parts, Opens closing part.1.toList) :
    ∃ body, (JsonText.bracketed (String.singleton opening) (String.singleton closing) depth
        (parts.map Prod.fst)).toList = opening :: body ∧
      ∀ rest, bracketed closing item fuel (body ++ rest) = some (parts.map Prod.snd, rest) := by
  obtain ⟨count, size⟩ := length_bracketed (String.singleton opening) (String.singleton closing) depth
    (parts.map Prod.fst)
  simp only [String.length_singleton, List.length_map] at count size
  have within : ∀ part ∈ parts, Reads item part.1.toList part.2 := fun part member =>
    reads part member (by have := size part.1 (List.mem_map_of_mem member); omega)
  cases parts with
  | nil =>
    refine ⟨[closing], by simp [JsonText.bracketed], fun rest => ?_⟩
    exact bracketed_empty closing item fuel rest isClosing.solid
  | cons part others =>
    refine ⟨_, by rw [List.map_cons, toList_bracketed, String.toList_singleton,
      List.singleton_append], fun rest => ?_⟩
    have texts : (others.map Prod.fst).flatMap
          (fun text => ',' :: ((lineBreak (depth + 1)).toList ++ text.toList)) =
        (others.map fun other => (other.1.toList, other.2)).flatMap
          (fun other => ',' :: ((lineBreak (depth + 1)).toList ++ other.1)) := by
      rw [List.flatMap_map, List.flatMap_map]
    have readsOthers : ∀ other ∈ others.map (fun other => (other.1.toList, other.2)),
        Reads item other.1 other.2 := by
      intro other member
      obtain ⟨source, inside, rfl⟩ := List.mem_map.mp member
      exact within source (by simp [inside])
    have all := sequence_reads (blank_lineBreak (depth + 1)) (blank_lineBreak depth)
      isClosing.solid isClosing.stop isClosing.noComma
      (others.map fun other => (other.1.toList, other.2)) part.1.toList part.2 fuel
      (lineBreak (depth + 1)).toList rest (blank_lineBreak (depth + 1)) (within part (by simp))
      readsOthers (by rw [List.length_map]; rw [List.length_cons] at count; omega)
    rw [← texts] at all
    simp only [List.append_assoc, String.toList_singleton, List.singleton_append]
    rw [bracketed_of_opens closing item fuel _ _ _ (blank_lineBreak (depth + 1))
      (opens part (by simp)), all]
    simp

-- A number as a report writes it.
structure Literal (text : String) : Prop where
  nonempty : text.toList ≠ []
  numeric : ∀ c ∈ text.toList, isNumeric c = true

theorem isNumeric_of_isDigit (c : Char) (digit : c.isDigit = true) : isNumeric c = true := by
  simp [isNumeric, digit]

theorem isNumeric_of_mem_toDigits (value : Nat) : ∀ c ∈ Nat.toDigits 10 value, isNumeric c = true :=
  fun c member => isNumeric_of_isDigit c (Nat.isDigit_of_mem_toDigits (by decide) (by decide) member)

theorem literal_natural (value : Nat) : Literal (toString value) := by
  rw [Nat.toString_eq_ofList_toDigits]
  constructor
  · rw [String.toList_ofList]
    exact Nat.toDigits_ne_nil
  · rw [String.toList_ofList]
    exact isNumeric_of_mem_toDigits value

theorem literal_integer (value : Int) : ∀ c ∈ (toString value).toList, isNumeric c = true := by
  cases value with
  | ofNat value => exact (literal_natural value).numeric
  | negSucc value =>
    intro c member
    have shape : (toString (Int.negSucc value)).toList = '-' :: (toString (value + 1)).toList := by
      change ("-" ++ toString (value + 1)).toList = _
      simp
    rw [shape] at member
    rcases List.mem_cons.mp member with rfl | member
    · rfl
    · exact (literal_natural (value + 1)).numeric c member

theorem literal_positional (decimal : Decimal) : Literal decimal.positional := by
  have digits := isNumeric_of_mem_toDigits decimal.digits
  have zeros (count : Nat) : ∀ c ∈ Decimal.zeros count, isNumeric c = true := by
    intro c member
    rw [List.eq_of_mem_replicate member]
    rfl
  have front (count : Nat) : ∀ c ∈ (Nat.toDigits 10 decimal.digits).take count, isNumeric c = true :=
    fun c member => digits c (List.mem_of_mem_take member)
  have back (count : Nat) : ∀ c ∈ (Nat.toDigits 10 decimal.digits).drop count, isNumeric c = true :=
    fun c member => digits c (List.mem_of_mem_drop member)
  have point : isNumeric '.' = true := rfl
  have zero : isNumeric '0' = true := rfl
  unfold Decimal.positional Decimal.digitTexts
  constructor <;> rw [String.toList_ofList] <;> split_ifs
  · simp
  · simp
  · simp
  · simp only [List.forall_mem_append, List.forall_mem_cons]
    exact ⟨⟨digits, zeros _⟩, point, zero, by simp⟩
  · simp only [List.forall_mem_append, List.forall_mem_singleton]
    exact ⟨⟨front _, point⟩, back _⟩
  · simp only [List.forall_mem_append, List.forall_mem_cons]
    exact ⟨⟨⟨zero, point, by simp⟩, zeros _⟩, digits⟩

theorem literal_scientific (decimal : Decimal) : Literal decimal.scientific := by
  have digits := isNumeric_of_mem_toDigits decimal.digits
  have point : isNumeric '.' = true := rfl
  have mark : isNumeric 'e' = true := rfl
  unfold Decimal.scientific Decimal.digitTexts
  constructor <;> rw [String.toList_append, String.toList_ofList]
  · simp
  · have fraction : ∀ c ∈ (if (Nat.toDigits 10 decimal.digits).length == 1 then []
        else '.' :: (Nat.toDigits 10 decimal.digits).tail), isNumeric c = true := by
      split_ifs
      · simp
      · exact List.forall_mem_cons.mpr ⟨point, fun c member => digits c (List.mem_of_mem_tail member)⟩
    simp only [List.forall_mem_append, List.forall_mem_singleton]
    exact ⟨⟨⟨fun c member => digits c (List.mem_of_mem_take member), fraction⟩, mark⟩,
      literal_integer _⟩

theorem literal_decimal (decimal : Decimal) : Literal decimal.text := by
  unfold Decimal.text
  dsimp only
  split
  · exact literal_positional decimal
  · exact literal_scientific decimal

theorem Literal.opens {text : String} (literal : Literal text) {closing : Char}
    (isClosing : IsClosing closing) : Opens closing text.toList := by
  cases shape : text.toList with
  | nil => exact absurd shape literal.nonempty
  | cons c rest =>
    have numeric : isNumeric c = true := literal.numeric c (by simp [shape])
    refine ⟨c, rest, rfl, ?_, ?_⟩
    · by_contra blank
      simp [isNumeric_of_isBlank c (by simpa using blank)] at numeric
    · rintro rfl
      simp [isClosing.stop] at numeric

theorem Literal.reads {text : String} (literal : Literal text) (fuel : Nat) :
    Reads (value (fuel + 1)) text.toList (.number text) := by
  intro gap rest blank stops
  obtain ⟨first, more, shape, solid, -⟩ := literal.opens isClosing_square
  have numeric : isNumeric first = true := literal.numeric first (by simp [shape])
  have quote : first ≠ '"' := by rintro rfl; exact absurd numeric (by decide)
  have square : first ≠ '[' := by rintro rfl; exact absurd numeric (by decide)
  have curly : first ≠ '\x7b' := by rintro rfl; exact absurd numeric (by decide)
  have taken : (text.toList ++ rest).takeWhile isNumeric = text.toList := by
    rw [List.takeWhile_append_of_pos literal.numeric]
    cases rest with
    | nil => simp
    | cons c rest => simp [stops c rfl]
  have left : (text.toList ++ rest).dropWhile isNumeric = rest := by
    rw [List.dropWhile_append_of_pos literal.numeric]
    cases rest with
    | nil => rfl
    | cons c rest => simp [stops c rfl]
  have skipped : skip (gap ++ (text.toList ++ rest)) = text.toList ++ rest := by
    rw [skip_blank gap blank, shape, List.cons_append, skip_cons first _ solid]
  rw [value, skipped]
  simp only [shape, List.cons_append] at taken left ⊢
  simp [quote, square, curly, numeric, taken, left, ← shape]

theorem string_reads (text : String) (fuel : Nat) :
    Reads (value (fuel + 1)) (quote text).toList (.string text) := by
  intro gap rest blank _
  rw [value, skip_blank gap blank, toList_quote, List.cons_append, List.append_assoc,
    List.singleton_append, skip_cons '"' _ (by decide)]
  simp [characters_quote]

theorem boolean_reads (flag : Bool) (fuel : Nat) :
    Reads (value (fuel + 1)) (if flag then "true" else "false").toList (.boolean flag) := by
  intro gap rest blank _
  rw [value, skip_blank gap blank]
  cases flag
  · simp [skip_cons 'f' _ (by decide : isBlank 'f' = false), keywords, isNumeric, List.isPrefixOf?]
  · simp [skip_cons 't' _ (by decide : isBlank 't' = false), keywords, isNumeric, List.isPrefixOf?]

theorem field_reads (name : String) (item : Reader Json) (text : String) (result : Json)
    (reads : Reads item text.toList result) :
    Reads (field item) (quote name ++ ": " ++ text).toList (name, result) := by
  intro gap rest blank stops
  have spaced : item (' ' :: (text.toList ++ rest)) = some (result, rest) :=
    reads [' '] rest (by simp [Blank, isBlank]) stops
  simp only [String.toList_append, toList_quote, List.cons_append, List.append_assoc]
  rw [field, skip_blank gap blank, skip_cons '"' _ (by decide)]
  simp [characters_quote, skip_cons ':' _ (by decide : isBlank ':' = false), spaced]

theorem opens_quote (text : String) (rest : List Char) {closing : Char} (different : '"' ≠ closing) :
    Opens closing ((quote text).toList ++ rest) := by
  rw [toList_quote]
  exact ⟨'"', _, rfl, by decide, different⟩

theorem opens_bracketed (opening : Char) (closing : String) (depth : Nat) (parts : List String)
    {outer : Char} (solid : isBlank opening = false) (different : opening ≠ outer) :
    Opens outer (JsonText.bracketed (String.singleton opening) closing depth parts).toList := by
  rw [JsonText.bracketed]
  split
  · exact ⟨opening, closing.toList, by simp, solid, different⟩
  · exact ⟨opening, _, by rw [String.append_assoc, String.append_assoc, String.append_assoc, String.toList_append,
      String.toList_singleton, List.singleton_append], solid, different⟩

theorem opens_render (json : JsonText) (depth : Nat) {closing : Char} (isClosing : IsClosing closing)
    (different : closing ∉ ['"', '[', '\x7b', 't', 'f']) : Opens closing (json.render depth).toList := by
  simp only [List.mem_cons, List.not_mem_nil, not_or, or_false] at different
  obtain ⟨quote, square, curly, yes, no⟩ := different
  cases json with
  | string text => simpa [JsonText.render] using opens_quote text [] (Ne.symm quote)
  | natural value => exact (literal_natural value).opens isClosing
  | fraction value => exact (literal_decimal _).opens isClosing
  | boolean flag =>
    cases flag
    · exact ⟨'f', "alse".toList, by rw [JsonText.render]; rfl, by decide, Ne.symm no⟩
    · exact ⟨'t', "rue".toList, by rw [JsonText.render]; rfl, by decide, Ne.symm yes⟩
  | array items =>
    rw [JsonText.render]
    exact opens_bracketed '[' _ depth _ (by decide) (Ne.symm square)
  | object fields =>
    rw [JsonText.render]
    exact opens_bracketed '\x7b' _ depth _ (by decide) (Ne.symm curly)

-- With as much fuel as the text is long it is read whole, at any depth.
def Readable (json : JsonText) : Prop :=
  ∀ depth fuel, (json.render depth).length ≤ fuel + 1 →
    Reads (value (fuel + 1)) (json.render depth).toList json.plain

theorem Readable.reads {json : JsonText} (readable : Readable json) (depth fuel : Nat)
    (long : (json.render depth).length ≤ fuel) :
    Reads (value fuel) (json.render depth).toList json.plain := by
  obtain ⟨c, rest, shape, -, -⟩ := opens_render json depth isClosing_square (by decide)
  cases fuel with
  | zero => rw [← String.length_toList, shape] at long; simp at long
  | succ fuel => exact readable depth fuel long

theorem readable_array (items : List JsonText) (each : ∀ item ∈ items, Readable item) :
    Readable (.array items) := by
  intro depth fuel long gap rest blank _
  rw [JsonText.render, JsonText.renderItems_eq_map] at long ⊢
  obtain ⟨body, shape, reads⟩ := bracketed_reads isClosing_square '[' (value fuel) depth fuel
    (items.map fun item => (item.render (depth + 1), item.plain))
    (by simpa [Function.comp_def] using long)
    (by simpa using fun item member => (each item member).reads (depth + 1) fuel)
    (by simpa using fun item _ => opens_render item (depth + 1) isClosing_square (by decide))
  simp only [List.map_map, Function.comp_def] at shape reads
  have text : (JsonText.bracketed "[" "]" depth (items.map (JsonText.render (depth + 1)))).toList =
      '[' :: body := shape
  rw [value, skip_blank gap blank, text, List.cons_append, skip_cons '[' _ (by decide)]
  simp [reads, JsonText.plain, JsonText.plainItems_eq_map]

theorem readable_object (fields : List (String × JsonText))
    (each : ∀ field ∈ fields, Readable field.2) : Readable (.object fields) := by
  intro depth fuel long gap rest blank _
  rw [JsonText.render, JsonText.renderFields_eq_map] at long ⊢
  obtain ⟨body, shape, reads⟩ := bracketed_reads isClosing_curly '\x7b' (field (value fuel)) depth fuel
    (fields.map fun (name, json) => (quote name ++ ": " ++ json.render (depth + 1), name, json.plain))
    (by simpa [Function.comp_def] using long)
    (by
      intro part member within
      obtain ⟨⟨name, json⟩, inside, rfl⟩ := List.mem_map.mp member
      simp only [String.length_append] at within
      have readable : Readable json := each (name, json) inside
      exact field_reads name _ _ _ (readable.reads (depth + 1) fuel (by omega)))
    (by
      intro part member
      obtain ⟨⟨name, json⟩, -, rfl⟩ := List.mem_map.mp member
      simpa using opens_quote name (": ".toList ++ (json.render (depth + 1)).toList) (by decide))
  simp only [List.map_map, Function.comp_def] at shape reads
  have text : (JsonText.bracketed "\x7b" "\x7d" depth (fields.map fun (name, json) =>
      quote name ++ ": " ++ json.render (depth + 1))).toList = '\x7b' :: body := shape
  rw [value, skip_blank gap blank, text, List.cons_append, skip_cons '\x7b' _ (by decide)]
  simp [reads, JsonText.plain, JsonText.plainFields_eq_map]

mutual

theorem readable : (json : JsonText) → Readable json
  | .string text => fun _ fuel _ => string_reads text fuel
  | .natural value => fun _ fuel _ => (literal_natural value).reads fuel
  | .fraction _ => fun _ fuel _ => (literal_decimal _).reads fuel
  | .boolean flag => fun _ fuel _ => boolean_reads flag fuel
  | .array items => readable_array items (readable_items items)
  | .object fields => readable_object fields (readable_fields fields)

theorem readable_items : (items : List JsonText) → ∀ item ∈ items, Readable item
  | [] => by simp
  | item :: rest => List.forall_mem_cons.mpr ⟨readable item, readable_items rest⟩

theorem readable_fields : (fields : List (String × JsonText)) → ∀ field ∈ fields, Readable field.2
  | [] => by simp
  | (_, json) :: rest => List.forall_mem_cons.mpr ⟨readable json, readable_fields rest⟩

end

theorem read_render (json : JsonText) : read (json.render 0 ++ "\n") = some json.plain := by
  have whole := (readable json).reads 0 (json.render 0 ++ "\n").length
    (by rw [String.length_append]; omega) [] ['\n'] (by simp [Blank]) (stops_cons _ _ (by decide))
  have text : (json.render 0 ++ "\n").toList = [] ++ ((json.render 0).toList ++ ['\n']) := by simp
  rw [read, text, whole]
  rfl

@[simp]
theorem natural_repr (value : Nat) : natural? (.number value.repr) = some value := by
  rw [natural?, Nat.repr_eq_ofList_toDigits, String.toList_ofList, Nat.ofDigitChars_ten_toDigits,
    if_pos]
  exact List.all_eq_true.mpr fun c member =>
    Nat.isDigit_of_mem_toDigits (by decide) (by decide) member

theorem mapM_map_some {α β γ : Type} (item? : β → Option γ) (text : α → β) (entry : α → γ)
    (items : List α) (each : ∀ item ∈ items, item? (text item) = some (entry item)) :
    (items.map text).mapM item? = some (items.map entry) := by
  induction items with
  | nil => rfl
  | cons item rest ih =>
    rw [List.map_cons, List.mapM_cons, each item (by simp),
      ih fun item member => each item (by simp [member])]
    rfl

theorem readAll_plain {α β : Type} (item? : Json → Option β) (json : α → JsonText) (entry : α → β)
    (each : ∀ item, item? (json item).plain = some (entry item)) (items : List α) :
    readAll? item? (JsonText.array (items.map json)).plain = some (items.map entry) := by
  rw [JsonText.plain, JsonText.plainItems_eq_map, List.map_map, readAll?]
  exact mapM_map_some item? _ entry items fun item _ => each item

end Json

end CognitiveComplexity
