import CognitiveComplexity.Proofs.Path.Access
import CognitiveComplexity.Settings

set_option autoImplicit false

namespace CognitiveComplexity

def errorOf? {ε α : Type} : Except ε α → Option ε
  | .error error => some error
  | .ok _ => none

section ErrorOf

variable {ε α β : Type}

theorem errorOf_bind (first : Except ε α) (next : α → Except ε β) (early late : List ε)
    (fails : errorOf? first = early.head?)
    (continues : ∀ value, first = .ok value → errorOf? (next value) = late.head?) :
    errorOf? (first >>= next) = (early ++ late).head? := by
  rw [List.head?_append, ← fails]
  cases first with
  | error error => rfl
  | ok value => exact continues value rfl

theorem bind_eq_ok {first : Except ε α} {next : α → Except ε β} {result : β}
    (succeeds : first >>= next = .ok result) : ∃ value, first = .ok value ∧ next value = .ok result := by
  cases first with
  | error error => cases succeeds
  | ok value => exact ⟨value, rfl, succeeds⟩

theorem errorOf_map (first : Except ε α) (change : α → β) :
    errorOf? (first >>= fun value => pure (change value)) = errorOf? first := by
  cases first <;> rfl

theorem errorOf_mapError {δ : Type} (wrap : ε → δ) (result : Except ε α) :
    errorOf? (result.mapError wrap) = (errorOf? result).map wrap := by
  cases result <;> rfl

theorem filterMap_cons_append (f : α → Option β) (item : α) (rest : List α) :
    (item :: rest).filterMap f = (f item).toList ++ rest.filterMap f := by
  cases here : f item <;> simp [here]

theorem errorOf_mapM (f : α → Except ε β) (items : List α) :
    errorOf? (items.mapM f) = (items.filterMap fun item => errorOf? (f item)).head? := by
  induction items with
  | nil => rfl
  | cons item rest ih =>
    rw [List.mapM_cons, filterMap_cons_append]
    apply errorOf_bind
    · exact Option.head?_toList.symm
    · intro value _
      rw [errorOf_map, ih]

end ErrorOf

namespace Settings

def mismatch? (entry : String × Toml.Value) : Option Mismatch := errorOf? (default.assign entry)

theorem errorOf_assign (settings : Settings) (entry : String × Toml.Value) :
    errorOf? (settings.assign entry) = mismatch? entry := by
  unfold mismatch? assign
  split <;> simp only [errorOf_map]

theorem errorOf_assignAll (settings : Settings) (entries : List (String × Toml.Value)) :
    errorOf? (entries.foldlM assign settings) = (entries.filterMap mismatch?).head? := by
  induction entries generalizing settings with
  | nil => rfl
  | cons entry rest ih =>
    rw [List.foldlM_cons, filterMap_cons_append]
    apply errorOf_bind
    · rw [errorOf_assign, Option.head?_toList]
    · intro next _
      exact ih next

-- What the last entry with a key says, where it says something that can be read.
def lastOf? {α : Type} (key : String) (read : Toml.Value → Except Mismatch α)
    (entries : List (String × Toml.Value)) : Option α :=
  entries.reverse.findSome? fun entry => if entry.1 = key then (read entry.2).toOption else none

theorem lastOf_cons {α : Type} (key : String) (read : Toml.Value → Except Mismatch α)
    (entry : String × Toml.Value) (rest : List (String × Toml.Value)) :
    lastOf? key read (entry :: rest) = (lastOf? key read rest).or (lastOf? key read [entry]) := by
  rw [lastOf?, List.reverse_cons, List.findSome?_append]
  rfl

def thresholdIn? := lastOf? "max_cognitive_complexity" natural

def extensionsIn? := lastOf? "file_extensions" texts

def skipIn? := lastOf? "skip" texts

theorem assign_eq (settings next : Settings) (entry : String × Toml.Value)
    (taken : settings.assign entry = .ok next) :
    next = ⟨(thresholdIn? [entry]).getD settings.threshold,
      (extensionsIn? [entry]).getD settings.extensions, (skipIn? [entry]).getD settings.skip⟩ := by
  obtain ⟨key, value⟩ := entry
  unfold assign at taken
  split at taken
  case h_4 => cases taken
  all_goals
    rename_i same
    obtain ⟨value, reads, ok⟩ := bind_eq_ok taken
    cases ok
    simp only at same reads
    simp [thresholdIn?, extensionsIn?, skipIn?, lastOf?, same, reads, Except.toOption]

theorem assignAll_eq (settings last : Settings) (entries : List (String × Toml.Value))
    (taken : entries.foldlM assign settings = .ok last) :
    last = ⟨(thresholdIn? entries).getD settings.threshold,
      (extensionsIn? entries).getD settings.extensions, (skipIn? entries).getD settings.skip⟩ := by
  induction entries generalizing settings with
  | nil =>
    cases taken
    rfl
  | cons entry rest ih =>
    rw [List.foldlM_cons] at taken
    obtain ⟨next, here, behind⟩ := bind_eq_ok taken
    rw [ih next behind, assign_eq settings next entry here]
    simp only [thresholdIn?, extensionsIn?, skipIn?, lastOf_cons _ _ entry rest, Option.getD_or]

def written (entries : List (String × Toml.Value)) : Settings :=
  ⟨(thresholdIn? entries).getD 15, (extensionsIn? entries).getD ["php"], (skipIn? entries).getD []⟩

def zeroThreshold (given : Option Nat) : List Error :=
  if given = some 0 then [.invalidThreshold] else []

theorem validated_spec (settings : Settings) :
    errorOf? settings.validated = (zeroThreshold (some settings.threshold)).head? ∧
      ∀ result, settings.validated = .ok result → result = settings ∧ settings.threshold ≠ 0 := by
  by_cases zero : settings.threshold = 0
  · simp [validated, zeroThreshold, zero, errorOf?]
  · have passes : settings.validated = .ok settings := by simp [validated, zero]
    rw [passes]
    refine ⟨by simp [zeroThreshold, zero, errorOf?], ?_⟩
    intro result same
    cases same
    exact ⟨rfl, zero⟩

def misfits (path : Path) (text : String) : List Error :=
  match Toml.document? text with
  | none => [.notToml path text]
  | some entries => (entries.filterMap mismatch?).map (.mismatch path text)

theorem parse_spec (text : String) (path : Path) :
    let entries := (Toml.document? text).getD []
    errorOf? (parse text path) = (misfits path text ++ zeroThreshold (thresholdIn? entries)).head? ∧
      ∀ settings, parse text path = .ok settings →
        settings = written entries ∧ settings.threshold ≠ 0 := by
  intro entries
  unfold parse misfits
  cases read : Toml.document? text with
  | none => exact ⟨rfl, nofun⟩
  | some list =>
    have same : entries = list := by simp [entries, read]
    have mismatches := errorOf_assignAll default list
    cases taken : list.foldlM assign default with
    | error cause =>
      simp only [List.head?_append, List.head?_map, ← mismatches, taken]
      exact ⟨rfl, nofun⟩
    | ok settings =>
      have whole : settings = written list := assignAll_eq default settings list taken
      obtain ⟨fails, succeeds⟩ := validated_spec settings
      have zero : zeroThreshold (some settings.threshold) = zeroThreshold (thresholdIn? list) := by
        rw [whole, written]
        cases thresholdIn? list <;> simp [zeroThreshold]
      simp only [List.head?_append, List.head?_map, ← mismatches, taken]
      rw [same, ← zero, ← whole]
      exact ⟨fails, fun result valid => by
        obtain ⟨rfl, positive⟩ := succeeds result valid
        exact ⟨rfl, positive⟩⟩

theorem withThreshold_spec (settings : Settings) (given : Option Nat) (valid : settings.threshold ≠ 0) :
    errorOf? (settings.withThreshold given) = (zeroThreshold given).head? ∧
      ∀ result, settings.withThreshold given = .ok result →
        result = { settings with threshold := given.getD settings.threshold } ∧
          result.threshold ≠ 0 := by
  obtain ⟨fails, succeeds⟩ :=
    validated_spec { settings with threshold := given.getD settings.threshold }
  constructor
  · rw [withThreshold, fails]
    cases given <;> simp [zeroThreshold, valid]
  · intro result taken
    obtain ⟨rfl, positive⟩ := succeeds result taken
    exact ⟨rfl, positive⟩

theorem filter_spec (settings : Settings) :
    errorOf? settings.filter =
      ((settings.skip.filterMap fun glob => errorOf? (Glob.read .skip glob)).map Error.invalidGlob).head? := by
  unfold filter SourceFilter.make
  rw [errorOf_mapError, errorOf_map, errorOf_mapM, List.head?_map]

theorem make_of_filter (settings : Settings) (filter : SourceFilter)
    (made : settings.filter = .ok filter) :
    SourceFilter.make settings.extensions settings.skip = .ok filter := by
  unfold Settings.filter at made
  cases read : SourceFilter.make settings.extensions settings.skip with
  | error error =>
    rw [read] at made
    cases made
  | ok result =>
    rw [read] at made
    cases made
    rfl

-- The directory whose settings count for a target, by its text and by its components.
inductive Around (working : Location) (target : Path) : Path → Prop
  | itself (noFile : ¬ working.IsFile target) : Around working target target
  | parent (directory : Path) (isFile : working.IsFile target)
      (above : target.parent? = some directory)
      (components : directory.components = target.components.dropLast) : Around working target directory

def Beside (working : Location) (target file : Path) : Prop :=
  ∃ directory, Around working target directory ∧
    file = directory.join (Bytes.ofString "cogsniff.toml") ∧
    file.components = directory.components ++ [.name (Bytes.ofString "cogsniff.toml")]

/-- The settings file of a run: the one asked for, or else the one beside the target if there is one. -/
inductive FileFor (working : Location) (asked : Option Path) (target : Path) : Option Path → Prop
  | asked (path : Path) (given : asked = some path) : FileFor working asked target (some path)
  | beside (path : Path) (given : asked = none) (beside : Beside working target path)
      (there : working.IsFile path) : FileFor working asked target (some path)
  | absent (path : Path) (given : asked = none) (beside : Beside working target path)
      (missing : ¬ working.IsFile path) : FileFor working asked target none

theorem around_target (working : Location) (target : Path) :
    Around working target
      (if working.hasFile target then target.parent?.getD (.ofString ".") else target) := by
  split
  next there =>
    have isFile := (working.hasFile_iff target).mp there
    obtain ⟨parent, above⟩ := working.parent_of_file target isFile
    rw [above, Option.getD_some]
    exact .parent parent isFile above (target.components_parent parent above)
  next missing => exact .itself fun isFile => missing ((working.hasFile_iff target).mpr isFile)

theorem fileFor_file (working : Location) (asked : Option Path) (target : Path) :
    FileFor working asked target (file? working asked target) := by
  unfold file?
  cases asked with
  | some path => exact .asked path rfl
  | none =>
    dsimp only
    have around := around_target working target
    generalize (if working.hasFile target then target.parent?.getD (.ofString ".") else target) =
      directory at around
    have beside : Beside working target (directory.join (Bytes.ofString fileName)) :=
      ⟨directory, around, rfl, directory.components_join _ (by decide +kernel)⟩
    split
    next there => exact .beside _ rfl beside ((working.hasFile_iff _).mp there)
    next missing =>
      exact .absent _ rfl beside fun isFile => missing ((working.hasFile_iff _).mpr isFile)

end Settings

end CognitiveComplexity
