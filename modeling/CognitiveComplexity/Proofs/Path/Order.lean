import CognitiveComplexity.Path
import Mathlib.Data.List.Sort
import Mathlib.Tactic.Common

set_option autoImplicit false

namespace CognitiveComplexity

section LexLess

variable {α : Type} [BEq α] [LawfulBEq α] {less : α → α → Bool}

theorem lexLess_cons (left right : α) (lefts rights : List α) :
    lexLess less (left :: lefts) (right :: rights) = true ↔
      less left right = true ∨ left = right ∧ lexLess less lefts rights = true := by
  simp [lexLess]

theorem lexLess_irrefl (irreflexive : ∀ item, ¬ less item item = true) (items : List α) :
    ¬ lexLess less items items = true := by
  induction items with
  | nil => simp [lexLess]
  | cons head tail ih => simp [lexLess_cons, irreflexive, ih]

theorem lexLess_trans
    (transitive : ∀ a b c, less a b = true → less b c = true → less a c = true)
    (first second third : List α) (lower : lexLess less first second = true)
    (upper : lexLess less second third = true) : lexLess less first third = true := by
  induction first generalizing second third with
  | nil =>
    cases third with
    | nil => cases second <;> cases upper
    | cons => rfl
  | cons head tail ih =>
    cases second with
    | nil => cases lower
    | cons middle middles =>
      cases third with
      | nil => cases upper
      | cons last lasts =>
        rw [lexLess_cons] at lower upper ⊢
        rcases lower with lower | ⟨rfl, lower⟩
        next =>
          rcases upper with upper | ⟨rfl, _⟩
          next => exact .inl (transitive _ _ _ lower upper)
          next => exact .inl lower
        next =>
          rcases upper with upper | ⟨rfl, upper⟩
          next => exact .inl upper
          next => exact .inr ⟨rfl, ih _ _ lower upper⟩

theorem lexLess_trichotomy
    (trichotomous : ∀ a b, less a b = true ∨ a = b ∨ less b a = true) (left right : List α) :
    lexLess less left right = true ∨ left = right ∨ lexLess less right left = true := by
  induction left generalizing right with
  | nil => cases right <;> simp [lexLess]
  | cons head tail ih =>
    cases right with
    | nil => exact .inr (.inr rfl)
    | cons other others =>
      simp only [lexLess_cons, List.cons.injEq]
      rcases trichotomous head other with lower | rfl | upper
      next => exact .inl (.inl lower)
      next =>
        rcases ih others with lower | rfl | upper
        next => exact .inl (.inr ⟨rfl, lower⟩)
        next => exact .inr (.inl ⟨rfl, rfl⟩)
        next => exact .inr (.inr (.inr ⟨rfl, upper⟩))
      next => exact .inr (.inr (.inl upper))

end LexLess

namespace Bytes

theorem before_irrefl (bytes : Bytes) : ¬ before bytes bytes = true := by
  apply lexLess_irrefl
  simp

theorem before_trans (first second third : Bytes) (lower : before first second = true)
    (upper : before second third = true) : before first third = true := by
  refine lexLess_trans ?_ first second third lower upper
  intro a b c
  simp only [decide_eq_true_eq]
  exact UInt8.lt_trans

theorem before_trichotomy (left right : Bytes) :
    before left right = true ∨ left = right ∨ before right left = true := by
  apply lexLess_trichotomy
  intro a b
  simp only [decide_eq_true_eq]
  rcases Nat.lt_trichotomy a.toNat b.toNat with lower | same | upper
  next => exact .inl (UInt8.lt_iff_toNat_lt.mpr lower)
  next => exact .inr (.inl (UInt8.toNat_inj.mp same))
  next => exact .inr (.inr (UInt8.lt_iff_toNat_lt.mpr upper))

end Bytes

namespace Component

theorem less_iff (left right : Component) :
    left.less right = true ↔
      left.rank < right.rank ∨ left.rank = right.rank ∧ left.text.before right.text = true := by
  simp [less]

theorem less_irrefl (component : Component) : ¬ component.less component = true := by
  rw [less_iff]
  rintro (rank | ⟨_, text⟩)
  next => exact Nat.lt_irrefl _ rank
  next => exact Bytes.before_irrefl _ text

theorem less_trans (first second third : Component) (lower : first.less second = true)
    (upper : second.less third = true) : first.less third = true := by
  rw [less_iff] at lower upper ⊢
  rcases lower with lower | ⟨same, lower⟩
  next =>
    left
    rcases upper with upper | ⟨same, _⟩ <;> omega
  next =>
    rcases upper with upper | ⟨again, upper⟩
    next =>
      left
      omega
    next => exact .inr ⟨same.trans again, Bytes.before_trans _ _ _ lower upper⟩

theorem less_trichotomy (left right : Component) :
    left.less right = true ∨ left = right ∨ right.less left = true := by
  simp only [less_iff]
  rcases Nat.lt_trichotomy left.rank right.rank with lower | same | upper
  next => exact .inl (.inl lower)
  next =>
    rcases Bytes.before_trichotomy left.text right.text with lower | equal | upper
    next => exact .inl (.inr ⟨same, lower⟩)
    next =>
      refine .inr (.inl ?_)
      cases left <;> cases right <;> simp_all [rank, text]
    next => exact .inr (.inr (.inr ⟨same.symm, upper⟩))
  next => exact .inr (.inr (.inl upper))

end Component

namespace Path

theorem less_irrefl (path : Path) : ¬ path.less path = true :=
  lexLess_irrefl Component.less_irrefl path.components

theorem less_trans (first second third : Path) (lower : first.less second = true)
    (upper : second.less third = true) : first.less third = true :=
  lexLess_trans Component.less_trans _ _ _ lower upper

theorem less_trichotomy (left right : Path) :
    left.less right = true ∨ left.components = right.components ∨ right.less left = true :=
  lexLess_trichotomy Component.less_trichotomy _ _

theorem lessOrEqual_iff (left right : Path) :
    left.lessOrEqual right = true ↔ left.less right = true ∨ left.components = right.components := by
  unfold lessOrEqual
  rcases less_trichotomy left right with lower | same | upper
  next =>
    have notUpper : ¬ right.less left = true := fun upper =>
      less_irrefl _ (less_trans _ _ _ lower upper)
    simp [lower, notUpper]
  next =>
    have notUpper : ¬ right.less left = true := by
      rw [less, same]
      exact less_irrefl right
    simp [same, notUpper]
  next =>
    have notLower : ¬ left.less right = true := fun lower =>
      less_irrefl _ (less_trans _ _ _ lower upper)
    have differ : left.components ≠ right.components := by
      intro same
      rw [less, same] at upper
      exact less_irrefl right upper
    simp [upper, notLower, differ]

theorem lessOrEqual_trans (first second third : Path) (lower : first.lessOrEqual second = true)
    (upper : second.lessOrEqual third = true) : first.lessOrEqual third = true := by
  rw [lessOrEqual_iff] at lower upper ⊢
  rcases lower with lower | same
  next =>
    left
    rcases upper with upper | again
    next => exact less_trans _ _ _ lower upper
    next => rwa [less, ← again]
  next => rwa [less, same]

theorem lessOrEqual_total (left right : Path) :
    (left.lessOrEqual right || right.lessOrEqual left) = true := by
  rw [Bool.or_eq_true, lessOrEqual_iff, lessOrEqual_iff]
  rcases less_trichotomy left right with lower | same | upper
  next => exact .inl (.inl lower)
  next => exact .inl (.inr same)
  next => exact .inr (.inl upper)

theorem pairwise_sort (paths : List Path) :
    (paths.mergeSort lessOrEqual).Pairwise fun one other => one.lessOrEqual other = true :=
  List.pairwise_mergeSort lessOrEqual_trans lessOrEqual_total paths

theorem eq_of_increasing (lefts rights : List Path)
    (leftsIncrease : lefts.Pairwise fun one other => one.less other = true)
    (rightsIncrease : rights.Pairwise fun one other => one.less other = true)
    (same : ∀ path, path ∈ lefts ↔ path ∈ rights) : lefts = rights := by
  have antisymmetric (one other : Path) (lower : one.less other = true)
      (upper : other.less one = true) : one = other :=
    absurd (less_trans _ _ _ lower upper) (less_irrefl one)
  have : Std.Irrefl fun one other : Path => one.less other = true := ⟨less_irrefl⟩
  have : Std.Antisymm fun one other : Path => one.less other = true := ⟨antisymmetric⟩
  exact leftsIncrease.eq_of_mem_iff rightsIncrease same

end Path

end CognitiveComplexity
