import RootSearch.Scalar
/-!
# Laws of the order

What the proofs take from a type of scalars when they compare values: `≤` orders all numbers, and a
value that is not a number is above and below nothing. Doubles obey these laws and so do the reals.
-/

namespace RootSearch

class LawfulScalar (α : Type) [Scalar α] : Prop where
  le_trans : ∀ {a b c : α}, a ≤ b → b ≤ c → a ≤ c
  /-- Only numbers are compared. -/
  le_refl_of_le : ∀ {a b : α}, a ≤ b → a ≤ a ∧ b ≤ b
  le_total : ∀ {a b : α}, a ≤ a → b ≤ b → a ≤ b ∨ b ≤ a
  lt_iff : ∀ {a b : α}, a < b ↔ a ≤ b ∧ ¬b ≤ a
  beq_iff : ∀ {a b : α}, (a == b) = true ↔ a ≤ b ∧ b ≤ a
  le_abs : ∀ {a : α}, a ≤ a → a ≤ Scalar.abs a
  zero_le_abs : ∀ {a : α}, a ≤ a → 0.0 ≤ Scalar.abs a
  abs_le_zero : ∀ {a : α}, (a == 0.0) = true → Scalar.abs a ≤ 0.0
  epsilon_pos : (0.0 : α) < Scalar.epsilon

namespace Scalar

variable {α : Type} [Scalar α] [LawfulScalar α] {a b c : α}

export LawfulScalar (le_trans le_refl_of_le le_total lt_iff beq_iff le_abs zero_le_abs abs_le_zero
  epsilon_pos)

theorem le_of_lt (h : a < b) : a ≤ b := (lt_iff.1 h).1

theorem isNaN_eq_false_iff : isNaN a = false ↔ a ≤ a := by
  simp [isNaN, beq_iff]

theorem beq_symm (h : (a == b) = true) : (b == a) = true := beq_iff.2 (beq_iff.1 h).symm

theorem beq_trans (h : (a == b) = true) (h' : (b == c) = true) : (a == c) = true := by
  obtain ⟨hab, hba⟩ := beq_iff.1 h
  obtain ⟨hbc, hcb⟩ := beq_iff.1 h'
  exact beq_iff.2 ⟨le_trans hab hbc, le_trans hcb hba⟩

/-- A number equal to something equals itself. -/
theorem beq_self_of_beq (h : (a == b) = true) : (b == b) = true := beq_trans (beq_symm h) h

theorem not_lt (ha : a ≤ a) (hb : b ≤ b) (h : ¬a < b) : b ≤ a := by
  rcases le_total ha hb with hab | hba
  · by_cases hba : b ≤ a
    · exact hba
    · exact absurd (lt_iff.2 ⟨hab, hba⟩) h
  · exact hba

theorem lt_of_le_of_lt (h : a ≤ b) (h' : b < c) : a < c := by
  obtain ⟨hbc, hcb⟩ := lt_iff.1 h'
  exact lt_iff.2 ⟨le_trans h hbc, fun hca => hcb (le_trans hca h)⟩

theorem lt_of_lt_of_le (h : a < b) (h' : b ≤ c) : a < c := by
  obtain ⟨hab, hba⟩ := lt_iff.1 h
  exact lt_iff.2 ⟨le_trans hab h', fun hca => hba (le_trans h' hca)⟩

theorem abs_le_abs_self (ha : a ≤ a) : abs a ≤ abs a := (le_refl_of_le (le_abs ha)).2

theorem abs_le_abs_of_number (ha : isNaN a = false) : abs a ≤ abs a :=
  abs_le_abs_self (isNaN_eq_false_iff.1 ha)

/-! ## The accuracy that a refinement works to -/

theorem abs_le_effectiveAccuracy (ha : a ≤ a) : abs a ≤ effectiveAccuracy a := by
  unfold effectiveAccuracy maxOf
  split
  · next h => exact le_of_lt h
  · exact abs_le_abs_self ha

theorem epsilon_le_effectiveAccuracy (ha : a ≤ a) : epsilon ≤ effectiveAccuracy a := by
  have heps : (epsilon : α) ≤ epsilon := (le_refl_of_le (le_of_lt epsilon_pos)).2
  unfold effectiveAccuracy maxOf
  split
  · exact heps
  · next h => exact not_lt (abs_le_abs_self ha) heps h

/-- What meets the accuracy that was asked for meets the effective one. -/
theorem le_effectiveAccuracy (h : b ≤ a) : b ≤ effectiveAccuracy a :=
  have ha : a ≤ a := (le_refl_of_le h).2
  le_trans h (le_trans (le_abs ha) (abs_le_effectiveAccuracy ha))

/-- A zero meets every accuracy that is a number. -/
theorem abs_le_effectiveAccuracy_of_zero (ha : a ≤ a) (h : (b == 0.0) = true) :
    abs b ≤ effectiveAccuracy a :=
  le_trans (abs_le_zero h) (le_trans (le_of_lt epsilon_pos) (epsilon_le_effectiveAccuracy ha))

theorem effectiveAccuracy_mono (hb : b ≤ b) (h : abs a ≤ abs b) :
    effectiveAccuracy a ≤ effectiveAccuracy b := by
  have ha : effectiveAccuracy a = if abs a < epsilon then epsilon else abs a := rfl
  rw [ha]
  split
  · exact epsilon_le_effectiveAccuracy hb
  · exact le_trans h (abs_le_effectiveAccuracy hb)

end Scalar

end RootSearch
