import SeviriImagery.Proofs.Path

/-!
# The order of paths

Paths are put in the order of their steps, from the first step to the last.  Any two lists of steps
are in order one way or the other (`Path.stepsLe_total`), and both ways only if they are the same
(`Path.stepsLe_antisymm`).  Two paths may have the same steps, as `a/b` and `a/./b` have.

This is not the order of their texts, in which a character of a name may come before a slash.  Two
names at the end of the same steps are in the order of their texts, though
(`Path.stepsLe_down_iff`).
-/

namespace SeviriImagery.Path

namespace Step

/-- A step comes before another by its rank, and among steps of one rank by its name. -/
theorem lt_iff {a b : Step} :
    a.lt b = true ↔ a.rank < b.rank ∨ a.rank = b.rank ∧ a.name < b.name := by
  simp [lt]

/-- Nothing else tells steps apart. -/
theorem eq_of_rank_name {a b : Step} (hrank : a.rank = b.rank) (hname : a.name = b.name) :
    a = b := by
  cases a with
  | start absolute =>
      cases b with
      | start absolute' => cases absolute <;> cases absolute' <;> first | rfl | cases hrank
      | up => cases absolute <;> cases hrank
      | down name => cases absolute <;> cases hrank
  | up =>
      cases b with
      | start absolute => cases absolute <;> cases hrank
      | up => rfl
      | down name => cases hrank
  | down name =>
      cases b with
      | start absolute => cases absolute <;> cases hrank
      | up => cases hrank
      | down name' => exact congrArg down hname

/-- No step comes before itself. -/
theorem lt_irrefl (a : Step) : a.lt a = false := by
  simp [lt]

theorem lt_trans {a b c : Step} (hab : a.lt b = true) (hbc : b.lt c = true) : a.lt c = true := by
  rw [lt_iff] at hab hbc ⊢
  rcases hab with hab | ⟨hab, habName⟩ <;> rcases hbc with hbc | ⟨hbc, hbcName⟩
  · exact .inl (Nat.lt_trans hab hbc)
  · exact .inl (hbc ▸ hab)
  · exact .inl (hab ▸ hbc)
  · exact .inr ⟨hab.trans hbc, String.lt_trans habName hbcName⟩

theorem lt_asymm {a b : Step} (hab : a.lt b = true) : b.lt a = false := by
  rw [Bool.eq_false_iff]
  intro hba
  have hself := lt_trans hab hba
  rw [lt_irrefl] at hself
  cases hself

/-- Of two steps one comes before the other, unless they are the same. -/
theorem lt_or_eq_or_lt (a b : Step) : a.lt b = true ∨ a = b ∨ b.lt a = true := by
  rw [lt_iff, lt_iff]
  rcases Nat.lt_trichotomy a.rank b.rank with hrank | hrank | hrank
  · exact .inl (.inl hrank)
  · rcases lt_trichotomy a.name b.name with hname | hname | hname
    · exact .inl (.inr ⟨hrank, hname⟩)
    · exact .inr (.inl (eq_of_rank_name hrank hname))
    · exact .inr (.inr (.inr ⟨hrank.symm, hname⟩))
  · exact .inr (.inr (.inl hrank))

end Step

/-- The first step in which two lists differ decides. -/
theorem stepsLe_cons_iff {a b : Step} {as bs : List Step} :
    stepsLe (a :: as) (b :: bs) = true ↔ a.lt b = true ∨ a = b ∧ stepsLe as bs = true := by
  rw [stepsLe, Bool.or_eq_true, Bool.and_eq_true, Bool.not_eq_true']
  refine or_congr_right' fun hab => and_congr_left fun _ => ?_
  constructor
  · intro hba
    rcases Step.lt_or_eq_or_lt a b with h | h | h
    · exact absurd h hab
    · exact h
    · rw [hba] at h
      cases h
  · intro hsame
    subst hsame
    exact Step.lt_irrefl a

/-- What comes after steps that come after others comes after these. -/
theorem stepsLe_trans {as bs cs : List Step} (hab : stepsLe as bs = true)
    (hbc : stepsLe bs cs = true) : stepsLe as cs = true := by
  induction as generalizing bs cs with
  | nil => rfl
  | cons a as ih =>
      cases bs with
      | nil => cases hab
      | cons b bs =>
          cases cs with
          | nil => cases hbc
          | cons c cs =>
              rw [stepsLe_cons_iff] at hab hbc ⊢
              rcases hab with hab | ⟨rfl, hab⟩
              · rcases hbc with hbc | ⟨rfl, -⟩
                · exact .inl (Step.lt_trans hab hbc)
                · exact .inl hab
              · rcases hbc with hbc | ⟨rfl, hbc⟩
                · exact .inl hbc
                · exact .inr ⟨rfl, ih hab hbc⟩

/-- Any two lists of steps are in order one way or the other. -/
theorem stepsLe_total (as bs : List Step) : stepsLe as bs = true ∨ stepsLe bs as = true := by
  induction as generalizing bs with
  | nil => exact .inl rfl
  | cons a as ih =>
      cases bs with
      | nil => exact .inr rfl
      | cons b bs =>
          rw [stepsLe_cons_iff, stepsLe_cons_iff]
          rcases Step.lt_or_eq_or_lt a b with hab | rfl | hba
          · exact .inl (.inl hab)
          · exact (ih bs).imp (fun h => .inr ⟨rfl, h⟩) fun h => .inr ⟨rfl, h⟩
          · exact .inr (.inl hba)

/-- **Steps that are in order both ways are the same.** -/
theorem stepsLe_antisymm {as bs : List Step} (hab : stepsLe as bs = true)
    (hba : stepsLe bs as = true) : as = bs := by
  induction as generalizing bs with
  | nil =>
      cases bs with
      | nil => rfl
      | cons b bs => cases hba
  | cons a as ih =>
      cases bs with
      | nil => cases hab
      | cons b bs =>
          rw [stepsLe_cons_iff] at hab hba
          rcases hab with hab | ⟨rfl, hab⟩
          · have hnot := Step.lt_asymm hab
            rcases hba with hba | ⟨rfl, -⟩
            · rw [hnot] at hba
              cases hba
            · rw [hab] at hnot
              cases hnot
          · rcases hba with hba | ⟨-, hba⟩
            · rw [Step.lt_irrefl] at hba
              cases hba
            · rw [ih hab hba]

/-- Steps before which the same steps are taken are in the same order. -/
theorem stepsLe_append_left_iff (front : List Step) {as bs : List Step} :
    stepsLe (front ++ as) (front ++ bs) = true ↔ stepsLe as bs = true := by
  induction front with
  | nil => rfl
  | cons a front ih =>
      rw [List.cons_append, List.cons_append, stepsLe_cons_iff, Step.lt_irrefl, ih]
      simp

/-- Of two names at the end the one that comes first as a text comes first as a step. -/
theorem stepsLe_down_iff {a b : String} : stepsLe [.down a] [.down b] = true ↔ a ≤ b := by
  rw [stepsLe_cons_iff, Step.lt_iff, le_iff_lt_or_eq]
  simp [Step.rank, Step.name, stepsLe]

/-- Sorted paths are in order. -/
theorem pairwise_sort (paths : List String) : (sort paths).Pairwise fun a b => le a b = true := by
  refine List.pairwise_mergeSort (fun a b c hab hbc => ?_) (fun a b => ?_) paths
  · exact stepsLe_trans hab hbc
  · rw [Bool.or_eq_true]
    exact stepsLe_total (steps a) (steps b)

end SeviriImagery.Path
