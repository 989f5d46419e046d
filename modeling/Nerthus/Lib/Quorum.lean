import Mathlib

/-!
# Quorums

Two sets of voters that are large against the number of members and of faulty
members have a correct member in common.
-/

namespace Nerthus.Lib

open List

variable {α : Type*} [DecidableEq α]

theorem exists_mem_inter_notMem {members faulty Q Q' : Finset α} (hQ : Q ⊆ members)
    (hQ' : Q' ⊆ members) (hcard : members.card + faulty.card < Q.card + Q'.card) :
    ∃ a ∈ Q ∩ Q', a ∉ faulty := by
  have hunion : (Q ∪ Q').card ≤ members.card :=
    Finset.card_le_card (Finset.union_subset hQ hQ')
  have hinter := Finset.card_union_add_card_inter Q Q'
  have hlt : faulty.card < (Q ∩ Q').card := by omega
  exact Finset.exists_mem_notMem_of_card_lt_card hlt

theorem exists_common_of_nodup {members faulty Q Q' : List α} (hQ : Q ⊆ members)
    (hQ' : Q' ⊆ members) (hnodup : Q.Nodup) (hnodup' : Q'.Nodup)
    (hlen : members.length + faulty.length < Q.length + Q'.length) :
    ∃ a, a ∈ Q ∧ a ∈ Q' ∧ a ∉ faulty := by
  have hsub : ∀ {l : List α}, l ⊆ members → l.toFinset ⊆ members.toFinset := by
    intro l hl a ha
    exact mem_toFinset.mpr (hl (mem_toFinset.mp ha))
  have hcard : members.toFinset.card + faulty.toFinset.card <
      Q.toFinset.card + Q'.toFinset.card := by
    have hmembers := toFinset_card_le members
    have hfaulty := toFinset_card_le faulty
    rw [toFinset_card_of_nodup hnodup, toFinset_card_of_nodup hnodup']
    omega
  obtain ⟨a, ha, hcorrect⟩ := exists_mem_inter_notMem (hsub hQ) (hsub hQ') hcard
  obtain ⟨ha, ha'⟩ := Finset.mem_inter.mp ha
  exact ⟨a, mem_toFinset.mp ha, mem_toFinset.mp ha',
    fun hf => hcorrect (mem_toFinset.mpr hf)⟩

/-! ## Choices with faulty members

Every member has one choice, and faulty members may stand for any. -/

section Choices

variable {β : Type*} [DecidableEq β] (faulty : α → Bool) (choice : α → β)

/-- The members that may stand for a value: those who chose it, and the faulty ones. -/
def supporters (members : List α) (d : β) : List α :=
  members.filter fun a => faulty a || choice a = d

omit [DecidableEq α] in
theorem length_supporters_add_le {d d' : β} (hne : d ≠ d') (members : List α) :
    (supporters faulty choice members d).length + (supporters faulty choice members d').length ≤
      members.length + members.countP faulty := by
  induction members with
  | nil => rfl
  | cons a members ih =>
    simp only [supporters, filter_cons, countP_cons, length_cons] at ih ⊢
    cases hf : faulty a with
    | true =>
      simp only [Bool.true_or, if_true, length_cons]
      omega
    | false =>
      by_cases hd : choice a = d
      · have hd' : choice a ≠ d' := fun h => hne (hd.symm.trans h)
        simp only [hd, hne, decide_true, decide_false, Bool.or_true, Bool.or_false, if_true,
          length_cons, Bool.false_eq_true, if_false]
        omega
      · simp only [hd, decide_false, Bool.or_false, Bool.false_or, Bool.false_eq_true, if_false,
          decide_eq_true_eq]
        split
        · simp only [length_cons]
          omega
        · omega

omit [DecidableEq α] in
theorem eq_of_supported {members : List α} {d d' : β}
    (hfew : 3 * members.countP faulty < members.length)
    (hd : members.length * 2 / 3 < (supporters faulty choice members d).length)
    (hd' : members.length * 2 / 3 < (supporters faulty choice members d').length) : d = d' := by
  by_contra hne
  have hle := length_supporters_add_le faulty choice hne members
  omega

end Choices

end Nerthus.Lib
