import IntScript.Table
import Mathlib.Data.Finset.Sort
import Mathlib.Data.String.Basic

set_option autoImplicit false

namespace IntScript

namespace Text

theorem charsLe_iff (a b : List Char) : charsLe a b = true ↔ a ≤ b := by
  fun_induction charsLe a b with
  | case1 b =>
    have hle : [] ≤ b := not_lt.1 (List.not_lt_nil b)
    simp [hle]
  | case2 a as =>
    have hlt : [] < a :: as := List.nil_lt_cons a as
    simp [hlt]
  | case3 as b bs ih =>
    rw [ih, ← not_lt, ← not_lt, List.cons_lt_cons_iff]
    simp
  | case4 a as b bs hne =>
    have hchar : a.toNat < b.toNat ↔ a < b := Iff.rfl
    rw [decide_eq_true_iff, hchar, ← not_lt, List.cons_lt_cons_iff]
    have hsame : ¬ (b = a ∧ bs < as) := fun h => hne h.1.symm
    rw [or_iff_left hsame, not_lt]
    exact ⟨le_of_lt, fun hle => lt_of_le_of_ne hle hne⟩

theorem nameLe_iff (a b : String) : nameLe a b = true ↔ a ≤ b :=
  (charsLe_iff a.toList b.toList).trans String.le_iff_toList_le.symm

theorem nodup_eraseDups : ∀ names : List String, names.eraseDups.Nodup
  | [] => by simp
  | x :: rest => by
    rw [List.eraseDups_cons, List.nodup_cons]
    exact ⟨by simp, nodup_eraseDups _⟩
termination_by names => names.length
decreasing_by
  have hle := List.length_filter_le (fun y => !y == x) rest
  rw [List.length_cons]
  omega

theorem mem_sortedNames {x : String} {names : List String} : x ∈ sortedNames names ↔ x ∈ names := by
  rw [sortedNames, List.mem_mergeSort, List.mem_eraseDups]

theorem nodup_sortedNames (names : List String) : (sortedNames names).Nodup :=
  (List.mergeSort_perm _ _).nodup_iff.2 (nodup_eraseDups names)

theorem sortedNames_increasing (names : List String) : (sortedNames names).Pairwise (· < ·) := by
  have htrans : ∀ a b c : String, nameLe a b = true → nameLe b c = true → nameLe a c = true := by
    intro a b c hab hbc
    rw [nameLe_iff] at hab hbc ⊢
    exact le_trans hab hbc
  have htotal : ∀ a b : String, (nameLe a b || nameLe b a) = true := by
    intro a b
    rw [Bool.or_eq_true, nameLe_iff, nameLe_iff]
    exact le_total a b
  have hsorted := List.pairwise_mergeSort htrans htotal names.eraseDups
  have hboth := hsorted.and (nodup_sortedNames names)
  exact hboth.imp fun {a b} h => lt_of_le_of_ne ((nameLe_iff a b).1 h.1) h.2

theorem sortedNames_eq_sort {names : List String} {s : Finset String} (h : ∀ x, x ∈ names ↔ x ∈ s) :
    sortedNames names = s.sort := by
  have hset : (sortedNames names).toFinset = s := by
    ext x
    rw [List.mem_toFinset, mem_sortedNames, h]
  have hle : (sortedNames names).Pairwise (· ≤ ·) := (sortedNames_increasing names).imp le_of_lt
  rw [← hset]
  exact ((List.toFinset_sort (· ≤ ·) (nodup_sortedNames names)).2 hle).symm

end Text

end IntScript
