import Mathlib.Data.List.Nodup
import Mathlib.Data.Nat.Count
import Mathlib.Data.Nat.ModEq

/-!
# Taking turns

Of finitely many indices with a property, each one that is taken is the next after the one before it, and behind the
last comes the first. The rank of an index is how many smaller ones have the property.

* `Next.count`: the rank goes up by one each time, modulo how many there are.
* `Rotates.nodup`, `Rotates.mem`: as many turns as there are indices take every index once.
-/

namespace CoWrite.Lib

/-- The first index from `c` on, or the first one of all where there is none. -/
structure Next (p : Nat → Prop) (c i : Nat) : Prop where
  holds : p i
  first : (c ≤ i ∧ ∀ j, c ≤ j → j < i → ¬ p j) ∨ ((∀ j, c ≤ j → ¬ p j) ∧ ∀ j < i, ¬ p j)

/-- The first index is taken from `c` on, and every later one behind the one before it. -/
def Rotates (p : Nat → Prop) : Nat → List Nat → Prop
  | _, [] => True
  | c, i :: l => Next p c i ∧ Rotates p (i + 1) l

variable {p : Nat → Prop}

theorem Rotates.holds {c : Nat} {l : List Nat} (h : Rotates p c l) : ∀ i ∈ l, p i := by
  induction l generalizing c with
  | nil => simp
  | cons i l ih =>
    rw [List.forall_mem_cons]
    exact ⟨h.1.holds, ih h.2⟩

theorem Rotates.of_append {c : Nat} {l l' : List Nat} (h : Rotates p c (l ++ l')) :
    Rotates p c l ∧ ∃ c', Rotates p c' l' := by
  induction l generalizing c with
  | nil => exact ⟨trivial, c, h⟩
  | cons i l ih =>
    obtain ⟨hl, hl'⟩ := ih h.2
    exact ⟨⟨h.1, hl⟩, hl'⟩

section Count

variable [DecidablePred p] {bound : Nat} (hbound : ∀ j, bound ≤ j → ¬ p j) {c i : Nat} {l : List Nat}

theorem count_eq_of_none {a b : Nat} (hab : a ≤ b) (h : ∀ j, a ≤ j → j < b → ¬ p j) : Nat.count p b = Nat.count p a := by
  obtain ⟨k, rfl⟩ := Nat.exists_eq_add_of_le hab
  rw [Nat.count_add, Nat.add_eq_left, Nat.count_iff_forall_not]
  intro m hm
  exact h (a + m) (Nat.le_add_right a m) (Nat.add_lt_add_left hm a)

include hbound

theorem count_lt_of_holds (hi : p i) : Nat.count p i < Nat.count p bound := by
  apply Nat.count_strict_mono hi
  by_contra hle
  exact hbound i (Nat.not_lt.1 hle) hi

theorem count_le_bound (c : Nat) : Nat.count p c ≤ Nat.count p bound := by
  rcases Nat.le_total c bound with hle | hle
  · exact Nat.count_monotone p hle
  · exact (count_eq_of_none hle fun j hj _ => hbound j hj).le

/-- **The next rank.** -/
theorem Next.count (h : Next p c i) : Nat.count p i = Nat.count p c % Nat.count p bound := by
  have hlt := count_lt_of_holds hbound h.holds
  rcases h.first with ⟨hle, hnone⟩ | ⟨hafter, hbefore⟩
  · rw [count_eq_of_none hle hnone] at hlt ⊢
    exact (Nat.mod_eq_of_lt hlt).symm
  · -- the rank of `c` is the largest, and that of the first index is zero
    have hlast : Nat.count p c = Nat.count p bound := by
      apply Nat.le_antisymm (count_le_bound hbound c)
      rcases Nat.le_total c bound with hle | hle
      · exact (count_eq_of_none hle fun j hj _ => hafter j hj).le
      · exact Nat.count_monotone p hle
    rw [hlast, Nat.mod_self, Nat.count_iff_forall_not]
    exact hbefore

theorem Rotates.map_count (h : Rotates p c l) :
    l.map (Nat.count p) = (List.range l.length).map fun k => (Nat.count p c + k) % Nat.count p bound := by
  induction l generalizing c with
  | nil => rfl
  | cons i l ih =>
    obtain ⟨hnext, hl⟩ := h
    have hi := hnext.count hbound
    have hsucc : Nat.count p (i + 1) = Nat.count p i + 1 := Nat.count_succ_eq_succ_count_iff.2 hnext.holds
    rw [List.map_cons, ih hl, List.length_cons, List.range_succ_eq_map, List.map_cons, List.map_map, Nat.add_zero, hi]
    congr 1
    apply List.map_congr_left
    intro k _
    show (Nat.count p (i + 1) + k) % _ = (Nat.count p c + (k + 1)) % _
    rw [hsucc, hi, Nat.add_assoc, Nat.mod_add_mod, Nat.add_comm 1 k]

/-- Nobody has two turns in so few. -/
theorem Rotates.nodup (h : Rotates p c l) (hlen : l.length ≤ Nat.count p bound) : l.Nodup := by
  apply List.Nodup.of_map (Nat.count p)
  rw [h.map_count hbound]
  apply List.Nodup.map_on _ List.nodup_range
  intro x hx y hy hxy
  rw [List.mem_range] at hx hy
  have hmod : x % Nat.count p bound = y % Nat.count p bound := Nat.ModEq.add_left_cancel' _ hxy
  rwa [Nat.mod_eq_of_lt (hx.trans_le hlen), Nat.mod_eq_of_lt (hy.trans_le hlen)] at hmod

/-- Everybody has a turn in so many. -/
theorem Rotates.mem (h : Rotates p c l) (hlen : l.length = Nat.count p bound) (hi : p i) : i ∈ l := by
  have hsubset : l.toFinset ⊆ (Finset.range bound).filter p := by
    intro j hj
    have hp := h.holds j (List.mem_toFinset.1 hj)
    rw [Finset.mem_filter, Finset.mem_range]
    refine ⟨?_, hp⟩
    by_contra hle
    exact hbound j (Nat.not_lt.1 hle) hp
  have hcard : ((Finset.range bound).filter p).card ≤ l.toFinset.card := by
    rw [← Nat.count_eq_card_filter_range, List.toFinset_card_of_nodup (h.nodup hbound hlen.le), hlen]
  have hall := Finset.eq_of_subset_of_card_le hsubset hcard
  rw [← List.mem_toFinset, hall, Finset.mem_filter, Finset.mem_range]
  refine ⟨?_, hi⟩
  by_contra hle
  exact hbound i (Nat.not_lt.1 hle) hi

end Count

end CoWrite.Lib
