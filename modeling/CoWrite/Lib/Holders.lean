import Mathlib.Algebra.Order.Ring.Int
import Mathlib.Data.List.Nodup
import Mathlib.Logic.Function.Basic

/-!
# Tables of locks and their holders

A table lists the locks that are taken, each under a key; `held i` is the lock of the party `i`. The
table is in order (`Matched`) when its entries have different keys and are exactly the locks held,
each of one party.

* `Matched.acquire`: a lock whose key no entry has, pushed for a party without one.
* `Matched.release`: removing the first entry under the key of a held lock removes that lock.
-/

namespace CoWrite.Lib

universe u v w

variable {α : Type u} {κ : Type v} {ι : Type w}

structure Matched (key : α → κ) (table : List α) (held : ι → Option α) : Prop where
  nodup : (table.map key).Nodup
  mem_iff : ∀ a, a ∈ table ↔ ∃ i, held i = some a
  alone : ∀ i j a b, held i = some a → held j = some b → key a = key b → i = j

namespace Matched

theorem empty (key : α → κ) : Matched key [] fun _ : ι => none where
  nodup := List.nodup_nil
  mem_iff a := by simp
  alone i j a b hi := by cases hi

variable {key : α → κ} {table : List α} {held : ι → Option α} (h : Matched key table held)

include h

/-- Entries under one key are one entry. -/
theorem eq_of_key {i j : Nat} {a b : α} (hi : table[i]? = some a) (hj : table[j]? = some b)
    (hk : key a = key b) : i = j := by
  have hi' : (table.map key)[i]? = some (key a) := by rw [List.getElem?_map, hi, Option.map_some]
  have hj' : (table.map key)[j]? = some (key a) := by rw [List.getElem?_map, hj, Option.map_some, hk]
  obtain ⟨hlt, -⟩ := List.getElem?_eq_some_iff.1 hi'
  exact (List.getElem?_inj hlt h.nodup).1 (hi'.trans hj'.symm)

/-- The holder of an entry. -/
theorem existsUnique_holder {a : α} (ha : a ∈ table) : ∃! i, held i = some a := by
  obtain ⟨i, hi⟩ := (h.mem_iff a).1 ha
  refine ⟨i, hi, ?_⟩
  intro j hj
  exact h.alone j i a a hj hi rfl

/-- The entry of a holder. -/
theorem existsUnique_entry {i : ι} {a : α} (hi : held i = some a) : ∃! n : Nat, table[n]? = some a := by
  obtain ⟨n, hn⟩ := List.mem_iff_getElem?.1 ((h.mem_iff a).2 ⟨i, hi⟩)
  refine ⟨n, hn, ?_⟩
  intro m hm
  exact h.eq_of_key hm hn rfl

/-- The first entry under the key of a held lock is that lock. -/
theorem eraseP_eq {i : ι} {a : α} (hi : held i = some a) {p : α → Bool} (hp : ∀ b, p b = true ↔ key b = key a) :
    ∃ pre post, table = pre ++ a :: post ∧ table.eraseP p = pre ++ post := by
  obtain ⟨pre, post, rfl⟩ := List.append_of_mem ((h.mem_iff a).2 ⟨i, hi⟩)
  refine ⟨pre, post, rfl, ?_⟩
  have hpre : ∀ b ∈ pre, ¬ p b = true := by
    intro b hb hpb
    have hn := h.nodup
    rw [List.map_append, List.nodup_append] at hn
    refine hn.2.2 (key b) (List.mem_map_of_mem hb) (key a) ?_ ((hp b).1 hpb)
    exact List.mem_map_of_mem List.mem_cons_self
  rw [List.eraseP_append_right _ hpre, List.eraseP_cons_of_pos ((hp a).2 rfl)]

variable [DecidableEq ι]

theorem acquire {i : ι} {a : α} (hi : held i = none) (hfree : ∀ b ∈ table, key b ≠ key a) :
    Matched key (table ++ [a]) (Function.update held i (some a)) := by
  have hkey : ∀ j b, held j = some b → key b ≠ key a := by
    intro j b hj
    exact hfree b ((h.mem_iff b).2 ⟨j, hj⟩)
  refine ⟨?_, ?_, ?_⟩
  · rw [List.map_append, List.map_singleton, List.nodup_append]
    refine ⟨h.nodup, List.nodup_singleton _, ?_⟩
    intro k hk l hl
    obtain ⟨b, hb, rfl⟩ := List.mem_map.1 hk
    rw [List.mem_singleton.1 hl]
    exact hfree b hb
  · intro b
    rw [List.mem_append, List.mem_singleton, h.mem_iff]
    constructor
    · rintro (⟨j, hj⟩ | rfl)
      · have hne : j ≠ i := by
          rintro rfl
          rw [hi] at hj
          cases hj
        exact ⟨j, by rw [Function.update_of_ne hne, hj]⟩
      · exact ⟨i, Function.update_self ..⟩
    · rintro ⟨j, hj⟩
      by_cases hji : j = i
      · subst hji
        rw [Function.update_self] at hj
        exact .inr (Option.some.inj hj).symm
      · rw [Function.update_of_ne hji] at hj
        exact .inl ⟨j, hj⟩
  · intro j k b c hj hk hbc
    by_cases hji : j = i <;> by_cases hki : k = i
    · exact hji.trans hki.symm
    · subst hji
      rw [Function.update_self] at hj
      rw [Function.update_of_ne hki] at hk
      cases hj
      exact absurd hbc.symm (hkey k c hk)
    · subst hki
      rw [Function.update_self] at hk
      rw [Function.update_of_ne hji] at hj
      cases hk
      exact absurd hbc (hkey j b hj)
    · rw [Function.update_of_ne hji] at hj
      rw [Function.update_of_ne hki] at hk
      exact h.alone j k b c hj hk hbc

theorem release {i : ι} {a : α} (hi : held i = some a) {pre post : List α} (ht : table = pre ++ a :: post) :
    Matched key (pre ++ post) (Function.update held i none) := by
  subst ht
  have hperm : (pre ++ a :: post).Perm (a :: (pre ++ post)) := List.perm_middle
  have hn : ((a :: (pre ++ post)).map key).Nodup := (hperm.map key).nodup_iff.1 h.nodup
  rw [List.map_cons, List.nodup_cons] at hn
  refine ⟨hn.2, ?_, ?_⟩
  · intro b
    constructor
    · intro hb
      obtain ⟨j, hj⟩ := (h.mem_iff b).1 (hperm.mem_iff.2 (List.mem_cons_of_mem _ hb))
      refine ⟨j, ?_⟩
      by_cases hji : j = i
      · subst hji
        rw [hi] at hj
        cases hj
        exact absurd (List.mem_map_of_mem hb) hn.1
      · rw [Function.update_of_ne hji, hj]
    · rintro ⟨j, hj⟩
      by_cases hji : j = i
      · subst hji
        rw [Function.update_self] at hj
        cases hj
      · rw [Function.update_of_ne hji] at hj
        rcases List.mem_cons.1 (hperm.mem_iff.1 ((h.mem_iff b).2 ⟨j, hj⟩)) with rfl | hb
        · exact absurd (h.alone j i b b hj hi rfl) hji
        · exact hb
  · intro j k b c hj hk hbc
    by_cases hji : j = i
    · subst hji
      rw [Function.update_self] at hj
      cases hj
    by_cases hki : k = i
    · subst hki
      rw [Function.update_self] at hk
      cases hk
    rw [Function.update_of_ne hji] at hj
    rw [Function.update_of_ne hki] at hk
    exact h.alone j k b c hj hk hbc

end Matched

end CoWrite.Lib
