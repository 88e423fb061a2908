import Mathlib.Data.List.Basic
import Mathlib.Logic.Function.Basic

/-!
# Lists with elements replaced

`patch l f` puts a list in the place of the elements of `l` where `f` has one.

* `patch_eq`: what stands before and behind the place of an element.
* `patch_update`: one replacement more changes nothing else.
-/

namespace CoWrite.Lib

universe u

variable {α : Type u}

def patch (l : List α) (f : Nat → Option (List α)) : List α := (l.mapIdx fun i a => (f i).getD [a]).flatten

section Patch

variable {l : List α} {f g : Nat → Option (List α)} {i : Nat}

theorem patch_append (l l' : List α) (f : Nat → Option (List α)) :
    patch (l ++ l') f = patch l f ++ patch l' fun k => f (k + l.length) := by
  rw [patch, List.mapIdx_append, List.flatten_append]
  rfl

theorem patch_cons (a : α) (l : List α) (f : Nat → Option (List α)) :
    patch (a :: l) f = (f 0).getD [a] ++ patch l fun k => f (k + 1) := by
  rw [patch, List.mapIdx_cons, List.flatten_cons]
  rfl

/-- Where nothing is replaced, the list stays. -/
theorem patch_none (l : List α) : patch l (fun _ => none) = l := by
  induction l with
  | nil => rfl
  | cons a l ih => rw [patch_cons, ih, Option.getD_none, List.singleton_append]

theorem patch_congr (h : ∀ k, k < l.length → f k = g k) : patch l f = patch l g := by
  induction l generalizing f g with
  | nil => rfl
  | cons a l ih =>
    have htail : patch l (fun k => f (k + 1)) = patch l (fun k => g (k + 1)) :=
      ih fun k hk => h (k + 1) (Nat.succ_lt_succ hk)
    rw [patch_cons, patch_cons, htail, h 0 (Nat.succ_pos _)]

/-- What is in a patched list comes from one place of the list. -/
theorem mem_patch {a : α} : a ∈ patch l f ↔ ∃ k b, l[k]? = some b ∧ a ∈ (f k).getD [b] := by
  induction l generalizing f with
  | nil => simp [patch]
  | cons c l ih =>
    rw [patch_cons, List.mem_append, ih]
    constructor
    · rintro (ha | ⟨k, b, hk, ha⟩)
      · exact ⟨0, c, rfl, ha⟩
      · exact ⟨k + 1, b, hk, ha⟩
    · rintro ⟨k, b, hk, ha⟩
      cases k with
      | zero =>
        cases hk
        exact .inl ha
      | succ k => exact .inr ⟨k, b, hk, ha⟩

/-- The lists on the two sides of the element `i`. -/
theorem patch_eq (hi : i < l.length) (f : Nat → Option (List α)) : patch l f =
    patch (l.take i) f ++ (f i).getD [l[i]] ++ patch (l.drop (i + 1)) fun k => f (k + (i + 1)) := by
  have htake : (l.take i).length = i := List.length_take_of_le (Nat.le_of_lt hi)
  have hdrop : l = l.take i ++ l[i] :: l.drop (i + 1) := by
    rw [← List.drop_eq_getElem_cons hi, List.take_append_drop]
  conv_lhs => rw [hdrop, patch_append, patch_cons, htake, Nat.zero_add]
  rw [List.append_assoc]
  congr 3
  funext k
  congr 1
  omega

/-- The sides do not change with what is put between them. -/
theorem patch_update (hi : i < l.length) (f : Nat → Option (List α)) (parts : List α) :
    patch l (Function.update f i (some parts)) =
      patch (l.take i) f ++ parts ++ patch (l.drop (i + 1)) fun k => f (k + (i + 1)) := by
  have hleft : patch (l.take i) (Function.update f i (some parts)) = patch (l.take i) f := by
    refine patch_congr fun k hk => Function.update_of_ne ?_ _ _
    have := List.length_take_le i l
    omega
  have hright : (patch (l.drop (i + 1)) fun k => Function.update f i (some parts) (k + (i + 1))) =
      patch (l.drop (i + 1)) fun k => f (k + (i + 1)) := by
    refine patch_congr fun k _ => Function.update_of_ne ?_ _ _
    omega
  rw [patch_eq hi, hleft, hright, Function.update_self, Option.getD_some]

/-- An element that the list has once, and no replacement has, stays the only one of its kind. -/
theorem notMem_patch_sides (hi : i < l.length) (hone : ∀ k, l[k]? = some l[i] → k = i)
    (hnew : ∀ k parts, f k = some parts → l[i] ∉ parts) :
    l[i] ∉ patch (l.take i) f ∧ l[i] ∉ patch (l.drop (i + 1)) fun k => f (k + (i + 1)) := by
  have hnot {k : Nat} {b : α} {r : Option (List α)} (hb : l[k]? = some b) (hk : k ≠ i) (hr : ∀ parts, r = some parts → l[i] ∉ parts)
      (hmem : l[i] ∈ r.getD [b]) : False := by
    cases r with
    | some parts => exact hr parts rfl hmem
    | none =>
      rw [Option.getD_none, List.mem_singleton] at hmem
      exact hk (hone k (hmem ▸ hb))
  constructor
  · intro hmem
    obtain ⟨k, b, hb, hmem⟩ := mem_patch.1 hmem
    have hk : k < i := by
      have := (List.getElem?_eq_some_iff.1 hb).1
      rw [List.length_take] at this
      omega
    rw [List.getElem?_take_of_lt hk] at hb
    exact hnot hb (Nat.ne_of_lt hk) (hnew k) hmem
  · intro hmem
    obtain ⟨k, b, hb, hmem⟩ := mem_patch.1 hmem
    rw [List.getElem?_drop] at hb
    exact hnot (k := i + 1 + k) hb (by omega) (hnew (k + (i + 1))) hmem

end Patch

end CoWrite.Lib
