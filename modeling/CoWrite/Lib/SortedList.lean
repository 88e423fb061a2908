import Mathlib.Algebra.Order.Ring.Int
import Mathlib.Data.List.Basic
import Mathlib.Data.List.Sort
import Mathlib.Order.Compare
import Mathlib.Order.Nat

/-!
# Lists sorted by a key

A list with strictly increasing keys is a finite map. The two binary searches of an array kept that
way are the ones C programs write: one that stops at the key (`search`), one for the place to insert
(`lowerBound`). Both halve the window `[lo, hi)`, so a window of `fuel` elements needs at most `fuel`
rounds.

* `search_spec`, `lowerBound_spec`: the searches find the element with the key, or the cut where it
  belongs.
* `lookup_insertIdx`, `lookup_set`, `lookup_eraseIdx`: inserting at the cut, replacing and erasing
  change the map at one key only.
-/

namespace CoWrite.Lib.SortedList

universe u v

variable {α : Type u} {κ : Type v} [LinearOrder κ] (key : α → κ)

/-- Strictly increasing keys. -/
def Sorted (l : List α) : Prop := l.Pairwise fun a b => key a < key b

/-- The map that a list with keys stands for. -/
def lookup (l : List α) (k : κ) : Option α := l.find? fun x => key x == k

/-- Binary search for `k` in the window `[lo, hi)`: the element with the key, and its index or the
index where it belongs. -/
def search (l : List α) (k : κ) : Nat → Nat → Nat → Option α × Nat
  | 0, lo, _ => (none, lo)
  | fuel + 1, lo, hi =>
    if lo < hi then
      let mid := lo + (hi - lo) / 2
      match l[mid]? with
      | none => (none, lo)
      | some x =>
        match compare (key x) k with
        | .eq => (some x, mid)
        | .lt => search l k fuel (mid + 1) hi
        | .gt => search l k fuel lo mid
    else (none, lo)

/-- Binary search for the first index of `[lo, hi)` whose key is not below `k`. -/
def lowerBound (l : List α) (k : κ) : Nat → Nat → Nat → Nat
  | 0, lo, _ => lo
  | fuel + 1, lo, hi =>
    if lo < hi then
      let mid := lo + (hi - lo) / 2
      match l[mid]? with
      | none => lo
      | some x =>
        if key x < k then lowerBound l k fuel (mid + 1) hi else lowerBound l k fuel lo mid
    else lo

/-- The cut of the list where the key `k` belongs. -/
structure Cut (l : List α) (k : κ) (i : Nat) : Prop where
  le : i ≤ l.length
  below : ∀ j x, j < i → l[j]? = some x → key x < k
  above : ∀ j x, i ≤ j → l[j]? = some x → k < key x

variable {key} {l : List α} {k : κ}

theorem sorted_iff : Sorted key l ↔
    ∀ (i j : Nat) x y, i < j → l[i]? = some x → l[j]? = some y → key x < key y := by
  unfold Sorted
  rw [List.pairwise_iff_getElem]
  constructor
  · intro h i j x y hij hx hy
    obtain ⟨hi, rfl⟩ := List.getElem?_eq_some_iff.1 hx
    obtain ⟨hj, rfl⟩ := List.getElem?_eq_some_iff.1 hy
    exact h i j hi hj hij
  · intro h i j hi hj hij
    exact h i j _ _ hij (List.getElem?_eq_getElem hi) (List.getElem?_eq_getElem hj)

theorem Sorted.lt (h : Sorted key l) {i j : Nat} {x y : α} (hx : l[i]? = some x)
    (hy : l[j]? = some y) (hij : i < j) : key x < key y :=
  sorted_iff.1 h i j x y hij hx hy

/-- The window still has every index that `k` can have. -/
def Window (key : α → κ) (l : List α) (k : κ) (lo hi : Nat) : Prop :=
  lo ≤ hi ∧ hi ≤ l.length ∧ (∀ j x, j < lo → l[j]? = some x → key x < k) ∧
    ∀ j x, hi ≤ j → l[j]? = some x → k < key x

theorem window_full : Window key l k 0 l.length := by
  refine ⟨Nat.zero_le _, le_rfl, by simp, ?_⟩
  intro j x hj hx
  simp [List.getElem?_eq_none hj] at hx

theorem Window.cut {i : Nat} (h : Window key l k i i) : Cut key l k i :=
  ⟨h.2.1, h.2.2.1, h.2.2.2⟩

/-- Below an element with a smaller key. -/
theorem Window.right {lo hi mid : Nat} {x : α} (h : Window key l k lo hi) (hs : Sorted key l)
    (hmid : mid < hi) (hx : l[mid]? = some x) (hlt : key x < k) : Window key l k (mid + 1) hi := by
  refine ⟨hmid, h.2.1, ?_, h.2.2.2⟩
  intro j y hj hy
  rcases Nat.lt_or_eq_of_le (Nat.le_of_lt_succ hj) with hj | rfl
  · exact (hs.lt hy hx hj).trans hlt
  · simp_all

/-- Above an element with a larger key. -/
theorem Window.left {lo hi mid : Nat} {x : α} (h : Window key l k lo hi) (hs : Sorted key l)
    (hmid : lo ≤ mid) (hx : l[mid]? = some x) (hlt : k < key x) : Window key l k lo mid := by
  refine ⟨hmid, ?_, h.2.2.1, ?_⟩
  · obtain ⟨hi, -⟩ := List.getElem?_eq_some_iff.1 hx
    exact hi.le
  intro j y hj hy
  rcases Nat.lt_or_eq_of_le hj with hj | rfl
  · exact hlt.trans (hs.lt hx hy hj)
  · simp_all

theorem search_window (hs : Sorted key l) {fuel lo hi : Nat} (h : Window key l k lo hi)
    (hf : hi - lo ≤ fuel) :
    (∀ x, (search key l k fuel lo hi).1 = some x →
      l[(search key l k fuel lo hi).2]? = some x ∧ key x = k) ∧
    ((search key l k fuel lo hi).1 = none → Cut key l k (search key l k fuel lo hi).2) := by
  induction fuel generalizing lo hi with
  | zero =>
    obtain rfl : lo = hi := by have := h.1; omega
    exact ⟨by simp [search], fun _ => h.cut⟩
  | succ fuel ih =>
    unfold search
    by_cases hlt : lo < hi
    · have hmid : lo + (hi - lo) / 2 < hi := by omega
      have hlen : lo + (hi - lo) / 2 < l.length := hmid.trans_le h.2.1
      have hx : l[lo + (hi - lo) / 2]? = some l[lo + (hi - lo) / 2] := List.getElem?_eq_getElem hlen
      simp only [hlt, if_true, hx]
      cases hc : compare (key l[lo + (hi - lo) / 2]) k with
      | eq =>
        refine ⟨?_, by simp⟩
        rintro x ⟨⟩
        exact ⟨hx, compare_eq_iff_eq.1 hc⟩
      | lt => exact ih (h.right hs hmid hx (compare_lt_iff_lt.1 hc)) (by omega)
      | gt => exact ih (h.left hs (by omega) hx (compare_gt_iff_gt.1 hc)) (by omega)
    · obtain rfl : lo = hi := by have := h.1; omega
      simp only [lt_irrefl, if_false]
      exact ⟨by simp, fun _ => h.cut⟩

/-- The binary search finds the element with the key, or the cut where it belongs. -/
theorem search_spec (hs : Sorted key l) (k : κ) :
    (∀ x, (search key l k l.length 0 l.length).1 = some x →
      l[(search key l k l.length 0 l.length).2]? = some x ∧ key x = k) ∧
    ((search key l k l.length 0 l.length).1 = none →
      Cut key l k (search key l k l.length 0 l.length).2) :=
  search_window hs window_full (by omega)

theorem lowerBound_window (hs : Sorted key l) (hk : ∀ x ∈ l, key x ≠ k) {fuel lo hi : Nat}
    (h : Window key l k lo hi) (hf : hi - lo ≤ fuel) :
    Cut key l k (lowerBound key l k fuel lo hi) := by
  induction fuel generalizing lo hi with
  | zero =>
    obtain rfl : lo = hi := by have := h.1; omega
    exact h.cut
  | succ fuel ih =>
    unfold lowerBound
    split
    · have hmid : lo + (hi - lo) / 2 < hi := by omega
      have hlen : lo + (hi - lo) / 2 < l.length := hmid.trans_le h.2.1
      have hx : l[lo + (hi - lo) / 2]? = some l[lo + (hi - lo) / 2] := List.getElem?_eq_getElem hlen
      simp only [hx]
      split
      · next hlt => exact ih (h.right hs hmid hx hlt) (by omega)
      · next hge =>
        have hgt := lt_of_le_of_ne (not_lt.1 hge) (hk _ (List.getElem_mem hlen)).symm
        exact ih (h.left hs (by omega) hx hgt) (by omega)
    · obtain rfl : lo = hi := by have := h.1; omega
      exact h.cut

/-- For a key the list does not have, the second search finds the cut too. -/
theorem lowerBound_spec (hs : Sorted key l) (hk : ∀ x ∈ l, key x ≠ k) :
    Cut key l k (lowerBound key l k l.length 0 l.length) :=
  lowerBound_window hs hk window_full (by omega)

/-- There is one cut only. -/
theorem Cut.unique {i j : Nat} (hi : Cut key l k i) (hj : Cut key l k j) : i = j := by
  by_contra hne
  rcases Nat.lt_or_gt_of_ne hne with h | h
  · have hx := List.getElem?_eq_getElem (h.trans_le hj.le)
    exact lt_asymm (hi.above _ _ le_rfl hx) (hj.below _ _ h hx)
  · have hx := List.getElem?_eq_getElem (h.trans_le hi.le)
    exact lt_asymm (hj.above _ _ le_rfl hx) (hi.below _ _ h hx)

/-! ## The map -/

theorem Sorted.eq_of_key_eq (hs : Sorted key l) {x y : α} (hx : x ∈ l) (hy : y ∈ l)
    (h : key x = key y) : x = y := by
  obtain ⟨i, hi⟩ := List.getElem?_of_mem hx
  obtain ⟨j, hj⟩ := List.getElem?_of_mem hy
  rcases Nat.lt_trichotomy i j with hij | rfl | hij
  · exact absurd h (hs.lt hi hj hij).ne
  · exact Option.some.inj (hi.symm.trans hj)
  · exact absurd h (hs.lt hj hi hij).ne'

theorem lookup_eq_some_iff (hs : Sorted key l) {x : α} :
    lookup key l k = some x ↔ x ∈ l ∧ key x = k := by
  unfold lookup
  constructor
  · intro h
    exact ⟨List.mem_of_find?_eq_some h, by simpa using List.find?_some h⟩
  · rintro ⟨hx, rfl⟩
    cases hf : l.find? fun y => key y == key x with
    | none => simpa using List.find?_eq_none.1 hf x hx
    | some y =>
      have hxy : key y = key x := by simpa using List.find?_some hf
      rw [hs.eq_of_key_eq (List.mem_of_find?_eq_some hf) hx hxy]

theorem lookup_eq_none_iff : lookup key l k = none ↔ ∀ x ∈ l, key x ≠ k := by
  simp [lookup]

theorem Cut.lookup_eq_none {i : Nat} (h : Cut key l k i) : lookup key l k = none := by
  rw [lookup_eq_none_iff]
  intro x hx
  obtain ⟨j, hj⟩ := List.getElem?_of_mem hx
  rcases Nat.lt_or_ge j i with hji | hji
  · exact (h.below j x hji hj).ne
  · exact (h.above j x hji hj).ne'

/-- The binary search is the lookup. -/
theorem search_fst (hs : Sorted key l) (k : κ) :
    (search key l k l.length 0 l.length).1 = lookup key l k := by
  obtain ⟨hsome, hnone⟩ := search_spec hs k
  cases h : (search key l k l.length 0 l.length).1 with
  | none => exact (hnone h).lookup_eq_none.symm
  | some x =>
    obtain ⟨hx, hk⟩ := hsome x h
    exact ((lookup_eq_some_iff hs).2 ⟨List.mem_of_getElem? hx, hk⟩).symm

/-- Two sorted lists with the same members are the same map. -/
theorem lookup_congr {l' : List α} (hs : Sorted key l) (hs' : Sorted key l')
    (h : ∀ x, key x = k → (x ∈ l ↔ x ∈ l')) : lookup key l k = lookup key l' k := by
  ext x
  rw [lookup_eq_some_iff hs, lookup_eq_some_iff hs']
  exact ⟨fun ⟨hx, hk⟩ => ⟨(h x hk).1 hx, hk⟩, fun ⟨hx, hk⟩ => ⟨(h x hk).2 hx, hk⟩⟩

/-- Sorted lists with the same keys. -/
theorem map_key_eq {l' : List α} (hs : Sorted key l) (hs' : Sorted key l')
    (h : ∀ k, (lookup key l k).isSome = (lookup key l' k).isSome) : l.map key = l'.map key := by
  have hmem {l : List α} (k : κ) : k ∈ l.map key ↔ (lookup key l k).isSome := by
    rw [Option.isSome_iff_ne_none, Ne, lookup_eq_none_iff, List.mem_map]
    push Not
    rfl
  refine List.Pairwise.eq_of_mem_iff (r := (· < ·)) (List.pairwise_map.2 hs) (List.pairwise_map.2 hs') ?_
  intro k
  rw [hmem, hmem, h]

theorem Sorted.insertIdx {i : Nat} {x : α} (hs : Sorted key l) (hc : Cut key l (key x) i) :
    Sorted key (l.insertIdx i x) := by
  rw [sorted_iff] at *
  intro j j' y y' hj hy hy'
  rw [List.getElem?_insertIdx] at hy hy'
  have := hc.below
  have := hc.above
  grind

theorem lookup_insertIdx {i : Nat} {x : α} (hs : Sorted key l) (hc : Cut key l (key x) i) :
    lookup key (l.insertIdx i x) k = if key x = k then some x else lookup key l k := by
  have hs' := hs.insertIdx hc
  split
  · next hk => exact (lookup_eq_some_iff hs').2 ⟨(List.mem_insertIdx hc.le).2 (.inl rfl), hk⟩
  · next hk =>
    refine lookup_congr hs' hs fun y hy => ?_
    rw [List.mem_insertIdx hc.le]
    exact or_iff_right fun e => hk (by rw [← e, hy])

theorem Sorted.set {i : Nat} {x y : α} (hs : Sorted key l) (hx : l[i]? = some x)
    (hk : key y = key x) : Sorted key (l.set i y) := by
  rw [sorted_iff] at *
  intro j j' z z' hj hz hz'
  rw [List.getElem?_set] at hz hz'
  grind

theorem lookup_set {i : Nat} {x y : α} (hs : Sorted key l) (hx : l[i]? = some x)
    (hk : key y = key x) :
    lookup key (l.set i y) k = if key x = k then some y else lookup key l k := by
  have hs' := hs.set hx hk
  obtain ⟨hi, rfl⟩ := List.getElem?_eq_some_iff.1 hx
  split
  · next h => exact (lookup_eq_some_iff hs').2 ⟨List.mem_set hi y, hk.trans h⟩
  · next h =>
    refine lookup_congr hs' hs fun z hz => ?_
    have hne : ∀ j, l[j]? = some z → j ≠ i := by
      rintro j hj rfl
      exact h (by rw [hx] at hj; cases hj; exact hz)
    rw [List.mem_iff_getElem?, List.mem_iff_getElem?]
    constructor
    · rintro ⟨j, hj⟩
      rw [List.getElem?_set] at hj
      split at hj
      · cases hj
        exact absurd (hk.symm.trans hz) h
      · exact ⟨j, hj⟩
    · rintro ⟨j, hj⟩
      exact ⟨j, by rwa [List.getElem?_set_ne (hne j hj).symm]⟩

theorem Sorted.eraseIdx {i : Nat} (hs : Sorted key l) : Sorted key (l.eraseIdx i) :=
  hs.sublist (List.eraseIdx_sublist l i)

theorem lookup_eraseIdx {i : Nat} {x : α} (hs : Sorted key l) (hx : l[i]? = some x) :
    lookup key (l.eraseIdx i) k = if key x = k then none else lookup key l k := by
  have hs' := hs.eraseIdx (i := i)
  split
  · next h =>
    rw [lookup_eq_none_iff]
    intro y hy hk
    rw [List.mem_eraseIdx_iff_getElem?] at hy
    obtain ⟨j, hji, hj⟩ := hy
    rcases Nat.lt_or_gt_of_ne hji with hlt | hlt
    · exact (hs.lt hj hx hlt).ne (hk.trans h.symm)
    · exact (hs.lt hx hj hlt).ne (h.trans hk.symm)
  · next h =>
    refine lookup_congr hs' hs fun y hy => ?_
    rw [List.mem_eraseIdx_iff_getElem?, List.mem_iff_getElem?]
    constructor
    · rintro ⟨j, -, hj⟩
      exact ⟨j, hj⟩
    · rintro ⟨j, hj⟩
      refine ⟨j, ?_, hj⟩
      rintro rfl
      exact h (by rw [hx] at hj; cases hj; exact hy)

end CoWrite.Lib.SortedList
