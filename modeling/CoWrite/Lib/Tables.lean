import Mathlib.Algebra.Order.Ring.Int
import Mathlib.Data.List.Find
import Mathlib.Data.List.Nodup

/-!
# Tables of keyed entries

Arrays that are searched from the front for a key, changed in place at the entry found, and kept dense by
moving the last entry into the slot of one that is removed (`swapRemove`). When no two entries have one
key, a look-up afterwards finds what it found before, but for the entry that was changed or removed
(`find?_modify`, `find?_swapRemove`).
-/

namespace CoWrite.Lib

universe u v

variable {α : Type u} {β : Type v}

/-! ## One entry -/

theorem exists_append_of_getElem? {l : List α} {i : Nat} {a : α} (h : l[i]? = some a) :
    ∃ pre post, l = pre ++ a :: post ∧ pre.length = i := by
  obtain ⟨hi, rfl⟩ := List.getElem?_eq_some_iff.1 h
  refine ⟨l.take i, l.drop (i + 1), ?_, by simp [Nat.le_of_lt hi]⟩
  rw [List.getElem_cons_drop, List.take_append_drop]

theorem forall_mem_modify {P : α → Prop} {f : α → α} {l : List α} (h : ∀ x ∈ l, P x)
    (hf : ∀ x ∈ l, P (f x)) (i : Nat) : ∀ x ∈ l.modify i f, P x := by
  induction l generalizing i with
  | nil => simp
  | cons a l ih =>
    rw [List.forall_mem_cons] at h hf
    cases i with
    | zero => simpa using ⟨hf.1, h.2⟩
    | succ i => simpa using ⟨h.1, ih h.2 hf.2 i⟩

theorem modify_append_length (as : List α) (b : α) (bs : List α) (f : α → α) :
    (as ++ b :: bs).modify as.length f = as ++ f b :: bs := by
  induction as with
  | nil => simp
  | cons a as ih => simpa using ih

theorem map_set_of_eq {f : α → β} {l : List α} {i : Nat} {a b : α} (hi : l[i]? = some a)
    (hf : f b = f a) : (l.set i b).map f = l.map f := by
  obtain ⟨pre, post, rfl, rfl⟩ := exists_append_of_getElem? hi
  rw [List.set_append_right _ _ (Nat.le_refl _), Nat.sub_self, List.set_cons_zero]
  simp [hf]

theorem map_modify_of_eq {f : α → β} {g : α → α} (hf : ∀ a, f (g a) = f a) (l : List α) (i : Nat) :
    (l.modify i g).map f = l.map f := by
  induction l generalizing i with
  | nil => simp
  | cons a l ih =>
    cases i with
    | zero => simp [hf]
    | succ i => simpa using ih i

/-! ## Removal -/

/-- The array without the entry at `i`: the last one takes its place. -/
def swapRemove (l : List α) (i : Nat) : List α :=
  match l.getLast? with
  | none => []
  | some last => (l.set i last).dropLast

theorem swapRemove_concat (l : List α) (last : α) (i : Nat) :
    swapRemove (l ++ [last]) i = if i < l.length then l.set i last else l := by
  simp only [swapRemove, List.getLast?_concat]
  split
  · next h => rw [List.set_append_left _ _ h, List.dropLast_concat]
  · next h =>
    rw [List.set_append_right _ _ (by omega)]
    cases i - l.length <;> simp

theorem mem_of_mem_swapRemove {l : List α} {i : Nat} {x : α} (h : x ∈ swapRemove l i) :
    x ∈ l := by
  rcases List.eq_nil_or_concat l with rfl | ⟨l, last, rfl⟩
  · simp [swapRemove] at h
  · rw [List.concat_eq_append, swapRemove_concat] at *
    split at h
    · rcases List.mem_or_eq_of_mem_set h with h | rfl <;> simp [*]
    · simp [h]

theorem nodup_map_swapRemove {g : α → β} {l : List α} (h : (l.map g).Nodup) (i : Nat) :
    ((swapRemove l i).map g).Nodup := by
  rcases List.eq_nil_or_concat l with rfl | ⟨l, last, rfl⟩
  · simp [swapRemove]
  · rw [List.concat_eq_append] at *
    rw [swapRemove_concat]
    rw [List.map_append, List.nodup_append] at h
    obtain ⟨hl, -, hlast⟩ := h
    split
    · rw [List.map_set]
      exact hl.set fun hm => hlast _ hm _ (by simp) rfl
    · exact hl

theorem length_swapRemove_le (l : List α) (i : Nat) : (swapRemove l i).length ≤ l.length := by
  rcases List.eq_nil_or_concat l with rfl | ⟨l, last, rfl⟩
  · simp [swapRemove]
  · rw [List.concat_eq_append, swapRemove_concat]
    split <;> simp

/-- Moving the last entry into the freed slot keeps the other entries. -/
theorem swapRemove_perm {l : List α} {i : Nat} (hi : i < l.length) :
    (swapRemove l i).Perm (l.eraseIdx i) := by
  rcases List.eq_nil_or_concat l with rfl | ⟨l, last, rfl⟩
  · simp at hi
  · rw [List.concat_eq_append] at hi ⊢
    rw [swapRemove_concat]
    split
    · next hlt =>
      rw [List.eraseIdx_append_of_lt_length hlt, List.set_eq_take_append_cons_drop, if_pos hlt,
        List.eraseIdx_eq_take_drop_succ, List.append_assoc]
      exact List.Perm.append_left _ (List.perm_append_singleton last _).symm
    · next hlt =>
      have hil : i = l.length := by
        simp only [List.length_append, List.length_cons, List.length_nil] at hi
        omega
      rw [hil, List.eraseIdx_append_of_length_le (Nat.le_refl _)]
      simp

theorem length_swapRemove (l : List α) (i : Nat) : (swapRemove l i).length = l.length - 1 := by
  rcases List.eq_nil_or_concat l with rfl | ⟨l, last, rfl⟩
  · rfl
  · rw [List.concat_eq_append, swapRemove_concat]
    split <;> simp

/-- Without duplicates the entry that is removed is gone. -/
theorem mem_swapRemove {l : List α} {i : Nat} {x y : α} (hnodup : l.Nodup) (hx : l[i]? = some x) :
    y ∈ swapRemove l i ↔ y ∈ l ∧ y ≠ x := by
  obtain ⟨pre, post, rfl, rfl⟩ := exists_append_of_getElem? hx
  have hi : pre.length < (pre ++ x :: post).length := by simp
  rw [(swapRemove_perm hi).mem_iff, List.eraseIdx_append_of_length_le (Nat.le_refl _), Nat.sub_self, List.eraseIdx_cons_zero]
  rw [List.nodup_append, List.nodup_cons] at hnodup
  obtain ⟨-, ⟨hpost, -⟩, hpre⟩ := hnodup
  simp only [List.mem_append, List.mem_cons]
  constructor
  · rintro (hy | hy)
    · exact ⟨.inl hy, fun heq => hpre y hy x List.mem_cons_self heq⟩
    · exact ⟨.inr (.inr hy), fun heq => hpost (heq ▸ hy)⟩
  · rintro ⟨hy | hy | hy, hne⟩
    · exact .inl hy
    · exact absurd hy hne
    · exact .inr hy

/-! ## Look-ups -/

section Find

variable [BEq β] [LawfulBEq β] {key : α → β} {l : List α}

/-- The entry found, between the entries before it and those behind it. -/
theorem exists_append_of_findIdx? {k : β} {i : Nat} (h : l.findIdx? (fun x => key x == k) = some i) :
    ∃ pre a post, l = pre ++ a :: post ∧ pre.length = i ∧ key a = k ∧ ∀ x ∈ pre, key x ≠ k := by
  obtain ⟨hi, hkey, hpre⟩ := List.findIdx?_eq_some_iff_getElem.1 h
  obtain ⟨pre, post, hl, hlen⟩ := exists_append_of_getElem? (List.getElem?_eq_getElem hi)
  refine ⟨pre, l[i], post, hl, hlen, by simpa using hkey, fun x hx hk => ?_⟩
  obtain ⟨j, hj, rfl⟩ := List.mem_iff_getElem.1 hx
  refine hpre j (by omega) ?_
  have hget : l[j]? = some pre[j] := by rw [hl, List.getElem?_append_left hj, List.getElem?_eq_getElem hj]
  rw [(List.getElem?_eq_some_iff.1 hget).2]
  simpa using hk

theorem find?_modify {k : β} {i : Nat} (h : l.findIdx? (fun x => key x == k) = some i) {f : α → α}
    (hf : ∀ x, key (f x) = key x) (k' : β) :
    (l.modify i f).find? (fun x => key x == k') =
      if k' == k then (l.find? fun x => key x == k').map f else l.find? fun x => key x == k' := by
  obtain ⟨pre, a, post, rfl, rfl, hka, hpre⟩ := exists_append_of_findIdx? h
  rw [modify_append_length, List.find?_append, List.find?_append]
  split
  · next hk =>
    obtain rfl := eq_of_beq hk
    rw [List.find?_eq_none.2 (by simpa using hpre)]
    simp [hka, hf]
  · next hk =>
    have hka' : (key a == k') = false := by
      rw [hka]
      simpa using fun e => hk (by simp [e])
    simp [hf, hka']

omit [BEq β] [LawfulBEq β] in
theorem nodup_append_of_nodup_cons {pre post : List α} {a : α} (h : ((pre ++ a :: post).map key).Nodup) :
    ((pre ++ post).map key).Nodup ∧ ∀ x ∈ pre ++ post, key x ≠ key a := by
  have hperm : ((pre ++ a :: post).map key).Perm ((a :: (pre ++ post)).map key) := List.perm_middle.map key
  rw [hperm.nodup_iff, List.map_cons, List.nodup_cons] at h
  refine ⟨h.2, fun x hx hk => h.1 ?_⟩
  rw [← hk]
  exact List.mem_map_of_mem hx

theorem find?_swapRemove (hkeys : (l.map key).Nodup) {k : β} {i : Nat}
    (h : l.findIdx? (fun x => key x == k) = some i) (k' : β) :
    (swapRemove l i).find? (fun x => key x == k') =
      if k' == k then none else l.find? fun x => key x == k' := by
  obtain ⟨pre, a, post, rfl, rfl, hka, -⟩ := exists_append_of_findIdx? h
  obtain ⟨hnodup, hother⟩ := nodup_append_of_nodup_cons hkeys
  have hperm : (pre ++ post).Perm (swapRemove (pre ++ a :: post) pre.length) := by
    have := swapRemove_perm (l := pre ++ a :: post) (i := pre.length) (by simp)
    rw [List.eraseIdx_append_of_length_le (Nat.le_refl _), Nat.sub_self, List.eraseIdx_cons_zero] at this
    exact this.symm
  rw [← List.find?_eq_find?_of_perm hperm]
  · split
    · next hk =>
      rw [List.find?_eq_none, eq_of_beq hk, ← hka]
      simpa using hother
    · next hk =>
      have hka' : (key a == k') = false := by
        rw [hka]
        simpa using fun e => hk (by simp [e])
      rw [List.find?_append, List.find?_append, List.find?_cons, hka']
  · intro x hx y hy
    have hxy : key x = key y := (by simpa using hx.2 : key x = k').trans (by simpa using hy.2 : key y = k').symm
    exact List.inj_on_of_nodup_map hnodup hx.1 hy.1 hxy

end Find

end CoWrite.Lib
