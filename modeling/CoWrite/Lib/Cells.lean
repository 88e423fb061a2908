import Mathlib.Algebra.Order.Ring.Int
import Mathlib.Data.List.Basic
import CoWrite.Lib.Tables

/-!
# Elements in a buffer

Elements of one size stand behind each other at the front of a buffer. `memmove` and `memcpy` move bytes only where all
of them are bytes of their objects; `cells` reads the elements off.

`Holds.push`, `Holds.insert`, `Holds.remove`: the moves that change the elements stay inside the buffer, and what they
leave is the list with one element more or less.
-/

namespace CoWrite.Lib

universe u

variable {β : Type u}

/-! ## Moves -/

/-- `memmove(buf + dst, buf + src, n)`. -/
def memmove (buf : List β) (dst src n : Nat) : Option (List β) :=
  if dst + n ≤ buf.length ∧ src + n ≤ buf.length then
    some (buf.take dst ++ ((buf.drop src).take n ++ buf.drop (dst + n)))
  else none

/-- `memcpy(buf + dst, value, n)`. -/
def memcpy (buf : List β) (dst : Nat) (value : List β) (n : Nat) : Option (List β) :=
  if dst + n ≤ buf.length ∧ n ≤ value.length then some (buf.take dst ++ (value.take n ++ buf.drop (dst + n)))
  else none

/-- Reading `n` bytes at an offset. -/
def load (buf : List β) (src n : Nat) : Option (List β) :=
  if src + n ≤ buf.length then some ((buf.drop src).take n) else none

/-- The bytes behind `pre` give way to `n` more. -/
theorem memmove_right (pre : List β) (mid : List β) {rest : List β} {n : Nat} (hrest : n ≤ rest.length) :
    memmove (pre ++ (mid ++ rest)) (pre.length + n) pre.length mid.length =
      some (pre ++ ((mid ++ rest).take n ++ (mid ++ rest.drop n))) := by
  have hdst : pre.length + n + mid.length ≤ (pre ++ (mid ++ rest)).length := by
    simp only [List.length_append]
    omega
  have hsrc : pre.length + mid.length ≤ (pre ++ (mid ++ rest)).length := by
    simp only [List.length_append]
    omega
  have hdrop : (pre ++ (mid ++ rest)).drop (pre.length + n + mid.length) = rest.drop n := by
    rw [show pre.length + n + mid.length = pre.length + (mid.length + n) by omega, List.drop_length_add_append,
      List.drop_length_add_append]
  rw [memmove, if_pos ⟨hdst, hsrc⟩, List.take_length_add_append, List.drop_left, List.take_left, hdrop,
    List.append_assoc]

/-- The bytes behind `gap` move to where it was. -/
theorem memmove_left (pre gap mid rest : List β) :
    memmove (pre ++ (gap ++ (mid ++ rest))) pre.length (pre.length + gap.length) mid.length =
      some (pre ++ (mid ++ (gap ++ (mid ++ rest)).drop mid.length)) := by
  have hdst : pre.length + mid.length ≤ (pre ++ (gap ++ (mid ++ rest))).length := by
    simp only [List.length_append]
    omega
  have hsrc : pre.length + gap.length + mid.length ≤ (pre ++ (gap ++ (mid ++ rest))).length := by
    simp only [List.length_append]
    omega
  rw [memmove, if_pos ⟨hdst, hsrc⟩, List.take_left, List.drop_length_add_append, List.drop_left, List.take_left,
    List.drop_length_add_append]

theorem memcpy_append (pre : List β) {value rest : List β} {n : Nat} (hvalue : value.length = n) (hrest : n ≤ rest.length) :
    memcpy (pre ++ rest) pre.length value n = some (pre ++ (value ++ rest.drop n)) := by
  have hdst : pre.length + n ≤ (pre ++ rest).length := by
    rw [List.length_append]
    omega
  rw [memcpy, if_pos ⟨hdst, hvalue.ge⟩, List.take_left, List.take_of_length_le hvalue.le, List.drop_length_add_append]

theorem length_memmove {buf buf' : List β} {dst src n : Nat} (h : memmove buf dst src n = some buf') :
    buf'.length = buf.length := by
  obtain ⟨⟨hdst, hsrc⟩, h⟩ := Option.ite_none_right_eq_some.1 h
  cases h
  simp only [List.length_append, List.length_take, List.length_drop]
  omega

theorem length_memcpy {buf buf' value : List β} {dst n : Nat} (h : memcpy buf dst value n = some buf') :
    buf'.length = buf.length := by
  obtain ⟨⟨hdst, hvalue⟩, h⟩ := Option.ite_none_right_eq_some.1 h
  cases h
  simp only [List.length_append, List.length_take, List.length_drop]
  omega

/-! ## Elements -/

/-- The first `count` elements of `n` bytes. -/
def cells (n : Nat) : Nat → List β → List (List β)
  | 0, _ => []
  | count + 1, buf => buf.take n :: cells n count (buf.drop n)

theorem length_cells (n count : Nat) (buf : List β) : (cells n count buf).length = count := by
  induction count generalizing buf with
  | zero => rfl
  | succ count ih => rw [cells, List.length_cons, ih]

/-- The buffer starts with these elements, of `n` bytes each. -/
structure Holds (n : Nat) (buf : List β) (l : List (List β)) : Prop where
  size : ∀ c ∈ l, c.length = n
  front : l.flatten <+: buf

theorem length_flatten_of_size {n : Nat} {l : List (List β)} (h : ∀ c ∈ l, c.length = n) : l.flatten.length = l.length * n := by
  rw [List.length_flatten, List.map_congr_left h, List.map_const', List.sum_replicate_nat]

section Holds

variable {n : Nat} {buf : List β} {l : List (List β)}

theorem holds_cells {count : Nat} (h : count * n ≤ buf.length) : Holds n buf (cells n count buf) := by
  induction count generalizing buf with
  | zero => exact ⟨by simp [cells], List.nil_prefix⟩
  | succ count ih =>
    rw [Nat.succ_mul] at h
    have hdrop := @ih (buf.drop n) (by rw [List.length_drop]; omega)
    refine ⟨?_, ?_⟩
    · rw [cells, List.forall_mem_cons]
      exact ⟨List.length_take_of_le (by omega), hdrop.size⟩
    · obtain ⟨rest, hrest⟩ := hdrop.front
      refine ⟨rest, ?_⟩
      rw [cells, List.flatten_cons, List.append_assoc, hrest, List.take_append_drop]

theorem Holds.cells_eq (h : Holds n buf l) : cells n l.length buf = l := by
  obtain ⟨hsize, rest, rfl⟩ := h
  induction l with
  | nil => rfl
  | cons c l ih =>
    rw [List.forall_mem_cons] at hsize
    obtain ⟨rfl, hl⟩ := hsize
    rw [List.length_cons, cells, List.flatten_cons, List.append_assoc, List.take_left, List.drop_left, ih hl]

/-- An element is read at its offset. -/
theorem Holds.get (h : Holds n buf l) {i : Nat} {c : List β} (hc : l[i]? = some c) : load buf (i * n) n = some c := by
  obtain ⟨hsize, rest, rfl⟩ := h
  obtain ⟨pre, post, rfl, rfl⟩ := exists_append_of_getElem? hc
  rw [List.forall_mem_append, List.forall_mem_cons] at hsize
  have hbuf : (pre ++ c :: post).flatten ++ rest = pre.flatten ++ (c ++ (post.flatten ++ rest)) := by simp
  have hin : pre.flatten.length + n ≤ (pre.flatten ++ (c ++ (post.flatten ++ rest))).length := by
    simp only [List.length_append, hsize.2.1]
    omega
  rw [hbuf, ← length_flatten_of_size hsize.1, load, if_pos hin, List.drop_left, ← hsize.2.1, List.take_left]

theorem Holds.push (h : Holds n buf l) {v : List β} (hv : v.length = n) (hroom : (l.length + 1) * n ≤ buf.length) :
    ∃ buf', memcpy buf (l.length * n) v n = some buf' ∧ Holds n buf' (l ++ [v]) := by
  obtain ⟨hsize, rest, rfl⟩ := h
  have hflat := length_flatten_of_size hsize
  rw [List.length_append, hflat, Nat.succ_mul] at hroom
  refine ⟨_, ?_, ?_, rest.drop n, rfl⟩
  · rw [← hflat, memcpy_append _ hv (by omega), List.flatten_append]
    simp
  · rw [List.forall_mem_append]
    exact ⟨hsize, by simpa using hv⟩

/-- The elements from the index on move up, and the new one is put at the index. -/
theorem Holds.insert (h : Holds n buf l) {i : Nat} (hi : i ≤ l.length) {v : List β} (hv : v.length = n)
    (hroom : (l.length + 1) * n ≤ buf.length) :
    ∃ moved buf', memmove buf (i * n + n) (i * n) ((l.length - i) * n) = some moved ∧
      memcpy moved (i * n) v n = some buf' ∧ Holds n buf' (l.insertIdx i v) := by
  obtain ⟨hsize, rest, rfl⟩ := h
  have hsplit : l.insertIdx i v = l.take i ++ v :: l.drop i := by
    have hadd := List.modifyTailIdx_add (List.cons v) 0 (l.take i) (l.drop i)
    rwa [List.take_append_drop, List.length_take_of_le hi] at hadd
  have hpre : (l.take i).flatten.length = i * n := by
    rw [length_flatten_of_size fun c hc => hsize c (List.mem_of_mem_take hc), List.length_take_of_le hi]
  have hpost : (l.drop i).flatten.length = (l.length - i) * n := by
    rw [length_flatten_of_size fun c hc => hsize c (List.mem_of_mem_drop hc), List.length_drop]
  have hbuf : l.flatten ++ rest = (l.take i).flatten ++ ((l.drop i).flatten ++ rest) := by
    rw [← List.append_assoc, ← List.flatten_append, List.take_append_drop]
  have hrest : n ≤ rest.length := by
    rw [List.length_append, length_flatten_of_size hsize, Nat.succ_mul] at hroom
    omega
  have hmoved := memmove_right (l.take i).flatten (l.drop i).flatten hrest
  have hput := memcpy_append (l.take i).flatten hv
    (show n ≤ (((l.drop i).flatten ++ rest).take n ++ ((l.drop i).flatten ++ rest.drop n)).length by
      simp only [List.length_append, List.length_take]
      omega)
  rw [hpre, hpost] at hmoved
  rw [hpre] at hput
  rw [hbuf]
  refine ⟨_, _, hmoved, hput, ?_, rest.drop n, ?_⟩
  · rw [hsplit, List.forall_mem_append, List.forall_mem_cons]
    exact ⟨fun c hc => hsize c (List.mem_of_mem_take hc), hv, fun c hc => hsize c (List.mem_of_mem_drop hc)⟩
  · have hfirst : (((l.drop i).flatten ++ rest).take n).length = n :=
      List.length_take_of_le (by rw [List.length_append]; omega)
    rw [hsplit, List.flatten_append, List.flatten_cons, List.drop_left' hfirst]
    simp only [List.append_assoc]

/-- The elements behind the index move down. -/
theorem Holds.remove (h : Holds n buf l) {i : Nat} (hi : i < l.length) :
    ∃ buf', memmove buf (i * n) (i * n + n) ((l.length - i - 1) * n) = some buf' ∧ Holds n buf' (l.eraseIdx i) := by
  obtain ⟨hsize, rest, rfl⟩ := h
  have hsplit : l.eraseIdx i = l.take i ++ l.drop (i + 1) := List.eraseIdx_eq_take_drop_succ ..
  have hpre : (l.take i).flatten.length = i * n := by
    rw [length_flatten_of_size fun c hc => hsize c (List.mem_of_mem_take hc), List.length_take_of_le hi.le]
  have hpost : (l.drop (i + 1)).flatten.length = (l.length - i - 1) * n := by
    rw [length_flatten_of_size fun c hc => hsize c (List.mem_of_mem_drop hc), List.length_drop, Nat.sub_sub]
  have hflat : l.flatten = (l.take i).flatten ++ (l[i] ++ (l.drop (i + 1)).flatten) := by
    rw [← List.flatten_cons, ← List.flatten_append, List.getElem_cons_drop, List.take_append_drop]
  have hmoved := memmove_left (l.take i).flatten l[i] (l.drop (i + 1)).flatten rest
  rw [hpre, hpost, hsize _ (List.getElem_mem hi)] at hmoved
  rw [hflat, List.append_assoc, List.append_assoc]
  refine ⟨_, hmoved, ?_, ?_⟩
  · rw [hsplit, List.forall_mem_append]
    exact ⟨fun c hc => hsize c (List.mem_of_mem_take hc), fun c hc => hsize c (List.mem_of_mem_drop hc)⟩
  · rw [hsplit, List.flatten_append, ← List.append_assoc]
    exact List.prefix_append _ _

end Holds

end CoWrite.Lib
