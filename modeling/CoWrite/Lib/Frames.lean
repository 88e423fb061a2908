import Mathlib.Algebra.Order.Ring.Int
import Mathlib.Data.List.Basic

/-!
# Frames behind a length

A frame is a payload behind a header of fixed width that holds its length; a stream is read frame by
frame. `Coding` is how lengths are written, over any type of bytes.

* `Coding.reads_frames`: frames that were written one after the other are read as their payloads.
* `Coding.Reads.exists_mem`: what is written behind the header of a frame is read as part of a payload,
  whoever wrote it.
-/

namespace CoWrite.Lib

universe u

structure Coding (α : Type u) where
  width : Nat
  header : Nat → List α
  size : List α → Nat
  /-- The lengths that the header can hold. -/
  limit : Nat
  length_header : ∀ n, (header n).length = width
  size_header : ∀ n, n < limit → size (header n) = n

namespace Coding

variable {α : Type u} (c : Coding α)

def frame (m : List α) : List α := c.header m.length ++ m

def frames (ms : List (List α)) : List α := ms.flatMap c.frame

/-- The first `n` bytes of the stream and the rest of it. -/
def take (n : Nat) (s : List α) : Option (List α × List α) :=
  if s.length < n then none else some (s.take n, s.drop n)

/-- The next payload and the rest of the stream. -/
def next (s : List α) : Option (List α × List α) :=
  (take c.width s).bind fun p => take (c.size p.1) p.2

/-- The whole stream is read as these payloads. -/
inductive Reads : List α → List (List α) → Prop
  | nil : Reads [] []
  | cons {s rest m : List α} {ms : List (List α)} (h : c.next s = some (m, rest)) (ht : Reads rest ms) :
      Reads s (m :: ms)

theorem take_append {n : Nat} {s : List α} (h : s.length = n) (rest : List α) :
    take n (s ++ rest) = some (s, rest) := by
  subst h
  rw [take, if_neg (by simp), List.take_left, List.drop_left]

theorem next_header {n : Nat} (hn : n < c.limit) (s : List α) : c.next (c.header n ++ s) = take n s := by
  rw [next, take_append (c.length_header n), Option.bind_some, c.size_header n hn]

theorem next_frame {m : List α} (hm : m.length < c.limit) (rest : List α) :
    c.next (c.frame m ++ rest) = some (m, rest) := by
  rw [frame, List.append_assoc, c.next_header hm, take_append rfl]

theorem frames_cons (m : List α) (ms : List (List α)) : c.frames (m :: ms) = c.frame m ++ c.frames ms := rfl

theorem frames_concat (ms : List (List α)) (m : List α) : c.frames (ms ++ [m]) = c.frames ms ++ c.frame m := by
  rw [frames, List.flatMap_append, List.flatMap_singleton]
  rfl

/-- **Whole frames are read as what they carry.** -/
theorem reads_frames {ms : List (List α)} (h : ∀ m ∈ ms, m.length < c.limit) : c.Reads (c.frames ms) ms := by
  induction ms with
  | nil => exact .nil
  | cons m ms ih =>
    have hm : m.length < c.limit := h m List.mem_cons_self
    have hms : ∀ m ∈ ms, m.length < c.limit := fun m hm => h m (List.mem_cons_of_mem _ hm)
    rw [frames_cons]
    exact .cons (c.next_frame hm _) (ih hms)

/-- **The byte behind a header belongs to the payload that is read there.** -/
theorem Reads.exists_mem {c : Coding α} (hwidth : 0 < c.width) {ms : List (List α)} (h : ∀ m ∈ ms, m.length < c.limit)
    {n : Nat} (hn : 0 < n) (hlimit : n < c.limit) {a : α} {rest : List α} {ms' : List (List α)}
    (hr : c.Reads (c.frames ms ++ (c.header n ++ a :: rest)) ms') : ∃ m ∈ ms', a ∈ m := by
  induction ms generalizing ms' with
  | nil =>
    generalize hs : c.frames [] ++ (c.header n ++ a :: rest) = s at hr
    cases hr with
    | nil =>
      have hlen := congrArg List.length hs
      simp [frames] at hlen
    | cons hnext _ =>
      rw [← hs, show c.frames [] ++ (c.header n ++ a :: rest) = c.header n ++ a :: rest from rfl,
        c.next_header hlimit, take] at hnext
      split at hnext
      · cases hnext
      · cases hnext
        refine ⟨_, List.mem_cons_self, ?_⟩
        obtain ⟨k, rfl⟩ := Nat.exists_eq_succ_of_ne_zero (Nat.ne_of_gt hn)
        rw [List.take_succ_cons]
        exact List.mem_cons_self
  | cons m ms ih =>
    have hm : m.length < c.limit := h m List.mem_cons_self
    rw [frames_cons, List.append_assoc] at hr
    generalize hs : c.frame m ++ (c.frames ms ++ (c.header n ++ a :: rest)) = s at hr
    cases hr with
    | nil =>
      have hlen := congrArg List.length hs
      simp only [frame, List.length_append, c.length_header, List.length_nil] at hlen
      omega
    | cons hnext ht =>
      rw [← hs, c.next_frame hm] at hnext
      cases hnext
      obtain ⟨m', hm', ha⟩ := ih (fun m hm => h m (List.mem_cons_of_mem _ hm)) ht
      exact ⟨m', List.mem_cons_of_mem _ hm', ha⟩

end Coding

end CoWrite.Lib
