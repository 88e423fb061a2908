import Mathlib.Algebra.Order.Ring.Int
import Mathlib.Data.List.Nodup

/-!
# Entries that are taken once

An array into which entries come at its end, from which those with a property are sorted out, and from
which the first one that matches is taken. `Stock` keeps with each entry when it came in, and with each
one taken when that was.

* `values_put`, `values_sortOut`, `values_take`: without the times, this is what the array holds.
* `Sound`: no entry is taken twice, and each is taken after it came in.
* `removeLoop_eq`: sorting out by a loop that removes while it walks over the array.
-/

namespace CoWrite.Lib

universe u

/-- The entries at hand with their times, and the ones taken: when, when it had come in, and what. -/
structure Stock (α : Type u) where
  entries : List (Nat × α)
  taken : List (Nat × Nat × α)

namespace Stock

variable {α : Type u}

def empty : Stock α := ⟨[], []⟩

def put (s : Stock α) (now : Nat) (a : α) : Stock α := { s with entries := s.entries ++ [(now, a)] }

/-- The entries with `p` go. -/
def sortOut (s : Stock α) (p : α → Bool) : Stock α := { s with entries := s.entries.filter fun e => !p e.2 }

/-- The first entry with `p` is taken, if there is one. -/
def take (s : Stock α) (now : Nat) (p : α → Bool) : Stock α :=
  match s.entries.find? fun e => p e.2 with
  | none => s
  | some e =>
    { entries := s.entries.eraseP fun e => p e.2
      taken := (now, e.1, e.2) :: s.taken }

/-- What the array holds. -/
def values (s : Stock α) : List α := s.entries.map Prod.snd

@[simp] theorem values_put (s : Stock α) (now : Nat) (a : α) : (s.put now a).values = s.values ++ [a] := by
  simp [values, put]

@[simp] theorem values_sortOut (s : Stock α) (p : α → Bool) :
    (s.sortOut p).values = s.values.filter fun a => !p a := by
  rw [values, values, List.filter_map]
  rfl

theorem find?_values (s : Stock α) (p : α → Bool) :
    s.values.find? p = (s.entries.find? fun e => p e.2).map Prod.snd := by
  rw [values, List.find?_map]
  rfl

@[simp] theorem values_take (s : Stock α) (now : Nat) (p : α → Bool) : (s.take now p).values = s.values.eraseP p := by
  unfold take
  cases h : s.entries.find? fun e => p e.2 with
  | none =>
    have hnone : ∀ a ∈ s.values, ¬ p a = true := by
      intro a ha
      obtain ⟨e, he, rfl⟩ := List.mem_map.1 ha
      simpa using List.find?_eq_none.1 h e he
    exact (List.eraseP_of_forall_not hnone).symm
  | some e =>
    simp only [values]
    rw [List.eraseP_map]
    rfl

/-- Taking removes the entry found and no other. -/
theorem take_eq {s : Stock α} {p : α → Bool} {e : Nat × α} (h : (s.entries.find? fun e => p e.2) = some e) (now : Nat) :
    ∃ pre post, s.entries = pre ++ e :: post ∧ p e.2 = true ∧
      s.take now p = ⟨pre ++ post, (now, e.1, e.2) :: s.taken⟩ := by
  obtain ⟨hp, pre, post, hentries, hpre⟩ := List.find?_eq_some_iff_append.1 h
  refine ⟨pre, post, hentries, hp, ?_⟩
  have herase : (pre ++ e :: post).eraseP (fun e => p e.2) = pre ++ post := by
    rw [List.eraseP_append_right _ (by simpa using hpre), List.eraseP_cons_of_pos (by exact hp)]
  rw [take, h, hentries, herase]

/-- Each entry has come in at its own time before `now`, and was taken at most once, at a time of its own
after that. -/
structure Sound (s : Stock α) (now : Nat) : Prop where
  cameOnce : (s.entries.map Prod.fst ++ s.taken.map fun t => t.2.1).Nodup
  takenOnce : (s.taken.map Prod.fst).Nodup
  came : ∀ e ∈ s.entries, e.1 < now
  order : ∀ t ∈ s.taken, t.2.1 < t.1 ∧ t.1 < now

theorem sound_empty : (empty : Stock α).Sound 0 := by
  constructor <;> simp [empty]

theorem Sound.mono {s : Stock α} {now : Nat} (h : s.Sound now) : s.Sound (now + 1) where
  cameOnce := h.cameOnce
  takenOnce := h.takenOnce
  came e he := Nat.lt_succ_of_lt (h.came e he)
  order t ht := ⟨(h.order t ht).1, Nat.lt_succ_of_lt (h.order t ht).2⟩

theorem Sound.put {s : Stock α} {now : Nat} (h : s.Sound now) (a : α) : (s.put now a).Sound (now + 1) where
  cameOnce := by
    have hperm : ((s.entries ++ [(now, a)]).map Prod.fst ++ s.taken.map fun t => t.2.1).Perm
        (now :: (s.entries.map Prod.fst ++ s.taken.map fun t => t.2.1)) := by
      rw [List.map_append, List.append_assoc]
      exact List.perm_middle
    refine hperm.nodup_iff.2 (List.nodup_cons.2 ⟨fun hm => ?_, h.cameOnce⟩)
    rcases List.mem_append.1 hm with hm | hm
    · obtain ⟨e, he, heq⟩ := List.mem_map.1 hm
      have := h.came e he
      omega
    · obtain ⟨t, ht, heq⟩ := List.mem_map.1 hm
      have := h.order t ht
      omega
  takenOnce := h.takenOnce
  came e he := by
    rcases List.mem_append.1 he with he | he
    · exact Nat.lt_succ_of_lt (h.came e he)
    · rw [List.mem_singleton.1 he]
      exact Nat.lt_succ_self now
  order := h.mono.order

theorem Sound.sortOut {s : Stock α} {now : Nat} (h : s.Sound now) (p : α → Bool) : (s.sortOut p).Sound now where
  cameOnce := by
    have hsub : ((s.sortOut p).entries.map Prod.fst).Sublist (s.entries.map Prod.fst) := List.filter_sublist.map _
    exact h.cameOnce.sublist (hsub.append_right _)
  takenOnce := h.takenOnce
  came e he := h.came e (List.mem_of_mem_filter he)
  order := h.order

theorem Sound.take {s : Stock α} {now : Nat} (h : s.Sound now) (p : α → Bool) : (s.take now p).Sound (now + 1) := by
  cases hfind : s.entries.find? fun e => p e.2 with
  | none =>
    rw [Stock.take, hfind]
    exact h.mono
  | some e =>
    obtain ⟨pre, post, hentries, -, htake⟩ := take_eq hfind now
    have hce := h.cameOnce
    rw [hentries] at hce
    rw [htake]
    refine ⟨?_, ?_, fun x hx => ?_, fun t ht => ?_⟩
    · have hperm : ((pre ++ e :: post).map Prod.fst ++ s.taken.map fun t => t.2.1).Perm
          ((pre ++ post).map Prod.fst ++ e.1 :: s.taken.map fun t => t.2.1) := by
        refine ((List.perm_middle.map Prod.fst).append_right _).trans ?_
        exact List.perm_middle.symm
      exact hperm.nodup_iff.1 hce
    · refine List.nodup_cons.2 ⟨fun hm => ?_, h.takenOnce⟩
      obtain ⟨t, ht, heq⟩ := List.mem_map.1 hm
      have := (h.order t ht).2
      omega
    · refine Nat.lt_succ_of_lt (h.came x ?_)
      rw [hentries]
      simp only [List.mem_append, List.mem_cons] at hx ⊢
      rcases hx with hx | hx
      · exact .inl hx
      · exact .inr (.inr hx)
    · rcases List.mem_cons.1 ht with rfl | ht
      · refine ⟨h.came e ?_, Nat.lt_succ_self now⟩
        simp [hentries]
      · exact h.mono.order t ht

/-! ## Sorting out in place -/

/-- While `i` is within the array: remove the entry there if it has `p`, else go on; nothing if `fuel`
turns are too few. -/
def removeLoop (p : α → Bool) : Nat → Nat → List α → Option (List α)
  | 0, _, _ => none
  | fuel + 1, i, l =>
    match l[i]? with
    | none => some l
    | some a => if p a then removeLoop p fuel i (l.eraseIdx i) else removeLoop p fuel (i + 1) l

/-- The loop ends with the entries without `p`. -/
theorem removeLoop_eq (p : α → Bool) (pre post : List α) {fuel : Nat} (hf : post.length < fuel) :
    removeLoop p fuel pre.length (pre ++ post) = some (pre ++ post.filter fun a => !p a) := by
  induction post generalizing pre fuel with
  | nil =>
    obtain ⟨fuel, rfl⟩ : ∃ k, fuel = k + 1 := ⟨fuel - 1, by omega⟩
    simp [removeLoop]
  | cons a post ih =>
    obtain ⟨fuel, rfl⟩ : ∃ k, fuel = k + 1 := ⟨fuel - 1, by omega⟩
    have hfuel : post.length < fuel := by simpa using hf
    have hget : (pre ++ a :: post)[pre.length]? = some a := by simp
    rw [removeLoop, hget]
    dsimp only
    cases hp : p a with
    | true =>
      have herase : (pre ++ a :: post).eraseIdx pre.length = pre ++ post := by
        rw [List.eraseIdx_append_of_length_le (Nat.le_refl _), Nat.sub_self, List.eraseIdx_cons_zero]
      rw [if_pos rfl, herase, ih pre hfuel]
      simp [hp]
    | false =>
      have := ih (pre ++ [a]) hfuel
      rw [List.length_append, List.length_singleton, List.append_assoc, List.singleton_append] at this
      rw [if_neg Bool.false_ne_true, this]
      simp [hp]

end Stock

end CoWrite.Lib
