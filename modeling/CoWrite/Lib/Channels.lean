import Mathlib.Algebra.Order.Ring.Int

/-!
# Messages on the way

A sender puts messages in front of its connection, and its threads send them from there in any order; what was sent
arrives in order. `last` is the message on the way that arrives last among those about one thing, if each of these is
sent in its turn.
-/

namespace CoWrite.Lib

/-- What was sent and has not arrived, and what is still to be sent. -/
structure Channel (μ : Type*) where
  sent : List μ
  pending : List μ

namespace Channel

variable {μ : Type*} {p : μ → Bool} {c : Channel μ}

def empty : Channel μ := ⟨[], []⟩

def onWay (c : Channel μ) : List μ := c.sent ++ c.pending

def post (c : Channel μ) (ms : List μ) : Channel μ := { c with pending := c.pending ++ ms }

def send (c : Channel μ) (i : Nat) : Option (Channel μ) :=
  (c.pending[i]?).map fun m => ⟨c.sent ++ [m], c.pending.eraseIdx i⟩

/-- The message on the way that is the last of those with `p`. -/
def last (p : μ → Bool) (c : Channel μ) : Option μ := (c.onWay.filter p).getLast?

/-- The messages with `p` are sent in the order they were posted in. -/
def InTurn (p : μ → Bool) (c : Channel μ) (i : Nat) : Prop :=
  (c.pending[i]?).any p = true → ∀ m ∈ c.pending.take i, p m = false

instance (p : μ → Bool) (c : Channel μ) (i : Nat) : Decidable (c.InTurn p i) :=
  inferInstanceAs (Decidable ((c.pending[i]?).any p = true → ∀ m ∈ c.pending.take i, p m = false))

theorem onWay_post (c : Channel μ) (ms : List μ) : (c.post ms).onWay = c.onWay ++ ms :=
  (List.append_assoc ..).symm

theorem last_post_of_none {ms : List μ} (h : ∀ m ∈ ms, p m = false) : (c.post ms).last p = c.last p := by
  have hnone : ms.filter p = [] := by
    rw [List.filter_eq_nil_iff]
    intro m hm
    rw [h m hm]
    exact Bool.false_ne_true
  rw [last, onWay_post, List.filter_append, hnone, List.append_nil, last]

theorem last_post {m : μ} (h : p m = true) : (c.post [m]).last p = some m := by
  rw [last, onWay_post, List.filter_append, List.filter_cons_of_pos h, List.filter_nil, List.getLast?_concat]

/-- Sending takes no message off the way and puts none on it. -/
theorem mem_onWay_send {c' : Channel μ} {i : Nat} (h : c.send i = some c') {m : μ} (hm : m ∈ c'.onWay) : m ∈ c.onWay := by
  obtain ⟨x, hx, rfl⟩ := Option.map_eq_some_iff.1 h
  simp only [onWay, List.mem_append, List.mem_singleton] at hm ⊢
  rcases hm with (hm | rfl) | hm
  · exact .inl hm
  · exact .inr (List.mem_of_getElem? hx)
  · exact .inr (List.mem_of_mem_eraseIdx hm)

/-- A message that is sent in its turn does not change which one is the last. -/
theorem last_send {c' : Channel μ} {i : Nat} (h : c.send i = some c') (hturn : c.InTurn p i) : c'.last p = c.last p := by
  obtain ⟨m, hm, rfl⟩ := Option.map_eq_some_iff.1 h
  obtain ⟨hi, hget⟩ := List.getElem?_eq_some_iff.1 hm
  have hsplit : c.pending = c.pending.take i ++ m :: c.pending.drop (i + 1) := by
    rw [← hget, List.getElem_cons_drop, List.take_append_drop]
  have hfilter : (c.sent ++ [m] ++ c.pending.eraseIdx i).filter p = (c.sent ++ c.pending).filter p := by
    rw [List.eraseIdx_eq_take_drop_succ]
    conv => rhs; rw [hsplit]
    simp only [List.filter_append, List.append_assoc]
    by_cases hp : p m = true
    · have hnone : (c.pending.take i).filter p = [] := by
        rw [List.filter_eq_nil_iff]
        intro x hx
        rw [hturn (by rw [hm]; exact hp) x hx]
        exact Bool.false_ne_true
      rw [hnone, List.filter_cons_of_pos hp, List.filter_cons_of_pos hp, List.filter_nil]
      rfl
    · rw [List.filter_cons_of_neg hp, List.filter_cons_of_neg hp, List.filter_nil, List.nil_append]
  rw [last, last, onWay, onWay, hfilter]

/-- When a message has arrived, the last one is another, or it was the one that arrived. -/
theorem last_arrived {m : μ} {rest : List μ} (h : c.sent = m :: rest) :
    c.last p = ((⟨rest, c.pending⟩ : Channel μ).last p).or (if p m = true then some m else none) := by
  have honWay : c.onWay = m :: (⟨rest, c.pending⟩ : Channel μ).onWay := by rw [onWay, h, List.cons_append, onWay]
  rw [last, honWay, last]
  by_cases hp : p m = true
  · rw [List.filter_cons_of_pos hp, if_pos hp]
    cases hlast : ((⟨rest, c.pending⟩ : Channel μ).onWay.filter p) with
    | nil => rfl
    | cons a l =>
      rw [List.getLast?_cons_cons]
      cases hl : (a :: l).getLast? with
      | none => simp at hl
      | some x => rfl
  · rw [List.filter_cons_of_neg hp, if_neg hp, Option.or_none]

/-- A message about it is on the way, or there is no last one. -/
theorem last_eq_none_iff : c.last p = none ↔ ∀ m ∈ c.onWay, p m = false := by
  rw [last, List.getLast?_eq_none_iff, List.filter_eq_nil_iff]
  simp only [Bool.not_eq_true]

end Channel

end CoWrite.Lib
