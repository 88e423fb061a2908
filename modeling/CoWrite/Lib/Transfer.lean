import Mathlib.Algebra.Order.Ring.Int
import Mathlib.Data.List.Basic

/-!
# Bytes moved by repeated calls

A call that is asked to move `n` bytes moves some of them, is interrupted, or fails. `transfer` asks again
for what is left until all is moved; the list of what the calls return is the schedule.

`Returns` is about what runs on a schedule of interruptions and calls that move at least one byte: whatever it
returns meets the postcondition, and it returns on every schedule with enough calls that move.

* `Returns.bind`: one after the other, the needed calls added.
* `returns_transfer`: a transfer moves the first `len` bytes, with `len` calls at most.
-/

namespace CoWrite.Lib

universe u v

/-- What a call returns: `EINTR`, another error, or at most how many bytes it can move. -/
inductive Ret where
  | eintr
  | error
  | count (n : Nat)
  deriving DecidableEq

namespace Ret

/-- The call moves a byte or is to be repeated. -/
def Moves : Ret → Prop
  | eintr => True
  | error => False
  | count n => 0 < n

def counts : Ret → Bool
  | count _ => true
  | _ => false

/-- How many calls of the schedule are not interrupted. -/
def counted (calls : List Ret) : Nat := calls.countP counts

theorem counted_cons (c : Ret) (calls : List Ret) :
    counted (c :: calls) = counted calls + if counts c then 1 else 0 :=
  List.countP_cons

end Ret

/-! ## What returns on every schedule -/

/-- `calls'` is left of `calls` after at most `n` calls that were not interrupted. -/
structure Used (calls : List Ret) (n : Nat) (calls' : List Ret) : Prop where
  suffix : calls' <:+ calls
  counted : Ret.counted calls ≤ Ret.counted calls' + n

/-- `x` reads the schedule `calls` and leaves `left r` of it when it returns `r`. -/
structure Returns {β : Type v} (left : β → List Ret) (calls : List Ret) (n : Nat) (x : Option β) (Q : β → Prop) :
    Prop where
  spec : ∀ r, x = some r → Q r ∧ Used calls n (left r)
  isSome : n ≤ Ret.counted calls → x.isSome

section Returns

variable {β : Type v} {γ : Type u} {left : β → List Ret} {left' : γ → List Ret} {calls : List Ret} {n m : Nat}

theorem Used.moves {calls' : List Ret} (h : Used calls n calls') (hcalls : ∀ c ∈ calls, c.Moves) :
    ∀ c ∈ calls', c.Moves :=
  fun c hc => hcalls c (h.suffix.subset hc)

theorem Used.trans {calls' calls'' : List Ret} (h : Used calls n calls') (h' : Used calls' m calls'') :
    Used calls (n + m) calls'' where
  suffix := h'.suffix.trans h.suffix
  counted := by
    have h1 := h.counted
    have h2 := h'.counted
    omega

theorem Used.cons {calls' : List Ret} (h : Used calls n calls') (c : Ret) (hn : (if c.counts then 1 else 0) + n ≤ m) :
    Used (c :: calls) m calls' where
  suffix := h.suffix.trans (List.suffix_cons c calls)
  counted := by
    have h1 := h.counted
    rw [Ret.counted_cons]
    omega

theorem returns_pure {Q : β → Prop} {r : β} (hleft : left r = calls) (hr : Q r) : Returns left calls 0 (some r) Q where
  spec r' h := by
    cases h
    exact ⟨hr, hleft ▸ List.suffix_refl calls, hleft ▸ Nat.le_refl _⟩
  isSome _ := rfl

theorem Returns.map {x : Option β} {Q : β → Prop} {R : γ → Prop} {f : β → γ} (h : Returns left calls n x Q)
    (hleft : ∀ r, left' (f r) = left r) (hf : ∀ r, Q r → R (f r)) : Returns left' calls n (x.map f) R where
  spec r' hr' := by
    obtain ⟨r, hr, rfl⟩ := Option.map_eq_some_iff.1 hr'
    obtain ⟨hq, hused⟩ := h.spec r hr
    exact ⟨hf r hq, hleft r ▸ hused⟩
  isSome hn := by
    rw [Option.isSome_map]
    exact h.isSome hn

/-- **Sequencing rule.** -/
theorem Returns.bind {x : Option β} {Q : β → Prop} {R : γ → Prop} {f : β → Option γ}
    (hcalls : ∀ c ∈ calls, c.Moves) (h : Returns left calls n x Q)
    (hf : ∀ r, Q r → (∀ c ∈ left r, c.Moves) → Returns left' (left r) m (f r) R) :
    Returns left' calls (n + m) (x.bind f) R where
  spec r' hr' := by
    obtain ⟨r, hr, hr'⟩ := Option.bind_eq_some_iff.1 hr'
    obtain ⟨hq, hused⟩ := h.spec r hr
    obtain ⟨hr, hused'⟩ := (hf r hq (hused.moves hcalls)).spec r' hr'
    exact ⟨hr, hused.trans hused'⟩
  isSome hn := by
    obtain ⟨r, hr⟩ := Option.isSome_iff_exists.1 (h.isSome (by omega))
    obtain ⟨hq, hused⟩ := h.spec r hr
    have hcounted := hused.counted
    rw [hr, Option.bind_some]
    exact (hf r hq (hused.moves hcalls)).isSome (by omega)

end Returns

/-! ## The loop -/

/-- How a transfer ended. -/
structure Transferred (α : Type u) where
  ok : Bool
  moved : List α
  rest : List α
  /-- The schedule from there on. -/
  calls : List Ret

variable {α : Type u}

/-- What a transfer comes to when a call moved `first` before it. -/
def Transferred.after (first : List α) (r : Transferred α) : Transferred α := { r with moved := first ++ r.moved }

/-- Moves `len` bytes from the front of `src`. A call that moves none ends it, and so does an error; on a
schedule that is too short it does not return. -/
def transfer : List Ret → Nat → List α → Option (Transferred α)
  | calls, 0, src => some ⟨true, [], src, calls⟩
  | [], _ + 1, _ => none
  | .eintr :: calls, len + 1, src => transfer calls (len + 1) src
  | .error :: calls, _ + 1, src => some ⟨false, [], src, calls⟩
  | .count n :: calls, len + 1, src =>
    let first := src.take (min n (len + 1))
    if first.isEmpty then some ⟨false, [], src, calls⟩
    else (transfer calls (len + 1 - first.length) (src.drop first.length)).map (.after first)

section Spec

variable {calls : List Ret} {len : Nat} {src : List α}

/-- The first `len` bytes are moved. -/
structure Moved (len : Nat) (src : List α) (r : Transferred α) : Prop where
  ok : r.ok = true
  moved : r.moved = src.take len
  rest : r.rest = src.drop len

/-- A call moves `k` of the bytes, and the calls after it the others. -/
theorem Moved.after {r : Transferred α} {k : Nat} (hlen : k ≤ len) (h : Moved (len - k) (src.drop k) r) :
    Moved len src (r.after (src.take k)) where
  ok := h.ok
  moved := by
    obtain ⟨m, rfl⟩ := Nat.exists_eq_add_of_le hlen
    rw [Transferred.after, h.moved, Nat.add_sub_cancel_left, List.take_add]
  rest := by
    rw [Transferred.after, h.rest, List.drop_drop, Nat.add_sub_cancel' hlen]

theorem transfer_zero (calls : List Ret) (src : List α) : transfer calls 0 src = some ⟨true, [], src, calls⟩ := by
  cases calls <;> rfl

theorem transfer_count {n : Nat} (hn : 0 < n) (hlen : len + 1 ≤ src.length) :
    transfer (.count n :: calls) (len + 1) src =
      (transfer calls (len + 1 - min n (len + 1)) (src.drop (min n (len + 1)))).map
        (.after (src.take (min n (len + 1)))) := by
  have hfirst : (src.take (min n (len + 1))).length = min n (len + 1) := by
    rw [List.length_take]
    omega
  have hne : (src.take (min n (len + 1))).isEmpty = false := by
    apply Bool.eq_false_iff.2
    intro hempty
    rw [List.isEmpty_iff.1 hempty, List.length_nil] at hfirst
    omega
  rw [transfer]
  simp only [hne, Bool.false_eq_true, if_false, hfirst]

/-- **Every schedule moves the same bytes.** -/
theorem returns_transfer (hcalls : ∀ c ∈ calls, c.Moves) (hlen : len ≤ src.length) :
    Returns Transferred.calls calls len (transfer calls len src) (Moved len src) := by
  induction calls generalizing len src with
  | nil =>
    cases len with
    | zero => exact returns_pure rfl ⟨rfl, rfl, rfl⟩
    | succ len =>
      constructor
      · intro r hr
        cases hr
      · intro hcounted
        cases hcounted
  | cons c calls ih =>
    have hrest : ∀ c ∈ calls, c.Moves := fun c hc => hcalls c (List.mem_cons_of_mem _ hc)
    cases len with
    | zero =>
      rw [transfer_zero]
      exact returns_pure rfl ⟨rfl, rfl, rfl⟩
    | succ len =>
      cases c with
      | eintr =>
        have ih := ih hrest hlen
        rw [transfer]
        constructor
        · intro r hr
          obtain ⟨hmoved, hused⟩ := ih.spec r hr
          exact ⟨hmoved, hused.cons _ (by simp [Ret.counts])⟩
        · intro hcounted
          apply ih.isSome
          simpa [Ret.counted_cons, Ret.counts] using hcounted
      | error => exact absurd (hcalls .error List.mem_cons_self) id
      | count n =>
        have hn : 0 < n := hcalls (.count n) List.mem_cons_self
        have hdrop : len + 1 - min n (len + 1) ≤ (src.drop (min n (len + 1))).length := by
          rw [List.length_drop]
          omega
        have ih := ih hrest hdrop
        rw [transfer_count hn hlen]
        constructor
        · intro r hr
          obtain ⟨r', hr', rfl⟩ := Option.map_eq_some_iff.1 hr
          obtain ⟨hmoved, hused⟩ := ih.spec r' hr'
          refine ⟨hmoved.after (Nat.min_le_right _ _), hused.cons _ ?_⟩
          simp only [Ret.counts, if_true]
          omega
        · intro hcounted
          rw [Ret.counted_cons] at hcounted
          simp only [Ret.counts, if_true] at hcounted
          rw [Option.isSome_map]
          apply ih.isSome
          omega

end Spec

end CoWrite.Lib
