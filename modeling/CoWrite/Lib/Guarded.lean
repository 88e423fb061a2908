import Mathlib.Logic.Basic

/-!
# Programs under a lock

A program takes and gives back one lock, reads and writes a state that others write too, and asks its surroundings.
What it finds when it reads and what it is answered is up to them, so a run is given by the states of its readings and
by the answers.

* `acts`: what a run does with the lock and the state; `Orderly` traces lock, unlock and write in turn.
* `wp`: the precondition of a program, from the lock's state at its start to a result and the lock's state at its end.
* `orderly_of_wp`: a program that ends with the lock free, whatever it finds and is answered, has orderly traces only.
-/

namespace CoWrite.Lib

/-- What a program does that matters to the lock. -/
inductive Act (σ : Type) where
  | lock
  | unlock
  | write (s : σ)

/-- From a lock that is held or free: it is taken when free, given back and written under when held, and free at the
end. -/
def Orderly {σ : Type} : Bool → List (Act σ) → Prop
  | held, [] => held = false
  | held, .lock :: acts => held = false ∧ Orderly true acts
  | held, .unlock :: acts => held = true ∧ Orderly false acts
  | held, .write _ :: acts => held = true ∧ Orderly held acts

instance instDecidableOrderly {σ : Type} : (held : Bool) → (acts : List (Act σ)) → Decidable (Orderly held acts)
  | held, [] => inferInstanceAs (Decidable (held = false))
  | held, .lock :: acts =>
    have := instDecidableOrderly true acts
    inferInstanceAs (Decidable (held = false ∧ Orderly true acts))
  | held, .unlock :: acts =>
    have := instDecidableOrderly false acts
    inferInstanceAs (Decidable (held = true ∧ Orderly false acts))
  | held, .write _ :: acts =>
    have := instDecidableOrderly held acts
    inferInstanceAs (Decidable (held = true ∧ Orderly held acts))

/-- A program over the states `σ` that asks questions `κ`, is answered `ρ`, and results in `α`. -/
inductive Prog (σ κ ρ α : Type) where
  | done (a : α)
  | lock (next : Prog σ κ ρ α)
  | unlock (next : Prog σ κ ρ α)
  | read (next : σ → Prog σ κ ρ α)
  | write (s : σ) (next : Prog σ κ ρ α)
  | ask (question : κ) (next : ρ → Prog σ κ ρ α)

namespace Prog

variable {σ κ ρ α β : Type}

/-- The program, and then the one for its result. -/
protected def bind : Prog σ κ ρ α → (α → Prog σ κ ρ β) → Prog σ κ ρ β
  | done a, f => f a
  | lock next, f => lock (next.bind f)
  | unlock next, f => unlock (next.bind f)
  | read next, f => read fun s => (next s).bind f
  | write s next, f => write s (next.bind f)
  | ask question next, f => ask question fun r => (next r).bind f

/-- What a run does, where `reads n` and `answers n` are what its next readings and questions find. -/
def acts : Prog σ κ ρ α → (Nat → σ) → (Nat → ρ) → List (Act σ)
  | done _, _, _ => []
  | lock next, reads, answers => .lock :: next.acts reads answers
  | unlock next, reads, answers => .unlock :: next.acts reads answers
  | read next, reads, answers => (next (reads 0)).acts (fun n => reads (n + 1)) answers
  | write s next, reads, answers => .write s :: next.acts reads answers
  | ask _ next, reads, answers => (next (answers 0)).acts reads fun n => answers (n + 1)

/-- What the run returns. -/
def result : Prog σ κ ρ α → (Nat → σ) → (Nat → ρ) → α
  | done a, _, _ => a
  | lock next, reads, answers => next.result reads answers
  | unlock next, reads, answers => next.result reads answers
  | read next, reads, answers => (next (reads 0)).result (fun n => reads (n + 1)) answers
  | write _ next, reads, answers => next.result reads answers
  | ask _ next, reads, answers => (next (answers 0)).result reads fun n => answers (n + 1)

/-- The program alone: it finds the state as it left it, and its surroundings answer its questions one after the
other. -/
def exec {ω : Type} (answer : ω → κ → ρ × ω) : Prog σ κ ρ α → σ → ω → α × σ × ω
  | done a, s, w => (a, s, w)
  | lock next, s, w => next.exec answer s w
  | unlock next, s, w => next.exec answer s w
  | read next, s, w => (next s).exec answer s w
  | write s next, _, w => next.exec answer s w
  | ask question next, s, w => (next (answer w question).1).exec answer s (answer w question).2

theorem exec_bind {ω : Type} (answer : ω → κ → ρ × ω) (p : Prog σ κ ρ α) (f : α → Prog σ κ ρ β) (s : σ) (w : ω) :
    (p.bind f).exec answer s w =
      (f (p.exec answer s w).1).exec answer (p.exec answer s w).2.1 (p.exec answer s w).2.2 := by
  induction p generalizing s w with
  | done a => rfl
  | lock next ih => exact ih s w
  | unlock next ih => exact ih s w
  | read next ih => exact ih s s w
  | write t next ih => exact ih t w
  | ask question next ih => exact ih (answer w question).1 s (answer w question).2

/-- Started with the lock held or free, the program locks, unlocks and writes in turn, and ends as `Q` says, as long
as it finds `V` states. -/
def wp (V : σ → Prop) (Q : α → Bool → Prop) : Prog σ κ ρ α → Bool → Prop
  | done a, held => Q a held
  | lock next, held => held = false ∧ next.wp V Q true
  | unlock next, held => held = true ∧ next.wp V Q false
  | read next, held => ∀ s, V s → (next s).wp V Q held
  | write _ next, held => held = true ∧ next.wp V Q held
  | ask _ next, held => ∀ r, (next r).wp V Q held

section Rules

variable {V : σ → Prop} {held : Bool}

theorem wp_unlock {Q : α → Bool → Prop} {next : Prog σ κ ρ α} (h : next.wp V Q false) :
    (unlock next).wp V Q true := ⟨rfl, h⟩

theorem wp_write {Q : α → Bool → Prop} {s : σ} {next : Prog σ κ ρ α} (h : next.wp V Q true) :
    (write s next).wp V Q true := ⟨rfl, h⟩

theorem wp_read {Q : α → Bool → Prop} {next : σ → Prog σ κ ρ α} (h : ∀ s, V s → (next s).wp V Q held) :
    (read next).wp V Q held := h

theorem wp_ask {Q : α → Bool → Prop} {question : κ} {next : ρ → Prog σ κ ρ α} (h : ∀ r, (next r).wp V Q held) :
    (ask question next).wp V Q held := h

/-- The lock is taken and the state read. -/
theorem wp_section {Q : α → Bool → Prop} {next : σ → Prog σ κ ρ α} (h : ∀ s, V s → (next s).wp V Q true) :
    (lock (read next)).wp V Q false := ⟨rfl, h⟩

theorem wp_ite {Q : α → Bool → Prop} {c : Prop} [Decidable c] {p q : Prog σ κ ρ α} (hp : c → p.wp V Q held)
    (hq : q.wp V Q held) : (if c then p else q).wp V Q held := by
  split
  · next hc => exact hp hc
  · exact hq

/-- The rule of sequences. -/
theorem wp_bind {Q : β → Bool → Prop} (p : Prog σ κ ρ α) (f : α → Prog σ κ ρ β) :
    (p.bind f).wp V Q held ↔ p.wp V (fun a held => (f a).wp V Q held) held := by
  induction p generalizing held with
  | done a => exact Iff.rfl
  | lock next ih => exact and_congr_right fun _ => ih
  | unlock next ih => exact and_congr_right fun _ => ih
  | read next ih => exact forall_congr' fun s => imp_congr_right fun _ => ih s
  | write s next ih => exact and_congr_right fun _ => ih
  | ask question next ih => exact forall_congr' fun r => ih r

/-- The rule of consequence. -/
theorem wp_mono {Q Q' : α → Bool → Prop} {p : Prog σ κ ρ α} (h : p.wp V Q held)
    (hQ : ∀ a held, Q a held → Q' a held) : p.wp V Q' held := by
  induction p generalizing held with
  | done a => exact hQ a held h
  | lock next ih => exact ⟨h.1, ih h.2⟩
  | unlock next ih => exact ⟨h.1, ih h.2⟩
  | read next ih =>
    intro s hs
    exact ih s (h s hs)
  | write s next ih => exact ⟨h.1, ih h.2⟩
  | ask question next ih =>
    intro r
    exact ih r (h r)

/-- Two programs that both end with the lock free, one after the other. -/
theorem wp_bind_free {p : Prog σ κ ρ α} {f : α → Prog σ κ ρ β} (h : p.wp V (fun _ held => held = false) held)
    (hf : ∀ a, (f a).wp V (fun _ held => held = false) false) :
    (p.bind f).wp V (fun _ held => held = false) held := by
  rw [wp_bind]
  refine wp_mono h fun a held hheld => ?_
  rw [hheld]
  exact hf a

/-- A program that ends with the lock free has orderly runs. -/
theorem orderly_of_wp {p : Prog σ κ ρ α} (h : p.wp V (fun _ held => held = false) held) {reads : Nat → σ}
    (hreads : ∀ n, V (reads n)) (answers : Nat → ρ) :
    Orderly held (p.acts reads answers) := by
  induction p generalizing held reads answers with
  | done a => exact h
  | lock next ih => exact ⟨h.1, ih h.2 hreads answers⟩
  | unlock next ih => exact ⟨h.1, ih h.2 hreads answers⟩
  | read next ih => exact ih (reads 0) (h (reads 0) (hreads 0)) (fun n => hreads (n + 1)) answers
  | write s next ih => exact ⟨h.1, ih h.2 hreads answers⟩
  | ask question next ih => exact ih (answers 0) (h (answers 0)) hreads fun n => answers (n + 1)

end Rules

end Prog

end CoWrite.Lib
