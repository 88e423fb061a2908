import Mathlib.Data.List.Basic
import Mathlib.Logic.Relation

/-!
# Runs of a labelled transition system

A run is a finite sequence of steps from an initial state, kept as the list of the states it left and
the events it took there, latest first. Three rules are about all runs:

* `Run.invariant`: what holds at the start and is kept by every guarded step holds at the end of
  every run whose steps all meet the guard (`Run.invariant_all`: in every state of the run).
* `Run.steps`: a fact about single steps out of invariant states holds of every step of such a run.
* `Run.throughout`, `Run.meets_iff`: the same without a guard, and two facts about the steps that agree there.
* `Run.holds_iff`: when a step that misses the guard breaks the property at once, the runs that
  have the property in all their states are exactly the runs whose steps all meet the guard.

`Run.origin` looks back: what is held in the last state was brought by some step of the run.

`Run.image` is refinement: where every guarded step out of an invariant state is a step of another system, so
is every run.

`stops_iff` is about endless sequences of states: one whose measure falls in every state but the bad ones
comes to a stop if and only if there are finitely many of these.
-/

namespace CoWrite.Lib

universe u v

/-- Initial states and labelled steps. -/
structure System (σ : Type u) (ε : Type v) where
  init : σ → Prop
  step : σ → ε → σ → Prop

variable {σ : Type u} {ε : Type v}

namespace System

/-- `S.Run tr s`: a run of `S` that ends in `s`; `tr` holds the steps taken, latest first, each as
the state it was taken in and its event. -/
inductive Run (S : System σ ε) : List (σ × ε) → σ → Prop where
  | start {s : σ} (h : S.init s) : Run S [] s
  | step {tr : List (σ × ε)} {s t : σ} {e : ε} (h : Run S tr s) (hs : S.step s e t) :
      Run S ((s, e) :: tr) t

/-- Every step of the run meets the guard `G`, which reads the state before the step. -/
def Meets (G : σ → ε → Prop) (tr : List (σ × ε)) : Prop :=
  ∀ p ∈ tr, G p.1 p.2

/-- `P` holds in the last state and in every state the run left. -/
def Throughout (P : σ → Prop) (tr : List (σ × ε)) (s : σ) : Prop :=
  P s ∧ ∀ p ∈ tr, P p.1

theorem meets_cons {G : σ → ε → Prop} {s : σ} {e : ε} {tr : List (σ × ε)} :
    Meets G ((s, e) :: tr) ↔ G s e ∧ Meets G tr :=
  List.forall_mem_cons

theorem throughout_cons {P : σ → Prop} {s t : σ} {e : ε} {tr : List (σ × ε)} :
    Throughout P ((s, e) :: tr) t ↔ P t ∧ Throughout P tr s :=
  and_congr_right fun _ => List.forall_mem_cons

/-- What a list holds after one more was put at its end. -/
theorem getElem?_concat_cases {α : Type*} {l : List α} {a b : α} {i : Nat} (h : (l ++ [a])[i]? = some b) :
    l[i]? = some b ∨ (i = l.length ∧ b = a) := by
  rcases Nat.lt_trichotomy i l.length with hlt | rfl | hgt
  · rw [List.getElem?_append_left hlt] at h
    exact .inl h
  · rw [List.getElem?_concat_length] at h
    exact .inr ⟨rfl, (Option.some.inj h).symm⟩
  · have hout : (l ++ [a]).length ≤ i := by
      rw [List.length_append, List.length_singleton]
      omega
    rw [List.getElem?_eq_none hout] at h
    cases h

/-- The step taken at time `i`. -/
def stepAt (tr : List (σ × ε)) (i : Nat) : Option (σ × ε) := tr.reverse[i]?

theorem stepAt_last (p : σ × ε) (tr : List (σ × ε)) : stepAt (p :: tr) tr.length = some p := by
  rw [stepAt, List.reverse_cons, ← List.length_reverse, List.getElem?_concat_length]

theorem lt_of_stepAt {tr : List (σ × ε)} {i : Nat} {p : σ × ε} (h : stepAt tr i = some p) : i < tr.length := by
  have := (List.getElem?_eq_some_iff.1 h).1
  rwa [List.length_reverse] at this

theorem stepAt_cons {tr : List (σ × ε)} {i : Nat} {p : σ × ε} (h : stepAt tr i = some p) (q : σ × ε) :
    stepAt (q :: tr) i = some p := by
  rw [stepAt, List.reverse_cons, List.getElem?_append_left (by simpa using lt_of_stepAt h)]
  exact h

/-- A step of the longer run is the last one, or one of the run before. -/
theorem stepAt_cons_cases {tr : List (σ × ε)} {i : Nat} {p q : σ × ε} (h : stepAt (q :: tr) i = some p) :
    (i = tr.length ∧ p = q) ∨ stepAt tr i = some p := by
  rw [stepAt, List.reverse_cons] at h
  rcases getElem?_concat_cases h with h | ⟨hi, hp⟩
  · exact .inr h
  · exact .inl ⟨by simpa using hi, hp⟩

theorem stepAt_of_suffix {tr tr' : List (σ × ε)} (h : tr' <:+ tr) {i : Nat} {p : σ × ε} (hp : stepAt tr' i = some p) :
    stepAt tr i = some p := by
  obtain ⟨later, rfl⟩ := h
  rw [stepAt, List.reverse_append, List.getElem?_append_left (by simpa using lt_of_stepAt hp)]
  exact hp

/-- The run up to one of its steps. -/
theorem Run.before {S : System σ ε} {tr : List (σ × ε)} {s : σ} (h : S.Run tr s) {n : Nat} {p : σ × ε}
    (hp : stepAt tr n = some p) : ∃ tr', tr' <:+ tr ∧ tr'.length = n ∧ S.Run tr' p.1 := by
  induction h with
  | start _ => cases hp
  | @step tr s t e h _ ih =>
    rcases stepAt_cons_cases hp with ⟨rfl, rfl⟩ | hp
    · exact ⟨tr, List.suffix_cons _ _, rfl, h⟩
    · obtain ⟨tr', hsuffix, hlength, h'⟩ := ih hp
      exact ⟨tr', hsuffix.trans (List.suffix_cons _ _), hlength, h'⟩

/-- A run goes on along any steps from where it is. -/
theorem Run.reaches {S : System σ ε} {tr : List (σ × ε)} {s t : σ} (h : S.Run tr s)
    (hr : Relation.ReflTransGen (fun s t => ∃ e, S.step s e t) s t) : ∃ tr', S.Run tr' t := by
  induction hr with
  | refl => exact ⟨tr, h⟩
  | tail _ hs ih =>
    obtain ⟨tr', h'⟩ := ih
    obtain ⟨e, hs⟩ := hs
    exact ⟨_, h'.step hs⟩

/-- What no step brings about holds in all states before one where it holds. -/
theorem Run.throughout_of_last {S : System σ ε} {P : σ → Prop} (hback : ∀ s e t, S.step s e t → P t → P s)
    {tr : List (σ × ε)} {s : σ} (h : S.Run tr s) (hs : P s) : Throughout P tr s := by
  induction h with
  | start _ => exact ⟨hs, by simp⟩
  | step _ hstep ih => exact throughout_cons.2 ⟨hs, ih (hback _ _ _ hstep hs)⟩

/-- What no step ends holds in the last state if it held in an earlier one. -/
theorem Run.last_of_mem {S : System σ ε} {P : σ → Prop} (hstay : ∀ s e t, S.step s e t → P s → P t)
    {tr : List (σ × ε)} {s : σ} (h : S.Run tr s) {p : σ × ε} (hp : p ∈ tr) (hP : P p.1) : P s := by
  by_contra hs
  have hback : ∀ s e t, S.step s e t → ¬ P t → ¬ P s := fun s e t hstep ht hs => ht (hstay s e t hstep hs)
  exact (h.throughout_of_last hback hs).2 p hp hP

section Rules

variable {S : System σ ε} {G : σ → ε → Prop} {I : σ → Prop}
  (hinit : ∀ s, S.init s → I s)
  (hstep : ∀ s e t, I s → G s e → S.step s e t → I t)

include hinit hstep

/-- **Invariant rule.** -/
theorem Run.invariant {tr : List (σ × ε)} {s : σ} (h : S.Run tr s) (hG : Meets G tr) : I s := by
  induction h with
  | start h => exact hinit _ h
  | step _ hs ih =>
    obtain ⟨hg, hG⟩ := meets_cons.1 hG
    exact hstep _ _ _ (ih hG) hg hs

/-- The invariant holds in every state of a run whose steps all meet the guard. -/
theorem Run.invariant_all {tr : List (σ × ε)} {s : σ} (h : S.Run tr s) (hG : Meets G tr) :
    Throughout I tr s := by
  induction h with
  | start h => exact ⟨hinit _ h, by simp⟩
  | step _ hs ih =>
    obtain ⟨hg, hG⟩ := meets_cons.1 hG
    have ih := ih hG
    exact throughout_cons.2 ⟨hstep _ _ _ ih.1 hg hs, ih⟩

/-- A fact about the steps out of invariant states holds of every step of the run. -/
theorem Run.steps {Q : σ → ε → Prop} (hQ : ∀ s e, I s → G s e → Q s e)
    {tr : List (σ × ε)} {s : σ} (h : S.Run tr s) (hG : Meets G tr) : Meets Q tr := by
  intro p hp
  exact hQ _ _ ((Run.invariant_all hinit hstep h hG).2 p hp) (hG p hp)

/-- **Exactness rule.** If a step that misses the guard ends in a state without `P`, then the runs
with `P` throughout are exactly the runs whose steps all meet the guard. -/
theorem Run.holds_iff {P : σ → Prop} (hP : ∀ s, I s → P s)
    (hbad : ∀ s e t, I s → ¬ G s e → S.step s e t → ¬ P t)
    {tr : List (σ × ε)} {s : σ} (h : S.Run tr s) : Throughout P tr s ↔ Meets G tr := by
  constructor
  · intro ht
    induction h with
    | start _ => intro p hp; simp at hp
    | @step tr s t e h hs ih =>
      obtain ⟨hPt, ht⟩ := throughout_cons.1 ht
      have hG := ih ht
      have hI := Run.invariant hinit hstep h hG
      by_cases hg : G s e
      · exact meets_cons.2 ⟨hg, hG⟩
      · exact absurd hPt (hbad s e t hI hg hs)
  · intro hG
    have hall := Run.invariant_all hinit hstep h hG
    exact ⟨hP _ hall.1, fun p hp => hP _ (hall.2 p hp)⟩

end Rules

section Unguarded

variable {S : System σ ε} {I : σ → Prop}
  (hinit : ∀ s, S.init s → I s)
  (hstep : ∀ s e t, I s → S.step s e t → I t)

include hinit hstep

/-- What every step keeps holds throughout every run. -/
theorem Run.throughout {tr : List (σ × ε)} {s : σ} (h : S.Run tr s) : Throughout I tr s := by
  refine Run.invariant_all (G := fun _ _ => True) hinit ?_ h fun _ _ => trivial
  intro s e t hI _ hs
  exact hstep s e t hI hs

/-- **Equivalence rule.** Facts about a step that are the same in invariant states are the same along a run. -/
theorem Run.meets_iff {Q R : σ → ε → Prop} (hQR : ∀ s e, I s → (Q s e ↔ R s e)) {tr : List (σ × ε)} {s : σ}
    (h : S.Run tr s) : Meets Q tr ↔ Meets R tr := by
  have hall := Run.throughout hinit hstep h
  exact forall₂_congr fun p hp => hQR _ _ (hall.2 p hp)

end Unguarded

/-- **Refinement rule.** `α` maps states and `β` events, and a run is mapped to a run. -/
theorem Run.image {τ : Type*} {δ : Type*} {S : System σ ε} {T : System τ δ} {G : σ → ε → Prop} {I : σ → Prop}
    (α : σ → τ) (β : σ → ε → δ) (hinit : ∀ s, S.init s → I s ∧ T.init (α s))
    (hstep : ∀ s e t, I s → G s e → S.step s e t → I t ∧ T.step (α s) (β s e) (α t))
    {tr : List (σ × ε)} {s : σ} (h : S.Run tr s) (hG : Meets G tr) :
    T.Run (tr.map fun p => (α p.1, β p.1 p.2)) (α s) := by
  induction h with
  | start h => exact .start (hinit _ h).2
  | step h hs ih =>
    obtain ⟨hg, hG⟩ := meets_cons.1 hG
    have hI := Run.invariant (fun s hs => (hinit s hs).1) (fun s e t hI hg hs => (hstep s e t hI hg hs).1) h hG
    exact (ih hG).step (hstep _ _ _ hI hg hs).2

/-- **Origin rule.** What a state holds and the first state did not was brought by an earlier step. -/
theorem Run.origin {S : System σ ε} {G : σ → ε → Prop} {α : Type*} {holds : σ → Set α} {brings : σ → ε → Set α}
    (hinit : ∀ s, S.init s → holds s = ∅)
    (hstep : ∀ s e t, G s e → S.step s e t → holds t ⊆ holds s ∪ brings s e)
    {tr : List (σ × ε)} {s : σ} (h : S.Run tr s) (hG : Meets G tr) :
    ∀ a ∈ holds s, ∃ m p, stepAt tr m = some p ∧ a ∈ brings p.1 p.2 := by
  induction h with
  | start h =>
    intro a ha
    rw [hinit _ h] at ha
    exact ha.elim
  | @step tr s t e _ hs ih =>
    obtain ⟨hg, hG⟩ := meets_cons.1 hG
    intro a ha
    rcases hstep s e t hg hs ha with ha | ha
    · obtain ⟨m, p, hp, ha⟩ := ih hG a ha
      exact ⟨m, p, stepAt_cons hp _, ha⟩
    · exact ⟨tr.length, (s, e), stepAt_last _ _, ha⟩

section Exec

variable {init : σ → Prop} {f : σ → ε → Option σ}

/-- The system of a partial step function. -/
def ofStep (init : σ → Prop) (f : σ → ε → Option σ) : System σ ε where
  init := init
  step s e t := f s e = some t

/-- The trace and the last state of the steps at `es`, taken from `s` after the trace `tr`. -/
def exec (f : σ → ε → Option σ) (tr : List (σ × ε)) (s : σ) : List ε → Option (List (σ × ε) × σ)
  | [] => some (tr, s)
  | e :: es => (f s e).bind fun t => exec f ((s, e) :: tr) t es

/-- Events that can be taken one after the other make a run longer. -/
theorem Run.exec {es : List ε} {tr tr' : List (σ × ε)} {s t : σ} (h : (ofStep init f).Run tr s)
    (he : exec f tr s es = some (tr', t)) : (ofStep init f).Run tr' t := by
  induction es generalizing tr s with
  | nil =>
    cases he
    exact h
  | cons e es ih =>
    obtain ⟨u, hu, he⟩ := Option.bind_eq_some_iff.1 he
    exact ih (h.step hu) he

theorem exec_events {es : List ε} {tr tr' : List (σ × ε)} {s t : σ} (he : exec f tr s es = some (tr', t)) :
    tr'.map Prod.snd = es.reverse ++ tr.map Prod.snd := by
  induction es generalizing tr s with
  | nil =>
    cases he
    rfl
  | cons e es ih =>
    obtain ⟨u, -, he⟩ := Option.bind_eq_some_iff.1 he
    rw [ih he, List.map_cons, List.reverse_cons, List.append_assoc, List.singleton_append]

end Exec

end System

/-- **Progress rule.** A sequence in which a measure falls as long as it has not stopped, but in bad states, stops
exactly when it is in bad states only finitely often. -/
theorem stops_iff {x : Nat → σ} {Stopped Bad : σ → Prop} (measure : σ → Nat)
    (hstopped : ∀ n, Stopped (x n) → Stopped (x (n + 1)) ∧ ¬ Bad (x n))
    (hfall : ∀ n, ¬ Stopped (x n) → ¬ Bad (x n) → measure (x (n + 1)) < measure (x n)) :
    (∃ n, Stopped (x n)) ↔ ∃ N, ∀ n, N ≤ n → ¬ Bad (x n) := by
  constructor
  · rintro ⟨N, hN⟩
    have hrest (k : Nat) : Stopped (x (N + k)) := by
      induction k with
      | zero => exact hN
      | succ k ih => exact (hstopped (N + k) ih).1
    refine ⟨N, ?_⟩
    intro n hn
    obtain ⟨k, rfl⟩ := Nat.exists_eq_add_of_le hn
    exact (hstopped (N + k) (hrest k)).2
  · rintro ⟨N, hN⟩
    by_contra hnever
    -- from `N` on the measure would fall for ever
    have hbelow (k : Nat) : measure (x (N + k)) + k ≤ measure (x N) := by
      induction k with
      | zero => exact Nat.le_refl _
      | succ k ih =>
        have hlt := hfall (N + k) (fun h => hnever ⟨_, h⟩) (hN _ (Nat.le_add_right N k))
        rw [Nat.add_assoc] at hlt
        omega
    have := hbelow (measure (x N) + 1)
    omega

end CoWrite.Lib
