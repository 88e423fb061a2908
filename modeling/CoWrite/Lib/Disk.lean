import Mathlib.Data.List.Infix
import Mathlib.Data.Set.Insert
import Mathlib.Logic.Function.Basic

/-!
# Files and crashes

A program works on files step by step and may crash at any time. What it has written to a file is lost or cut at
any place until the file is synced; a rename is atomic and takes a synced file along. A `Disk` has the contents the
program sees, and for each path the contents that a crash may leave there.

* `Leaves.crashes_run`: what the program sees is one of the things that a crash may leave.
* `crashes_append`: a crash of two programs in a row is one of the first or one of the second.
* `crashes_untouched`: a path that no step names.
* `run_replaceFile`, `crashes_replaceFile`: a new file is written beside the old one, synced and renamed over it, and
  then a crash leaves the old content or the new one.
-/

namespace CoWrite.Lib

universe u v

/-- What the program sees of every path, and what a crash may leave of it. -/
structure Disk (P : Type u) (A : Type v) where
  now : P → Option (List A)
  kept : P → Set (Option (List A))

inductive DiskStep (P : Type u) (A : Type v) where
  /-- The file is opened empty and written. -/
  | write (path : P) (content : List A)
  | sync (path : P)
  | rename (src dst : P)
  | unlink (path : P)

variable {P : Type u} {A : Type v} [DecidableEq P]

/-- The paths that the step names. -/
def DiskStep.paths : DiskStep P A → List P
  | .write path _ => [path]
  | .sync path => [path]
  | .rename src dst => [src, dst]
  | .unlink path => [path]

namespace Disk

/-- All that was written is synced. -/
def settled (fs : P → Option (List A)) : Disk P A := ⟨fs, fun p => {fs p}⟩

def step (d : Disk P A) : DiskStep P A → Disk P A
  | .write path content =>
    { now := Function.update d.now path (some content)
      -- the old content may still be there, or any first part of the new one
      kept := Function.update d.kept path (d.kept path ∪ {part | ∃ p, p <+: content ∧ part = some p}) }
  | .sync path => { d with kept := Function.update d.kept path {d.now path} }
  | .rename src dst =>
    if src = dst then d
    else
      { now := Function.update (Function.update d.now dst (d.now src)) src none
        kept := Function.update (Function.update d.kept dst (d.kept src)) src {none} }
  | .unlink path =>
    { now := Function.update d.now path none
      kept := Function.update d.kept path {none} }

def run (d : Disk P A) (steps : List (DiskStep P A)) : Disk P A := steps.foldl step d

/-- A crash may leave these files. -/
def Leaves (d : Disk P A) (fs : P → Option (List A)) : Prop := ∀ p, fs p ∈ d.kept p

/-- A crash before one of the steps, in one, or after the last. -/
def Crashes : Disk P A → List (DiskStep P A) → (P → Option (List A)) → Prop
  | d, [], fs => d.Leaves fs
  | d, s :: steps, fs => d.Leaves fs ∨ (d.step s).Crashes steps fs

variable {d : Disk P A} {fs : P → Option (List A)} {steps : List (DiskStep P A)}

omit [DecidableEq P] in
theorem leaves_settled (fs : P → Option (List A)) : (settled fs).Leaves fs := fun _ => rfl

@[simp] theorem run_nil (d : Disk P A) : d.run [] = d := rfl

@[simp] theorem run_cons (d : Disk P A) (s : DiskStep P A) (steps : List (DiskStep P A)) :
    d.run (s :: steps) = (d.step s).run steps := rfl

theorem run_append (d : Disk P A) (steps steps' : List (DiskStep P A)) :
    d.run (steps ++ steps') = (d.run steps).run steps' :=
  List.foldl_append

/-- A crash before the first step. -/
theorem Leaves.crashes (h : d.Leaves fs) (steps : List (DiskStep P A)) : d.Crashes steps fs := by
  cases steps with
  | nil => exact h
  | cons s steps => exact .inl h

theorem crashes_append (steps steps' : List (DiskStep P A)) :
    d.Crashes (steps ++ steps') fs ↔ d.Crashes steps fs ∨ (d.run steps).Crashes steps' fs := by
  induction steps generalizing d with
  | nil =>
    constructor
    · exact .inr
    · rintro (h | h)
      · exact h.crashes steps'
      · exact h
  | cons s steps ih =>
    rw [List.cons_append, Crashes, Crashes, ih, run_cons, or_assoc]

/-- What the program sees is among what a crash may leave. -/
theorem Leaves.step (h : d.Leaves d.now) (s : DiskStep P A) : (d.step s).Leaves (d.step s).now := by
  intro p
  cases s with
  | write path content =>
    by_cases hp : p = path
    · subst hp
      simp only [Disk.step, Function.update_self]
      exact .inr ⟨content, List.prefix_rfl, rfl⟩
    · simp only [Disk.step, Function.update_of_ne hp]
      exact h p
  | sync path =>
    by_cases hp : p = path
    · subst hp
      simp only [Disk.step, Function.update_self, Set.mem_singleton_iff]
    · simp only [Disk.step, Function.update_of_ne hp]
      exact h p
  | rename src dst =>
    dsimp only [Disk.step]
    by_cases hsame : src = dst
    · rw [if_pos hsame]
      exact h p
    · rw [if_neg hsame]
      by_cases hsrc : p = src
      · subst hsrc
        simp only [Function.update_self, Set.mem_singleton_iff]
      · by_cases hdst : p = dst
        · subst hdst
          simp only [Function.update_of_ne hsrc, Function.update_self]
          exact h src
        · simp only [Function.update_of_ne hsrc, Function.update_of_ne hdst]
          exact h p
  | unlink path =>
    by_cases hp : p = path
    · subst hp
      simp only [Disk.step, Function.update_self, Set.mem_singleton_iff]
    · simp only [Disk.step, Function.update_of_ne hp]
      exact h p

/-- A crash after the last step may leave what the program sees. -/
theorem Leaves.crashes_run (h : d.Leaves d.now) (steps : List (DiskStep P A)) : d.Crashes steps (d.run steps).now := by
  induction steps generalizing d with
  | nil => exact h
  | cons s steps ih => exact .inr (ih (h.step s))

/-- A path that the steps do not name is as before. -/
theorem step_untouched {s : DiskStep P A} {p : P} (hp : p ∉ s.paths) :
    (d.step s).now p = d.now p ∧ (d.step s).kept p = d.kept p := by
  cases s with
  | write path content =>
    have hne : p ≠ path := by simpa [DiskStep.paths] using hp
    exact ⟨Function.update_of_ne hne .., Function.update_of_ne hne ..⟩
  | sync path =>
    have hne : p ≠ path := by simpa [DiskStep.paths] using hp
    exact ⟨rfl, Function.update_of_ne hne ..⟩
  | rename src dst =>
    have hne : p ≠ src ∧ p ≠ dst := by simpa [DiskStep.paths] using hp
    dsimp only [step]
    by_cases hsame : src = dst
    · rw [if_pos hsame]
      exact ⟨rfl, rfl⟩
    · rw [if_neg hsame]
      simp only [Function.update_of_ne hne.1, Function.update_of_ne hne.2, and_self]
  | unlink path =>
    have hne : p ≠ path := by simpa [DiskStep.paths] using hp
    exact ⟨Function.update_of_ne hne .., Function.update_of_ne hne ..⟩

theorem run_untouched {p : P} (hp : ∀ s ∈ steps, p ∉ s.paths) :
    (d.run steps).now p = d.now p ∧ (d.run steps).kept p = d.kept p := by
  induction steps generalizing d with
  | nil => exact ⟨rfl, rfl⟩
  | cons s steps ih =>
    obtain ⟨hs, hsteps⟩ := List.forall_mem_cons.1 hp
    obtain ⟨hnow, hkept⟩ := step_untouched (d := d) hs
    obtain ⟨hnow', hkept'⟩ := ih (d := d.step s) hsteps
    exact ⟨hnow'.trans hnow, hkept'.trans hkept⟩

theorem crashes_untouched {p : P} (hp : ∀ s ∈ steps, p ∉ s.paths) (h : d.Crashes steps fs) : fs p ∈ d.kept p := by
  induction steps generalizing d with
  | nil => exact h p
  | cons s steps ih =>
    obtain ⟨hs, hsteps⟩ := List.forall_mem_cons.1 hp
    rcases h with h | h
    · exact h p
    · rw [← (step_untouched hs).2]
      exact ih hsteps h

/-! ## Replacing a file -/

/-- The content is written to another file, which then takes the place of the old one. -/
def replaceFile (tmp path : P) (content : List A) : List (DiskStep P A) :=
  [.write tmp content, .sync tmp, .rename tmp path]

omit [DecidableEq P] in
theorem paths_replaceFile {tmp path : P} {content : List A} {p : P} (htmp : p ≠ tmp) (hpath : p ≠ path) :
    ∀ s ∈ replaceFile tmp path content, p ∉ s.paths := by
  simp [replaceFile, DiskStep.paths, htmp, hpath]

section ReplaceFile

variable {tmp path : P} (hne : tmp ≠ path) (content : List A)

include hne

/-- The path holds the new content, and no crash changes that. -/
theorem run_replaceFile : (d.run (replaceFile tmp path content)).now path = some content ∧
    (d.run (replaceFile tmp path content)).kept path = {some content} := by
  simp only [replaceFile, run_cons, run_nil, step, if_neg hne, Function.update_of_ne hne.symm, Function.update_self,
    and_self]

/-- A crash leaves what was kept before, or all of the new content. -/
theorem crashes_replaceFile (h : d.Crashes (replaceFile tmp path content) fs) :
    fs path ∈ d.kept path ∨ fs path = some content := by
  have hsplit : replaceFile tmp path content = [.write tmp content, .sync tmp] ++ [.rename tmp path] := rfl
  rw [hsplit, crashes_append] at h
  have hbefore : ∀ s ∈ ([.write tmp content, .sync tmp] : List (DiskStep P A)), path ∉ s.paths := by
    simp [DiskStep.paths, hne.symm]
  rcases h with h | h | h
  · exact .inl (crashes_untouched hbefore h)
  · left
    rw [← (run_untouched hbefore).2]
    exact h path
  · right
    have hlast := h path
    rwa [show ∀ e : Disk P A, e.step (.rename tmp path) = e.run [.rename tmp path] from fun _ => rfl, ← run_append,
      ← hsplit, (run_replaceFile hne content).2, Set.mem_singleton_iff] at hlast

end ReplaceFile

end Disk

end CoWrite.Lib
