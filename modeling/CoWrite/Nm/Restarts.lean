import CoWrite.Nm.Availability
import CoWrite.Nm.Persist

/-!
# Restarts

The name manager saves its tables to a file, and loads them from there when it starts again. `restarts_of_run`: whenever
that happens, the tables stay well formed, what comes back are the tables that were saved last, and a server is available
only after it has registered anew.
-/

namespace CoWrite.Nm

open CoWrite.Lib
open CoWrite.Lib.System (stepAt stepAt_last stepAt_cons stepAt_cons_cases lt_of_stepAt)

/-- The tables of the running name manager, and its state file. -/
structure Persisted where
  nm : NmState
  file : Text

namespace Persisted

/-- A section writes the tables only; sections that end with `nm_state_save` are followed by a save. -/
inductive Event where
  | tables (e : Nm.Event)
  | save
  | restart

def step (s : Persisted) : Event → Option Persisted
  | .tables e => (tablesStep s.nm e).map fun nm => { s with nm }
  | .save => some { s with file := nmStateSave s.nm }
  | .restart => some { s with nm := nmStateLoad s.file }

/-- Runs from the empty tables, without a file. -/
def system : System Persisted Event := .ofStep (· = ⟨.clear, []⟩) step

/-- The tables of a save have only names that are fields. -/
def CleanSave (s : Persisted) (e : Event) : Prop := e = .save → s.nm.Clean

end Persisted

/-! ## Tables that come back -/

theorem reloaded_stored {s : NmState} (h : s.Stored) : s.reloaded.Stored :=
  { h with
    serverCount := by simpa [NmState.reloaded] using h.serverCount
    servers := by
      refine List.forall_mem_map.2 fun ss hss => ?_
      exact { h.servers ss hss with }
    files := by simpa [NmState.reloaded] using h.files }

theorem not_isAvailable_reloaded {s : NmState} {ss : StorageServer} (h : ss ∈ s.reloaded.servers) :
    ss.isAvailable = false := by
  obtain ⟨ss', -, rfl⟩ := List.mem_map.1 h
  rfl

/-! ## Servers that say hello -/

/-- The servers that are available, by their places. -/
def NmState.UpAt (s : NmState) (i : Nat) (ss : StorageServer) : Prop := s.servers[i]? = some ss ∧ ss.isAvailable = true

/-- A message by which a server registers. -/
def Registers (json : Text) (fd : Nat) (ss : StorageServer) : Prop :=
  jsonGetString json (Text.lit "ssId") 64 = some ss.id ∧ ss.ctrlFd = fd

section Up

variable {s t : NmState} {i : Nat} {ss : StorageServer}

theorem up_of_markDown {server : Int} (h : (nmMarkServerDown s server).UpAt i ss) : s.UpAt i ss := by
  obtain ⟨hi, hup⟩ := h
  unfold nmMarkServerDown at hi
  split at hi
  · exact ⟨hi, hup⟩
  · rw [List.getElem?_modify] at hi
    obtain ⟨ss', hss', rfl⟩ := Option.map_eq_some_iff.1 hi
    split at hup
    · simp [StorageServer.isAvailable] at hup
    · next hne =>
      rw [if_neg hne] at *
      exact ⟨hss', hup⟩

theorem up_of_register {id host ctrlPort dataPort : Text} {fd : Nat} (hid : id.length < 64)
    (h : (nmRegisterServer s id host ctrlPort dataPort fd).2.UpAt i ss) : s.UpAt i ss ∨ ss.id = id ∧ ss.ctrlFd = fd := by
  obtain ⟨hi, hup⟩ := h
  unfold nmRegisterServer at hi
  split at hi
  · next j hfind =>
    obtain ⟨hj, heq, -⟩ := List.findIdx?_eq_some_iff_getElem.1 hfind
    dsimp only at hi
    rw [List.getElem?_modify] at hi
    obtain ⟨ss', hss', rfl⟩ := Option.map_eq_some_iff.1 hi
    by_cases hji : j = i
    · subst hji
      rw [List.getElem?_eq_getElem hj] at hss'
      cases hss'
      rw [if_pos rfl]
      exact .inr ⟨beq_iff_eq.1 heq, rfl⟩
    · rw [if_neg hji] at hup ⊢
      exact .inl ⟨hss', hup⟩
  · split at hi
    · exact .inl ⟨hi, hup⟩
    · dsimp only at hi
      rw [List.getElem?_append] at hi
      split at hi
      · exact .inl ⟨hi, hup⟩
      · obtain rfl := List.mem_singleton.1 (List.mem_of_getElem? hi)
        exact .inr ⟨Text.copyTo_eq_self (hid.trans (by decide)), rfl⟩

/-- A section makes no server available but the one that registers. -/
theorem up_of_step {e : Event} (hs : tablesStep s e = some t) (h : t.UpAt i ss) :
    s.UpAt i ss ∨ ∃ json fd, e = .register json fd ∧ Registers json fd ss := by
  by_cases he : e.isAboutServers = false
  · rw [NmState.UpAt, servers_frame hs he] at h
    exact .inl h
  · cases e with
    | register json fd =>
      cases hs
      unfold handleSsRegister at h
      split at h
      · next id host ctrlPort dataPort hid _ _ _ =>
        have hup : (nmRegisterServer s id host ctrlPort dataPort fd).2.UpAt i ss := by
          split at h <;> next heq => rw [heq]; exact h
        rcases up_of_register (length_jsonGetString_lt hid) hup with h | ⟨rfl, hfd⟩
        · exact .inl h
        · exact .inr ⟨json, fd, rfl, hid, hfd⟩
      · exact .inl h
    | disconnect server =>
      cases hs
      exact .inl (up_of_markDown h)
    | markDown server =>
      cases hs
      exact .inl (up_of_markDown h)
    | _ => exact absurd rfl he

end Up

/-! ## Runs -/

namespace Persisted

variable {tr : List (Persisted × Event)} {s : Persisted} {e : Event} {n : Nat} {P : Event → Prop}

/-- The steps after the `n`-th meet `P`. -/
def Afterwards (tr : List (Persisted × Event)) (n : Nat) (P : Event → Prop) : Prop :=
  ∀ m p, n < m → stepAt tr m = some p → P p.2

theorem afterwards_last : Afterwards ((s, e) :: tr) tr.length P := by
  intro m p hm hp
  have := lt_of_stepAt hp
  rw [List.length_cons] at this
  omega

theorem Afterwards.cons (h : Afterwards tr n P) (he : P e) : Afterwards ((s, e) :: tr) n P := by
  intro m p hm hp
  rcases stepAt_cons_cases hp with ⟨-, rfl⟩ | hp
  · exact he
  · exact h m p hm hp

/-- The tables that the last save of the run wrote come back from the file, or none if there was none. -/
def Recovers (tr : List (Persisted × Event)) (s : Persisted) : Prop :=
  (∃ n r, stepAt tr n = some (r, .save) ∧ Afterwards tr n (· ≠ .save) ∧ r.nm.Stored ∧
    nmStateLoad s.file = r.nm.reloaded) ∨
  (∀ p ∈ tr, p.2 ≠ .save) ∧ nmStateLoad s.file = .clear

/-- The server has registered over its connection, and the name manager has not been started again since. -/
def Greeted (tr : List (Persisted × Event)) (ss : StorageServer) : Prop :=
  ∃ n r json fd, stepAt tr n = some (r, .tables (.register json fd)) ∧ Registers json fd ss ∧
    Afterwards tr n (· ≠ .restart)

theorem Recovers.cons (h : Recovers tr s) (he : e ≠ .save) {t : Persisted} (hfile : t.file = s.file) :
    Recovers ((s, e) :: tr) t := by
  unfold Recovers
  rw [hfile]
  rcases h with ⟨n, r, hn, hlast, hr, hload⟩ | ⟨hnone, hload⟩
  · exact .inl ⟨n, r, stepAt_cons hn _, hlast.cons he, hr, hload⟩
  · exact .inr ⟨List.forall_mem_cons.2 ⟨he, hnone⟩, hload⟩

theorem Greeted.cons {ss : StorageServer} (h : Greeted tr ss) (he : e ≠ .restart) : Greeted ((s, e) :: tr) ss := by
  obtain ⟨n, r, json, fd, hn, hregisters, hlast⟩ := h
  exact ⟨n, r, json, fd, stepAt_cons hn _, hregisters, hlast.cons he⟩

/-- **Restarts.** In every run whose saves are of clean tables, the tables are well formed, those of the last save come
back from the file, and a server is available only if it has registered since the last restart. -/
theorem restarts_of_run (h : system.Run tr s) (hclean : ∀ p ∈ tr, CleanSave p.1 p.2) :
    s.nm.Stored ∧ Recovers tr s ∧ ∀ i ss, s.nm.UpAt i ss → Greeted tr ss := by
  induction h with
  | start h =>
    cases h
    exact ⟨stored_clear, .inr ⟨by simp, rfl⟩, fun i ss hup => absurd hup.1 (by simp [NmState.clear])⟩
  | @step tr s t e hrun hs ih =>
    obtain ⟨hsave, hclean⟩ := List.forall_mem_cons.1 hclean
    obtain ⟨hstored, hrecovers, hgreeted⟩ := ih hclean
    cases e with
    | tables e =>
      obtain ⟨nm, hnm, rfl⟩ := Option.map_eq_some_iff.1 hs
      refine ⟨tablesStep_stored hstored hnm, hrecovers.cons (by simp) rfl, ?_⟩
      intro i ss hup
      rcases up_of_step hnm hup with hup | ⟨json, fd, rfl, hregisters⟩
      · exact (hgreeted i ss hup).cons (by simp)
      · exact ⟨tr.length, s, json, fd, stepAt_last _ _, hregisters, afterwards_last⟩
    | save =>
      cases hs
      refine ⟨hstored, .inl ⟨tr.length, s, stepAt_last _ _, afterwards_last, hstored, ?_⟩, ?_⟩
      · exact (load_save_iff hstored).2 (hsave rfl)
      · exact fun i ss hup => (hgreeted i ss hup).cons (by simp)
    | restart =>
      cases hs
      have hload : (nmStateLoad s.file).Stored ∧ ∀ ss ∈ (nmStateLoad s.file).servers, ss.isAvailable = false := by
        rcases hrecovers with ⟨n, r, -, -, hr, hload⟩ | ⟨-, hload⟩
        · rw [hload]
          exact ⟨reloaded_stored hr, fun ss hss => not_isAvailable_reloaded hss⟩
        · rw [hload]
          exact ⟨stored_clear, by simp [NmState.clear]⟩
      refine ⟨hload.1, hrecovers.cons (by simp) rfl, ?_⟩
      rintro i ss ⟨hi, hup⟩
      rw [hload.2 ss (List.mem_of_getElem? hi)] at hup
      cases hup

/-- Sections that are not followed by a save. -/
theorem run_of_tables {tr : List (NmState × Nm.Event)} {nm : NmState} (h : Nm.tables.Run tr nm) :
    system.Run (tr.map fun p => (⟨p.1, []⟩, .tables p.2)) ⟨nm, []⟩ := by
  induction h with
  | start h => exact .start (congrArg (Persisted.mk · []) h)
  | step _ hs ih => exact .step ih (congrArg (Option.map _) hs)

/-- A file is made and saved, and after the restart a server comes back. -/
theorem restarts_of_notes : ∃ tr s ss, system.Run tr s ∧ s.nm.Stored ∧ Recovers tr s ∧ s.nm.files.length = 1 ∧
    s.nm.UpAt 0 ss ∧ Greeted tr ss := by
  let again := registerEvent (Text.lit "ss1") 7
  obtain ⟨tr, nm, hrun, h⟩ := exists_tables_run (createFile ⟨Text.lit "notes", by decide, by decide⟩)
    (fun _ s => (decide (nmStateLoad (nmStateSave s) = s.reloaded), (tablesStep s.reloaded again).map fun t =>
      (t.files.length, t.servers[0]?.map StorageServer.isAvailable))) (true, some (1, some true)) (by decide +kernel)
  obtain ⟨hload, hagain⟩ := Prod.mk.inj h
  have hload := of_decide_eq_true hload
  obtain ⟨nm', hnm', hcheck⟩ := Option.map_eq_some_iff.1 hagain
  obtain ⟨hfiles, hserver⟩ := Prod.mk.inj hcheck
  obtain ⟨ss, hss, hup⟩ := Option.map_eq_some_iff.1 hserver
  have hsave : step ⟨nm, []⟩ .save = some ⟨nm, nmStateSave nm⟩ := rfl
  have hrestart : step ⟨nm, nmStateSave nm⟩ .restart = some ⟨nm.reloaded, nmStateSave nm⟩ := by rw [step, hload]
  have hregister : step ⟨nm.reloaded, nmStateSave nm⟩ (.tables again) = some ⟨nm', nmStateSave nm⟩ := by
    rw [step, hnm', Option.map_some]
  have hback := (((run_of_tables hrun).step hsave).step hrestart).step hregister
  obtain ⟨hstored, hrecovers, hgreeted⟩ := restarts_of_run hback (by
    simp only [List.forall_mem_cons, List.forall_mem_map]
    refine ⟨by simp [CleanSave], by simp [CleanSave], fun _ => ?_, by simp [CleanSave]⟩
    exact (load_save_iff (stored_of_run hrun)).1 hload)
  exact ⟨_, _, ss, hback, hstored, hrecovers, hfiles, ⟨hss, hup⟩, hgreeted 0 ss ⟨hss, hup⟩⟩

end Persisted

end CoWrite.Nm
