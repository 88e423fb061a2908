import CoWrite.Nm.Access
import CoWrite.Nm.Replication

/-!
# Deleting through a pointer

`handle_client_delete` keeps a pointer into the array of files while it waits for the server. Meanwhile other DELETEs
move the last entry into the slot that becomes free, and CREATEs fill the slots behind the last entry again.

* `Slots`: the tables with the slots behind the last entry as they were left, a number for every entry that was ever
  made, and the requests that wait for their servers.
* `deletes_iff`: a DELETE removes the entry that it has checked, and tells the backup of that entry, exactly when the
  entry is still the one under its name and the slot holds an entry with the same backup.
-/

namespace CoWrite.Nm

open CoWrite.Lib

/-- A DELETE that waits: `file` points to the slot, and the access check was made on the entry. -/
structure WaitingDelete where
  name : Text
  server : Int
  slot : Nat
  entry : Nat

structure WaitingCreate where
  user : Client
  name : Text
  primary : Nat

/-- The tables and the array behind them; `ids` has the number of each entry in the table. -/
structure Slots where
  nm : NmState
  ids : List Nat
  next : Nat
  stale : List FileEntry
  deletes : List WaitingDelete
  creates : List WaitingCreate

namespace Slots

/-- What a request does before its RPC, or from the reply on. -/
inductive Event where
  | createBegin (user : Client) (json : Text)
  | createEnd (i : Nat) (reply : Reply) (backup : Option Nat) (now : Int)
  | deleteBegin (user : Client) (json : Text)
  | deleteEnd (i : Nat) (reply : Reply)

/-- `nm_add_file` and what follows it, when it adds an entry. -/
def add (s : Slots) (c : WaitingCreate) (backup now : Int) : Slots :=
  match Nm.createEnd s.nm c.user.text c.name c.primary backup now with
  | (.ok _, nm) => { s with nm := nm, ids := s.ids ++ [s.next], next := s.next + 1, stale := s.stale.tail }
  | (.error .., nm) => { s with nm := nm }

/-- `nm_remove_file`; the slot of the last entry is left as it is. -/
def remove (s : Slots) (name : Text) : Slots :=
  match findFileIndex s.nm name with
  | none => { s with nm := (Nm.deleteEnd s.nm name).2 }
  | some i =>
    { s with
      nm := (Nm.deleteEnd s.nm name).2
      ids := swapRemove s.ids i
      stale := s.nm.files.getLast?.toList ++ s.stale }

def step (s : Slots) : Event → Option Slots
  | .createBegin user json =>
    match Nm.createBegin s.nm user.text json with
    | (.ok (name, primary), nm) => some { s with nm := nm, creates := s.creates ++ [⟨user, name, primary⟩] }
    | (.error _, nm) => some { s with nm := nm }
  | .createEnd i reply backup now =>
    (s.creates[i]?).bind fun c =>
      let s := { s with creates := s.creates.eraseIdx i }
      match reply with
      | .unreachable => some { s with nm := nmMarkServerDown s.nm c.primary }
      | .refused => some s
      | .ok => some (s.add c (optIndex backup) now)
  | .deleteBegin user json =>
    match Nm.deleteBegin s.nm user.text json with
    | (.ok (name, server), nm) =>
      (findFileIndex s.nm name).bind fun slot => (s.ids[slot]?).map fun entry =>
        { s with nm := nm, deletes := s.deletes ++ [⟨name, server, slot, entry⟩] }
    | (.error _, nm) => some { s with nm := nm }
  | .deleteEnd i reply =>
    (s.deletes[i]?).bind fun d =>
      let s := { s with deletes := s.deletes.eraseIdx i }
      match reply with
      | .unreachable => some { s with nm := nmMarkServerDown s.nm d.server }
      | .refused => some s
      | .ok => some (s.remove d.name)

/-- A table with its entries numbered, and any slots behind it. -/
structure Started (s : Slots) : Prop where
  ids : s.ids = List.range s.nm.files.length
  next : s.next = s.nm.files.length
  deletes : s.deletes = []
  creates : s.creates = []

def system : System Slots Event := .ofStep Started step

/-! ## The end of a DELETE -/

/-- `file->backup_index`. -/
def backupAt (s : Slots) (slot : Nat) : Int := ((s.nm.files ++ s.stale)[slot]?).elim (-1) FileEntry.backupIndex

/-- The server that the command for this backup goes to. -/
def backupServer (s : Slots) (backup : Int) : Option Int :=
  if backup ≥ 0 ∧ (nmGetServer s.nm backup).any (fun ss => decide (ss.ctrlFd ≥ 0)) = true then some backup else none

/-- The server that the DELETE sends a command to when its own server has answered. -/
def sends (s : Slots) (d : WaitingDelete) : Option Int := s.backupServer (s.backupAt d.slot)

/-- The DELETE that is answered `OK`. -/
def Event.answered (s : Slots) : Event → Option WaitingDelete
  | .deleteEnd i .ok => s.deletes[i]?
  | _ => none

/-- The entry that was checked is removed, and its backup told. -/
structure Deletes (s : Slots) (d : WaitingDelete) : Prop where
  there : d.entry ∈ s.ids
  removed : ∀ id, id ∈ (s.remove d.name).ids ↔ id ∈ s.ids ∧ id ≠ d.entry
  sent : ∀ (k : Nat) (file : FileEntry), s.ids[k]? = some d.entry → s.nm.files[k]? = some file →
    s.sends d = s.backupServer file.backupIndex

/-- The entry under the name is the one that was checked, and the slot holds one with the same backup. -/
structure Kept (s : Slots) (d : WaitingDelete) : Prop where
  entry : (findFileIndex s.nm d.name).bind (s.ids[·]?) = some d.entry
  slot : s.backupServer (s.backupAt d.slot) =
    s.backupServer ((nmFindFile s.nm d.name).elim (-1) FileEntry.backupIndex)

/-! ## The invariant -/

/-- Every entry has a number of its own. -/
structure Numbered (s : Slots) : Prop where
  length : s.ids.length = s.nm.files.length
  nodup : s.ids.Nodup
  below : ∀ id ∈ s.ids, id < s.next

theorem numbered_started {s : Slots} (h : Started s) : Numbered s where
  length := by rw [h.ids, List.length_range]
  nodup := by
    rw [h.ids]
    exact List.nodup_range
  below id hid := by
    rw [h.ids] at hid
    rw [h.next]
    exact List.mem_range.1 hid

/-- A step that neither adds nor removes an entry. -/
theorem Numbered.files {s t : Slots} (h : Numbered s) (hids : t.ids = s.ids) (hnext : t.next = s.next)
    (hfiles : t.nm.files.length = s.nm.files.length) : Numbered t := by
  refine ⟨?_, ?_, ?_⟩
  · rw [hids, hfiles, h.length]
  · rw [hids]
    exact h.nodup
  · rw [hids, hnext]
    exact h.below

theorem length_sameAccess {s t : NmState} (h : SameAccess s t) : t.files.length = s.files.length := by
  have hlen := congrArg List.length h
  rwa [List.length_map, List.length_map] at hlen

theorem length_modifyFile (s : NmState) (name : Text) (f : FileEntry → FileEntry) :
    (s.modifyFile name f).files.length = s.files.length := by
  unfold NmState.modifyFile
  split
  · rfl
  · exact List.length_modify _ _ _

/-- The end of a CREATE adds one entry, or none. -/
theorem length_createEnd (s : NmState) (user file : Text) (primary backup now : Int) :
    (∃ op nm, Nm.createEnd s user file primary backup now = (.ok op, nm) ∧ nm.files.length = s.files.length + 1) ∨
      ∃ code message, Nm.createEnd s user file primary backup now = (.error code message, s) := by
  unfold Nm.createEnd
  cases hadd : nmAddFile s file user primary backup now with
  | none => exact .inr ⟨_, _, rfl⟩
  | some nm =>
    refine .inl ⟨_, _, rfl, ?_⟩
    have hlength : nm.files.length = s.files.length + 1 := by
      unfold nmAddFile at hadd
      split_ifs at hadd
      cases hadd
      exact List.length_append
    have hgrant : ((nmGrantAccess nm file user (NM_PERM_WRITE ||| NM_PERM_READ)).getD nm).files.length = nm.files.length := by
      cases hgrant : nmGrantAccess nm file user (NM_PERM_WRITE ||| NM_PERM_READ) with
      | none => rfl
      | some t =>
        obtain ⟨entry, entry', -, -, rfl⟩ := nmGrantAccess_tables hgrant
        exact length_modifyFile nm file _
    rw [← hlength, ← hgrant]
    unfold nmCachePut
    split <;> rfl

theorem Numbered.add {s : Slots} (h : Numbered s) (c : WaitingCreate) (backup now : Int) : Numbered (s.add c backup now) := by
  unfold Slots.add
  rcases length_createEnd s.nm c.user.text c.name c.primary backup now with ⟨op, nm, heq, hlen⟩ | ⟨code, message, heq⟩
  · rw [heq]
    refine ⟨?_, ?_, ?_⟩
    · show (s.ids ++ [s.next]).length = nm.files.length
      rw [List.length_append, h.length, hlen, List.length_singleton]
    · -- the number was never used
      refine List.nodup_append.2 ⟨h.nodup, List.nodup_singleton _, ?_⟩
      intro id hid other hother heq
      rw [List.mem_singleton.1 hother] at heq
      exact absurd (h.below id hid) (by omega)
    · intro id hid
      rcases List.mem_append.1 hid with hid | hid
      · exact Nat.lt_succ_of_lt (h.below id hid)
      · rw [List.mem_singleton.1 hid]
        exact Nat.lt_succ_self _
  · rw [heq]
    exact h

theorem files_deleteEnd (nm : NmState) (name : Text) : (Nm.deleteEnd nm name).2.files =
    ((findFileIndex nm name).map fun i => swapRemove nm.files i).getD nm.files := by
  unfold Nm.deleteEnd nmRemoveFile
  cases findFileIndex nm name <;> rfl

theorem length_ids_of_findFileIndex {s : Slots} (h : Numbered s) {name : Text} {i : Nat}
    (hi : findFileIndex s.nm name = some i) : ∃ id file, s.ids[i]? = some id ∧ s.nm.files[i]? = some file ∧
      nmFindFile s.nm name = some file := by
  obtain ⟨hlt, hname, hbefore⟩ := List.findIdx?_eq_some_iff_getElem.1 hi
  have hids : i < s.ids.length := h.length ▸ hlt
  refine ⟨s.ids[i], s.nm.files[i], ?_, ?_, ?_⟩
  · exact List.getElem?_eq_getElem _
  · exact List.getElem?_eq_getElem _
  · exact List.find?_eq_some_iff_getElem.2 ⟨hname, i, hlt, rfl, fun j hj => by simpa using hbefore j hj⟩

theorem Numbered.remove {s : Slots} (h : Numbered s) (name : Text) : Numbered (s.remove name) := by
  have hfiles := files_deleteEnd s.nm name
  unfold Slots.remove
  cases hi : findFileIndex s.nm name with
  | none =>
    rw [hi] at hfiles
    refine h.files rfl rfl ?_
    exact congrArg List.length hfiles
  | some i =>
    rw [hi] at hfiles
    refine ⟨?_, ?_, ?_⟩
    · show (swapRemove s.ids i).length = (Nm.deleteEnd s.nm name).2.files.length
      rw [hfiles]
      show _ = (swapRemove s.nm.files i).length
      rw [length_swapRemove, length_swapRemove, h.length]
    · have hnodup := nodup_map_swapRemove (g := id) (by simpa using h.nodup) i
      simpa using hnodup
    · intro id hid
      exact h.below id (mem_of_mem_swapRemove hid)

theorem Numbered.step {s t : Slots} (h : Numbered s) {e : Event} (hs : s.step e = some t) : Numbered t := by
  cases e with
  | createBegin user json =>
    have hfiles : (Nm.createBegin s.nm user.text json).2.files = s.nm.files := by
      rcases createBegin_tables s.nm user.text json with heq | heq
      · rw [heq]
      · rw [heq]
        exact nmPickServer_files s.nm
    simp only [Slots.step] at hs
    split at hs
    · next heq =>
      cases hs
      rw [heq] at hfiles
      exact h.files rfl rfl (congrArg List.length hfiles)
    · next heq =>
      cases hs
      rw [heq] at hfiles
      exact h.files rfl rfl (congrArg List.length hfiles)
  | createEnd i reply backup now =>
    obtain ⟨c, hc, hs⟩ := Option.bind_eq_some_iff.1 hs
    have hwaits : Numbered { s with creates := s.creates.eraseIdx i } := h.files rfl rfl rfl
    cases reply with
    | unreachable =>
      cases hs
      exact h.files rfl rfl (congrArg List.length (nmMarkServerDown_files _ _))
    | refused =>
      cases hs
      exact hwaits
    | ok =>
      cases hs
      exact hwaits.add c _ now
  | deleteBegin user json =>
    have hlen : (Nm.deleteBegin s.nm user.text json).2.files.length = s.nm.files.length :=
      length_sameAccess (deleteBegin_sameAccess s.nm user.text json)
    simp only [Slots.step] at hs
    split at hs
    · next heq =>
      obtain ⟨slot, hslot, hs⟩ := Option.bind_eq_some_iff.1 hs
      obtain ⟨entry, hentry, rfl⟩ := Option.map_eq_some_iff.1 hs
      rw [heq] at hlen
      exact h.files rfl rfl hlen
    · next heq =>
      cases hs
      rw [heq] at hlen
      exact h.files rfl rfl hlen
  | deleteEnd i reply =>
    obtain ⟨d, hd, hs⟩ := Option.bind_eq_some_iff.1 hs
    have hwaits : Numbered { s with deletes := s.deletes.eraseIdx i } := h.files rfl rfl rfl
    cases reply with
    | unreachable =>
      cases hs
      exact h.files rfl rfl (congrArg List.length (nmMarkServerDown_files _ _))
    | refused =>
      cases hs
      exact hwaits
    | ok =>
      cases hs
      exact hwaits.remove d.name

/-! ## The result -/

/-- **One DELETE**: what it removes and whom it tells. -/
theorem deletes_iff {s : Slots} (h : Numbered s) (d : WaitingDelete) : s.Deletes d ↔ s.Kept d := by
  cases hi : findFileIndex s.nm d.name with
  | none =>
    have hids : (s.remove d.name).ids = s.ids := by
      unfold Slots.remove
      rw [hi]
    constructor
    · intro hdel
      -- nothing is removed, and the entry is not gone
      have hgone := (hdel.removed d.entry).1 (by rw [hids]; exact hdel.there)
      exact absurd rfl hgone.2
    · intro hkept
      have hentry := hkept.entry
      rw [hi] at hentry
      cases hentry
  | some i =>
    obtain ⟨id, file, hid, hfile, hfind⟩ := length_ids_of_findFileIndex h hi
    have hids : (s.remove d.name).ids = swapRemove s.ids i := by
      unfold Slots.remove
      rw [hi]
    have hmem (id' : Nat) : id' ∈ (s.remove d.name).ids ↔ id' ∈ s.ids ∧ id' ≠ id := by
      rw [hids]
      exact mem_swapRemove h.nodup hid
    constructor
    · intro hdel
      have hsame : d.entry = id := by
        by_contra hne
        exact ((hdel.removed d.entry).1 ((hmem d.entry).2 ⟨hdel.there, hne⟩)).2 rfl
      refine ⟨?_, ?_⟩
      · rw [hi, hsame]
        exact hid
      · have hsent := hdel.sent i file (by rw [hsame]; exact hid) hfile
        rw [hfind]
        exact hsent
    · intro hkept
      have hsame : id = d.entry := by
        have hentry := hkept.entry
        rw [hi] at hentry
        exact Option.some.inj (hid.symm.trans hentry)
      have hslot := hkept.slot
      rw [hfind] at hslot
      refine ⟨?_, ?_, ?_⟩
      · rw [← hsame]
        exact List.mem_of_getElem? hid
      · intro id'
        rw [hmem, hsame]
      · intro k other hk hother
        have hki : k = i := by
          obtain ⟨hlt, -⟩ := List.getElem?_eq_some_iff.1 hid
          exact ((List.getElem?_inj hlt h.nodup).1 (by rw [hid, hk, hsame])).symm
        rw [hki, hfile] at hother
        cases hother
        exact hslot

theorem findFileIndex_sameAccess {s t : NmState} (h : SameAccess s t) (name : Text) :
    findFileIndex t name = findFileIndex s name := by
  have hnames : t.files.map FileEntry.name = s.files.map FileEntry.name := by
    have hfst := congrArg (List.map Prod.fst) h
    rwa [List.map_map, List.map_map] at hfst
  have hindex (s : NmState) : findFileIndex s name = (s.files.map FileEntry.name).findIdx? (· == name) := by
    rw [List.findIdx?_map]
    rfl
  rw [hindex, hindex, hnames]

/-- A DELETE that is answered before another request ends finds all as it left it. -/
theorem kept_deleteBegin {s t : Slots} (h : Numbered s) {user : Client} {json : Text} {d : WaitingDelete}
    (hs : s.step (.deleteBegin user json) = some t) (hd : t.deletes = s.deletes ++ [d]) : t.Kept d := by
  have ht := h.step hs
  have haccess := deleteBegin_sameAccess s.nm user.text json
  simp only [Slots.step] at hs
  split at hs
  · next name server nm heq =>
    obtain ⟨slot, hslot, hs⟩ := Option.bind_eq_some_iff.1 hs
    obtain ⟨entry, hentry, rfl⟩ := Option.map_eq_some_iff.1 hs
    obtain rfl := List.singleton_inj.1 (List.append_cancel_left hd)
    rw [heq] at haccess
    have hindex : findFileIndex nm name = some slot := (findFileIndex_sameAccess haccess name).trans hslot
    obtain ⟨id, file, -, hfile, hfind⟩ := length_ids_of_findFileIndex ht hindex
    refine ⟨?_, ?_⟩
    · show (findFileIndex nm name).bind (s.ids[·]?) = some entry
      rw [hindex]
      exact hentry
    · obtain ⟨hlt, -⟩ := List.getElem?_eq_some_iff.1 hfile
      have hat : (nm.files ++ s.stale)[slot]? = some file := by
        rw [List.getElem?_append_left hlt]
        exact hfile
      unfold backupAt
      dsimp only at hfile hfind ⊢
      rw [hat, hfind]
  · cases hs
    exact absurd (congrArg List.length hd) (by simp)

/-- Alice has a file on the only server. -/
def oneFile : Slots where
  nm := ⟨[⟨Text.lit "ss1", Text.lit "h", Text.lit "0", Text.lit "9001", 4, true⟩], 0, 0,
    [newFileEntry (Text.lit "a") alice.text 0 (-1) 0], [], [], []⟩
  ids := [0]
  next := 1
  stale := []
  deletes := []
  creates := []

theorem started_oneFile : system.init oneFile := ⟨rfl, rfl, rfl, rfl⟩

/-- A request for the file. -/
def requestA : Text := printMessage [(Text.lit "file", .string (Text.lit "a"))]

def dave : Client := ⟨Text.lit "dave", by decide, by decide⟩

end Slots

end CoWrite.Nm
