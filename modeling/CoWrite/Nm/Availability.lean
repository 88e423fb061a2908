import CoWrite.Nm.Access

/-!
# Who is available

Only a registration, a lost connection and `nm_mark_server_down` write the entries of the servers
(`servers_frame`, a case of `Apart.step_eq`), and each takes down no server but the one it is about. No section but the
creation of a file moves the cursor of the rotation (`cursor_frame`).
-/

namespace CoWrite.Nm

theorem available_congr {s t : NmState} (h : t.servers = s.servers) (k : Int) : t.available k = s.available k := by
  unfold NmState.available nmGetServer
  rw [h]

/-! ## What the sections leave alone -/

/-- The part of the tables has nothing of the files, the users, the cache and the rotation. -/
structure Apart {α : Type*} (π : NmState → α) : Prop where
  files : ∀ s files, π { s with files := files } = π s
  users : ∀ s users, π { s with users := users } = π s
  cache : ∀ s cache, π { s with cache := cache } = π s
  next : ∀ s i, π { s with nextPrimaryIndex := i } = π s

theorem apart_servers : Apart NmState.servers :=
  ⟨fun _ _ => rfl, fun _ _ => rfl, fun _ _ => rfl, fun _ _ => rfl⟩

/-- The part has nothing of the files, the users and the cache. -/
structure Beside {α : Type*} (π : NmState → α) : Prop where
  files : ∀ s files, π { s with files := files } = π s
  users : ∀ s users, π { s with users := users } = π s
  cache : ∀ s cache, π { s with cache := cache } = π s

theorem Apart.beside {α : Type*} {π : NmState → α} (h : Apart π) : Beside π := ⟨h.files, h.users, h.cache⟩

theorem beside_servers : Beside NmState.servers := apart_servers.beside

/-- The sections that write entries of servers. -/
def Event.isAboutServers : Event → Bool
  | .register .. | .disconnect .. | .markDown .. => true
  | _ => false

section Apart

variable {α : Type*} {π : NmState → α} (h : Apart π) (s : NmState)

include h

theorem Apart.nmPickServer_eq : π (nmPickServer s).2 = π s := by
  unfold nmPickServer
  dsimp only
  split
  · rfl
  · exact h.next s _

theorem Apart.createBegin_eq (user json : Text) : π (createBegin s user json).2 = π s := by
  rcases createBegin_tables s user json with heq | heq
  · rw [heq]
  · rw [heq, h.nmPickServer_eq]

end Apart

section Beside

variable {α : Type*} {π : NmState → α} (h : Beside π) (s : NmState)

include h

theorem Beside.modifyFile_eq (name : Text) (f : FileEntry → FileEntry) : π (s.modifyFile name f) = π s := by
  unfold NmState.modifyFile
  split
  · rfl
  · exact h.files s _

theorem Beside.nmAddUser_eq (user : Text) (now : Int) : π (nmAddUser s user now) = π s := by
  unfold nmAddUser
  split
  · exact h.users s _
  · split
    · rfl
    · exact h.users s _

theorem Beside.nmCachePut_eq (name : Text) (server now : Int) : π (nmCachePut s name server now) = π s := by
  unfold nmCachePut
  split
  · exact h.cache s _
  · exact h.cache s _

theorem Beside.selectStorageServer_eq (name : Text) : π (selectStorageServer s name).2 = π s := by
  unfold selectStorageServer
  split
  · rfl
  · split_ifs
    · rfl
    · exact h.modifyFile_eq s name failover
    · exact h.modifyFile_eq s name dropBackup
    · rfl

theorem Beside.selectForRequest_eq (user json : Text) (perm : BitVec 32) (denied : Text) :
    π (selectForRequest s user json perm denied).2 = π s := by
  rcases selectForRequest_tables s user json perm denied with heq | ⟨name, heq⟩
  · rw [heq]
  · rw [heq, h.selectStorageServer_eq]

theorem Beside.deleteBegin_eq (user json : Text) : π (deleteBegin s user json).2 = π s := by
  have hselect := h.selectForRequest_eq s user json NM_PERM_WRITE (Text.lit "no write access")
  unfold deleteBegin
  split
  · next heq =>
    rw [heq] at hselect
    exact (h.selectStorageServer_eq _ _).trans hselect
  · exact hselect

omit s in
theorem Beside.nmGrantAccess_eq {s t : NmState} {name user : Text} {perm : BitVec 32}
    (hgrant : nmGrantAccess s name user perm = some t) : π t = π s := by
  obtain ⟨file, file', -, -, rfl⟩ := nmGrantAccess_tables hgrant
  exact h.modifyFile_eq s name _

theorem Beside.createEnd_eq (user file : Text) (primary backup now : Int) :
    π (createEnd s user file primary backup now).2 = π s := by
  unfold createEnd
  split
  · rfl
  · next added hadd =>
    have hadded : π added = π s := by
      unfold nmAddFile at hadd
      split_ifs at hadd
      cases hadd
      exact h.files s _
    refine (h.nmCachePut_eq ..).trans ?_
    cases hgrant : nmGrantAccess added file user (NM_PERM_WRITE ||| NM_PERM_READ) with
    | none => exact hadded
    | some granted => exact (h.nmGrantAccess_eq hgrant).trans hadded

theorem Beside.deleteEnd_eq (name : Text) : π (deleteEnd s name).2 = π s := by
  unfold deleteEnd nmRemoveFile
  cases findFileIndex s name with
  | none => rfl
  | some i => exact h.files s _

omit s in
/-- A section leaves the part alone if it writes no server, no request and no cursor of the rotation in it. -/
theorem Beside.step_eq {s t : NmState} {e : Event}
    (hnext : (∀ user json, e ≠ .createBegin user json) ∨ Apart π)
    (hservers : e.isAboutServers = false ∨ ∀ s servers, π { s with servers := servers } = π s)
    (hrequests : (∀ user json, e ≠ .reqaccess user json ∧ e ≠ .handlereq user json) ∨
      ∀ s requests, π { s with requests := requests } = π s)
    (hs : tablesStep s e = some t) : π t = π s := by
  have hdown (hwrites : ∀ s servers, π { s with servers := servers } = π s) (server : Int) :
      π (nmMarkServerDown s server) = π s := by
    unfold nmMarkServerDown
    split
    · rfl
    · exact hwrites s _
  cases e with
  | hello json inUse now =>
    cases hs
    rcases handleClientHello_tables s json inUse now.val with heq | ⟨user, -, -, heq⟩
    · rw [heq]
    · rw [heq, h.nmAddUser_eq]
  | register json fd =>
    cases hs
    rcases hservers with hnot | hwrites
    · cases hnot
    · rcases handleSsRegister_tables s json fd with heq | ⟨id, host, ctrlPort, dataPort, heq⟩
      · rw [heq]
      · rw [heq]
        unfold nmRegisterServer
        split
        · exact hwrites s _
        · split
          · rfl
          · exact hwrites s _
  | disconnect server =>
    cases hs
    rcases hservers with hnot | hwrites
    · cases hnot
    · exact (h.files _ _).trans (hdown hwrites server)
  | markDown server =>
    cases hs
    rcases hservers with hnot | hwrites
    · cases hnot
    · exact hdown hwrites server
  | createBegin user json =>
    cases hs
    rcases hnext with hnot | hwrites
    · exact absurd rfl (hnot user json)
    · exact hwrites.createBegin_eq ..
  | createEnd user file primary backup now =>
    obtain ⟨-, hs⟩ := Option.ite_none_right_eq_some.1 hs
    cases hs
    exact h.createEnd_eq ..
  | deleteBegin user json =>
    cases hs
    exact h.deleteBegin_eq ..
  | deleteEnd file =>
    cases hs
    exact h.deleteEnd_eq ..
  | undoBegin user json =>
    cases hs
    exact h.selectForRequest_eq ..
  | ticketBegin user json perm =>
    cases hs
    exact h.selectForRequest_eq ..
  | ticketEnd file server now =>
    cases hs
    exact h.nmCachePut_eq ..
  | checkpointEnd user file tag now =>
    cases hs
    rcases checkpointEnd_tables s user.text file tag.text now.val with heq | hadd
    · rw [heq]
    · obtain ⟨entry, heq⟩ := nmFileAddCheckpoint_tables hadd
      rw [heq, h.modifyFile_eq]
  | addaccess user json =>
    cases hs
    rcases handleClientAddaccess_tables s user.text json with heq | ⟨name, target, perm, hgrant⟩
    · rw [heq]
    · exact h.nmGrantAccess_eq hgrant
  | removeaccess user json =>
    cases hs
    rcases handleClientRemoveaccess_tables s user.text json with heq | ⟨name, target, heq⟩
    · rw [heq]
    · rw [heq]
      exact h.modifyFile_eq ..
  | reqaccess user json =>
    cases hs
    rcases hrequests with hnot | hwrites
    · exact absurd rfl (hnot user json).1
    · rcases handleClientReqaccess_tables s user.text json with heq | ⟨name, file, perm, -, hrequest⟩
      · rw [heq]
      · obtain ⟨requests, heq⟩ := requestAccess_tables hrequest
        rw [heq, hwrites]
  | handlereq user json =>
    cases hs
    rcases hrequests with hnot | hwrites
    · exact absurd rfl (hnot user json).2
    · rcases handleClientHandlereq_tables s user.text json with
        heq | ⟨i, name, requester, perm, t, hgrant, heq⟩ | ⟨i, heq⟩
      · rw [heq]
      · rw [heq, setRequestStatus, hwrites]
        exact h.nmGrantAccess_eq hgrant
      · rw [heq, setRequestStatus, hwrites]
  | fileUpdate json =>
    obtain ⟨u, -, rfl⟩ := Option.map_eq_some_iff.1 hs
    exact h.modifyFile_eq ..
  | assignBackup file primary target =>
    obtain ⟨-, hs⟩ := Option.ite_none_right_eq_some.1 hs
    cases hs
    exact h.modifyFile_eq ..
  | syncFailed file attempted =>
    cases hs
    exact h.modifyFile_eq ..

end Beside

/-- A section leaves the part alone if it writes no server and no request in it. -/
theorem Apart.step_eq {α : Type*} {π : NmState → α} (h : Apart π) {s t : NmState} {e : Event}
    (hservers : e.isAboutServers = false ∨ ∀ s servers, π { s with servers := servers } = π s)
    (hrequests : (∀ user json, e ≠ .reqaccess user json ∧ e ≠ .handlereq user json) ∨
      ∀ s requests, π { s with requests := requests } = π s)
    (hs : tablesStep s e = some t) : π t = π s :=
  h.beside.step_eq (.inr h) hservers hrequests hs

/-- The other sections leave the servers as they are. -/
theorem servers_frame {s t : NmState} {e : Event} (h : tablesStep s e = some t) (he : e.isAboutServers = false) :
    t.servers = s.servers :=
  apart_servers.step_eq (.inl he) (.inr fun _ _ => rfl) h

theorem cursor_frame {s t : NmState} {e : Event} (h : tablesStep s e = some t) (he : ∀ user json, e ≠ .createBegin user json) :
    t.nextPrimaryIndex = s.nextPrimaryIndex := by
  have hbeside : Beside NmState.nextPrimaryIndex := ⟨fun _ _ => rfl, fun _ _ => rfl, fun _ _ => rfl⟩
  exact hbeside.step_eq (.inl he) (.inr fun _ _ => rfl) (.inr fun _ _ => rfl) h

/-- No server is removed. -/
theorem servers_length_le {s t : NmState} {e : Event} (h : tablesStep s e = some t) :
    s.servers.length ≤ t.servers.length := by
  by_cases he : e.isAboutServers = false
  · rw [servers_frame h he]
  · cases e with
    | register json fd =>
      cases h
      have hregister (id host ctrlPort dataPort : Text) :
          s.servers.length ≤ (nmRegisterServer s id host ctrlPort dataPort fd).2.servers.length := by
        unfold nmRegisterServer
        split
        · simp
        · split <;> simp
      rcases handleSsRegister_tables s json fd with heq | ⟨id, host, ctrlPort, dataPort, heq⟩
      · rw [heq]
      · rw [heq]
        exact hregister id host ctrlPort dataPort
    | disconnect server =>
      cases h
      have hservers : (handleServerDisconnect s server).1.servers = (nmMarkServerDown s server).servers := rfl
      rw [hservers, nmMarkServerDown]
      split <;> simp
    | markDown server =>
      cases h
      rw [nmMarkServerDown]
      split <;> simp
    | _ => exact absurd rfl he

/-! ## Who is taken down -/

theorem available_iff {s : NmState} {k : Int} :
    s.available k = true ↔ 0 ≤ k ∧ ∃ ss, s.servers[k.toNat]? = some ss ∧ ss.isAvailable = true := by
  unfold NmState.available nmGetServer
  by_cases hk : k < 0
  · rw [if_pos hk]
    constructor
    · intro h
      cases h
    · intro h
      omega
  · rw [if_neg hk, Option.any_eq_true]
    constructor
    · intro h
      exact ⟨by omega, h⟩
    · intro h
      exact h.2

theorem available_nmMarkServerDown {s : NmState} {i k : Int} (h : i ≠ k) :
    (nmMarkServerDown s i).available k = s.available k := by
  unfold nmMarkServerDown
  split
  · rfl
  · next hi =>
    unfold NmState.available nmGetServer
    by_cases hk : k < 0
    · rw [if_pos hk, if_pos hk]
    · rw [if_neg hk, if_neg hk]
      exact congrArg (Option.any _) (List.getElem?_modify_ne _ _ (by omega))

theorem not_available_nmMarkServerDown (s : NmState) (k : Int) : (nmMarkServerDown s k).available k = false := by
  by_contra h
  obtain ⟨hk, ss, hget, hss⟩ := available_iff.1 (Bool.eq_true_of_not_eq_false h)
  unfold nmMarkServerDown at hget
  split at hget
  · next hout =>
    have := (List.getElem?_eq_some_iff.1 hget).1
    omega
  · rw [List.getElem?_modify_eq] at hget
    obtain ⟨ss', -, rfl⟩ := Option.map_eq_some_iff.1 hget
    cases hss

theorem available_handleServerDisconnect {s : NmState} {i k : Int} (h : i ≠ k) :
    (handleServerDisconnect s i).1.available k = s.available k :=
  (available_congr rfl k).trans (available_nmMarkServerDown h)

/-- A registration takes no server down. -/
theorem available_handleSsRegister {s : NmState} {k : Int} (h : s.available k = true) (json : Text) (fd : Nat) :
    (handleSsRegister s json fd).2.available k = true := by
  obtain ⟨hk, ss, hget, hss⟩ := available_iff.1 h
  have hregister (id host ctrlPort dataPort : Text) :
      (nmRegisterServer s id host ctrlPort dataPort fd).2.available k = true := by
    unfold nmRegisterServer
    split
    · next i _ =>
      refine available_iff.2 ⟨hk, ?_⟩
      by_cases hi : i = k.toNat
      · subst hi
        refine ⟨_, (List.getElem?_modify_eq ..).trans (congrArg _ hget), ?_⟩
        simp [StorageServer.isAvailable]
      · refine ⟨ss, ?_, hss⟩
        rw [List.getElem?_modify_ne _ _ hi]
        exact hget
    · split
      · exact h
      · refine available_iff.2 ⟨hk, ss, ?_, hss⟩
        rw [List.getElem?_append_left (List.getElem?_eq_some_iff.1 hget).1]
        exact hget
  rcases handleSsRegister_tables s json fd with heq | ⟨id, host, ctrlPort, dataPort, heq⟩
  · rwa [heq]
  · rw [heq]
    exact hregister id host ctrlPort dataPort

end CoWrite.Nm
