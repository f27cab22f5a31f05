import ETransfer.EtdLockSafety

/-!
# The registry invariant over every interleaving

Every step of the threads of `EtdLockProtocol` changes the transfers map only as the part of a
request under `stateLock` does, by the erasure of `removeUUID`, or in a record's mutex and
descriptor; data transfers leave it alone. So the registry invariant of `EtdRegistry` holds in
every reachable state: a record sits under its requester's UUID, a server owns at most one record,
and a path is shared by readers only. A record stays until `removeUUID` erases it, so once a
write request for a path has succeeded every later write request for that path fails until then.
-/

namespace ETransfer.EtdRegistryRuns

open EtdRegistry EtdLockProtocol EtdLockSafety

variable {normalize : String → String} {s s' : Sys} {t : Tid}

/-- Changing a record's mutex or descriptor keeps the registry invariant. -/
theorem RegistryInv.modify {m : TransferMap} {k : Uuid} {f : TransferProps → TransferProps}
    (hi : RegistryInv m)
    (hf : ∀ r, (f r).path = r.path ∧ (f r).openMode = r.openMode ∧ (f r).requester = r.requester) :
    RegistryInv (m.modify k f) :=
  hi.of_subset fun k' r' hm => by
    obtain ⟨r, hr, he⟩ := TransferMap.mem_modify.mp hm
    refine ⟨r, hr, ?_⟩
    dsimp only at he
    split_ifs at he <;> rw [he]
    · exact hf r
    · exact ⟨rfl, rfl, rfl⟩

theorem RegistryInv.erase {m : TransferMap} {k : Uuid} (hi : RegistryInv m) :
    RegistryInv (m.erase k) :=
  hi.of_subset fun _ r hm => ⟨r, (TransferMap.mem_erase.mp hm).1, rfl, rfl, rfl⟩

/-- A request keeps the registry invariant whether it succeeds or throws. -/
theorem RegistryInv.run {m : TransferMap} {own : Uuid} {serial : ℕ} {ans : FsAnswer}
    (hi : RegistryInv m) (req : Request) : RegistryInv (req.run normalize own serial ans m) := by
  cases req with
  | write path mode =>
    simp only [Request.run]
    split
    · exact EtdRegistry.RegistryInv.requestFileWrite hi ‹_›
    · exact hi
  | read path alreadyhave =>
    simp only [Request.run]
    split
    · exact EtdRegistry.RegistryInv.requestFileRead hi ‹_›
    · exact hi
  | addrs => exact hi

/-- Every step keeps the registry invariant. -/
theorem Step.registryInv (hi : RegistryInv s.transfers) (hs : Step normalize s t s') :
    RegistryInv s'.transfers := by
  cases hs with
  | request ans h => exact RegistryInv.run hi _
  | findLocked _ _ _ | rmClose _ | xfRejected _ _ _ | xfFail _ | xfDone _ _ | dsRejected _ _ _
    | dsDone _ | dsFail _ =>
    dsimp only [Sys.unlockRecord, Sys.goto]
    apply RegistryInv.modify hi
    exact fun _ => ⟨rfl, rfl, rfl⟩
  | rmErase _ => exact RegistryInv.erase hi
  | _ => exact hi

theorem reachable_registryInv (h : Reachable normalize s) : RegistryInv s.transfers := by
  induction h with
  | init => exact RegistryInv.empty
  | step _ hs ih => exact Step.registryInv ih hs

/-- A step of any thread that is not the erasure of `removeUUID`. -/
def StepNoRemove (normalize : String → String) (s s' : Sys) : Prop :=
  ∃ t, Step normalize s t s' ∧ ∀ k sn, s.pc t ≠ .rmErase k sn

/-- A record with path `p` stays in the map, with its path, across steps that erase nothing. -/
theorem pathPresent_stays {p : String}
    (h : Relation.ReflTransGen (StepNoRemove normalize) s s')
    (hp : ∃ e ∈ s.transfers.entries, e.2.path = p) : ∃ e ∈ s'.transfers.entries, e.2.path = p := by
  induction h with
  | refl => exact hp
  | tail _ hst ih =>
    obtain ⟨t, hs, hne⟩ := hst
    obtain ⟨⟨k, r⟩, hm, hrp⟩ := ih
    rcases Step.entries_survive hs hm with ⟨r', hm', -, hpath, -⟩ | ⟨sn, hpc⟩
    · exact ⟨(k, r'), hm', hpath.trans hrp⟩
    · exact absurd hpc (hne k sn)

/-- A write request fails while a record with its normalized path is in the map. -/
theorem requestFileWrite_error_of_path {m : TransferMap} {own : Uuid} {path : String}
    {mode : OpenMode} {opened : Opened} {serial : ℕ}
    (hp : ∃ e ∈ m.entries, e.2.path = normalize path) :
    ∃ e, requestFileWrite normalize own path mode opened serial m = .error e := by
  cases hw : requestFileWrite normalize own path mode opened serial m with
  | error e => exact ⟨e, rfl⟩
  | ok r =>
    obtain ⟨-, -, hnone, -⟩ := requestFileWrite_eq_ok hw
    obtain ⟨e, he, hep⟩ := hp
    exact absurd hep (hnone e he)

/-- What the daemon's registry satisfies in a state, and after a write request from it. -/
structure RegistryHolds (normalize : String → String) (s : Sys) : Prop where
  /-- (a) every record sits under its requester's UUID; (b) records that share a normalized
  path are all in `Read` mode. -/
  inv : RegistryInv s.transfers
  /-- A server owns at most one record. -/
  oneRecord : ∀ u e e', e ∈ s.transfers.entries → e' ∈ s.transfers.entries →
    e.2.requester = u → e'.2.requester = u → e = e'
  /-- Once a write request for a path succeeds, every later write request for that normalized
  path, by any server, fails as long as no `removeUUID` has erased a record. -/
  writeOnce : ∀ t own path mode opened seekError r s₂ own₂ path₂ mode₂ opened₂ serial₂,
    requestFileWrite normalize own path mode opened s.nextSerial s.transfers = .ok r →
    Relation.ReflTransGen (StepNoRemove normalize)
      (s.runRequest normalize t own (.write path mode) ⟨opened, seekError⟩) s₂ →
    normalize path₂ = normalize path →
    ∃ e, requestFileWrite normalize own₂ path₂ mode₂ opened₂ serial₂ s₂.transfers = .error e

/-- The registry invariant over every interleaving of the threads of any number of servers. -/
theorem registry_invariant (hr : Reachable normalize s) : RegistryHolds normalize s := by
  have hi := reachable_registryInv hr
  refine ⟨hi, fun u e e' he he' hu hu' => ?_, fun t own path mode opened seekError r s₂ own₂
    path₂ mode₂ opened₂ serial₂ hok hrun hp => ?_⟩
  · have hk : e.1 = e'.1 := by rw [← hi.keyed _ _ he, ← hi.keyed _ _ he', hu, hu']
    obtain ⟨k, r⟩ := e
    obtain ⟨k', r'⟩ := e'
    dsimp only at hk
    subst hk
    rw [TransferMap.eq_of_mem_of_mem he he']
  · refine requestFileWrite_error_of_path (hp ▸ pathPresent_stays hrun ?_)
    obtain ⟨-, -, -, -, -, hmem⟩ := requestFileWrite_eq_ok hok
    refine ⟨(own, newRecord own (normalize path) mode s.nextSerial), ?_, rfl⟩
    simp only [Sys.runRequest_transfers, Request.run, hok]
    exact (hmem _).mpr (.inl rfl)

theorem registry_invariant_shared : ∃ s, Reachable id s ∧
    s.transfers.entries.map (fun e => (e.1, e.2.path, e.2.openMode, e.2.lock)) =
      [("S", "/f", .read, some 1), ("T", "/f", .read, none)] ∧ RegistryHolds id s := by
  obtain ⟨s, hr, -, -, -, -, he⟩ := busy_daemon
  exact ⟨s, hr, he, registry_invariant hr⟩

/-- The first record with a path is a reader's exactly when every record with that path is: under
the registry invariant, the one record `std::find_if` returns speaks for all of them. -/
theorem first_read_iff_all_read {m : TransferMap} (hi : RegistryInv m) (p : String) :
    ((m.entries.find? (·.2.path == p)).all (·.2.openMode == .read)) = true ↔
      ∀ e ∈ m.entries, e.2.path = p → e.2.openMode = .read := by
  refine ⟨hi.all_read_of_find?, fun hall => ?_⟩
  cases hf : m.entries.find? (·.2.path == p) with
  | none => rfl
  | some f => simpa using hall f (List.mem_of_find?_eq_some hf) (by simpa using List.find?_some hf)

/-- **`requestFileRead`'s check of the first record with the path is exact.** In every reachable
state of any number of threads, a server that owns no record, whose file opens and seeks, gets its
read request granted exactly when every record with the same normalized path is open for reading,
though the code inspects only the first such record. -/
theorem requestFileRead_first_match_exact (hr : Reachable normalize s) {own : Uuid} {path : String}
    {alreadyhave sz : Int} {serial : ℕ} (hfree : s.transfers.find own = none) :
    (∃ m' u rem, requestFileRead normalize own path alreadyhave (.ok sz) none serial s.transfers =
        .ok (m', u, rem)) ↔
      ∀ e ∈ s.transfers.entries, e.2.path = normalize path → e.2.openMode = .read := by
  have hcheck := first_read_iff_all_read (reachable_registryInv hr) (normalize path)
  refine ⟨fun ⟨m', u, rem, h⟩ => hcheck.mp (requestFileRead_eq_ok h).2.1, fun hall => ?_⟩
  obtain ⟨m', hm'⟩ : ∃ m', s.transfers.emplace own (newRecord own (normalize path) .read serial) =
      (m', true) :=
    ⟨_, Prod.ext rfl (TransferMap.emplace_of_find_none hfree).1⟩
  refine ⟨m', own, sz - alreadyhave, ?_⟩
  simp only [requestFileRead, hfree, Option.isSome_none, Bool.false_eq_true, if_false,
    hcheck.mpr hall, Bool.not_true, hm']

/-- After a server `S` has opened `/f` for reading, a read request of `/f` by another server is
granted, and every record with that path is a reader's. -/
theorem requestFileRead_first_match_shared :
    ∃ s, Reachable id s ∧ s.transfers.find "T" = none ∧
      ((∃ m' u rem, requestFileRead id "T" "/f" 0 (.ok 1) none 1 s.transfers = .ok (m', u, rem)) ↔
        ∀ e ∈ s.transfers.entries, e.2.path = id "/f" → e.2.openMode = .read) := by
  have hr : Reachable id _ :=
    (((Reachable.init.step (Step.start (t := 0) (.request "S" (.read "/f" 0)) rfl)).step
      (Step.acquire (t := 0) rfl rfl)).step (Step.request (t := 0) ⟨.ok 1, none⟩ rfl))
  exact ⟨_, hr, rfl, requestFileRead_first_match_exact hr rfl⟩

end ETransfer.EtdRegistryRuns
