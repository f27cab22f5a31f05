import ETransfer.EtdLockProtocol
import Mathlib.Logic.Relation

/-!
# Safety and deadlock freedom of the two-level locking discipline

From the lock invariant of `EtdLockProtocol`, for every reachable state of any number of threads:
a thread that uses a record's descriptor holds the record's mutex, finds the record in the map and
its descriptor open; `path` and `openMode` are read under `stateLock` or under the record's mutex; a
record leaves the map only in a step of the thread that holds both locks; two data transfers never
run on one record, and an in-flight transfer keeps its record across every step of another thread,
so `removeUUID` cannot return before the transfer has unlocked the record.

A thread is blocked only at `lock(shared_state.lock)`, holding no lock at all, and the owner of
`stateLock` always has a step, so the wait-for relation has no cycle. Fairness of the back-off
loops (that a retrying thread eventually wins its `try_lock`) is not claimed.
-/

namespace ETransfer.EtdLockSafety

open EtdRegistry EtdLockProtocol

variable {normalize : String → String} {s s' : Sys} {t t' : Tid}

/-- A step moves only the stepping thread. -/
theorem Step.pc_ne (hs : Step normalize s t s') (h : t' ≠ t) : s'.pc t' = s.pc t' := by
  cases hs <;> simp [Sys.goto, Sys.unlockRecord, Function.update_noteq h]

/-- A record survives a step with its identity, path, mode and requester, unless the step is
the erasure of `removeUUID` by the stepping thread. -/
theorem Step.entries_survive {k : Uuid} {r : TransferProps} (hs : Step normalize s t s')
    (hm : (k, r) ∈ s.transfers.entries) :
    (∃ r', (k, r') ∈ s'.transfers.entries ∧ r'.serial = r.serial ∧ r'.path = r.path ∧
        r'.openMode = r.openMode ∧ r'.requester = r.requester) ∨
      ∃ sn, s.pc t = .rmErase k sn := by
  have keep : ∀ f : TransferProps → TransferProps,
      (∀ r, (f r).serial = r.serial ∧ (f r).path = r.path ∧ (f r).openMode = r.openMode ∧
        (f r).requester = r.requester) →
      ∀ k', ∃ r', (k, r') ∈ (s.transfers.modify k' f).entries ∧ r'.serial = r.serial ∧
        r'.path = r.path ∧ r'.openMode = r.openMode ∧ r'.requester = r.requester := by
    intro f hf k'
    refine ⟨if k = k' then f r else r, TransferMap.mem_modify.mpr ⟨r, hm, rfl⟩, ?_⟩
    split_ifs
    · exact hf r
    · exact ⟨rfl, rfl, rfl, rfl⟩
  cases hs with
  | request ans h =>
    exact .inl ⟨r, (Request.run_entries _ _ _ _ _ _).1 _ hm, rfl, rfl, rfl, rfl⟩
  | findLocked _ _ _ | rmClose _ =>
    apply Or.inl
    apply keep
    exact fun _ => ⟨rfl, rfl, rfl, rfl⟩
  | @rmErase own sn h =>
    by_cases hk : k = own
    · exact .inr ⟨sn, hk ▸ h⟩
    · exact .inl ⟨r, TransferMap.mem_erase.mpr ⟨hm, hk⟩, rfl, rfl, rfl, rfl⟩
  | xfRejected _ _ _ | xfFail _ | xfDone _ _ | dsRejected _ _ _ | dsDone _ | dsFail _ =>
    apply Or.inl
    apply keep
    exact fun _ => ⟨rfl, rfl, rfl, rfl⟩
  | _ => exact .inl ⟨r, hm, rfl, rfl, rfl, rfl⟩

/-- The record a thread holds is in the map with an open descriptor, unless the thread is the one
about to erase it. -/
theorem held_fdOpen (hi : LockInv s) {k : Uuid} {sn : ℕ}
    (h : (s.pc t).holdsRecord = some (k, sn)) (hne : ∀ k sn, s.pc t ≠ .rmErase k sn) :
    ∃ r, (k, r) ∈ s.transfers.entries ∧ r.serial = sn ∧ r.lock = some t ∧ r.fdOpen = true := by
  obtain ⟨r, hm, hs, hl⟩ := hi.holder _ _ _ h
  refine ⟨r, hm, hs, hl, ?_⟩
  cases hf : r.fdOpen
  · obtain ⟨t', ht'⟩ := hi.fdOpen _ _ hm hf
    have hh : (s.pc t').holdsRecord = some (k, sn) := by rw [ht', hs]; rfl
    rw [hi.holder_unique h hh] at hne
    exact absurd ht' (hne _ _)
  · rfl

theorem usesFd_held {p : Pc} {k : Uuid} {sn : ℕ} (h : p.usesFd = some (k, sn)) :
    p.holdsRecord = some (k, sn) ∧ ∀ k sn, p ≠ .rmErase k sn := by
  cases p <;> simp_all [Pc.usesFd, Pc.holdsRecord]

theorem inTransfer_held {p : Pc} {k : Uuid} {sn : ℕ} (h : p.inTransfer = some (k, sn)) :
    p.holdsRecord = some (k, sn) := by
  cases p <;> simp_all [Pc.inTransfer, Pc.holdsRecord]

theorem readsMode_held {p : Pc} {k : Uuid} {sn : ℕ} (h : p.readsMode = some (k, sn)) :
    p.holdsRecord = some (k, sn) := by
  cases p <;> simp_all [Pc.readsMode, Pc.holdsRecord]

theorem scansMap_holdsState {p : Pc} (h : p.scansMap = true) : p.holdsState = true := by
  cases p <;> simp_all [Pc.scansMap, Pc.holdsState]

/-- What the locking discipline guarantees in a state and in each step from it. -/
structure DisciplineHolds (normalize : String → String) (s : Sys) : Prop where
  /-- (a) A descriptor is read, written or closed only by the thread that holds its record's
  mutex; the record is in the map under its key and its descriptor is open, so no descriptor is
  used after `removeUUID` closed it. -/
  fdUsers : ∀ t k sn, (s.pc t).usesFd = some (k, sn) →
    ∃ r, (k, r) ∈ s.transfers.entries ∧ r.serial = sn ∧ r.lock = some t ∧ r.fdOpen = true
  /-- (a) The requests scan `path` and `openMode` of the records in the map under `stateLock`. -/
  scanners : ∀ t, (s.pc t).scansMap = true → s.stateLock = some t
  /-- (a) One record's `openMode` is read under that record's mutex, the record in the map. -/
  modeReaders : ∀ t k sn, (s.pc t).readsMode = some (k, sn) →
    ∃ r, (k, r) ∈ s.transfers.entries ∧ r.serial = sn ∧ r.lock = some t
  /-- (b) A record leaves the map only in a step of the thread that holds `stateLock` and the
  record's mutex. -/
  erasers : ∀ t s' k r, Step normalize s t s' → (k, r) ∈ s.transfers.entries →
    (∀ r', (k, r') ∈ s'.transfers.entries → r'.serial ≠ r.serial) →
    s.stateLock = some t ∧ r.lock = some t
  /-- Two data transfers never run on one record. -/
  exclusive : ∀ t t' k sn sn', (s.pc t).inTransfer = some (k, sn) →
    (s.pc t').inTransfer = some (k, sn') → t = t'
  /-- Another thread's step, `removeUUID` included, leaves an in-flight transfer's record in the
  map and locked by it: `removeUUID` returns only after the transfer released the lock. -/
  inFlightKept : ∀ t k sn, (s.pc t).inTransfer = some (k, sn) → ∀ t' s', t' ≠ t →
    Step normalize s t' s' → ∃ r, (k, r) ∈ s'.transfers.entries ∧ r.serial = sn ∧ r.lock = some t

/-- The locking discipline holds in every reachable state of any number of threads. -/
theorem lock_discipline_safe (hr : Reachable normalize s) : DisciplineHolds normalize s := by
  have hi := hr.lockInv
  refine ⟨fun t k sn h => ?_, fun t h => ?_, fun t k sn h => ?_, fun t s' k r hs hm hgone => ?_,
    fun t t' k sn sn' h h' => ?_, fun t k sn h t' s' hne hs => ?_⟩
  · obtain ⟨hh, hne⟩ := usesFd_held h
    exact held_fdOpen hi hh hne
  · exact (hi.stateOwner t).mpr (scansMap_holdsState h)
  · exact hi.holder _ _ _ (readsMode_held h)
  · rcases Step.entries_survive hs hm with ⟨r', hm', hs', -⟩ | ⟨sn, hpc⟩
    · exact absurd hs' (hgone r' hm')
    · have hh : (s.pc t).holdsRecord = some (k, sn) := by rw [hpc]; rfl
      obtain ⟨r1, hm1, hs1, hl1⟩ := hi.holder _ _ _ hh
      rw [TransferMap.eq_of_mem_of_mem hm hm1]
      exact ⟨(hi.stateOwner t).mpr (by rw [hpc]; rfl), hl1⟩
  · exact hi.holder_unique (inTransfer_held h) (inTransfer_held h')
  · have hi' := (Reachable.step hr hs).lockInv
    exact hi'.holder _ _ _ (by rw [Step.pc_ne hs hne.symm]; exact inTransfer_held h)

/-- A daemon in mid-run: the servers `S` and `T` hold records reading `/f`; thread 1 copies the
data of `S` under its mutex; thread 2 runs a write request of `U` under `stateLock`; and thread 3,
in `removeUUID` of `S`, waits for `stateLock`. -/
theorem busy_daemon : ∃ s, Reachable id s ∧ s.stateLock = some 2 ∧
    s.pc 1 = .dsXfer "S" true 0 ∧ s.pc 2 = .reqLocked "U" (.write "/g" .new) ∧
    s.pc 3 = .rmAcquire "S" ∧
    s.transfers.entries.map (fun e => (e.1, e.2.path, e.2.openMode, e.2.lock)) =
      [("S", "/f", .read, some 1), ("T", "/f", .read, none)] := by
  have hr : Reachable id _ :=
    (((((((((((((((Reachable.init : Reachable id Sys.init).step
      (Step.start (t := 0) (.request "S" (.read "/f" 0)) rfl)).step
      (Step.acquire (t := 0) rfl rfl)).step (Step.request (t := 0) ⟨.ok 1, none⟩ rfl)).step
      (Step.start (t := 1) .dataConnection rfl)).step (Step.dsParsed (t := 1) "S" true rfl)).step
      (Step.acquire (t := 1) rfl rfl)).step (Step.findLocked (t := 1) rfl rfl rfl)).step
      (Step.dsChecked (t := 1) rfl rfl rfl)).step
      (Step.start (t := 0) (.request "T" (.read "/f" 0)) rfl)).step
      (Step.acquire (t := 0) rfl rfl)).step (Step.request (t := 0) ⟨.ok 1, none⟩ rfl)).step
      (Step.start (t := 2) (.request "U" (.write "/g" .new)) rfl)).step
      (Step.acquire (t := 2) rfl rfl)).step (Step.start (t := 3) (.removeUUID "S" "S") rfl))
  refine ⟨_, hr, rfl, rfl, rfl, rfl, ?_⟩
  -- The second `emplace` orders the keys with `String.lt`, which does not reduce.
  have hTS : ¬ ("T" < "S") := by simp [String.lt_iff_toList_lt]; decide
  have hins : TransferMap.insertEntry "T" (newRecord "T" "/f" .read 1)
      [("S", ⟨true, "/f", .read, some 1, "S", 0⟩)] =
      some [("S", ⟨true, "/f", .read, some 1, "S", 0⟩), ("T", newRecord "T" "/f" .read 1)] := by
    simp [TransferMap.insertEntry, hTS]
  show List.map _ (Request.run id "T" 1 ⟨.ok 1, none⟩
    ⟨[("S", ⟨true, "/f", .read, some 1, "S", 0⟩)], by simp⟩ (.read "/f" 0)).entries = _
  simp only [Request.run, requestFileRead]
  rw [TransferMap.emplace_of_insertEntry hins]
  rfl

theorem lock_discipline_safe_busy : ∃ s, Reachable id s ∧ (s.pc 1).usesFd = some ("S", 0) ∧
    (s.pc 1).inTransfer = some ("S", 0) ∧ (s.pc 2).scansMap = true ∧ DisciplineHolds id s := by
  obtain ⟨s, hr, -, h1, h2, -, -⟩ := busy_daemon
  exact ⟨s, hr, by rw [h1]; rfl, by rw [h1]; rfl, by rw [h2]; rfl, lock_discipline_safe hr⟩

/-! ## The open mode of a transfer in flight -/

theorem xferReads_held {p : Pc} {k : Uuid} {sn : ℕ} {reads : Bool}
    (h : p.xferReads = some (k, sn, reads)) : p.holdsRecord = some (k, sn) := by
  cases p <;> simp_all [Pc.xferReads, Pc.holdsRecord]

theorem xferReads_start (op : Op) : op.start.xferReads = none := by
  cases op <;> simp only [Op.start] <;> (try split_ifs) <;> rfl

theorem xferReads_acquires {p q : Pc} (h : p.acquires = some q) : q.xferReads = none := by
  cases p <;> simp [Pc.acquires] at h <;> subst h <;> rfl

theorem xferReads_findsKey {p : Pc} {k : Uuid} (h : p.findsKey = some k) (sn : ℕ) :
    p.retry.xferReads = none ∧ (p.locked sn).xferReads = none := by
  cases p <;> simp_all [Pc.findsKey, Pc.retry, Pc.locked, Pc.xferReads]

/-- How a thread comes to be in a data transfer: it was in that transfer already, or it has just
checked the open mode of the record it holds, `transfer.openMode` for `sendFile`/`getFile` and the
mode against `push` for `handle`. The map is left as it was. -/
theorem Step.xferReads_self {k : Uuid} {sn : ℕ} {reads : Bool} (hs : Step normalize s t s')
    (h : (s'.pc t).xferReads = some (k, sn, reads)) :
    s'.transfers = s.transfers ∧ ((s.pc t).xferReads = some (k, sn, reads) ∨
      (s.pc t).readsMode = some (k, sn) ∧
        ∃ r, s.transfers.find k = some r ∧ modeAdmits reads r.openMode = true) := by
  cases hs with
  | start op _ => simp [xferReads_start] at h
  | acquire hq _ => simp [xferReads_acquires hq] at h
  | findBusy hk _ _ => simp [(xferReads_findsKey hk 0).1] at h
  | findLocked hk _ _ => simp [(xferReads_findsKey hk _).2] at h
  | xfChecked hp hf hm =>
    simp only [Sys.goto_pc_self, Pc.xferReads, Option.some.injEq, Prod.mk.injEq] at h
    obtain ⟨rfl, rfl, rfl⟩ := h
    exact ⟨rfl, .inr ⟨by rw [hp]; rfl, _, hf, hm⟩⟩
  | xfChunk n hp _ =>
    simp only [Sys.goto_pc_self, Pc.xferReads] at h
    exact ⟨rfl, .inl (by rw [hp, ← h]; rfl)⟩
  | dsChecked hp hf hm =>
    simp only [Sys.goto_pc_self, Pc.xferReads, Option.some.injEq, Prod.mk.injEq] at h
    obtain ⟨rfl, rfl, rfl⟩ := h
    exact ⟨rfl, .inr ⟨by rw [hp]; rfl, _, hf, hm⟩⟩
  | dsChunk _ => exact ⟨rfl, .inl h⟩
  | _ => simp [Pc.xferReads] at h

/-- Every data transfer in flight runs on a record of the map, under the key it named, whose open
mode admits its direction. -/
def ModeChecked (s : Sys) : Prop :=
  ∀ t k sn reads, (s.pc t).xferReads = some (k, sn, reads) →
    ∃ r, (k, r) ∈ s.transfers.entries ∧ r.serial = sn ∧ modeAdmits reads r.openMode = true

/-- A step keeps the checked modes: the stepping thread enters a transfer only right after its
check, under the record's mutex; another thread cannot erase the record of a transfer it does not
hold, and no step changes a record's mode. -/
theorem ModeChecked.step (hm : ModeChecked s) (hi : LockInv s) (hs : Step normalize s t s') :
    ModeChecked s' := by
  intro t' k sn reads h
  by_cases ht : t' = t
  · subst ht
    obtain ⟨htr, hold | ⟨hrm, r, hf, hadm⟩⟩ := Step.xferReads_self hs h
    · rw [htr]
      exact hm _ _ _ _ hold
    · obtain ⟨r0, hr0, hsn, -⟩ := hi.holder _ _ _ (readsMode_held hrm)
      have hr := TransferMap.find_eq_some_iff.mp hf
      rw [htr]
      exact ⟨r, hr, (TransferMap.eq_of_mem_of_mem hr hr0).symm ▸ hsn, hadm⟩
  · rw [Step.pc_ne hs ht] at h
    obtain ⟨r, hr, hsn, hadm⟩ := hm _ _ _ _ h
    rcases Step.entries_survive hs hr with ⟨r', hr', hs', -, hmode, -⟩ | ⟨sn', hpc⟩
    · exact ⟨r', hr', hs'.trans hsn, hmode ▸ hadm⟩
    · exact absurd (hi.holder_unique (by rw [hpc]; rfl) (xferReads_held h)) (Ne.symm ht)

theorem Reachable.modeChecked (hr : Reachable normalize s) : ModeChecked s := by
  induction hr with
  | init => intro t k sn reads h; simp [Sys.init, Pc.xferReads] at h
  | step hr' hs ih => exact ih.step hr'.lockInv hs

/-- **A transfer moves data only on a record whose mode admits it.** In every reachable state of
any number of threads, a thread in the copy loop of `sendFile` or `getFile`, or in `push_n` or
`pull_n`, holds the mutex of the record under the UUID it named, whose descriptor is open and whose
open mode admits the direction: `Read` when the transfer reads the record's file, `New`,
`OverWrite` or `Resume` when it writes it. The mode is checked once, before the copy, with
`stateLock` already released; the record's mutex, held from the check to the end of the copy,
keeps `removeUUID` from swapping in another record under that UUID. -/
theorem transfer_mode_checked {k : Uuid} {sn : ℕ} {reads : Bool} (hr : Reachable normalize s)
    (h : (s.pc t).xferReads = some (k, sn, reads)) :
    ∃ r, s.transfers.find k = some r ∧ r.serial = sn ∧ r.lock = some t ∧ r.fdOpen = true ∧
      modeAdmits reads r.openMode = true := by
  obtain ⟨r, hr', hsn, hadm⟩ := Reachable.modeChecked hr t k sn reads h
  obtain ⟨r0, hr0, -, hl, hfd⟩ := held_fdOpen hr.lockInv (xferReads_held h)
    (fun k' sn' he => by rw [he] at h; cases h)
  rw [TransferMap.eq_of_mem_of_mem hr0 hr'] at hl hfd
  exact ⟨r, TransferMap.find_eq_some_iff.mpr hr', hsn, hl, hfd, hadm⟩

/-- A server `S` has its file opened for reading; a data connection then asks for a push from
`S`: the thread in `push_n` holds the record, opened `Read`. -/
theorem transfer_mode_checked_push :
    ∃ s, Reachable id s ∧ (s.pc 1).xferReads = some ("S", 0, true) ∧
      ∃ r, s.transfers.find "S" = some r ∧ r.serial = 0 ∧ r.lock = some 1 ∧ r.fdOpen = true ∧
        modeAdmits true r.openMode = true := by
  have hr : Reachable id _ :=
    ((((((((Reachable.init.step (Step.start (t := 0) (.request "S" (.read "/f" 0)) rfl)).step
      (Step.acquire (t := 0) rfl rfl)).step (Step.request (t := 0) ⟨.ok 1, none⟩ rfl)).step
      (Step.start (t := 1) .dataConnection rfl)).step (Step.dsParsed (t := 1) "S" true rfl)).step
      (Step.acquire (t := 1) rfl rfl)).step (Step.findLocked (t := 1) rfl rfl rfl)).step
      (Step.dsChecked (t := 1) rfl rfl rfl))
  exact ⟨_, hr, rfl, transfer_mode_checked hr rfl⟩

/-- Thread `t` has no step: it is blocked. -/
def Blocked (normalize : String → String) (s : Sys) (t : Tid) : Prop :=
  ∀ s', ¬ Step normalize s t s'

/-- `t` waits for `t'`: `t` is blocked, and `t'` owns `stateLock` or the record that `t` is
about to `try_lock`. -/
def WaitsFor (normalize : String → String) (s : Sys) (t t' : Tid) : Prop :=
  Blocked normalize s t ∧ (s.stateLock = some t' ∨
    ∃ k r, (s.pc t).findsKey = some k ∧ s.transfers.find k = some r ∧ r.lock = some t')

theorem acquires_findsKey {p q : Pc} (h : p.acquires = some q) : p.findsKey = none := by
  cases p <;> simp_all [Pc.acquires, Pc.findsKey]

theorem holdsState_acquires {p : Pc} (h : p.holdsState = true) : p.acquires = none := by
  cases p <;> simp_all [Pc.acquires, Pc.holdsState]

/-- A `find` + `try_lock` always has a step: the entry is missing, busy or locked. -/
theorem findsKey_step {k : Uuid} (h : (s.pc t).findsKey = some k) :
    ∃ s', Step normalize s t s' := by
  cases hf : s.transfers.find k with
  | none => exact ⟨_, .findMissing h hf⟩
  | some r =>
    cases hl : r.lock with
    | none => exact ⟨_, .findLocked h hf hl⟩
    | some t' => exact ⟨_, .findBusy h hf hl⟩

/-- Every thread has a step, except one in `lock(shared_state.lock)` while the mutex is taken. -/
theorem step_exists (hi : LockInv s) (h : (s.pc t).acquires = none ∨ s.stateLock = none) :
    ∃ s', Step normalize s t s' := by
  have acq : ∀ {q}, (s.pc t).acquires = some q → ∃ s', Step normalize s t s' := fun hq =>
    ⟨_, .acquire hq (h.resolve_left (by rw [hq]; simp))⟩
  have check : ∀ {k sn}, (s.pc t).holdsRecord = some (k, sn) → ∃ r, s.transfers.find k = some r :=
    fun hh => let ⟨r, hm, _⟩ := hi.holder _ _ _ hh; ⟨r, TransferMap.find_eq_some_iff.mpr hm⟩
  cases hp : s.pc t with
  | idle => exact ⟨_, .start .dataConnection hp⟩
  | reqAcquire | rmAcquire | xfAcquire | dsAcquire => exact acq (by rw [hp]; rfl)
  | reqLocked => exact ⟨_, .request ⟨.error "", none⟩ hp⟩
  | rmFind | xfFind | dsFind => exact findsKey_step (by rw [hp]; rfl)
  | rmClose => exact ⟨_, .rmClose hp⟩
  | rmErase => exact ⟨_, .rmErase hp⟩
  | xfLoop dir own todo =>
    by_cases hpos : 0 < todo
    · exact ⟨_, .xfLoopGo hp hpos⟩
    · exact ⟨_, .xfLoopEnd hp (not_lt.mp hpos)⟩
  | xfCheck dir own sn todo =>
    obtain ⟨r, hf⟩ := check (by rw [hp]; rfl)
    cases hm : modeAdmits (dir = .send) r.openMode
    · exact ⟨_, .xfRejected hp hf hm⟩
    · exact ⟨_, .xfChecked hp hf hm⟩
  | xfCopy => exact ⟨_, .xfFail hp⟩
  | dsHeader => exact ⟨_, .dsStop hp⟩
  | dsCheck uuid push sn =>
    obtain ⟨r, hf⟩ := check (by rw [hp]; rfl)
    cases hm : modeAdmits push r.openMode
    · exact ⟨_, .dsRejected hp hf hm⟩
    · exact ⟨_, .dsChecked hp hf hm⟩
  | dsXfer => exact ⟨_, .dsFail hp⟩

/-- A blocked thread is in `lock(shared_state.lock)`, which another thread owns, and it holds
neither `stateLock` nor any record's mutex. -/
theorem blocked_spec (hi : LockInv s) (hb : Blocked normalize s t) :
    ∃ q, (s.pc t).acquires = some q ∧ s.stateLock ≠ none ∧ s.stateLock ≠ some t ∧
      ∀ k r, (k, r) ∈ s.transfers.entries → r.lock ≠ some t := by
  have hq : (s.pc t).acquires ≠ none ∧ s.stateLock ≠ none := by
    by_contra hn
    obtain ⟨s', hs⟩ : ∃ s', Step normalize s t s' := step_exists hi (by tauto)
    exact hb s' hs
  obtain ⟨q, hq'⟩ := Option.ne_none_iff_exists'.mp hq.1
  obtain ⟨h1, h2, -⟩ := Pc.acquires_spec hq'
  refine ⟨q, hq', hq.2, fun ho => ?_, fun k r hm hl => ?_⟩
  · rw [(hi.stateOwner t).mp ho] at h1
    cases h1
  · rw [hi.owner _ _ _ hm hl] at h2
    cases h2

/-- Conversely, a thread in `lock(shared_state.lock)` while the mutex is taken is blocked. -/
theorem blocked_of_acquires {q : Pc} (hq : (s.pc t).acquires = some q) (hl : s.stateLock ≠ none) :
    Blocked normalize s t := by
  have hk := acquires_findsKey hq
  intro s' hs
  cases hs <;> simp_all [Pc.acquires]

/-- The thread that a blocked thread waits for is not blocked. -/
theorem waitsFor_free (hi : LockInv s) (h : WaitsFor normalize s t t') : ¬ Blocked normalize s t' := by
  obtain ⟨q, hq, -⟩ := blocked_spec hi h.1
  rcases h.2 with ho | ⟨k, r, hk, -⟩
  · intro hb
    obtain ⟨s', hs⟩ : ∃ s', Step normalize s t' s' := step_exists hi
      (.inl (holdsState_acquires ((hi.stateOwner t').mp ho)))
    exact hb s' hs
  · rw [acquires_findsKey hq] at hk
    cases hk

theorem transGen_waitsFor_free (hi : LockInv s) {t t' : Tid}
    (h : Relation.TransGen (WaitsFor normalize s) t t') : ¬ Blocked normalize s t' := by
  induction h with
  | single h => exact waitsFor_free hi h
  | tail _ h _ => exact waitsFor_free hi h

/-- No deadlock on the registry's locks in a state. -/
structure DeadlockFree (normalize : String → String) (s : Sys) : Prop where
  /-- A blocked thread is in `lock(shared_state.lock)` while another thread owns it; no thread
  blocks on a record's mutex, which is only try-locked. -/
  blockedOnState : ∀ t, Blocked normalize s t → (s.pc t).acquires.isSome ∧ s.stateLock ≠ none
  /-- A blocked thread holds neither `stateLock` nor any record's mutex. -/
  blockedHoldsNothing : ∀ t, Blocked normalize s t →
    s.stateLock ≠ some t ∧ ∀ k r, (k, r) ∈ s.transfers.entries → r.lock ≠ some t
  /-- The wait-for relation has no cycle. -/
  acyclic : ∀ t, ¬ Relation.TransGen (WaitsFor normalize s) t t
  /-- No set of threads is mutually blocked. -/
  noMutualBlock : ∀ S : Set Tid, S.Nonempty → ¬ ∀ t ∈ S, ∃ t' ∈ S, WaitsFor normalize s t t'

/-- Every reachable state of any number of threads is free of deadlock on the registry's locks. -/
theorem no_deadlock (hr : Reachable normalize s) : DeadlockFree normalize s := by
  have hi := hr.lockInv
  refine ⟨fun t hb => ?_, fun t hb => ?_, fun t hc => ?_, fun S ⟨t, ht⟩ hall => ?_⟩
  · obtain ⟨q, hq, h, -⟩ := blocked_spec hi hb
    exact ⟨by rw [hq]; rfl, h⟩
  · obtain ⟨q, -, -, h⟩ := blocked_spec hi hb
    exact h
  · cases hc with
    | single h => exact waitsFor_free hi h h.1
    | tail h h' => exact transGen_waitsFor_free hi h h'.1
  · obtain ⟨t', ht', h⟩ := hall t ht
    obtain ⟨t'', -, h'⟩ := hall t' ht'
    exact waitsFor_free hi h h'.1

theorem no_deadlock_busy : ∃ s, Reachable id s ∧ WaitsFor id s 3 2 ∧ DeadlockFree id s := by
  obtain ⟨s, hr, hl, -, -, h3, -⟩ := busy_daemon
  have hb : Blocked id s 3 := blocked_of_acquires (by rw [h3]; rfl) (by rw [hl]; simp)
  exact ⟨s, hr, ⟨hb, .inl hl⟩, no_deadlock hr⟩

end ETransfer.EtdLockSafety
