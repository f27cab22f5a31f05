import ETransfer.EtdRegistry

/-!
# Threads on the shared state: the two-level locking discipline

One thread per control connection runs the service calls of its `ETDServer`, one thread per data
connection runs `ETDDataServer::handle`, all on one `etd_state`. The state here is the owner of
`stateLock`, the transfers map (each record with the owner of its mutex and whether its descriptor
is open) and a program counter per thread, at the points of `etdc_etdserver.cc` where a lock is
taken, a record is read or a descriptor is used. Blocking `lock` is an acquire step enabled only
when the mutex is free; `try_lock` never blocks. The answers of the file system, of the peer and of
header parsing are free choices of the steps, so every interleaving and every environment is a run.

The lock invariant `LockInv` holds in every reachable state. From it: descriptors are used only
under their record's lock and never after `removeUUID` closed them, a record is erased only by a
thread holding both locks, and a thread is blocked only at `lock(shared_state.lock)` while holding
nothing, so the wait-for graph has no cycle.
-/

namespace ETransfer.EtdLockProtocol

open EtdRegistry

/-- The service operation of a transfer thread: `sendFile` copies a reader's file to a data
connection, `getFile` copies from one into a writer's file. -/
inductive Dir where
  | send
  | get
  deriving DecidableEq, Repr

/-- The open modes that the side of a data transfer accepts: `openmode_type::Read` for the side
that reads its file (`sendFile`, `push_n`), `allowedWriteModes` for the side that writes it. -/
def modeAdmits (reads : Bool) (mode : OpenMode) : Bool :=
  if reads then mode == .read else mode == .new || mode == .overWrite || mode == .resume

/-- `bufSz` of `sendFile` and `getFile`: 10 MiB. -/
def bufSz : ℕ := 10 * 1024 * 1024

/-- `todo` after one pass of the copy loop: `sendFile` moves `min(todo, bufSz)` bytes, `getFile`
moves what its read returned, when that is positive. -/
def Dir.advance : Dir → Int → Int → Int
  | .send, todo, _ => todo - min todo bufSz
  | .get, todo, n => if 0 < n then todo - n else todo

/-- A call that runs entirely under `lock_guard<std::mutex> lk(shared_state.lock)`. -/
inductive Request where
  /-- `requestFileWrite(path, mode)`. -/
  | write (path : String) (mode : OpenMode)
  /-- `requestFileRead(path, alreadyhave)`. -/
  | read (path : String) (alreadyhave : Int)
  /-- `dataChannelAddr()`. -/
  | addrs

/-- What the file system answers a request: the open, and for a read the `lseek(SEEK_SET)`. -/
structure FsAnswer where
  /-- `etdc_file(...)` and its `lseek(SEEK_END)`. -/
  opened : Opened
  /-- `strerror(errno)` when `lseek(fd, alreadyhave, SEEK_SET)` fails. -/
  seekError : Option String

/-- The map after a request of the server `own` (unchanged when the request throws). -/
def Request.run (normalize : String → String) (own : Uuid) (serial : ℕ) (ans : FsAnswer)
    (m : TransferMap) : Request → TransferMap
  | .write path mode =>
    match requestFileWrite normalize own path mode ans.opened serial m with
    | .ok r => r.1
    | .error _ => m
  | .read path alreadyhave =>
    match requestFileRead normalize own path alreadyhave ans.opened ans.seekError serial m with
    | .ok r => r.1
    | .error _ => m
  | .addrs => m

/-- Where a thread is in the code that touches the shared state. -/
inductive Pc where
  /-- Outside that code. -/
  | idle
  /-- A request of the server `own`, in `lock_guard lk(shared_state.lock)`. -/
  | reqAcquire (own : Uuid) (req : Request)
  /-- The request holding `stateLock`: scan the map, open the file, emplace. -/
  | reqLocked (own : Uuid) (req : Request)
  /-- `removeUUID`, "1. lock shared state". -/
  | rmAcquire (own : Uuid)
  /-- `removeUUID` holding `stateLock`: find the entry and `try_lock` it. -/
  | rmFind (own : Uuid)
  /-- `removeUUID` holding both locks: `transfer.fd->close(...)`. -/
  | rmClose (own : Uuid) (sn : ℕ)
  /-- `removeUUID` holding both locks: swap the record out, erase the entry, return. -/
  | rmErase (own : Uuid) (sn : ℕ)
  /-- `sendFile`/`getFile` at `while( todo>0 )`. -/
  | xfLoop (dir : Dir) (own : Uuid) (todo : Int)
  /-- "2a. lock shared state". -/
  | xfAcquire (dir : Dir) (own : Uuid) (todo : Int)
  /-- "2b." find the entry and `try_lock` it. -/
  | xfFind (dir : Dir) (own : Uuid) (todo : Int)
  /-- Holding the record's lock only, after `lk.unlock()`: check `transfer.openMode`. -/
  | xfCheck (dir : Dir) (own : Uuid) (sn : ℕ) (todo : Int)
  /-- Holding the record's lock: connect, write the header, the copy loop on `transfer.fd`. -/
  | xfCopy (dir : Dir) (own : Uuid) (sn : ℕ) (todo : Int)
  /-- `ETDDataServer::handle` reading a header. -/
  | dsHeader
  /-- "2a. lock shared state". -/
  | dsAcquire (uuid : Uuid) (push : Bool)
  /-- "2b." find the transfer of `uuid` and `try_lock` it. -/
  | dsFind (uuid : Uuid) (push : Bool)
  /-- Holding both locks: check the open mode against `push`. -/
  | dsCheck (uuid : Uuid) (push : Bool) (sn : ℕ)
  /-- Holding the record's lock: `push_n` or `pull_n` on its descriptor. -/
  | dsXfer (uuid : Uuid) (push : Bool) (sn : ℕ)

/-- An operation that a thread starts. -/
inductive Op where
  /-- A request of the server `own`. -/
  | request (own : Uuid) (req : Request)
  /-- `removeUUID(uuid)` on the server `own`, also from `~ETDServer`. -/
  | removeUUID (own uuid : Uuid)
  /-- `sendFile` or `getFile` on the server `own`; `checked` is the UUID it asserts to be its own
  (`srcUUID` of `sendFile`, `dstUUID` of `getFile`). -/
  | transfer (dir : Dir) (own checked : Uuid) (todo : Int)
  /-- An accepted data connection. -/
  | dataConnection

/-- Where an operation starts; a failed `ETDCASSERT` on the UUID throws at once. -/
def Op.start : Op → Pc
  | .request own req => .reqAcquire own req
  | .removeUUID own uuid => if uuid = own then .rmAcquire own else .idle
  | .transfer dir own checked todo => if checked = own then .xfLoop dir own todo else .idle
  | .dataConnection => .dsHeader

namespace Pc

/-- The pc after `lock(shared_state.lock)` returns, for a thread in it. -/
def acquires : Pc → Option Pc
  | reqAcquire own req => some (reqLocked own req)
  | rmAcquire own => some (rmFind own)
  | xfAcquire dir own todo => some (xfFind dir own todo)
  | dsAcquire uuid push => some (dsFind uuid push)
  | _ => none

/-- The key that a thread at a `find` + `try_lock` looks up. -/
def findsKey : Pc → Option Uuid
  | rmFind own => some own
  | xfFind _ own _ => some own
  | dsFind uuid _ => some uuid
  | _ => none

/-- Where a failed `try_lock` leads: unlock shared state, sleep, start over. -/
def retry : Pc → Pc
  | rmFind own => rmAcquire own
  | xfFind dir own todo => xfAcquire dir own todo
  | dsFind uuid push => dsAcquire uuid push
  | p => p

/-- Where a successful `try_lock` of the record with serial `sn` leads. -/
def locked (sn : ℕ) : Pc → Pc
  | rmFind own => rmClose own sn
  | xfFind dir own todo => xfCheck dir own sn todo
  | dsFind uuid push => dsCheck uuid push sn
  | p => p

/-- `sendFile` and `getFile` call `lk.unlock()` right after their `try_lock` succeeds. -/
def unlocksAfterTry : Pc → Bool
  | xfFind .. => true
  | _ => false

/-- Whether the thread owns `stateLock` at this pc. -/
def holdsState : Pc → Bool
  | reqLocked .. | rmFind _ | rmClose .. | rmErase .. | xfFind .. | dsFind .. | dsCheck .. => true
  | _ => false

/-- The record, by key and serial, whose mutex the thread owns at this pc. -/
def holdsRecord : Pc → Option (Uuid × ℕ)
  | rmClose own sn | rmErase own sn => some (own, sn)
  | xfCheck _ own sn _ | xfCopy _ own sn _ => some (own, sn)
  | dsCheck uuid _ sn | dsXfer uuid _ sn => some (uuid, sn)
  | _ => none

/-- The record whose descriptor the thread's next step reads, writes or closes. -/
def usesFd : Pc → Option (Uuid × ℕ)
  | rmClose own sn => some (own, sn)
  | xfCopy _ own sn _ => some (own, sn)
  | dsXfer uuid _ sn => some (uuid, sn)
  | _ => none

/-- The data transfer in flight at this pc: the copy loops of `sendFile`/`getFile` and
`push_n`/`pull_n`. -/
def inTransfer : Pc → Option (Uuid × ℕ)
  | xfCopy _ own sn _ => some (own, sn)
  | dsXfer uuid _ sn => some (uuid, sn)
  | _ => none

/-- The data transfer in flight at this pc and whether it reads the record's file: `sendFile` and
`push_n` read it, `getFile` and `pull_n` write it. -/
def xferReads : Pc → Option (Uuid × ℕ × Bool)
  | xfCopy dir own sn _ => some (own, sn, decide (dir = .send))
  | dsXfer uuid push sn => some (uuid, sn, push)
  | _ => none

/-- The record whose `openMode` the thread's next step reads, one record at a time. -/
def readsMode : Pc → Option (Uuid × ℕ)
  | xfCheck _ own sn _ => some (own, sn)
  | dsCheck uuid _ sn => some (uuid, sn)
  | _ => none

/-- A request whose next step scans `path` and `openMode` of every record (`std::find_if`). -/
def scansMap : Pc → Bool
  | reqLocked _ (.write ..) | reqLocked _ (.read ..) => true
  | _ => false

end Pc

/-- The shared state and the threads' program counters. -/
structure Sys where
  /-- The owner of `shared_state.lock`. -/
  stateLock : Option Tid
  /-- `shared_state.transfers`. -/
  transfers : TransferMap
  /-- Ghost: the serial of the next record created. -/
  nextSerial : ℕ
  /-- Every thread's program counter. -/
  pc : Tid → Pc

/-- A daemon before any connection. -/
def Sys.init : Sys := ⟨none, TransferMap.empty, 0, fun _ => .idle⟩

/-- Thread `t` moves to `p`. -/
def Sys.goto (s : Sys) (t : Tid) (p : Pc) : Sys := { s with pc := Function.update s.pc t p }

/-- The mutex of the record under `k` is unlocked (its `unique_lock` goes out of scope). -/
def Sys.unlockRecord (s : Sys) (k : Uuid) : Sys :=
  { s with transfers := s.transfers.modify k fun r => { r with lock := none } }

/-- Thread `t` ran the request `req` of the server `own` under `stateLock` and left it. -/
def Sys.runRequest (normalize : String → String) (s : Sys) (t : Tid) (own : Uuid) (req : Request)
    (ans : FsAnswer) : Sys :=
  { s.goto t .idle with
    stateLock := none, transfers := req.run normalize own s.nextSerial ans s.transfers,
    nextSerial := s.nextSerial + 1 }

/-- One step of thread `t`. `normalize` is `detail::normalize_path`. -/
inductive Step (normalize : String → String) : Sys → Tid → Sys → Prop where
  /-- A thread starts an operation. -/
  | start {s : Sys} {t : Tid} (op : Op) (h : s.pc t = .idle) :
      Step normalize s t (s.goto t op.start)
  /-- `lock(shared_state.lock)` returns once the mutex is free. -/
  | acquire {s : Sys} {t : Tid} {p : Pc} (h : (s.pc t).acquires = some p)
      (hfree : s.stateLock = none) :
      Step normalize s t { s.goto t p with stateLock := some t }
  /-- A request runs under the lock; `lk` goes out of scope whether it returns or throws. -/
  | request {s : Sys} {t : Tid} {own : Uuid} {req : Request} (ans : FsAnswer)
      (h : s.pc t = .reqLocked own req) :
      Step normalize s t (s.runRequest normalize t own req ans)
  /-- No entry: `removeUUID` returns false, the others throw; `lk` is released. -/
  | findMissing {s : Sys} {t : Tid} {k : Uuid} (h : (s.pc t).findsKey = some k)
      (hf : s.transfers.find k = none) :
      Step normalize s t { s.goto t .idle with stateLock := none }
  /-- `try_lock` fails: `lk.unlock()`, sleep, `continue`. -/
  | findBusy {s : Sys} {t t' : Tid} {k : Uuid} {r : TransferProps}
      (h : (s.pc t).findsKey = some k) (hf : s.transfers.find k = some r) (hl : r.lock = some t') :
      Step normalize s t { s.goto t (s.pc t).retry with stateLock := none }
  /-- `try_lock` succeeds. -/
  | findLocked {s : Sys} {t : Tid} {k : Uuid} {r : TransferProps}
      (h : (s.pc t).findsKey = some k) (hf : s.transfers.find k = some r) (hl : r.lock = none) :
      Step normalize s t { s.goto t ((s.pc t).locked r.serial) with
        transfers := s.transfers.modify k fun r => { r with lock := some t },
        stateLock := if (s.pc t).unlocksAfterTry then none else s.stateLock }
  /-- `transfer.fd->close(transfer.fd->__m_fd)`. -/
  | rmClose {s : Sys} {t : Tid} {own : Uuid} {sn : ℕ} (h : s.pc t = .rmClose own sn) :
      Step normalize s t { s.goto t (.rmErase own sn) with
        transfers := s.transfers.modify own fun r => { r with fdOpen := false } }
  /-- `removed.swap(ptr->second)`, `transfers.erase(ptr)`, `break`: both locks go out of scope
  and `removeUUID` returns true. -/
  | rmErase {s : Sys} {t : Tid} {own : Uuid} {sn : ℕ} (h : s.pc t = .rmErase own sn) :
      Step normalize s t { s.goto t .idle with transfers := s.transfers.erase own, stateLock := none }
  /-- `while( todo>0 )` enters its body. -/
  | xfLoopGo {s : Sys} {t : Tid} {dir : Dir} {own : Uuid} {todo : Int}
      (h : s.pc t = .xfLoop dir own todo) (hpos : 0 < todo) :
      Step normalize s t (s.goto t (.xfAcquire dir own todo))
  /-- `while( todo>0 )` ends: `return true`. -/
  | xfLoopEnd {s : Sys} {t : Tid} {dir : Dir} {own : Uuid} {todo : Int}
      (h : s.pc t = .xfLoop dir own todo) (hpos : todo ≤ 0) :
      Step normalize s t (s.goto t .idle)
  /-- The record's open mode suits the call. -/
  | xfChecked {s : Sys} {t : Tid} {dir : Dir} {own : Uuid} {sn : ℕ} {todo : Int} {r : TransferProps}
      (h : s.pc t = .xfCheck dir own sn todo) (hf : s.transfers.find own = some r)
      (hm : modeAdmits (dir = .send) r.openMode = true) :
      Step normalize s t (s.goto t (.xfCopy dir own sn todo))
  /-- The open mode does not suit: `ETDCASSERT` throws and `sh` unlocks. -/
  | xfRejected {s : Sys} {t : Tid} {dir : Dir} {own : Uuid} {sn : ℕ} {todo : Int} {r : TransferProps}
      (h : s.pc t = .xfCheck dir own sn todo) (hf : s.transfers.find own = some r)
      (hm : modeAdmits (dir = .send) r.openMode = false) :
      Step normalize s t ((s.goto t .idle).unlockRecord own)
  /-- One pass of the copy loop; `n` is what the connection's read returned (for `getFile`). -/
  | xfChunk {s : Sys} {t : Tid} {dir : Dir} {own : Uuid} {sn : ℕ} {todo : Int} (n : Int)
      (h : s.pc t = .xfCopy dir own sn todo) (hpos : 0 < todo) :
      Step normalize s t (s.goto t (.xfCopy dir own sn (dir.advance todo n)))
  /-- Connecting, a read or a write fails: the exception unlocks `sh`. -/
  | xfFail {s : Sys} {t : Tid} {dir : Dir} {own : Uuid} {sn : ℕ} {todo : Int}
      (h : s.pc t = .xfCopy dir own sn todo) :
      Step normalize s t ((s.goto t .idle).unlockRecord own)
  /-- The copy loop ends; the acknowledgement is exchanged and `sh` unlocks at the end of the
  body of `while( todo>0 )`. -/
  | xfDone {s : Sys} {t : Tid} {dir : Dir} {own : Uuid} {sn : ℕ} {todo : Int}
      (h : s.pc t = .xfCopy dir own sn todo) (hpos : todo ≤ 0) :
      Step normalize s t ((s.goto t (.xfLoop dir own todo)).unlockRecord own)
  /-- A header `{ uuid:..., sz:..., [push:1] }` was read and checked. -/
  | dsParsed {s : Sys} {t : Tid} (uuid : Uuid) (push : Bool) (h : s.pc t = .dsHeader) :
      Step normalize s t (s.goto t (.dsAcquire uuid push))
  /-- The connection fails or sends no valid header: `handle` ends. -/
  | dsStop {s : Sys} {t : Tid} (h : s.pc t = .dsHeader) :
      Step normalize s t (s.goto t .idle)
  /-- The open mode suits `push`: `xfer_lock = std::move(sh)`, the loop ends and `lk` unlocks. -/
  | dsChecked {s : Sys} {t : Tid} {uuid : Uuid} {push : Bool} {sn : ℕ} {r : TransferProps}
      (h : s.pc t = .dsCheck uuid push sn) (hf : s.transfers.find uuid = some r)
      (hm : modeAdmits push r.openMode = true) :
      Step normalize s t { s.goto t (.dsXfer uuid push sn) with stateLock := none }
  /-- The open mode does not suit: `ETDCASSERT` throws, `sh` and `lk` unlock, `handle` ends. -/
  | dsRejected {s : Sys} {t : Tid} {uuid : Uuid} {push : Bool} {sn : ℕ} {r : TransferProps}
      (h : s.pc t = .dsCheck uuid push sn) (hf : s.transfers.find uuid = some r)
      (hm : modeAdmits push r.openMode = false) :
      Step normalize s t { (s.goto t .idle).unlockRecord uuid with stateLock := none }
  /-- One read or write of `push_n`/`pull_n` on the record's descriptor. -/
  | dsChunk {s : Sys} {t : Tid} {uuid : Uuid} {push : Bool} {sn : ℕ}
      (h : s.pc t = .dsXfer uuid push sn) :
      Step normalize s t s
  /-- The transfer and its acknowledgement are done; `xfer_lock` unlocks at the end of the body
  and the next header is read. -/
  | dsDone {s : Sys} {t : Tid} {uuid : Uuid} {push : Bool} {sn : ℕ}
      (h : s.pc t = .dsXfer uuid push sn) :
      Step normalize s t ((s.goto t .dsHeader).unlockRecord uuid)
  /-- A read or write fails: the exception unlocks `xfer_lock` and `handle` ends. -/
  | dsFail {s : Sys} {t : Tid} {uuid : Uuid} {push : Bool} {sn : ℕ}
      (h : s.pc t = .dsXfer uuid push sn) :
      Step normalize s t ((s.goto t .idle).unlockRecord uuid)

/-- The states that some interleaving reaches from a fresh daemon. -/
inductive Reachable (normalize : String → String) : Sys → Prop where
  | init : Reachable normalize Sys.init
  | step {s s' : Sys} {t : Tid} : Reachable normalize s → Step normalize s t s' →
      Reachable normalize s'

namespace Pc

/-- The pcs of `find` + `try_lock`: they hold `stateLock` and no record; a failed `try_lock`
leads to the acquire, a successful one to a pc holding the record. -/
theorem findsKey_spec {p : Pc} {k : Uuid} (h : p.findsKey = some k) (sn : ℕ) :
    p.holdsState = true ∧ p.holdsRecord = none ∧ (∀ k' sn', p ≠ rmErase k' sn') ∧
      p.retry.holdsState = false ∧ p.retry.holdsRecord = none ∧ (∀ k' sn', p.retry ≠ rmErase k' sn') ∧
      (p.locked sn).holdsRecord = some (k, sn) ∧ (∀ k' sn', p.locked sn ≠ rmErase k' sn') ∧
      (p.locked sn).holdsState = !p.unlocksAfterTry := by
  cases p <;> simp_all [findsKey, holdsState, holdsRecord, retry, locked, unlocksAfterTry]

/-- The pcs of `lock(shared_state.lock)`: they hold nothing, and hold `stateLock` once it returns. -/
theorem acquires_spec {p q : Pc} (h : p.acquires = some q) :
    p.holdsState = false ∧ p.holdsRecord = none ∧ (∀ k sn, p ≠ rmErase k sn) ∧
      q.holdsState = true ∧ q.holdsRecord = none ∧ (∀ k sn, q ≠ rmErase k sn) := by
  cases p <;> simp [acquires] at h <;> subst h <;> simp [holdsState, holdsRecord]

theorem start_spec (op : Op) :
    op.start.holdsState = false ∧ op.start.holdsRecord = none ∧ ∀ k sn, op.start ≠ rmErase k sn := by
  cases op <;> simp only [Op.start] <;> (try split_ifs) <;> simp [holdsState, holdsRecord]

end Pc

/-- A request only adds a fresh record, unlocked and with an open descriptor. -/
theorem Request.run_entries (normalize : String → String) (own : Uuid) (serial : ℕ)
    (ans : FsAnswer) (m : TransferMap) (req : Request) :
    (∀ x ∈ m.entries, x ∈ (req.run normalize own serial ans m).entries) ∧
      ∀ x ∈ (req.run normalize own serial ans m).entries,
        x ∈ m.entries ∨ x.2.lock = none ∧ x.2.fdOpen = true := by
  cases req with
  | write path mode =>
    simp only [Request.run]
    split
    · rename_i r hr
      obtain ⟨-, -, -, -, -, hmem⟩ := requestFileWrite_eq_ok hr
      refine ⟨fun x hx => (hmem x).mpr (Or.inr hx), fun x hx => ?_⟩
      rcases (hmem x).mp hx with rfl | h
      · exact Or.inr ⟨rfl, rfl⟩
      · exact Or.inl h
    · exact ⟨fun _ h => h, fun _ h => Or.inl h⟩
  | read path alreadyhave =>
    simp only [Request.run]
    split
    · rename_i r hr
      obtain ⟨-, -, -, -, -, hmem⟩ := requestFileRead_eq_ok hr
      refine ⟨fun x hx => (hmem x).mpr (Or.inr hx), fun x hx => ?_⟩
      rcases (hmem x).mp hx with rfl | h
      · exact Or.inr ⟨rfl, rfl⟩
      · exact Or.inl h
    · exact ⟨fun _ h => h, fun _ h => Or.inl h⟩
  | addrs => exact ⟨fun _ h => h, fun _ h => Or.inl h⟩

namespace Sys

variable (s : Sys) (t : Tid) (p : Pc)

@[simp] theorem goto_pc_self : (s.goto t p).pc t = p := by simp [goto]

@[simp] theorem goto_pc_ne {t' : Tid} (h : t' ≠ t) : (s.goto t p).pc t' = s.pc t' := by
  simp [goto, h]

@[simp] theorem goto_stateLock : (s.goto t p).stateLock = s.stateLock := rfl

@[simp] theorem goto_transfers : (s.goto t p).transfers = s.transfers := rfl

@[simp] theorem unlockRecord_pc (k : Uuid) : (s.unlockRecord k).pc = s.pc := rfl

@[simp] theorem unlockRecord_stateLock (k : Uuid) : (s.unlockRecord k).stateLock = s.stateLock := rfl

@[simp] theorem runRequest_pc (normalize : String → String) (own : Uuid) (req : Request)
    (ans : FsAnswer) : (s.runRequest normalize t own req ans).pc = (s.goto t .idle).pc := rfl

@[simp] theorem runRequest_transfers (normalize : String → String) (own : Uuid) (req : Request)
    (ans : FsAnswer) :
    (s.runRequest normalize t own req ans).transfers =
      req.run normalize own s.nextSerial ans s.transfers := rfl

end Sys

/-- The lock invariant: the owners recorded in the mutexes agree with the program counters. -/
structure LockInv (s : Sys) : Prop where
  /-- `stateLock` is owned exactly by the thread inside a critical section of it. -/
  stateOwner : ∀ t, s.stateLock = some t ↔ (s.pc t).holdsState = true
  /-- A thread that holds a record's mutex finds the record under its key, locked by itself. -/
  holder : ∀ t k sn, (s.pc t).holdsRecord = some (k, sn) →
    ∃ r, (k, r) ∈ s.transfers.entries ∧ r.serial = sn ∧ r.lock = some t
  /-- A record's mutex is owned only by a thread whose pc holds that record. -/
  owner : ∀ k r t, (k, r) ∈ s.transfers.entries → r.lock = some t →
    (s.pc t).holdsRecord = some (k, r.serial)
  /-- A closed descriptor belongs to the record that `removeUUID` is about to erase. -/
  fdOpen : ∀ k r, (k, r) ∈ s.transfers.entries → r.fdOpen = false →
    ∃ t, s.pc t = .rmErase k r.serial

namespace LockInv

variable {s : Sys} {t : Tid} {p : Pc}

theorem init : LockInv Sys.init where
  stateOwner t := by simp [Sys.init, Pc.holdsState]
  holder t k sn h := by simp [Sys.init, Pc.holdsRecord] at h
  owner k r t h := by simp [Sys.init, TransferMap.empty] at h
  fdOpen k r h := by simp [Sys.init, TransferMap.empty] at h

/-- Two threads that hold records under one key are the same thread. -/
theorem holder_unique (hi : LockInv s) {t' : Tid} {k : Uuid} {sn sn' : ℕ}
    (h : (s.pc t).holdsRecord = some (k, sn)) (h' : (s.pc t').holdsRecord = some (k, sn')) :
    t = t' := by
  obtain ⟨r, hr, -, hl⟩ := hi.holder _ _ _ h
  obtain ⟨r', hr', -, hl'⟩ := hi.holder _ _ _ h'
  rw [TransferMap.eq_of_mem_of_mem hr hr', hl'] at hl
  exact (Option.some.inj hl).symm

/-- `stateLock` after a step of `t` that moves it to `p`: the other threads keep their claim and
`t` owns it exactly when `p` is inside a critical section. -/
def StateMove (s : Sys) (t : Tid) (p : Pc) (L : Option Tid) : Prop :=
  (∀ t', t' ≠ t → (L = some t' ↔ s.stateLock = some t')) ∧ (L = some t ↔ p.holdsState = true)

theorem stateMove_keep (hi : LockInv s) (hs : p.holdsState = (s.pc t).holdsState) :
    StateMove s t p s.stateLock :=
  ⟨fun _ _ => Iff.rfl, by rw [hs]; exact hi.stateOwner t⟩

theorem stateMove_take (hfree : s.stateLock = none) (hs : p.holdsState = true) :
    StateMove s t p (some t) :=
  ⟨fun t' h => by simp [hfree, Ne.symm h], by simp [hs]⟩

theorem stateMove_release (hi : LockInv s) (ho : (s.pc t).holdsState = true)
    (hs : p.holdsState = false) : StateMove s t p none :=
  ⟨fun t' h => by simp [(hi.stateOwner t).mpr ho, Ne.symm h], by simp [hs]⟩

theorem stateOwner_move {L : Option Tid} (hi : LockInv s) (hL : StateMove s t p L) (t' : Tid) :
    L = some t' ↔ ((s.goto t p).pc t').holdsState = true := by
  by_cases h : t' = t
  · subst h
    simpa using hL.2
  · simpa [h] using (hL.1 t' h).trans (hi.stateOwner t')

/-- A thread moves to a pc that holds the same record, taking or releasing `stateLock`. -/
theorem move {L : Option Tid} (hi : LockInv s) (hL : StateMove s t p L)
    (hr : p.holdsRecord = (s.pc t).holdsRecord)
    (he : ∀ k sn, s.pc t = .rmErase k sn → p = .rmErase k sn) :
    LockInv { s.goto t p with stateLock := L } where
  stateOwner := hi.stateOwner_move hL
  holder t' k sn h' := by
    by_cases h : t' = t
    · subst h
      rw [Sys.goto_pc_self, hr] at h'
      exact hi.holder _ _ _ h'
    · rw [Sys.goto_pc_ne _ _ _ h] at h'
      exact hi.holder _ _ _ h'
  owner k r t' hm hl := by
    by_cases h : t' = t
    · subst h
      rw [Sys.goto_pc_self, hr]
      exact hi.owner _ _ _ hm hl
    · rw [Sys.goto_pc_ne _ _ _ h]
      exact hi.owner _ _ _ hm hl
  fdOpen k r hm hf := by
    obtain ⟨t', ht'⟩ := hi.fdOpen k r hm hf
    by_cases h : t' = t
    · subst h
      exact ⟨t', by rw [Sys.goto_pc_self, he _ _ ht']⟩
    · exact ⟨t', by rw [Sys.goto_pc_ne _ _ _ h, ht']⟩

/-- A thread gives up the record it holds and moves to a pc that holds none. -/
theorem unlock {L : Option Tid} {k : Uuid} {sn : ℕ} (hi : LockInv s) (hL : StateMove s t p L)
    (hold : (s.pc t).holdsRecord = some (k, sn)) (hr : p.holdsRecord = none)
    (hne : ∀ k sn, s.pc t ≠ .rmErase k sn) :
    LockInv { (s.goto t p).unlockRecord k with stateLock := L } where
  stateOwner := hi.stateOwner_move hL
  holder t' k' sn' h' := by
    have ht : t' ≠ t := by rintro rfl; simp [hr] at h'
    simp only [Sys.unlockRecord_pc, Sys.goto_pc_ne _ _ _ ht] at h'
    have hk : k' ≠ k := by rintro rfl; exact ht (hi.holder_unique h' hold)
    obtain ⟨r, hm, hs, hl⟩ := hi.holder _ _ _ h'
    exact ⟨r, TransferMap.mem_modify.mpr ⟨r, hm, by simp [hk]⟩, hs, hl⟩
  owner k' r' t' hm hl := by
    obtain ⟨r, hm, hr'⟩ := TransferMap.mem_modify.mp hm
    dsimp only at hm hr'
    by_cases hk : k' = k
    · simp [hk] at hr'
      simp [hr'] at hl
    · simp only [hk, if_false] at hr'
      subst hr'
      have ho := hi.owner _ _ _ hm hl
      have ht : t' ≠ t := by
        rintro rfl
        rw [hold] at ho
        exact hk (Prod.mk.inj (Option.some.inj ho)).1.symm
      simpa [ht] using ho
  fdOpen k' r' hm hf := by
    obtain ⟨r, hm, hr'⟩ := TransferMap.mem_modify.mp hm
    dsimp only at hm hr'
    have hr2 : r'.fdOpen = r.fdOpen ∧ r'.serial = r.serial := by
      split_ifs at hr' <;> rw [hr'] <;> exact ⟨rfl, rfl⟩
    obtain ⟨t', ht'⟩ := hi.fdOpen k' r hm (hr2.1 ▸ hf)
    have ht : t' ≠ t := by rintro rfl; exact hne _ _ ht'
    exact ⟨t', by simpa [ht, hr2.2] using ht'⟩

/-- `try_lock` succeeds: the record under `k` is now owned by `t`. -/
theorem lockRecord {L : Option Tid} {k : Uuid} {r : TransferProps} (hi : LockInv s)
    (hk : (s.pc t).findsKey = some k) (hf : s.transfers.find k = some r) (hl : r.lock = none)
    (hL : StateMove s t ((s.pc t).locked r.serial) L) :
    LockInv { s.goto t ((s.pc t).locked r.serial) with
      transfers := s.transfers.modify k fun r => { r with lock := some t }, stateLock := L } where
  stateOwner := hi.stateOwner_move hL
  holder t' k' sn' h' := by
    have hspec := Pc.findsKey_spec hk r.serial
    have hm := TransferMap.find_eq_some_iff.mp hf
    by_cases ht : t' = t
    · subst ht
      simp only [Sys.goto_pc_self, hspec.2.2.2.2.2.2.1, Option.some.injEq, Prod.mk.injEq] at h'
      obtain ⟨rfl, rfl⟩ := h'
      exact ⟨{ r with lock := some t' }, TransferMap.mem_modify.mpr ⟨r, hm, by simp⟩, rfl, rfl⟩
    · simp only [Sys.goto_pc_ne _ _ _ ht] at h'
      obtain ⟨r', hm', hs, hl'⟩ := hi.holder _ _ _ h'
      have hk' : k' ≠ k := by
        rintro rfl
        rw [TransferMap.eq_of_mem_of_mem hm hm', hl'] at hl
        cases hl
      exact ⟨r', TransferMap.mem_modify.mpr ⟨r', hm', by simp [hk']⟩, hs, hl'⟩
  owner k' r' t' hm' hl' := by
    have hspec := Pc.findsKey_spec hk r.serial
    obtain ⟨r0, hm0, hr'⟩ := TransferMap.mem_modify.mp hm'
    dsimp only at hm0 hr'
    by_cases hk' : k' = k
    · subst hk'
      rw [TransferMap.eq_of_mem_of_mem hm0 (TransferMap.find_eq_some_iff.mp hf)] at hr'
      simp only [if_true] at hr'
      subst hr'
      cases hl'
      simp [hspec.2.2.2.2.2.2.1]
    · simp only [hk', if_false] at hr'
      subst hr'
      have ho := hi.owner _ _ _ hm0 hl'
      have ht : t' ≠ t := by rintro rfl; rw [hspec.2.1] at ho; cases ho
      simpa [ht] using ho
  fdOpen k' r' hm' hf' := by
    have hspec := Pc.findsKey_spec hk r.serial
    obtain ⟨r0, hm0, hr'⟩ := TransferMap.mem_modify.mp hm'
    dsimp only at hm0 hr'
    have hr2 : r'.fdOpen = r0.fdOpen ∧ r'.serial = r0.serial := by
      split_ifs at hr' <;> rw [hr'] <;> exact ⟨rfl, rfl⟩
    obtain ⟨t', ht'⟩ := hi.fdOpen k' r0 hm0 (hr2.1 ▸ hf')
    have ht : t' ≠ t := by rintro rfl; exact hspec.2.2.1 _ _ ht'
    exact ⟨t', by simpa [ht, hr2.2] using ht'⟩

/-- `transfer.fd->close(...)` under both locks. -/
theorem close {own : Uuid} {sn : ℕ} (hi : LockInv s) (h : s.pc t = .rmClose own sn) :
    LockInv { s.goto t (.rmErase own sn) with
      transfers := s.transfers.modify own fun r => { r with fdOpen := false } } where
  stateOwner := hi.stateOwner_move (stateMove_keep hi (by simp [h, Pc.holdsState]))
  holder t' k sn' h' := by
    have hh : (s.pc t').holdsRecord = some (k, sn') := by
      by_cases ht : t' = t
      · subst ht
        simpa [h, Pc.holdsRecord] using h'
      · simpa [ht] using h'
    obtain ⟨r, hm, hs, hl⟩ := hi.holder _ _ _ hh
    refine ⟨if k = own then { r with fdOpen := false } else r,
      TransferMap.mem_modify.mpr ⟨r, hm, rfl⟩, ?_, ?_⟩ <;> split_ifs <;> assumption
  owner k r' t' hm hl := by
    obtain ⟨r, hm0, hr'⟩ := TransferMap.mem_modify.mp hm
    dsimp only at hm0 hr'
    have hr2 : r'.lock = r.lock ∧ r'.serial = r.serial := by
      split_ifs at hr' <;> rw [hr'] <;> exact ⟨rfl, rfl⟩
    have ho := hi.owner _ _ _ hm0 (hr2.1 ▸ hl)
    by_cases ht : t' = t
    · subst ht
      simpa [h, Pc.holdsRecord, hr2.2] using ho
    · simpa [ht, hr2.2] using ho
  fdOpen k r' hm hf := by
    obtain ⟨r, hm0, hr'⟩ := TransferMap.mem_modify.mp hm
    dsimp only at hm0 hr'
    by_cases hk : k = own
    · subst hk
      simp only [if_true] at hr'
      subst hr'
      obtain ⟨r1, hm1, hs1, -⟩ := hi.holder t k sn (by simp [h, Pc.holdsRecord])
      rw [TransferMap.eq_of_mem_of_mem hm0 hm1, hs1]
      exact ⟨t, by simp⟩
    · simp only [hk, if_false] at hr'
      subst hr'
      obtain ⟨t', ht'⟩ := hi.fdOpen _ _ hm0 hf
      have ht : t' ≠ t := by rintro rfl; rw [h] at ht'; cases ht'
      exact ⟨t', by simpa [ht] using ht'⟩

/-- `transfers.erase(ptr)` under both locks, then both locks go out of scope. -/
theorem erase {own : Uuid} {sn : ℕ} (hi : LockInv s) (h : s.pc t = .rmErase own sn) :
    LockInv { s.goto t .idle with transfers := s.transfers.erase own, stateLock := none } where
  stateOwner := hi.stateOwner_move
    (stateMove_release hi (by simp [h, Pc.holdsState]) (by simp [Pc.holdsState]))
  holder t' k sn' h' := by
    have ht : t' ≠ t := by rintro rfl; simp [Pc.holdsRecord] at h'
    simp only [Sys.goto_pc_ne _ _ _ ht] at h'
    have hk : k ≠ own := by
      rintro rfl
      exact ht (hi.holder_unique h' (by rw [h]; rfl))
    obtain ⟨r, hm, hs, hl⟩ := hi.holder _ _ _ h'
    exact ⟨r, TransferMap.mem_erase.mpr ⟨hm, hk⟩, hs, hl⟩
  owner k r t' hm hl := by
    obtain ⟨hm, hk⟩ := TransferMap.mem_erase.mp hm
    have ho := hi.owner _ _ _ hm hl
    have ht : t' ≠ t := by
      rintro rfl
      simp [h, Pc.holdsRecord] at ho
      exact hk ho.1.symm
    simpa [ht] using ho
  fdOpen k r hm hf := by
    obtain ⟨hm, hk⟩ := TransferMap.mem_erase.mp hm
    obtain ⟨t', ht'⟩ := hi.fdOpen _ _ hm hf
    have ht : t' ≠ t := by
      rintro rfl
      rw [h] at ht'
      cases ht'
      exact hk rfl
    exact ⟨t', by simpa [ht] using ht'⟩

/-- A request under `stateLock` adds at most a fresh record and releases the lock. -/
theorem request {normalize : String → String} {own : Uuid} {req : Request} (ans : FsAnswer)
    (hi : LockInv s) (h : s.pc t = .reqLocked own req) :
    LockInv (s.runRequest normalize t own req ans) where
  stateOwner := hi.stateOwner_move
    (stateMove_release hi (by simp [h, Pc.holdsState]) (by simp [Pc.holdsState]))
  holder t' k sn h' := by
    have ht : t' ≠ t := by rintro rfl; simp [Pc.holdsRecord] at h'
    simp only [Sys.runRequest_pc, Sys.goto_pc_ne _ _ _ ht] at h'
    obtain ⟨r, hm, hs, hl⟩ := hi.holder _ _ _ h'
    exact ⟨r, (Request.run_entries _ _ _ _ _ req).1 _ hm, hs, hl⟩
  owner k r t' hm hl := by
    rcases (Request.run_entries _ _ _ _ _ req).2 _ hm with hm | ⟨hn, -⟩
    · have ho := hi.owner _ _ _ hm hl
      have ht : t' ≠ t := by rintro rfl; simp [h, Pc.holdsRecord] at ho
      simpa [ht] using ho
    · exact Option.noConfusion (hl.symm.trans hn)
  fdOpen k r hm hf := by
    rcases (Request.run_entries _ _ _ _ _ req).2 _ hm with hm | ⟨-, ho⟩
    · obtain ⟨t', ht'⟩ := hi.fdOpen _ _ hm hf
      have ht : t' ≠ t := by rintro rfl; rw [h] at ht'; cases ht'
      exact ⟨t', by simpa [ht] using ht'⟩
    · exact absurd (hf.symm.trans ho) Bool.false_ne_true

/-- A thread moves to a pc that holds the same locks. -/
theorem goto (hi : LockInv s) (hs : p.holdsState = (s.pc t).holdsState)
    (hr : p.holdsRecord = (s.pc t).holdsRecord)
    (he : ∀ k sn, s.pc t = .rmErase k sn → p = .rmErase k sn) : LockInv (s.goto t p) :=
  hi.move (stateMove_keep hi hs) hr he

/-- Every step keeps the lock invariant. -/
theorem step {normalize : String → String} {s' : Sys} (hi : LockInv s)
    (hs : Step normalize s t s') : LockInv s' := by
  cases hs with
  | start op h =>
    obtain ⟨h1, h2, -⟩ := Pc.start_spec op
    exact hi.goto (by rw [h1, h]; rfl) (by rw [h2, h]; rfl) (by simp [h])
  | acquire h hfree =>
    obtain ⟨-, h2, h3, h4, h5, -⟩ := Pc.acquires_spec h
    exact hi.move (stateMove_take hfree h4) (by rw [h2, h5]) fun k sn he => absurd he (h3 k sn)
  | request ans h => exact hi.request ans h
  | findMissing h hf =>
    obtain ⟨h1, h2, h3, -⟩ := Pc.findsKey_spec h 0
    exact hi.move (stateMove_release hi h1 (by simp [Pc.holdsState]))
      (by rw [h2]; rfl) fun k sn he => absurd he (h3 k sn)
  | findBusy h hf hl =>
    obtain ⟨h1, h2, h3, h4, h5, -⟩ := Pc.findsKey_spec h 0
    exact hi.move (stateMove_release hi h1 h4) (by rw [h2, h5]) fun k sn he => absurd he (h3 k sn)
  | @findLocked k r h hf hl =>
    obtain ⟨h1, -, -, -, -, -, -, -, h9⟩ := Pc.findsKey_spec h r.serial
    refine hi.lockRecord h hf hl ?_
    cases hu : (s.pc t).unlocksAfterTry
    · exact stateMove_keep hi (by simp [h9, hu, h1])
    · exact stateMove_release hi h1 (by simp [h9, hu])
  | rmClose h => exact hi.close h
  | rmErase h => exact hi.erase h
  | xfLoopGo h _ | xfLoopEnd h _ | xfChecked h _ _ | xfChunk _ h _ | dsParsed _ _ h | dsStop h =>
    exact hi.goto (by simp [h, Pc.holdsState]) (by simp [h, Pc.holdsRecord]) (by simp [h])
  | xfRejected h _ _ | xfFail h | xfDone h _ | dsDone h | dsFail h =>
    exact hi.unlock (stateMove_keep hi (by simp [h, Pc.holdsState])) (by rw [h]; rfl)
      (by simp [Pc.holdsRecord]) (by simp [h])
  | dsChecked h _ _ =>
    exact hi.move (stateMove_release hi (by simp [h, Pc.holdsState]) (by simp [Pc.holdsState]))
      (by simp [h, Pc.holdsRecord]) (by simp [h])
  | dsRejected h _ _ =>
    exact hi.unlock (stateMove_release hi (by simp [h, Pc.holdsState]) (by simp [Pc.holdsState]))
      (by rw [h]; rfl) (by simp [Pc.holdsRecord]) (by simp [h])
  | dsChunk _ => exact hi

end LockInv

/-- The lock invariant holds in every reachable state. -/
theorem Reachable.lockInv {normalize : String → String} {s : Sys} (h : Reachable normalize s) :
    LockInv s := by
  induction h with
  | init => exact LockInv.init
  | step _ hs ih => exact ih.step hs

end ETransfer.EtdLockProtocol
