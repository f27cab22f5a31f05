import Mathlib.Data.String.Basic

/-!
# The transfer registry of an ETD daemon

`etd_state::transfers` is a `std::map` from the UUID of an `ETDServer` to the properties of the
one transfer it owns. Its entries are kept in key order, so a key occurs once by construction.
The parts of `ETDServer::requestFileWrite`, `requestFileRead` and `removeUUID` that run under
`stateLock` are functions of the map here; the daemon's environment (path normalisation and the
answers of `open(2)` and `lseek(2)`) is passed in. The registry invariant of the daemon, that a
record sits under its requester's UUID and that a shared path is shared by readers only, is kept
by each of them. The locks and the threads that use them are in `EtdLockProtocol`.
-/

namespace ETransfer.EtdRegistry

/-- `etdc::openmode_type`. -/
inductive OpenMode where
  | read
  | new
  | overWrite
  | resume
  | skipExisting
  deriving DecidableEq, Repr

/-- Threads of the daemon, any number of them. -/
abbrev Tid := Nat

/-- `etdc::uuid_type`, an equality-comparable token with the order of `std::map`'s keys. -/
abbrev Uuid := String

/-- `etdc::transferprops_type`: the open descriptor, the normalized path, the open mode and the
per-record mutex, with two ghost fields that the C++ record does not have. -/
structure TransferProps where
  /-- `fd`: whether the owned descriptor is still open. -/
  fdOpen : Bool
  /-- `path`: the normalized path. -/
  path : String
  /-- `openMode`. -/
  openMode : OpenMode
  /-- `lock`: the thread that owns the record's mutex, if any. -/
  lock : Option Tid
  /-- Ghost: the UUID of the `ETDServer` whose request inserted the record. -/
  requester : Uuid
  /-- Ghost: the identity of the heap object, which an iterator to the record refers to. -/
  serial : ℕ
  deriving DecidableEq, Repr

/-- `transfermap_type`: the entries of the `std::map` in increasing key order. -/
structure TransferMap where
  /-- The (key, record) pairs, in the iteration order of the map. -/
  entries : List (Uuid × TransferProps)
  /-- Keys strictly increase along the entries. -/
  sorted : entries.Pairwise (fun a b => a.1 < b.1)

namespace TransferMap

/-- The empty map of a freshly started daemon. -/
def empty : TransferMap := ⟨[], List.Pairwise.nil⟩

/-- `transfers.find(k)`. -/
def find (m : TransferMap) (k : Uuid) : Option TransferProps := m.entries.lookup k

/-- A key is at most once among sorted entries, so `find` returns exactly the stored record. -/
theorem find_eq_some_iff {m : TransferMap} {k : Uuid} {r : TransferProps} :
    m.find k = some r ↔ (k, r) ∈ m.entries := by
  obtain ⟨es, hs⟩ := m
  simp only [find]
  induction es with
  | nil => simp
  | cons e es ih =>
    obtain ⟨a, b⟩ := e
    obtain ⟨hlt, hs⟩ := List.pairwise_cons.mp hs
    by_cases hk : k = a
    · subst hk
      have hnot : (k, r) ∉ es := fun h => lt_irrefl k (hlt (k, r) h)
      simp [List.lookup_cons, hnot, eq_comm]
    · have hne : (k == a) = false := by simpa using hk
      simp [List.lookup_cons, hne, hk, ih hs]

/-- Ordered insertion of `std::map::emplace`; `none` when the key is already taken. -/
def insertEntry (k : Uuid) (v : TransferProps) :
    List (Uuid × TransferProps) → Option (List (Uuid × TransferProps))
  | [] => some [(k, v)]
  | e :: es =>
    if k < e.1 then some ((k, v) :: e :: es)
    else if k = e.1 then none
    else (insertEntry k v es).map (e :: ·)

theorem mem_insertEntry {k : Uuid} {v : TransferProps} :
    ∀ {es es' : List (Uuid × TransferProps)}, insertEntry k v es = some es' →
      ∀ x, x ∈ es' ↔ x = (k, v) ∨ x ∈ es
  | [], es', h, x => by cases h; simp
  | e :: es, es', h, x => by
    simp only [insertEntry] at h
    split_ifs at h with h1 h2
    · cases h; simp
    · obtain ⟨es'', h', rfl⟩ := Option.map_eq_some'.mp h
      simp only [List.mem_cons, mem_insertEntry h' x]
      tauto

theorem insertEntry_sorted {k : Uuid} {v : TransferProps} :
    ∀ {es es' : List (Uuid × TransferProps)}, es.Pairwise (fun a b => a.1 < b.1) →
      insertEntry k v es = some es' → es'.Pairwise (fun a b => a.1 < b.1)
  | [], es', _, h => by cases h; simp
  | e :: es, es', hs, h => by
    obtain ⟨hlt, hs'⟩ := List.pairwise_cons.mp hs
    simp only [insertEntry] at h
    split_ifs at h with h1 h2
    · cases h
      refine List.Pairwise.cons (fun x hx => ?_) hs
      rcases List.mem_cons.mp hx with rfl | hx
      · exact h1
      · exact lt_trans h1 (hlt x hx)
    · obtain ⟨es'', h', rfl⟩ := Option.map_eq_some'.mp h
      have hek : e.1 < k := lt_of_le_of_ne (not_lt.mp h1) (Ne.symm h2)
      refine List.Pairwise.cons (fun x hx => ?_) (insertEntry_sorted hs' h')
      rcases (mem_insertEntry h' x).mp hx with rfl | hx
      · exact hek
      · exact hlt x hx

theorem insertEntry_eq_none {k : Uuid} {v : TransferProps} :
    ∀ {es : List (Uuid × TransferProps)}, insertEntry k v es = none → ∃ r, (k, r) ∈ es
  | [], h => by cases h
  | e :: es, h => by
    simp only [insertEntry] at h
    split_ifs at h with h1 h2
    · exact ⟨e.2, by rw [h2]; exact List.mem_cons_self _ _⟩
    · obtain ⟨r, hr⟩ := insertEntry_eq_none (Option.map_eq_none'.mp h)
      exact ⟨r, List.mem_cons_of_mem _ hr⟩

/-- `transfers.emplace(k, v)`: the new map and whether `v` went in. -/
def emplace (m : TransferMap) (k : Uuid) (v : TransferProps) : TransferMap × Bool :=
  match h : insertEntry k v m.entries with
  | some es => (⟨es, insertEntry_sorted m.sorted h⟩, true)
  | none => (m, false)

/-- `emplace` of an absent key adds exactly its entry. -/
theorem emplace_of_find_none {m : TransferMap} {k : Uuid} {v : TransferProps}
    (h : m.find k = none) :
    (m.emplace k v).2 = true ∧ ∀ x, x ∈ (m.emplace k v).1.entries ↔ x = (k, v) ∨ x ∈ m.entries := by
  unfold emplace
  split
  · rename_i es hes
    exact ⟨rfl, mem_insertEntry hes⟩
  · rename_i hes
    obtain ⟨r, hr⟩ := insertEntry_eq_none hes
    rw [← find_eq_some_iff, h] at hr
    cases hr

/-- `emplace` keeps what `insertEntry` computes. -/
theorem emplace_of_insertEntry {m : TransferMap} {k : Uuid} {v : TransferProps}
    {es : List (Uuid × TransferProps)} (h : insertEntry k v m.entries = some es) :
    m.emplace k v = (⟨es, insertEntry_sorted m.sorted h⟩, true) := by
  unfold emplace
  split <;> rename_i h' <;> rw [h] at h' <;> cases h'
  rfl

/-- `transfers.erase(k)` of the entry under `k`. -/
def erase (m : TransferMap) (k : Uuid) : TransferMap :=
  ⟨m.entries.filter (fun e => e.1 != k), m.sorted.filter _⟩

@[simp] theorem mem_erase {m : TransferMap} {k : Uuid} {x : Uuid × TransferProps} :
    x ∈ (m.erase k).entries ↔ x ∈ m.entries ∧ x.1 ≠ k := by
  simp [erase]

/-- Changes a record in place, through the iterator to it; keys do not move. -/
def modify (m : TransferMap) (k : Uuid) (f : TransferProps → TransferProps) : TransferMap :=
  ⟨m.entries.map (fun e => if e.1 = k then (e.1, f e.2) else e),
    List.pairwise_map.mpr (m.sorted.imp fun {a b} h => by split_ifs <;> exact h)⟩

theorem mem_modify {m : TransferMap} {k : Uuid} {f : TransferProps → TransferProps}
    {x : Uuid × TransferProps} :
    x ∈ (m.modify k f).entries ↔ ∃ r, (x.1, r) ∈ m.entries ∧ x.2 = if x.1 = k then f r else r := by
  simp only [modify, List.mem_map]
  constructor
  · rintro ⟨e, he, rfl⟩
    split_ifs with h <;> exact ⟨e.2, by simpa using he, by simp [h]⟩
  · rintro ⟨r, hr, hx⟩
    refine ⟨(x.1, r), hr, ?_⟩
    split_ifs at hx ⊢ <;> exact Prod.ext rfl hx.symm

/-- A key carries one record. -/
theorem eq_of_mem_of_mem {m : TransferMap} {k : Uuid} {r r' : TransferProps}
    (h : (k, r) ∈ m.entries) (h' : (k, r') ∈ m.entries) : r = r' :=
  Option.some.inj ((find_eq_some_iff.mpr h).symm.trans (find_eq_some_iff.mpr h'))

/-- Filtering out a key just inserted into sorted entries gives the entries back. -/
theorem filter_insertEntry {k : Uuid} {v : TransferProps} :
    ∀ {es es' : List (Uuid × TransferProps)}, es.Pairwise (fun a b => a.1 < b.1) →
      insertEntry k v es = some es' → es'.filter (fun e => e.1 != k) = es
  | [], es', _, h => by cases h; simp
  | e :: es, es', hs, h => by
    obtain ⟨hlt, hs'⟩ := List.pairwise_cons.mp hs
    simp only [insertEntry] at h
    split_ifs at h with h1 h2
    · cases h
      have hrest : ∀ x ∈ es, (x.1 != k) = true := fun x hx =>
        bne_iff_ne.mpr (ne_of_gt (lt_trans h1 (hlt x hx)))
      simp [ne_of_gt h1, List.filter_eq_self.mpr hrest]
    · obtain ⟨es'', h', rfl⟩ := Option.map_eq_some'.mp h
      simp only [List.filter_cons, bne_iff_ne.mpr (Ne.symm h2), if_true, filter_insertEntry hs' h']

/-- `erase` undoes an `emplace` that went in: the map is the one before, entry for entry. -/
theorem erase_emplace {m : TransferMap} {k : Uuid} {v : TransferProps}
    (h : (m.emplace k v).2 = true) : (m.emplace k v).1.erase k = m := by
  revert h
  unfold emplace
  split
  · rename_i es hes
    intro _
    simp only [erase, filter_insertEntry m.sorted hes]
  · simp

end TransferMap

/-- `allowedModes` of `ETDServer::requestFileWrite`. -/
def allowedModes : List OpenMode := [.new, .overWrite, .resume, .skipExisting]

/-- What the file system answers under `stateLock`: `new etdc_file(nPath, omode, ...)` and its
`lseek(fd, 0, SEEK_END)` give the size of the file, or the text of the exception. -/
abbrev Opened := Except String Int

/-- The record that a successful request emplaces. -/
def newRecord (own : Uuid) (nPath : String) (mode : OpenMode) (serial : ℕ) : TransferProps :=
  ⟨true, nPath, mode, none, own, serial⟩

/-- `ETDServer::requestFileWrite`, all of which runs under `stateLock`; `normalize` is
`detail::normalize_path` and `serial` names the record it creates. -/
def requestFileWrite (normalize : String → String) (own : Uuid) (path : String) (mode : OpenMode)
    (opened : Opened) (serial : ℕ) (m : TransferMap) : Except String (TransferMap × Uuid × Int) :=
  if (m.find own).isSome then .error "requestFileWrite: this server is already busy" else
  let nPath := normalize path
  if mode ∉ allowedModes then .error s!"invalid open mode for requestFileWrite({path})" else
  if m.entries.any (·.2.path == nPath) then
    .error s!"requestFileWrite({path}) - the path is already in use" else
  match opened with
  | .error e => .error e
  | .ok fsize =>
    match m.emplace own (newRecord own nPath mode serial) with
    | (m', true) => .ok (m', own, fsize)
    | (_, false) => .error s!"Failed to insert new entry, request file write '{path}'"

/-- `ETDServer::requestFileRead`, all of which runs under `stateLock`; `seekError` is
`strerror(errno)` when `lseek(fd, alreadyhave, SEEK_SET)` returns `-1`. -/
def requestFileRead (normalize : String → String) (own : Uuid) (path : String) (alreadyhave : Int)
    (opened : Opened) (seekError : Option String) (serial : ℕ) (m : TransferMap) :
    Except String (TransferMap × Uuid × Int) :=
  if (m.find own).isSome then .error "requestFileRead: this server is already busy" else
  let nPath := normalize path
  if !(m.entries.find? (·.2.path == nPath)).all (·.2.openMode == .read) then
    .error s!"requestFileRead({path}) - the path is already in use" else
  match opened with
  | .error e => .error e
  | .ok sz =>
    match seekError with
    | some e => .error s!"Cannot seek to position {alreadyhave} in file {path} - {e}"
    | none =>
      match m.emplace own (newRecord own nPath .read serial) with
      | (m', true) => .ok (m', own, sz - alreadyhave)
      | (_, false) => .error s!"Failed to insert new entry, request file read '{path}'"

/-- `ETDServer::removeUUID` once it holds both locks, or finds no record: a server removes only
its own UUID; `false` when it owns no record, else the record, its descriptor closed, is erased. -/
def removeUUID (own uuid : Uuid) (m : TransferMap) : Except String (TransferMap × Bool) :=
  if uuid ≠ own then .error "Cannot remove someone else's UUID!"
  else if (m.find own).isSome then .ok (m.erase own, true) else .ok (m, false)

section Spec

variable {normalize : String → String} {own u : Uuid} {path : String} {serial : ℕ}
  {m m' : TransferMap} {opened : Opened}

/-- What a successful `requestFileWrite` checked and what it inserted. -/
theorem requestFileWrite_eq_ok {mode : OpenMode} {fsize : Int}
    (h : requestFileWrite normalize own path mode opened serial m = .ok (m', u, fsize)) :
    m.find own = none ∧ mode ∈ allowedModes ∧ (∀ e ∈ m.entries, e.2.path ≠ normalize path) ∧
      opened = .ok fsize ∧ u = own ∧
      ∀ x, x ∈ m'.entries ↔ x = (own, newRecord own (normalize path) mode serial) ∨ x ∈ m.entries := by
  unfold requestFileWrite at h
  dsimp only at h
  split_ifs at h with h1 h2 h3
  split at h
  · cases h
  · rename_i fs
    split at h
    · rename_i m'' he
      cases h
      have hf : m.find own = none := by simpa using h1
      have hins := (TransferMap.emplace_of_find_none (v := newRecord own (normalize path) mode serial) hf).2
      rw [he] at hins
      exact ⟨hf, by simpa using h2, by simpa using h3, rfl, rfl, hins⟩
    · cases h

/-- What a successful `requestFileRead` checked and what it inserted. -/
theorem requestFileRead_eq_ok {alreadyhave rem : Int} {seekError : Option String}
    (h : requestFileRead normalize own path alreadyhave opened seekError serial m = .ok (m', u, rem)) :
    m.find own = none ∧
      ((m.entries.find? (·.2.path == normalize path)).all (·.2.openMode == .read)) = true ∧
      (∃ sz, opened = .ok sz ∧ rem = sz - alreadyhave) ∧ seekError = none ∧ u = own ∧
      ∀ x, x ∈ m'.entries ↔ x = (own, newRecord own (normalize path) .read serial) ∨ x ∈ m.entries := by
  unfold requestFileRead at h
  dsimp only at h
  split_ifs at h with h1 h2
  split at h
  · cases h
  · rename_i sz
    split at h
    · cases h
    · split at h
      · rename_i m'' he
        cases h
        have hf : m.find own = none := by simpa using h1
        have hins := (TransferMap.emplace_of_find_none
          (v := newRecord own (normalize path) .read serial) hf).2
        rw [he] at hins
        exact ⟨hf, by simpa using h2, ⟨sz, rfl, rfl⟩, rfl, rfl, hins⟩
      · cases h

/-- A successful `requestFileWrite` emplaced its record under `own`, so erasing `own` gives the
map back. -/
theorem erase_of_requestFileWrite {mode : OpenMode} {fsize : Int}
    (h : requestFileWrite normalize own path mode opened serial m = .ok (m', u, fsize)) :
    m'.erase own = m := by
  unfold requestFileWrite at h
  dsimp only at h
  split_ifs at h
  split at h
  · cases h
  · split at h
    · rename_i m'' he
      cases h
      have hback := TransferMap.erase_emplace (m := m) (k := own)
        (v := newRecord own (normalize path) mode serial) (by rw [he])
      rwa [he] at hback
    · cases h

/-- A successful `requestFileRead` emplaced its record under `own`, so erasing `own` gives the
map back. -/
theorem erase_of_requestFileRead {alreadyhave rem : Int} {seekError : Option String}
    (h : requestFileRead normalize own path alreadyhave opened seekError serial m = .ok (m', u, rem)) :
    m'.erase own = m := by
  unfold requestFileRead at h
  dsimp only at h
  split_ifs at h
  split at h
  · cases h
  · split at h
    · cases h
    · split at h
      · rename_i m'' he
        cases h
        have hback := TransferMap.erase_emplace (m := m) (k := own)
          (v := newRecord own (normalize path) .read serial) (by rw [he])
        rwa [he] at hback
      · cases h

end Spec

/-- The registry invariant of the daemon. -/
structure RegistryInv (m : TransferMap) : Prop where
  /-- Every record sits under the UUID of the server whose request inserted it. -/
  keyed : ∀ k r, (k, r) ∈ m.entries → r.requester = k
  /-- Records under different keys share a path only when both are open for reading. -/
  readersOnly : ∀ k r k' r', (k, r) ∈ m.entries → (k', r') ∈ m.entries → k ≠ k' →
    r.path = r'.path → r.openMode = .read ∧ r'.openMode = .read

namespace RegistryInv

theorem empty : RegistryInv TransferMap.empty :=
  ⟨by simp [TransferMap.empty], by simp [TransferMap.empty]⟩

/-- Entries that keep key, path, mode and requester keep the invariant: so do erasure and the
changes of a record's lock and descriptor. -/
theorem of_subset {m m' : TransferMap} (hi : RegistryInv m)
    (h : ∀ k r', (k, r') ∈ m'.entries → ∃ r, (k, r) ∈ m.entries ∧ r'.path = r.path ∧
      r'.openMode = r.openMode ∧ r'.requester = r.requester) : RegistryInv m' where
  keyed k r' hr' := by
    obtain ⟨r, hr, -, -, hq⟩ := h k r' hr'
    rw [hq]
    exact hi.keyed k r hr
  readersOnly k r1 k' r2 h1 h2 hk hp := by
    obtain ⟨s1, hs1, hp1, hm1, -⟩ := h k r1 h1
    obtain ⟨s2, hs2, hp2, hm2, -⟩ := h k' r2 h2
    rw [hm1, hm2]
    exact hi.readersOnly k s1 k' s2 hs1 hs2 hk (by rw [← hp1, ← hp2, hp])

/-- Adding a record under its requester's key keeps the invariant when every record that shares
its path is, like it, open for reading. -/
theorem insert {m m' : TransferMap} {k : Uuid} {v : TransferProps} (hi : RegistryInv m)
    (hv : v.requester = k) (hmem : ∀ x, x ∈ m'.entries ↔ x = (k, v) ∨ x ∈ m.entries)
    (hread : ∀ e ∈ m.entries, e.2.path = v.path → v.openMode = .read ∧ e.2.openMode = .read) :
    RegistryInv m' where
  keyed k' r hr := by
    rcases (hmem _).mp hr with h | h
    · cases h
      exact hv
    · exact hi.keyed k' r h
  readersOnly k1 r1 k2 r2 h1 h2 hne hp := by
    rcases (hmem _).mp h1 with e1 | e1 <;> rcases (hmem _).mp h2 with e2 | e2
    · cases e1
      cases e2
      exact absurd rfl hne
    · cases e1
      exact hread _ e2 hp.symm
    · cases e2
      exact (hread _ e1 hp).symm
    · exact hi.readersOnly _ _ _ _ e1 e2 hne hp

/-- Under the invariant, the one record that `requestFileRead` inspects, the first with the path,
speaks for every record with that path. -/
theorem all_read_of_find? {m : TransferMap} (hi : RegistryInv m) {p : String}
    (h : ((m.entries.find? (·.2.path == p)).all (·.2.openMode == .read)) = true) :
    ∀ e ∈ m.entries, e.2.path = p → e.2.openMode = .read := by
  rintro ⟨k, r⟩ he hp
  cases hf : m.entries.find? (·.2.path == p) with
  | none => exact absurd (List.find?_eq_none.mp hf _ he) (by simpa using hp)
  | some f =>
    obtain ⟨kf, rf⟩ := f
    rw [hf] at h
    have hfm := List.mem_of_find?_eq_some hf
    have hfp : rf.path = p := by simpa using List.find?_some hf
    have hfr : rf.openMode = .read := by simpa using h
    by_cases hk : k = kf
    · subst hk
      rw [TransferMap.eq_of_mem_of_mem he hfm]
      exact hfr
    · exact (hi.readersOnly k r kf rf he hfm hk (hp.trans hfp.symm)).1

variable {normalize : String → String} {own u : Uuid} {path : String} {serial : ℕ}
  {m m' : TransferMap} {opened : Opened}

theorem requestFileWrite {mode : OpenMode} {fsize : Int} (hi : RegistryInv m)
    (h : EtdRegistry.requestFileWrite normalize own path mode opened serial m = .ok (m', u, fsize)) :
    RegistryInv m' := by
  obtain ⟨-, -, hpath, -, -, hmem⟩ := requestFileWrite_eq_ok h
  exact hi.insert (v := newRecord own (normalize path) mode serial) rfl hmem
    fun e he hp => absurd hp (hpath e he)

/-- The subtle case: the first record with the path being a reader's is enough. -/
theorem requestFileRead {alreadyhave rem : Int} {seekError : Option String} (hi : RegistryInv m)
    (h : EtdRegistry.requestFileRead normalize own path alreadyhave opened seekError serial m =
      .ok (m', u, rem)) : RegistryInv m' := by
  obtain ⟨-, hfirst, -, -, -, hmem⟩ := requestFileRead_eq_ok h
  exact hi.insert (v := newRecord own (normalize path) .read serial) rfl hmem
    fun e he hp => ⟨rfl, hi.all_read_of_find? hfirst e he hp⟩

end RegistryInv

end ETransfer.EtdRegistry
