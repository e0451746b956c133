import Idle.Library.Machine
import Idle.Service.Toml

/-!
# The leases of a store

`DefaultStoreImpl` keeps records in a database. `get` leases the first record of a key that nobody
has, or a new one, and `set` gives it back; the leases are rows of a table that is emptied when the
store starts. What a statement does to the tables is modelled by its meaning in SQL.
-/

namespace Idle

/-- `BLOB` -/
abbrev Blob := List UInt8

/-- `BufferView`: an empty view may have no data at all. -/
inductive BufferView where
  | null
  | bytes (data : Blob)
  deriving DecidableEq

namespace BufferView

def contents : BufferView → Blob
  | null => []
  | bytes data => data

end BufferView

/-- What SQLite binds to a parameter. No value is longer than its limit, which an `int` can hold. -/
structure SQLite where
  /-- `SQLITE_LIMIT_LENGTH` -/
  lengthLimit : Nat
  limit_lt : lengthLimit < 2 ^ 31
  /-- What comes of a negative length, which is undefined for a blob. -/
  negativeBlob : Blob → Option Blob
  negativeText : StringView → Option StringView
  length_negativeBlob : ∀ data value, negativeBlob data = some value → value.length ≤ lengthLimit
  length_negativeText : ∀ data value, negativeText data = some value → value.length ≤ lengthLimit

namespace SQLite

/-- The conversion of a `size_t` to the `int` that the functions take. -/
def toInt (size : Nat) : Int := (BitVec.ofNat 32 size).toInt

/-- The first `n` elements are bound. If they are too many the parameter stays `NULL`, and nobody
looks at the result that says so. -/
def bind {α : Type} (sql : SQLite) (negative : List α → Option (List α)) (data : List α) :
    Option (List α) :=
  let n := toInt data.length
  if n < 0 then negative data
  else if n.toNat ≤ sql.lengthLimit then some (data.take n.toNat)
  else none

/-- `sqlite3_bind_blob`: the parameter is `NULL` if the pointer is. -/
def bindBlob (sql : SQLite) : BufferView → Option Blob
  | .null => none
  | .bytes data => sql.bind sql.negativeBlob data

/-- `sqlite3_bind_text` -/
def bindText (sql : SQLite) (text : StringView) : Option StringView :=
  sql.bind sql.negativeText text

variable {α : Type} {sql : SQLite} {negative : List α → Option (List α)} {data value : List α}

lemma length_le_of_bind (hneg : ∀ v, negative data = some v → v.length ≤ sql.lengthLimit)
    (h : sql.bind negative data = some value) : value.length ≤ sql.lengthLimit := by
  simp only [bind] at h
  split at h
  · exact hneg value h
  · split at h
    next hle =>
      obtain rfl := Option.some.inj h
      exact (List.length_take_le _ _).trans hle
    next => cases h

end SQLite

/-- A row of `idle_store`. -/
structure StoreRow where
  id : Nat
  key : Nat
  data : Option Blob

/-- The tables with their sequences, and what the connection remembers. -/
structure Database where
  idleKeys : List (Nat × StringView)
  keySequence : Nat
  idleStore : List StoreRow
  storeSequence : Nat
  idleLocked : List Nat
  changes : Nat
  lastInsertRowid : Nat

namespace Database

def empty : Database where
  idleKeys := []
  keySequence := 0
  idleStore := []
  storeSequence := 0
  idleLocked := []
  changes := 0
  lastInsertRowid := 0

/-! ### The statements -/

/-- `create`, on a database that has its tables. -/
def create (db : Database) : Database :=
  { db with idleLocked := [], changes := db.idleLocked.length, lastInsertRowid := 0 }

/-- `create_key_with_name` -/
def createKeyWithName (db : Database) (name : StringView) : Database :=
  if db.idleKeys.any (·.2 = name) then { db with changes := 1 }
  else
    { db with
      idleKeys := db.idleKeys ++ [(db.keySequence + 1, name)]
      keySequence := db.keySequence + 1
      changes := 1
      lastInsertRowid := db.keySequence + 1 }

/-- `select_key_with_name` -/
def selectKeyWithName (db : Database) (name : StringView) : Option Nat :=
  (db.idleKeys.find? (·.2 = name)).map Prod.fst

/-- The rows of the outer join without a partner, as far as they are of a key. -/
def unlockedIds (db : Database) (key : Nat) : List Nat :=
  (db.idleStore.filter fun row => row.id ∉ db.idleLocked ∧ row.key = key).map StoreRow.id

/-- `lock_id` -/
def lockId (db : Database) (key : Nat) : Database :=
  match (db.unlockedIds key).min? with
  | some id =>
    { db with idleLocked := db.idleLocked ++ [id], changes := 1, lastInsertRowid := id }
  | none => { db with changes := 0 }

/-- `unlock_id` -/
def unlockId (db : Database) (id : Nat) : Database :=
  { db with idleLocked := db.idleLocked.filter (· ≠ id), changes := db.idleLocked.count id }

/-- `select_data_by_id` -/
def selectDataById (db : Database) (id : Nat) : Option (Option Blob) :=
  (db.idleStore.find? (·.id = id)).map StoreRow.data

/-- `insert_store_by_key` -/
def insertStoreByKey (db : Database) (key : Nat) : Database :=
  { db with
    idleStore := db.idleStore ++ [⟨db.storeSequence + 1, key, none⟩]
    storeSequence := db.storeSequence + 1
    changes := 1
    lastInsertRowid := db.storeSequence + 1 }

/-- `update_store_by_id` and `finalize_store_by_id` -/
def updateStoreById (db : Database) (data : Option Blob) (id : Nat) : Database :=
  { db with
    idleStore := db.idleStore.map fun row => if row.id = id then { row with data := data } else row
    changes := db.idleStore.countP (·.id = id) }

/-! ### The store -/

/-- `DefaultStoreImpl::create_key_with_name`: the name must not be `NULL`, and the select has to
find a row. -/
def createKey (sql : SQLite) (db : Database) (key : StringView) : Option (Nat × Database) :=
  (sql.bindText key).bind fun name =>
    let db := db.createKeyWithName name
    (db.selectKeyWithName name).map fun keyId => (keyId, db)

/-- `try_lock`: no id is zero. -/
def tryLock (db : Database) (key : Nat) : Nat × Database :=
  let db := db.lockId key
  (if db.changes ≠ 0 then db.lastInsertRowid else 0, db)

/-- `acquire_locked`, for some rounds of its loop. -/
def acquireLocked : Nat → Database → Nat → Option (Nat × Database)
  | 0, _, _ => none
  | rounds + 1, db, key =>
    let (id, db) := db.tryLock key
    if id ≠ 0 then some (id, db) else acquireLocked rounds (db.insertStoreByKey key) key

/-- `get`: the id, and what the consumer is called with, if it is. -/
def get (sql : SQLite) (rounds : Nat) (db : Database) (key : StringView) :
    Option (Nat × Option Blob × Database) :=
  (db.createKey sql key).bind fun (keyId, db) =>
    (acquireLocked rounds db keyId).bind fun (id, db) =>
      (db.selectDataById id).map fun data => (id, data, db)

def update (sql : SQLite) (db : Database) (id : Nat) (buffer : BufferView) : Database :=
  db.updateStoreById (sql.bindBlob buffer) id

def set (sql : SQLite) (db : Database) (id : Nat) (buffer : BufferView) : Database :=
  (db.updateStoreById (sql.bindBlob buffer) id).unlockId id

/-- The ids of the records of a key. -/
def recordsOf (db : Database) (name : StringView) : List Nat :=
  (db.idleStore.filter fun row => (row.key, name) ∈ db.idleKeys).map StoreRow.id

/-- The ids of all records. -/
def ids (db : Database) : List Nat := db.idleStore.map StoreRow.id

end Database

/-- The calls of a store, and a restart. -/
inductive StoreCall where
  | get (key : StringView)
  | update (id : Nat) (buffer : BufferView)
  | set (id : Nat) (buffer : BufferView)
  | restart

/-- The database, the ids that were returned and not passed to `set`, and what was written last. -/
structure StoreState where
  db : Database
  outstanding : List Nat
  written : Nat → Option BufferView

namespace StoreState

def initial : StoreState where
  db := .empty
  outstanding := []
  written _ := none

/-- What a call does, if it does not throw; a store without a path starts over with a new
database. -/
def step (sql : SQLite) (inMemory : Bool) (rounds : Nat) (st : StoreState) :
    StoreCall → StoreState
  | .get key =>
    match st.db.get sql rounds key with
    | some (id, _, db) => { st with db := db, outstanding := st.outstanding ++ [id] }
    | none => st
  | .update id buffer =>
    { st with
      db := st.db.update sql id buffer
      written := Function.update st.written id (some buffer) }
  | .set id buffer =>
    { db := st.db.set sql id buffer
      outstanding := st.outstanding.filter (· ≠ id)
      written := Function.update st.written id (some buffer) }
  | .restart =>
    if inMemory then initial else { st with db := st.db.create, outstanding := [] }

/-- Keys are not empty, and only leased records are written. -/
def Pre (st : StoreState) : StoreCall → Prop
  | .get key => key ≠ []
  | .update id _ | .set id _ => id ∈ st.outstanding
  | .restart => True

/-- A record that there was not before. -/
def Fresh (st : StoreState) (key : StringView) (id : Nat) (db : Database) : Prop :=
  (∀ other ∈ st.db.recordsOf key, other ∈ st.outstanding) ∧ id ∉ st.db.ids ∧
    id ∈ db.recordsOf key ∧ st.written id = none

/-- What is promised of every state: the leases are the outstanding ids, each of them once. -/
def Sound (st : StoreState) : Prop :=
  st.outstanding.Nodup ∧ ∀ id, id ∈ st.db.idleLocked ↔ id ∈ st.outstanding

end StoreState

namespace Database

/-- What the constraints of the tables and their sequences give. -/
structure Valid (sql : SQLite) (db : Database) : Prop where
  ids_nodup : db.ids.Nodup
  id_pos : ∀ row ∈ db.idleStore, 0 < row.id
  id_le : ∀ row ∈ db.idleStore, row.id ≤ db.storeSequence
  key_le : ∀ row ∈ db.idleStore, row.key ≤ db.keySequence
  keys_nodup : (db.idleKeys.map Prod.fst).Nodup
  names_nodup : (db.idleKeys.map Prod.snd).Nodup
  keys_le : ∀ k ∈ db.idleKeys, k.1 ≤ db.keySequence
  names_le : ∀ k ∈ db.idleKeys, k.2.length ≤ sql.lengthLimit
  locked_nodup : db.idleLocked.Nodup
  locked_mem : ∀ id ∈ db.idleLocked, id ∈ db.ids

variable {sql : SQLite} {db : Database} {name : StringView} {key id : Nat}

/-- A row is found by a column without duplicates. -/
lemma find?_of_nodup {α β : Type} [DecidableEq β] {f : α → β} {l : List α}
    (h : (l.map f).Nodup) {a : α} (ha : a ∈ l) : l.find? (f · = f a) = some a := by
  cases hfind : l.find? (f · = f a) with
  | none =>
    have hnot := List.find?_eq_none.1 hfind a ha
    simp at hnot
  | some b =>
    have hb : f b = f a := by simpa using List.find?_some hfind
    rw [List.inj_on_of_nodup_map h (List.mem_of_find?_eq_some hfind) ha hb]

lemma mem_ids : id ∈ db.ids ↔ ∃ row ∈ db.idleStore, row.id = id := List.mem_map

lemma mem_recordsOf :
    id ∈ db.recordsOf name ↔ ∃ row ∈ db.idleStore, (row.key, name) ∈ db.idleKeys ∧ row.id = id := by
  simp [recordsOf, and_assoc]

lemma mem_unlockedIds :
    id ∈ db.unlockedIds key ↔
      id ∉ db.idleLocked ∧ ∃ row ∈ db.idleStore, row.key = key ∧ row.id = id := by
  constructor
  · intro h
    obtain ⟨row, hrow, rfl⟩ := List.mem_map.1 h
    obtain ⟨hmem, hcond⟩ := List.mem_filter.1 hrow
    obtain ⟨hlocked, hkey⟩ := of_decide_eq_true hcond
    exact ⟨hlocked, row, hmem, hkey, rfl⟩
  · rintro ⟨hlocked, row, hmem, hkey, rfl⟩
    exact List.mem_map.2 ⟨row, List.mem_filter.2 ⟨hmem, decide_eq_true ⟨hlocked, hkey⟩⟩, rfl⟩

lemma Valid.empty : Valid sql .empty where
  ids_nodup := .nil
  id_pos := nofun
  id_le := nofun
  key_le := nofun
  keys_nodup := .nil
  names_nodup := .nil
  keys_le := nofun
  names_le := nofun
  locked_nodup := .nil
  locked_mem := nofun

lemma Valid.create (h : db.Valid sql) : db.create.Valid sql :=
  { h with
    locked_nodup := .nil
    locked_mem := nofun }

/-- A statement that only counts does not matter. -/
lemma Valid.congr {db' : Database} (h : db.Valid sql) (hkeys : db'.idleKeys = db.idleKeys)
    (hkeySequence : db'.keySequence = db.keySequence) (hstore : db'.idleStore = db.idleStore)
    (hstoreSequence : db'.storeSequence = db.storeSequence)
    (hlocked : db'.idleLocked = db.idleLocked) : db'.Valid sql := by
  obtain ⟨keys, keySequence, store, storeSequence, locked, changes, rowid⟩ := db'
  obtain rfl := hkeys
  obtain rfl := hkeySequence
  obtain rfl := hstore
  obtain rfl := hstoreSequence
  obtain rfl := hlocked
  exact ⟨h.ids_nodup, h.id_pos, h.id_le, h.key_le, h.keys_nodup, h.names_nodup, h.keys_le,
    h.names_le, h.locked_nodup, h.locked_mem⟩

/-! ### Keys -/

/-- The key of a name is there after it was created, and the records of the name are those of the
key. -/
lemma Valid.createKey (h : db.Valid sql) {text : StringView}
    (hname : sql.bindText text = some name) :
    ∃ key db', db.createKey sql text = some (key, db') ∧ db'.Valid sql ∧
      (key, name) ∈ db'.idleKeys ∧ key ≤ db'.keySequence ∧ db'.idleStore = db.idleStore ∧
      db'.storeSequence = db.storeSequence ∧ db'.idleLocked = db.idleLocked ∧
      ∀ row ∈ db.idleStore, row.key = key ↔ (row.key, name) ∈ db.idleKeys := by
  by_cases hfound : ∃ key, (key, name) ∈ db.idleKeys
  · -- the name is there: the insertion is ignored and the key is selected
    obtain ⟨key, hkey⟩ := hfound
    have hany : db.idleKeys.any (·.2 = name) = true :=
      List.any_eq_true.2 ⟨_, hkey, decide_eq_true rfl⟩
    have hcreate : db.createKeyWithName name = { db with changes := 1 } := if_pos hany
    have hselect : db.selectKeyWithName name = some key := by
      rw [selectKeyWithName, find?_of_nodup h.names_nodup hkey, Option.map_some]
    refine ⟨key, { db with changes := 1 }, ?_, h.congr rfl rfl rfl rfl rfl, hkey,
      h.keys_le _ hkey, rfl, rfl, rfl, fun row hrow => ?_⟩
    · rw [Database.createKey, hname, Option.bind_some, hcreate]
      exact congrArg (Option.map _) hselect
    · constructor
      · rintro rfl
        exact hkey
      · intro hmem
        have heq := List.inj_on_of_nodup_map h.names_nodup hmem hkey rfl
        exact congrArg Prod.fst heq
  · -- the name is new and takes the next number of the sequence
    have hany : ¬db.idleKeys.any (·.2 = name) = true := by
      intro hany
      obtain ⟨k, hk, hkname⟩ := List.any_eq_true.1 hany
      exact hfound ⟨k.1, by rwa [← of_decide_eq_true hkname]⟩
    have hnot : ∀ k ∈ db.idleKeys, k.2 ≠ name := by
      rintro k hk rfl
      exact hfound ⟨k.1, hk⟩
    obtain ⟨db', hdb'⟩ : ∃ db', db' = db.createKeyWithName name := ⟨_, rfl⟩
    have hcreate : db' = { db with
        idleKeys := db.idleKeys ++ [(db.keySequence + 1, name)]
        keySequence := db.keySequence + 1
        changes := 1
        lastInsertRowid := db.keySequence + 1 } := hdb'.trans (if_neg hany)
    have hvalid : db'.Valid sql := by
      rw [hcreate]
      refine ⟨h.ids_nodup, h.id_pos, h.id_le, fun row hrow => (h.key_le row hrow).trans
        (Nat.le_succ _), ?_, ?_, ?_, ?_, h.locked_nodup, h.locked_mem⟩
      · rw [List.map_append]
        refine h.keys_nodup.append (List.nodup_singleton _) ?_
        rintro k hk hk'
        obtain ⟨e, he, rfl⟩ := List.mem_map.1 hk
        have hle := h.keys_le e he
        simp only [List.map_cons, List.map_nil, List.mem_singleton] at hk'
        omega
      · rw [List.map_append]
        refine h.names_nodup.append (List.nodup_singleton _) ?_
        rintro k hk hk'
        obtain ⟨e, he, rfl⟩ := List.mem_map.1 hk
        exact hnot e he (by simpa using hk')
      · rintro k hk
        rcases List.mem_append.1 hk with hk | hk
        · exact (h.keys_le k hk).trans (Nat.le_succ _)
        · rw [List.mem_singleton.1 hk]
      · rintro k hk
        rcases List.mem_append.1 hk with hk | hk
        · exact h.names_le k hk
        · rw [List.mem_singleton.1 hk]
          exact SQLite.length_le_of_bind (sql.length_negativeText text) hname
    have hmem : (db.keySequence + 1, name) ∈ db'.idleKeys := by
      rw [hcreate]
      exact List.mem_append_right _ (List.mem_singleton_self _)
    have hselect : db'.selectKeyWithName name = some (db.keySequence + 1) := by
      rw [selectKeyWithName, find?_of_nodup hvalid.names_nodup hmem, Option.map_some]
    refine ⟨_, db', ?_, hvalid, hmem, hvalid.keys_le _ hmem, ?_, ?_, ?_, fun row hrow => ?_⟩
    · rw [Database.createKey, hname, Option.bind_some, ← hdb']
      exact congrArg (Option.map _) hselect
    · rw [hcreate]
    · rw [hcreate]
    · rw [hcreate]
    · have hle := h.key_le row hrow
      refine ⟨fun heq => by omega, fun hmem => absurd rfl (hnot _ hmem)⟩

/-! ### Locks -/

/-- The first unlocked record of a key is locked. -/
lemma Valid.tryLock_of_min (h : db.Valid sql) (hmin : (db.unlockedIds key).min? = some id) :
    ∃ db', db.tryLock key = (id, db') ∧ id ≠ 0 ∧ db'.Valid sql ∧ db'.idleKeys = db.idleKeys ∧
      db'.idleStore = db.idleStore ∧ db'.idleLocked = db.idleLocked ++ [id] := by
  have hlock : db.lockId key = { db with
      idleLocked := db.idleLocked ++ [id]
      changes := 1
      lastInsertRowid := id } := by
    rw [lockId, hmin]
  obtain ⟨hnot, row, hrow, -, hid⟩ := mem_unlockedIds.1 (List.min?_mem hmin)
  have hpos : id ≠ 0 := hid ▸ (h.id_pos row hrow).ne'
  refine ⟨db.lockId key, ?_, hpos, ?_, ?_, ?_, ?_⟩
  · rw [Database.tryLock, hlock]
    rfl
  · rw [hlock]
    refine { h with locked_nodup := ?_, locked_mem := fun j hj => ?_ }
    · refine h.locked_nodup.append (List.nodup_singleton _) ?_
      rintro j hj hj'
      exact hnot (List.mem_singleton.1 hj' ▸ hj)
    · rcases List.mem_append.1 hj with hj | hj
      · exact h.locked_mem j hj
      · rw [List.mem_singleton.1 hj]
        exact mem_ids.2 ⟨row, hrow, hid⟩
  · rw [hlock]
  · rw [hlock]
  · rw [hlock]

lemma tryLock_of_nil (hnil : db.unlockedIds key = []) :
    db.tryLock key = (0, { db with changes := 0 }) := by
  have hlock : db.lockId key = { db with changes := 0 } := by
    rw [lockId, hnil]
    rfl
  rw [Database.tryLock, hlock]
  rfl

lemma Valid.insertStoreByKey (h : db.Valid sql) (hkey : key ≤ db.keySequence) :
    (db.insertStoreByKey key).Valid sql := by
  refine ⟨?_, ?_, ?_, ?_, h.keys_nodup, h.names_nodup, h.keys_le, h.names_le, h.locked_nodup,
    fun j hj => ?_⟩
  · rw [ids, Database.insertStoreByKey, List.map_append]
    refine List.Nodup.append h.ids_nodup (List.nodup_singleton _) ?_
    rintro j hj hj'
    obtain ⟨row, hrow, rfl⟩ := List.mem_map.1 hj
    have hle := h.id_le row hrow
    simp only [List.map_cons, List.map_nil, List.mem_singleton] at hj'
    omega
  · intro row hrow
    rcases List.mem_append.1 hrow with hrow | hrow
    · exact h.id_pos row hrow
    · rw [List.mem_singleton.1 hrow]
      exact Nat.succ_pos _
  · intro row hrow
    rcases List.mem_append.1 hrow with hrow | hrow
    · exact (h.id_le row hrow).trans (Nat.le_succ _)
    · rw [List.mem_singleton.1 hrow]
      exact le_rfl
  · intro row hrow
    rcases List.mem_append.1 hrow with hrow | hrow
    · exact h.key_le row hrow
    · rw [List.mem_singleton.1 hrow]
      exact hkey
  · obtain ⟨row, hrow, hid⟩ := mem_ids.1 (h.locked_mem j hj)
    exact mem_ids.2 ⟨row, List.mem_append_left _ hrow, hid⟩

/-- If all records of a key are locked, only a new one is not. -/
lemma Valid.min_insertStoreByKey (h : db.Valid sql) (hnil : db.unlockedIds key = []) :
    ((db.insertStoreByKey key).unlockedIds key).min? = some (db.storeSequence + 1) := by
  have hmem : ∀ j, j ∈ (db.insertStoreByKey key).unlockedIds key ↔ j = db.storeSequence + 1 := by
    intro j
    rw [mem_unlockedIds]
    constructor
    · rintro ⟨hnot, row, hrow, hkey, rfl⟩
      rcases List.mem_append.1 hrow with hrow | hrow
      · have : row.id ∈ db.unlockedIds key := mem_unlockedIds.2 ⟨hnot, row, hrow, hkey, rfl⟩
        rw [hnil] at this
        cases this
      · rw [List.mem_singleton.1 hrow]
    · rintro rfl
      refine ⟨fun hlocked => ?_, ⟨db.storeSequence + 1, key, none⟩,
        List.mem_append_right _ (List.mem_singleton_self _), rfl, rfl⟩
      obtain ⟨row, hrow, hid⟩ := mem_ids.1 (h.locked_mem _ hlocked)
      have hle := h.id_le row hrow
      omega
  rw [List.min?_eq_some_iff]
  exact ⟨(hmem _).2 rfl, fun j hj => ((hmem j).1 hj).ge⟩

/-- `acquire_locked` locks the first record that is not locked, or in its second round a new one. -/
lemma Valid.acquireLocked (h : db.Valid sql) (hkey : key ≤ db.keySequence) {rounds : Nat}
    (hrounds : 2 ≤ rounds) :
    ∃ id db', acquireLocked rounds db key = some (id, db') ∧ db'.Valid sql ∧
      db'.idleKeys = db.idleKeys ∧ db'.idleLocked = db.idleLocked ++ [id] ∧
      ((db.unlockedIds key).min? = some id ∧ db'.idleStore = db.idleStore ∨
        db.unlockedIds key = [] ∧ id = db.storeSequence + 1 ∧
          db'.idleStore = db.idleStore ++ [⟨id, key, none⟩]) := by
  obtain ⟨rounds, rfl⟩ := Nat.exists_eq_add_of_le hrounds
  rw [Nat.add_comm, Database.acquireLocked]
  cases hmin : (db.unlockedIds key).min? with
  | some id =>
    obtain ⟨db', htry, hne, hvalid, hkeys, hstore, hlocked⟩ := h.tryLock_of_min hmin
    refine ⟨id, db', ?_, hvalid, hkeys, hlocked, .inl ⟨rfl, hstore⟩⟩
    simp only [htry, if_pos hne]
  | none =>
    have hnil : db.unlockedIds key = [] := List.min?_eq_none_iff.1 hmin
    have hcounted : ({ db with changes := 0 } : Database).Valid sql := h.congr rfl rfl rfl rfl rfl
    have hmin' := hcounted.min_insertStoreByKey hnil
    obtain ⟨db', htry, hne, hvalid, hkeys, hstore, hlocked⟩ :=
      (hcounted.insertStoreByKey hkey).tryLock_of_min hmin'
    refine ⟨_, db', ?_, hvalid, hkeys, hlocked, .inr ⟨hnil, rfl, hstore⟩⟩
    simp only [tryLock_of_nil hnil, ne_eq, not_true_eq_false, if_false]
    rw [Database.acquireLocked]
    simp only [htry, if_pos hne]

/-! ### Data -/

lemma Valid.selectDataById (h : db.Valid sql) {row : StoreRow} (hrow : row ∈ db.idleStore) :
    db.selectDataById row.id = some row.data := by
  rw [Database.selectDataById, find?_of_nodup h.ids_nodup hrow, Option.map_some]

/-- A row at the end is not in the way of the others. -/
lemma selectDataById_append {db' : Database} {row : StoreRow}
    (hstore : db'.idleStore = db.idleStore ++ [row]) (hid : id ∈ db.ids) :
    db'.selectDataById id = db.selectDataById id := by
  obtain ⟨r, hr, rfl⟩ := mem_ids.1 hid
  rw [Database.selectDataById, Database.selectDataById, hstore, List.find?_append]
  cases hfind : db.idleStore.find? (·.id = r.id) with
  | none => exact absurd (List.find?_eq_none.1 hfind r hr) (by simp)
  | some r' => rfl

lemma selectDataById_updateStoreById (db : Database) (data : Option Blob) (id other : Nat) :
    (db.updateStoreById data id).selectDataById other =
      if other = id then (db.selectDataById other).map fun _ => data
      else db.selectDataById other := by
  have hcomp : (fun row : StoreRow => decide
      ((if row.id = id then { row with data := data } else row).id = other)) =
      fun row => decide (row.id = other) := by
    funext row
    split <;> rfl
  rw [Database.selectDataById, Database.selectDataById, updateStoreById, List.find?_map]
  unfold Function.comp
  rw [hcomp]
  cases hfind : db.idleStore.find? (·.id = other) with
  | none => simp
  | some row =>
    have hrow : row.id = other := by simpa using List.find?_some hfind
    by_cases hother : other = id
    · simp [hrow, hother]
    · simp [hrow, hother]

lemma ids_updateStoreById (db : Database) (data : Option Blob) (id : Nat) :
    (db.updateStoreById data id).ids = db.ids := by
  rw [ids, updateStoreById, List.map_map, ids]
  refine List.map_congr_left fun row _ => ?_
  simp only [Function.comp_apply]
  split <;> rfl

lemma Valid.updateStoreById (h : db.Valid sql) (data : Option Blob) (id : Nat) :
    (db.updateStoreById data id).Valid sql := by
  have hrow : ∀ row ∈ (db.updateStoreById data id).idleStore, ∃ row' ∈ db.idleStore,
      row.id = row'.id ∧ row.key = row'.key := by
    intro row hrow
    obtain ⟨row', hrow', rfl⟩ := List.mem_map.1 hrow
    refine ⟨row', hrow', ?_⟩
    split <;> exact ⟨rfl, rfl⟩
  refine ⟨?_, fun row hr => ?_, fun row hr => ?_, fun row hr => ?_, h.keys_nodup, h.names_nodup,
    h.keys_le, h.names_le, h.locked_nodup, fun j hj => ?_⟩
  · rw [ids_updateStoreById]
    exact h.ids_nodup
  · obtain ⟨row', hr', hid, -⟩ := hrow row hr
    exact hid ▸ h.id_pos row' hr'
  · obtain ⟨row', hr', hid, -⟩ := hrow row hr
    exact hid ▸ h.id_le row' hr'
  · obtain ⟨row', hr', -, hkey⟩ := hrow row hr
    exact hkey ▸ h.key_le row' hr'
  · rw [ids_updateStoreById]
    exact h.locked_mem j hj

lemma Valid.unlockId (h : db.Valid sql) (id : Nat) : (db.unlockId id).Valid sql :=
  { h with
    locked_nodup := h.locked_nodup.filter _
    locked_mem := fun j hj => h.locked_mem j (List.mem_of_mem_filter hj) }

/-! ### `get` -/

/-- Without a name the key cannot be created, and `get` throws. -/
lemma get_of_bindText_eq_none (db : Database) {text : StringView} (rounds : Nat)
    (hname : sql.bindText text = none) : db.get sql rounds text = none := by
  rw [Database.get, createKey, hname]
  rfl

/-- `get` leases the first record of the key that is bound which is not leased, or a new one. -/
lemma Valid.get (h : db.Valid sql) {text : StringView} (hname : sql.bindText text = some name)
    {rounds : Nat} (hrounds : 2 ≤ rounds) :
    ∃ id data db', db.get sql rounds text = some (id, data, db') ∧ db'.Valid sql ∧
      db'.idleLocked = db.idleLocked ++ [id] ∧
      ((id ∈ db.recordsOf name ∧ id ∉ db.idleLocked ∧
          (∀ other ∈ db.recordsOf name, other ∉ db.idleLocked → id ≤ other) ∧
          db'.idleStore = db.idleStore ∧ db.selectDataById id = some data) ∨
        ((∀ other ∈ db.recordsOf name, other ∈ db.idleLocked) ∧ id ∉ db.ids ∧
          id ∈ db'.recordsOf name ∧ data = none ∧
          ∃ row, row.id = id ∧ row.data = none ∧ db'.idleStore = db.idleStore ++ [row])) := by
  obtain ⟨key, db₁, hcreate, hvalid₁, hkey₁, hle, hstore₁, hsequence₁, hlocked₁, hrow⟩ :=
    h.createKey hname
  obtain ⟨id, db₂, hacquire, hvalid₂, hkeys₂, hlocked₂, hcases⟩ :=
    hvalid₁.acquireLocked hle hrounds
  have hunlocked : ∀ j, j ∈ db₁.unlockedIds key ↔ j ∈ db.recordsOf name ∧ j ∉ db.idleLocked := by
    intro j
    rw [mem_unlockedIds, hstore₁, hlocked₁, mem_recordsOf, and_comm]
    refine and_congr_left fun _ => exists_congr fun row => and_congr_right fun hmem => ?_
    rw [hrow row hmem]
  rw [hlocked₁] at hlocked₂
  rcases hcases with ⟨hmin, hstore₂⟩ | ⟨hnil, hid, hstore₂⟩
  · obtain ⟨hmem, hfirst⟩ := List.min?_eq_some_iff.1 hmin
    obtain ⟨hrecord, hnot⟩ := (hunlocked id).1 hmem
    obtain ⟨row, hmemRow, -, hidRow⟩ := mem_recordsOf.1 hrecord
    have hstore : db₂.idleStore = db.idleStore := hstore₂.trans hstore₁
    have hselect : db.selectDataById id = some row.data := hidRow ▸ h.selectDataById hmemRow
    have hselect₂ : db₂.selectDataById id = some row.data := by
      rw [Database.selectDataById, hstore]
      exact hselect
    refine ⟨id, row.data, db₂, ?_, hvalid₂, hlocked₂, .inl ⟨hrecord, hnot, ?_, hstore, hselect⟩⟩
    · simp only [Database.get, hcreate, Option.bind_some, hacquire, hselect₂, Option.map_some]
    · exact fun other hother hunleased => hfirst other ((hunlocked other).2 ⟨hother, hunleased⟩)
  · rw [hstore₁] at hstore₂
    have hmem : (⟨id, key, none⟩ : StoreRow) ∈ db₂.idleStore := by
      rw [hstore₂]
      exact List.mem_append_right _ (List.mem_singleton_self _)
    have hselect₂ : db₂.selectDataById id = some none := hvalid₂.selectDataById hmem
    refine ⟨id, none, db₂, ?_, hvalid₂, hlocked₂, .inr ⟨fun other hother => ?_, fun hids => ?_, ?_,
      rfl, _, rfl, rfl, hstore₂⟩⟩
    · simp only [Database.get, hcreate, Option.bind_some, hacquire, hselect₂, Option.map_some]
    · by_contra hunleased
      have := (hunlocked other).2 ⟨hother, hunleased⟩
      rw [hnil] at this
      cases this
    · obtain ⟨row, hmemRow, hidRow⟩ := mem_ids.1 hids
      have hrowle := h.id_le row hmemRow
      omega
    · exact mem_recordsOf.2 ⟨_, hmem, hkeys₂ ▸ hkey₁, rfl⟩

end Database

namespace StoreState

variable {sql : SQLite} {st : StoreState} {a : StoreCall} {inMemory : Bool} {rounds : Nat}

/-- The leases are the outstanding ids, and the records have what was written last. -/
structure Invariant (sql : SQLite) (st : StoreState) : Prop where
  valid : st.db.Valid sql
  locked_eq : st.db.idleLocked = st.outstanding
  data_eq : ∀ id ∈ st.db.ids,
    st.db.selectDataById id = some ((st.written id).bind sql.bindBlob)
  written_eq : ∀ id ∉ st.db.ids, st.written id = none

variable (sql) in
lemma Invariant.initial : StoreState.initial.Invariant sql :=
  ⟨.empty, rfl, nofun, fun _ _ => rfl⟩

lemma Invariant.sound (h : st.Invariant sql) : st.Sound :=
  ⟨h.locked_eq ▸ h.valid.locked_nodup, fun id => by rw [h.locked_eq]⟩

/-- A write of a record. -/
lemma Invariant.write (h : st.Invariant sql) {id : Nat} (hid : id ∈ st.outstanding)
    (buffer : BufferView) :
    (∀ other ∈ st.db.ids, (st.db.updateStoreById (sql.bindBlob buffer) id).selectDataById other =
        some ((Function.update st.written id (some buffer) other).bind sql.bindBlob)) ∧
      ∀ other ∉ st.db.ids, Function.update st.written id (some buffer) other = none := by
  have hmem : id ∈ st.db.ids := h.valid.locked_mem id (h.locked_eq ▸ hid)
  refine ⟨fun other hother => ?_, fun other hother => ?_⟩
  · rw [Database.selectDataById_updateStoreById, h.data_eq other hother]
    by_cases heq : other = id
    · rw [if_pos heq, heq, Function.update_self]
      rfl
    · rw [if_neg heq, Function.update_of_ne heq]
  · have hne : other ≠ id := by
      rintro rfl
      exact hother hmem
    rw [Function.update_of_ne hne]
    exact h.written_eq other hother

lemma Invariant.get_of_bind (h : st.Invariant sql) (hrounds : 2 ≤ rounds) {key name : StringView}
    (hname : sql.bindText key = some name) :
    (st.step sql inMemory rounds (.get key)).Invariant sql := by
  obtain ⟨id, data, db, hget, hvalid, hlocked, hcases⟩ := h.valid.get hname hrounds
  have hstep : st.step sql inMemory rounds (.get key) =
      { st with db := db, outstanding := st.outstanding ++ [id] } := by
    rw [StoreState.step, hget]
  rw [hstep]
  have hlockedEq : db.idleLocked = st.outstanding ++ [id] := by rw [hlocked, h.locked_eq]
  rcases hcases with ⟨-, -, -, hstore, -⟩ | ⟨-, hnew, -, -, row, hid, hnone, hstore⟩
  · have hids : db.ids = st.db.ids := congrArg (List.map StoreRow.id) hstore
    refine ⟨hvalid, hlockedEq, fun other hother => ?_, fun other hother => ?_⟩
    · rw [Database.selectDataById, hstore]
      exact h.data_eq other (hids ▸ hother)
    · exact h.written_eq other (hids ▸ hother)
  · have hids : ∀ other, other ∈ db.ids ↔ other ∈ st.db.ids ∨ other = id := by
      intro other
      rw [Database.ids, hstore, List.map_append, List.mem_append, List.map_cons, List.map_nil,
        List.mem_singleton, hid, Database.ids]
    refine ⟨hvalid, hlockedEq, fun other hother => ?_, fun other hother => ?_⟩
    · rcases (hids other).1 hother with hother | rfl
      · rw [Database.selectDataById_append hstore hother]
        exact h.data_eq other hother
      · have hrow : row ∈ db.idleStore := by
          rw [hstore]
          exact List.mem_append_right _ (List.mem_singleton_self _)
        have hselect := hvalid.selectDataById hrow
        rw [hid, hnone] at hselect
        rw [hselect, h.written_eq other hnew]
        rfl
    · exact h.written_eq other fun hmem => hother ((hids other).2 (.inl hmem))

lemma Invariant.get (h : st.Invariant sql) (hrounds : 2 ≤ rounds) (key : StringView) :
    (st.step sql inMemory rounds (.get key)).Invariant sql := by
  cases hname : sql.bindText key with
  | none =>
    rw [StoreState.step, Database.get_of_bindText_eq_none st.db rounds hname]
    exact h
  | some name => exact h.get_of_bind hrounds hname

lemma Invariant.step (h : st.Invariant sql) (hrounds : 2 ≤ rounds) (hpre : st.Pre a) :
    (st.step sql inMemory rounds a).Invariant sql := by
  cases a with
  | get key => exact h.get hrounds key
  | update id buffer =>
    obtain ⟨hdata, hwritten⟩ := h.write hpre buffer
    have hids := Database.ids_updateStoreById st.db (sql.bindBlob buffer) id
    refine ⟨h.valid.updateStoreById _ _, h.locked_eq, fun other hother => ?_,
      fun other hother => ?_⟩
    · exact hdata other (hids ▸ hother)
    · exact hwritten other (hids ▸ hother)
  | set id buffer =>
    obtain ⟨hdata, hwritten⟩ := h.write hpre buffer
    have hids := Database.ids_updateStoreById st.db (sql.bindBlob buffer) id
    refine ⟨(h.valid.updateStoreById _ _).unlockId _, ?_, fun other hother => ?_,
      fun other hother => ?_⟩
    · exact congrArg (List.filter _) h.locked_eq
    · exact hdata other (hids ▸ hother)
    · exact hwritten other (hids ▸ hother)
  | restart =>
    cases inMemory with
    | true => exact .initial _
    | false => exact ⟨h.valid.create, rfl, h.data_eq, h.written_eq⟩

/-! ### What is promised -/

end StoreState

end Idle
