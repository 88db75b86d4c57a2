import Mathlib.Data.List.Basic
/-!
# The migration restore

`apply` of `migrate_db.py`: a snapshot from another host replaces the live database, and
fixups are committed on it in one transaction. Each step of the script may raise, also
for a table or a column that is not there. The other tables and the counts that are
printed are left out.
-/
namespace Wardence.Migrate

structure Account where
  username : String
  passwordHash : String
  totpSecret : Option String
  role : String
  active : Bool
  expiresAt : Option String
  createdAt : Option String
  deriving DecidableEq, Repr

structure Episode where
  episodeId : String
  episodeState : Option String
  subprocessPid : Option Nat
  stopHoldRequested : Bool
  abandonRequested : Bool
  deriving DecidableEq, Repr

structure Lock where
  holder : Option String
  acquiredAt : Option Nat
  deriving DecidableEq, Repr

/-- The tables that hold rows by fault class. -/
inductive Ladder where
  | trustState
  | actionTrust
  | diagnoserMode
  | trustHistory
  | actionTrustHistory
  | diagnoserModeHistory
  deriving DecidableEq, Repr

structure Db where
  tables : List String
  accounts : List Account
  episodes : List Episode
  /-- `safety_hold`: each class, and whether its hold is active. -/
  safetyHold : List (String × Bool)
  systemLock : List Lock
  /-- The classes of the rows. -/
  ladder : Ladder → List String

/-- The database files on the host. -/
structure Host where
  live : Option Db
  backup : Option Db
  new : Option Db

def EXPECTED_TABLES : List String :=
  ["accounts", "scores", "episodes", "episode_snapshots", "trust_state", "action_trust", "diagnoser_mode", "trust_history",
    "diagnoser_mode_history", "action_trust_history", "system_lock", "safety_hold"]

def MIN_EPISODES : Nat := 3000
def CRUFT_CLASS : String := "test-fault-class"
def NON_TERMINAL : List String := ["injecting", "holding", "awaiting_fix", "resolving"]
def LADDERS : List Ladder :=
  [.trustState, .actionTrust, .diagnoserMode, .trustHistory, .actionTrustHistory, .diagnoserModeHistory]

/-- The steps that may raise. -/
inductive Step where
  | readSnapshot
  | servicesActive
  | copyBackup
  | readAdmin
  | copyNew
  | replace
  | connect
  | restoreAdmin
  | resetLock
  | clearHolds
  | failEpisodes
  | dropCruft (t : Ladder)
  | commit
  | verify
  deriving DecidableEq, Repr

/-! ## The fixups -/

/-- The first row of `accounts` with `role='admin'`. -/
def Db.admin (db : Db) : Option Account := db.accounts.find? (·.role = "admin")

/-- The snapshot's row of that name gets the credentials; where there is none, the row is inserted. -/
def restoreAdmin (admin : Account) (db : Db) : Db :=
  if db.accounts.any (·.username = admin.username) then
    { db with
      accounts := db.accounts.map fun a =>
        if a.username = admin.username then
          { a with passwordHash := admin.passwordHash, totpSecret := admin.totpSecret, role := "admin", active := true }
        else a }
  else { db with accounts := db.accounts ++ [admin] }

def resetLock (db : Db) : Db := { db with systemLock := db.systemLock.map fun _ => ⟨none, none⟩ }

def clearHolds (db : Db) : Db := { db with safetyHold := [] }

def Episode.nonTerminal (e : Episode) : Bool := e.episodeState.any (· ∈ NON_TERMINAL)

def failEpisodes (db : Db) : Db :=
  { db with
    episodes := db.episodes.map fun e =>
      if e.nonTerminal then
        { e with episodeState := some "failed", subprocessPid := none, stopHoldRequested := false, abandonRequested := false }
      else e }

def dropCruft (t : Ladder) (db : Db) : Db :=
  { db with ladder := fun u => if u = t then (db.ladder u).filter (· ≠ CRUFT_CLASS) else db.ladder u }

section Apply
variable (fails : Step → Bool)

def guardStep (s : Step) : Option Unit := if fails s then none else some ()

/-- The transaction on the new live database; `none`: it raises and is rolled back. A ladder's delete
that fails is passed over. -/
def fixups (admin : Account) (db : Db) : Option Db := do
  guardStep fails .restoreAdmin
  let db := restoreAdmin admin db
  guardStep fails .resetLock
  let db := resetLock db
  guardStep fails .clearHolds
  let db := clearHolds db
  guardStep fails .failEpisodes
  let db := failEpisodes db
  let db := LADDERS.foldl (fun db t => if fails (.dropCruft t) then db else dropCruft t db) db
  guardStep fails .commit
  some db

/-- The checks of the snapshot and of the services. -/
def checks (snap : Option Db) (servicesActive force : Bool) : Option Db := do
  let snap ← snap
  guardStep fails .readSnapshot
  if EXPECTED_TABLES.all (· ∈ snap.tables) && MIN_EPISODES ≤ snap.episodes.length then
    guardStep fails .servicesActive
    if servicesActive && !force then none else some snap
  else none

/-- The backup of the live database, and the administrator in it. -/
def backUp (h : Host) : Host × Option Account :=
  match h.live with
  | none => (h, none)
  | some live =>
    if fails .copyBackup then ({ h with backup := none }, none)
    else ({ h with backup := some live }, if fails .readAdmin then none else live.admin)

/-- From the copy on; the flag says whether the script completes. -/
def swap (h : Host) (snap : Db) (admin : Account) : Host × Bool :=
  if fails .copyNew then ({ h with new := none }, false)
  else if fails .replace then ({ h with new := some snap }, false)
  else
    let h := { h with live := some snap, new := none }
    if fails .connect then (h, false)
    else
      match fixups fails admin snap with
      | none => (h, false)
      | some db => ({ h with live := some db }, !fails .verify)

/-- `cmd_apply`, with what is at the snapshot's path. -/
def apply (snap : Option Db) (servicesActive force : Bool) (h : Host) : Host × Bool :=
  match checks fails snap servicesActive force with
  | none => (h, false)
  | some snap =>
    match backUp fails h with
    | (h, none) => (h, false)
    | (h, some admin) => swap fails h snap admin

end Apply

/-! ## What a restore leaves -/

/-- No episode is under way, no hold is active, and the lock is free. -/
structure Db.Scrubbed (db : Db) : Prop where
  episodes : ∀ e ∈ db.episodes, e.nonTerminal = false
  holds : ∀ x ∈ db.safetyHold, x.2 = false
  lock : ∀ l ∈ db.systemLock, l.holder = none

/-- The administrator `a` has its credentials; where the snapshot had no such name, all of its row. -/
structure Db.Keeps (db snap : Db) (a : Account) : Prop where
  credentials : ∃ b ∈ db.accounts, b.username = a.username ∧ b.passwordHash = a.passwordHash ∧ b.totpSecret = a.totpSecret ∧
    b.role = "admin"
  active : snap.accounts.any (·.username = a.username) = true → ∀ b ∈ db.accounts, b.username = a.username → b.active = true
  inserted : snap.accounts.any (·.username = a.username) = false → a ∈ db.accounts

section Spec
variable {fails : Step → Bool} {db snap : Db} {admin : Account}

theorem restoreAdmin_keeps (ha : admin.role = "admin") : (restoreAdmin admin snap).Keeps snap admin := by
  unfold restoreAdmin
  split
  next hin =>
    refine ⟨?_, fun _ b hb hn => ?_, fun hout => by rw [hin] at hout; cases hout⟩
    · obtain ⟨a, ha, hn⟩ := List.any_eq_true.1 hin
      exact ⟨_, List.mem_map_of_mem ha, by simp_all⟩
    · obtain ⟨a, -, rfl⟩ := List.mem_map.1 hb
      by_cases ha : a.username = admin.username
      · rw [if_pos ha]
      · rw [if_neg ha] at hn
        contradiction
  next hout =>
    have hmem : admin ∈ snap.accounts ++ [admin] := List.mem_append_right _ (List.mem_singleton_self _)
    exact ⟨⟨admin, hmem, rfl, rfl, rfl, ha⟩, fun hin => absurd hin hout, fun _ => hmem⟩

theorem foldl_dropCruft (ts : List Ladder) (db : Db) :
    ∃ l, ts.foldl (fun db t => if fails (.dropCruft t) then db else dropCruft t db) db = { db with ladder := l } := by
  induction ts generalizing db with
  | nil => exact ⟨_, rfl⟩
  | cons t ts ih =>
    rw [List.foldl_cons]
    split
    · exact ih db
    · obtain ⟨l, hl⟩ := ih (dropCruft t db)
      exact ⟨l, hl⟩

theorem fixups_eq {out : Db} (h : fixups fails admin db = some out) :
    ∃ l, out = { failEpisodes (clearHolds (resetLock (restoreAdmin admin db))) with ladder := l } := by
  simp only [fixups, Option.bind_eq_bind, Option.bind_eq_some_iff, Option.some.injEq] at h
  obtain ⟨-, -, -, -, -, -, -, -, -, -, rfl⟩ := h
  exact foldl_dropCruft _ _

theorem failEpisodes_terminal (db : Db) : ∀ e ∈ (failEpisodes db).episodes, e.nonTerminal = false := by
  intro e he
  obtain ⟨e, -, rfl⟩ := List.mem_map.1 he
  split
  · rfl
  · exact Bool.not_eq_true _ ▸ ‹_›

theorem fixups_spec {out : Db} (ha : admin.role = "admin") (h : fixups fails admin snap = some out) :
    out.Scrubbed ∧ out.Keeps snap admin := by
  obtain ⟨l, rfl⟩ := fixups_eq h
  have hk : (restoreAdmin admin snap).Keeps snap admin := restoreAdmin_keeps ha
  refine ⟨⟨failEpisodes_terminal _, fun x hx => (by cases hx), fun x hx => ?_⟩, ⟨hk.credentials, hk.active, hk.inserted⟩⟩
  obtain ⟨_, -, rfl⟩ := List.mem_map.1 hx
  rfl

/-- What a completed restore, or one that fails once the files are swapped, leaves of `live`. -/
structure Swapped (snap : Db) (live : Option Db) (admin : Account) (out : Host) : Prop where
  backup : out.backup = live
  live : out.live = some snap ∨ ∃ db, out.live = some db ∧ db.Scrubbed ∧ db.Keeps snap admin

theorem swap_spec (fails : Step → Bool) (h : Host) (snap : Db) (ha : admin.role = "admin") :
    ((swap fails h snap admin).2 = true → (swap fails h snap admin).1.backup = h.backup ∧
      ∃ db, (swap fails h snap admin).1.live = some db ∧ db.Scrubbed ∧ db.Keeps snap admin) ∧
    ((swap fails h snap admin).2 = false → (swap fails h snap admin).1.live = h.live ∨
      Swapped snap h.backup admin (swap fails h snap admin).1) := by
  unfold swap
  split
  · exact ⟨fun h => (by cases h), fun _ => .inl rfl⟩
  split
  · exact ⟨fun h => (by cases h), fun _ => .inl rfl⟩
  simp only
  split
  · exact ⟨fun h => (by cases h), fun _ => .inr ⟨rfl, .inl rfl⟩⟩
  split
  next => exact ⟨fun h => (by cases h), fun _ => .inr ⟨rfl, .inl rfl⟩⟩
  next db hdb =>
    obtain ⟨hs, hk⟩ := fixups_spec ha hdb
    exact ⟨fun _ => ⟨rfl, db, rfl, hs, hk⟩, fun _ => .inr ⟨rfl, .inr ⟨db, rfl, hs, hk⟩⟩⟩

end Spec

def ada : Account := ⟨"ada", "hash-a", some "secret-a", "admin", true, none, none⟩
def bob : Account := ⟨"bob", "hash-b", some "secret-b", "admin", true, none, none⟩

def liveDb : Db := ⟨EXPECTED_TABLES, [ada, bob], [], [], [⟨none, none⟩], fun _ => []⟩

/-- A snapshot without accounts. -/
def snapshotOf (es : List Episode) : Db := ⟨EXPECTED_TABLES, [], es, [], [⟨none, none⟩], fun _ => []⟩

theorem apply_snapshotOf {es : List Episode} (h : MIN_EPISODES ≤ es.length) :
    ∃ db, apply (fun _ => false) (some (snapshotOf es)) false false ⟨some liveDb, none, none⟩ =
      (⟨some db, some liveDb, none⟩, true) ∧ db.accounts = [ada] := by
  have hc : checks (fun _ => false) (some (snapshotOf es)) false false = some (snapshotOf es) := by
    simp [checks, guardStep, snapshotOf, h]
  unfold apply
  rw [hc]
  exact ⟨_, rfl, rfl⟩

def manyEpisodes : List Episode := List.replicate 3000 ⟨"e", some "resolved", none, false, false⟩

theorem min_le_manyEpisodes : MIN_EPISODES ≤ manyEpisodes.length := Nat.le_of_eq (List.length_replicate ..).symm

end Wardence.Migrate
