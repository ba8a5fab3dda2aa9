import TrustGate.Lib.Resumption
import TrustGate.Lib.StableSort
import Mathlib.Data.List.Lex

set_option autoImplicit false

/-! # A database behind a pool

`pool.query` runs a statement on some connection of the pool that is free, each time possibly on
another one. A transaction belongs to the connection it was begun on (`Session`): what is done there
is seen by others at the commit, and what is done on any other connection takes effect at once. -/

namespace TrustGate.Db

open Resumption

/-- What the statements of `migrate.ts` leave: whether `schema_migrations` is there, its rows, and the
texts that took effect, in this order. -/
structure Content where
  table : Bool
  ids : List String
  effects : List String
  deriving DecidableEq, Repr

def Content.empty : Content := ⟨false, [], []⟩

/-- What there is after a transaction did `done`. -/
def Content.append (db done : Content) : Content :=
  ⟨db.table || done.table, db.ids ++ done.ids, db.effects ++ done.effects⟩

/-- A connection of a pool. -/
structure Conn where
  pool : Nat
  index : Nat
  deriving DecidableEq, Repr

inductive Session where
  | idle
  /-- In a transaction that has done this. -/
  | active (done : Content)
  /-- In a transaction in which a statement failed. -/
  | aborted
  | closed
  deriving DecidableEq, Repr

def Session.isActive : Session → Bool
  | .active _ => true
  | _ => false

/-- The uncommitted rows. -/
def Session.ids : Session → List String
  | .active done => done.ids
  | _ => []

structure Database where
  committed : Content
  sessions : List (Conn × Session)

namespace Database

/-- A connection that was not used yet is idle. -/
def session (s : Database) (conn : Conn) : Session :=
  ((s.sessions.find? fun e => e.1 = conn).map Prod.snd).getD .idle

def setSession (s : Database) (conn : Conn) (x : Session) : Database :=
  { s with sessions := (conn, x) :: s.sessions.filter fun e => e.1 ≠ conn }

@[simp] theorem setSession_committed (s : Database) (conn : Conn) (x : Session) :
    (s.setSession conn x).committed = s.committed := rfl

@[simp] theorem session_setSession (s : Database) (conn : Conn) (x : Session) :
    (s.setSession conn x).session conn = x := by
  simp [session, setSession]

theorem session_setSession_ne (s : Database) {conn conn' : Conn} (x : Session)
    (hne : conn' ≠ conn) : (s.setSession conn x).session conn' = s.session conn' := by
  have hfind : (s.sessions.filter fun e => e.1 ≠ conn).find? (fun e => e.1 = conn') =
      s.sessions.find? fun e => e.1 = conn' := by
    rw [List.find?_filter]
    congr 1
    funext e
    by_cases he : e.1 = conn'
    · simp [he, hne]
    · simp [he]
  unfold session setSession
  rw [List.find?_cons_of_neg (by simpa using Ne.symm hne), hfind]

/-- What the connection sees. -/
def visible (s : Database) (conn : Conn) : Content :=
  match s.session conn with
  | .active done => s.committed.append done
  | _ => s.committed

/-- A change of the transaction, or outside of any at once. -/
def change (s : Database) (conn : Conn) (f : Content → Content) : Database :=
  match s.session conn with
  | .active done => s.setSession conn (.active (f done))
  | _ => { s with committed := f s.committed }

/-- A statement failed. -/
def abort (s : Database) (conn : Conn) : Database :=
  if (s.session conn).isActive then s.setSession conn .aborted else s

/-- Another connection has inserted the row and not committed it. -/
def awaitsRow (s : Database) (conn : Conn) (id : String) : Bool :=
  s.sessions.any fun e => e.1 ≠ conn && e.2.ids.contains id

theorem not_mem_of_awaitsRow {s : Database} {conn : Conn} {id : String}
    (h : s.awaitsRow conn id = false) {conn' : Conn} (hne : conn' ≠ conn) :
    id ∉ (s.session conn').ids := by
  intro hid
  cases hfind : s.sessions.find? fun e => e.1 = conn' with
  | none =>
      rw [session, hfind] at hid
      cases hid
  | some e =>
      have hconn : e.1 = conn' := by simpa using List.find?_some hfind
      rw [session, hfind] at hid
      have hlocked := List.any_eq_false.mp h e (List.mem_of_find?_eq_some hfind)
      simp [hconn, hne] at hlocked
      exact hlocked hid

end Database

/-! ## Statements -/

/-- The statements of `migrate.ts`. The text of a file is one query: all of it takes effect or none. -/
inductive Statement where
  /-- `create table if not exists schema_migrations`. -/
  | createTable
  /-- `select id from schema_migrations`. -/
  | selectIds
  | begin
  | sql (text : String)
  /-- `insert into schema_migrations (id) values ($1)`. -/
  | insertId (id : String)
  | commit
  | rollback
  deriving DecidableEq

/-- `begin` tells the connection it ran on. The program does not look at it. -/
abbrev Statement.Value : Statement → Type
  | .selectIds => List String
  | .begin => Conn
  | _ => Unit

def Statement.endsTransaction : Statement → Bool
  | .commit => true
  | .rollback => true
  | _ => false

def noTable : String := "relation \"schema_migrations\" does not exist"

def duplicateKey : String :=
  "duplicate key value violates unique constraint \"schema_migrations_pkey\""

def inFailedTransaction : String :=
  "current transaction is aborted, commands ignored until end of transaction block"

/-- A statement on a connection that is there. A row that another transaction has inserted is waited
for. To commit a failed transaction is to roll it back, without an error. -/
def perform (conn : Conn) (s : Database) :
    (q : Statement) → Option (Except String q.Value × Database)
  | .createTable => some (.ok (), s.change conn fun db => { db with table := true })
  | .selectIds =>
      if (s.visible conn).table then some (.ok (s.visible conn).ids, s)
      else some (.error noTable, s.abort conn)
  | .begin =>
      if s.session conn = .idle then some (.ok conn, s.setSession conn (.active .empty))
      else some (.ok conn, s)
  | .sql text => some (.ok (), s.change conn fun db => { db with effects := db.effects ++ [text] })
  | .insertId id =>
      if ¬ (s.visible conn).table then some (.error noTable, s.abort conn)
      else if id ∈ (s.visible conn).ids then some (.error duplicateKey, s.abort conn)
      else if s.awaitsRow conn id then none
      else some (.ok (), s.change conn fun db => { db with ids := db.ids ++ [id] })
  | .commit =>
      match s.session conn with
      | .active done =>
          some (.ok (), { s.setSession conn .idle with committed := s.committed.append done })
      | _ => some (.ok (), s.setSession conn .idle)
  | .rollback => some (.ok (), s.setSession conn .idle)

/-! ## The running system -/

/-- The directory of the migrations. -/
structure Directory where
  names : List String
  nodup : names.Nodup
  contents : String → String

inductive Op where
  /-- `pool.query`. -/
  | query (pool : Nat) (q : Statement)
  | readdir
  | readFile (file : String)
  /-- The connection breaks, or the process at its other end is gone. -/
  | disconnect (conn : Conn)

abbrev Value : Op → Type
  | .query _ q => q.Value
  | .readdir => List String
  | .readFile _ => String
  | .disconnect _ => Unit

abbrev Reply (o : Op) := Except String (Value o)

abbrev Js (α : Type) := Fallible Op Value String α

abbrev await (o : Op) : Js (Value o) := call o

/-- A call fails before it reaches the server, or the server refuses it, or it is carried out and the
connection breaks before the answer arrives. -/
inductive Fault where
  | none
  | unsent (error : String)
  | refused (error : String)
  | lost (error : String)
  deriving DecidableEq

def Fault.isUnsent : Fault → Bool
  | .unsent _ => true
  | _ => false

/-- What the outside contributes: which connection of the pool is free, and the order in which the
directory is listed. -/
structure Outcome where
  index : Nat := 0
  listing : List String := []
  fault : Fault := .none

/-- The server refuses a statement. A transaction whose commit it refuses is over. -/
def refuse (conn : Conn) (s : Database) (q : Statement) : Database :=
  if q = .commit then s.setSession conn .idle else s.abort conn

/-- A query on a connection that is open. In a failed transaction nothing is done but to end it. -/
def query (conn : Conn) (s : Database) (q : Statement) :
    Option (Except String q.Value × Database) :=
  if s.session conn = .closed then none
  else if s.session conn = .aborted ∧ ¬ q.endsTransaction then some (.error inFailedTransaction, s)
  else perform conn s q

def exec (dir : Directory) : (o : Op) → Outcome → Database → Option (Reply o × Database)
  | .query pool q, c, s =>
      let conn : Conn := ⟨pool, c.index⟩
      match c.fault with
      | .none => query conn s q
      | .unsent e => some (.error e, s)
      | .refused e => if s.session conn = .closed then none else some (.error e, refuse conn s q)
      | .lost e => (query conn s q).map fun r => (.error e, r.2.setSession conn .closed)
  | .readdir, c, s =>
      match c.fault with
      | .none => if c.listing.Perm dir.names then some (.ok c.listing, s) else none
      | .unsent e | .refused e | .lost e => some (.error e, s)
  | .readFile file, c, s =>
      match c.fault with
      | .none => some (.ok (dir.contents file), s)
      | .unsent e | .refused e | .lost e => some (.error e, s)
  | .disconnect conn, _, s => some (.ok (), s.setSession conn .closed)

end TrustGate.Db
