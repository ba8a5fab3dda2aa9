import TrustGate.Db.Pool

set_option autoImplicit false

/-! # runMigrations

The migrator of `src/src/db/migrate.ts`. Every statement goes to the pool, the `begin` and the `commit`
of a file too. `MigrateCall` lists what a call of `runMigrations` queries after which replies. -/

namespace TrustGate.Db

open Resumption StableSort

/-! ## The program -/

def codeUnits (c : Char) : List Nat :=
  if c.toNat < 0x10000 then [c.toNat]
  else [0xD800 + (c.toNat - 0x10000) / 0x400, 0xDC00 + (c.toNat - 0x10000) % 0x400]

/-- `Array.prototype.sort` compares strings by their UTF-16 code units. -/
def utf16 (s : String) : List Nat := s.toList.flatMap codeUnits

/-- `f.endsWith('.sql')`. -/
def isSql (f : String) : Bool := ".sql".toList.isSuffixOf f.toList

def sqlFiles (entries : List String) : List String := sorted utf16 (entries.filter isSql)

theorem codeUnits_append_inj {c d : Char} {l m : List Nat}
    (h : codeUnits c ++ l = codeUnits d ++ m) : c = d ∧ l = m := by
  -- no character is half of a surrogate pair
  have hc : c.toNat < 0xD800 ∨ 0xDFFF < c.toNat ∧ c.toNat < 0x110000 := c.valid
  have hd : d.toNat < 0xD800 ∨ 0xDFFF < d.toNat ∧ d.toNat < 0x110000 := d.valid
  unfold codeUnits at h
  split_ifs at h with hc' hd' hd'
  · simp only [List.cons_append, List.nil_append, List.cons.injEq] at h
    exact ⟨Char.toNat_inj.mp h.1, h.2⟩
  · simp only [List.cons_append, List.nil_append, List.cons.injEq] at h
    omega
  · simp only [List.cons_append, List.nil_append, List.cons.injEq] at h
    omega
  · simp only [List.cons_append, List.nil_append, List.cons.injEq] at h
    exact ⟨Char.toNat_inj.mp (by omega), h.2.2⟩

theorem codeUnits_ne_nil (c : Char) : codeUnits c ≠ [] := by
  unfold codeUnits
  split_ifs <;> simp

theorem utf16_injective : Function.Injective utf16 := by
  intro s s' h
  apply String.toList_inj.mp
  unfold utf16 at h
  generalize s.toList = cs at *
  generalize s'.toList = ds at *
  induction cs generalizing ds with
  | nil =>
      cases ds with
      | nil => rfl
      | cons d ds =>
          rw [List.flatMap_nil, List.flatMap_cons] at h
          exact absurd (List.append_eq_nil_iff.mp h.symm).1 (codeUnits_ne_nil d)
  | cons c cs ih =>
      cases ds with
      | nil =>
          rw [List.flatMap_nil, List.flatMap_cons] at h
          exact absurd (List.append_eq_nil_iff.mp h).1 (codeUnits_ne_nil c)
      | cons d ds =>
          rw [List.flatMap_cons, List.flatMap_cons] at h
          obtain ⟨rfl, hrest⟩ := codeUnits_append_inj h
          rw [ih ds hrest]

/-- The order in which the directory is listed does not matter. -/
theorem sqlFiles_perm {entries names : List String} (h : entries.Perm names) :
    sqlFiles entries = sqlFiles names := sorted_perm utf16 utf16_injective (h.filter _)

theorem nodup_sqlFiles {names : List String} (h : names.Nodup) : (sqlFiles names).Nodup :=
  (nodup_sorted utf16).mpr (h.filter _)

section

variable (pool : Nat)

def ensureMigrationsTable : Js Unit := await (.query pool .createTable)

def getAppliedMigrations : Js (List String) := await (.query pool .selectIds)

/-- What stands in the `try` block. -/
def applyFile (file sql : String) : Js Unit := do
  await (.query pool (.sql sql))
  await (.query pool (.insertId file))
  await (.query pool .commit)

def applyFiles (applied : List String) : List String → List String → Js (List String)
  | newlyApplied, [] => pure newlyApplied
  | newlyApplied, file :: files =>
      if applied.contains file then applyFiles applied newlyApplied files
      else do
        let sql ← await (.readFile file)
        let _ ← await (.query pool .begin)
        match ← attempt (applyFile pool file sql) with
        | .error err => do
            await (.query pool .rollback)
            throw err
        | .ok () => applyFiles applied (newlyApplied ++ [file]) files

def runMigrations : Js (List String) := do
  ensureMigrationsTable pool
  let applied ← getAppliedMigrations pool
  let entries ← await .readdir
  applyFiles pool applied [] (sqlFiles entries)

end

/-- A call of `runMigrations` with a pool, or the end of a connection. -/
inductive Job where
  | runMigrations (pool : Nat)
  | disconnect (conn : Conn)

def toEnd {α : Type} (x : Js α) : Prog Op Reply Unit := x.run >>= fun _ => pure ()

def Job.body : Job → Prog Op Reply Unit
  | .runMigrations pool => toEnd (Db.runMigrations pool)
  | .disconnect conn => toEnd (await (.disconnect conn))

/-- Instances of the API that migrate one database from one directory. -/
def migrator (dir : Directory) : System Op Reply Job Outcome Database := ⟨Job.body, exec dir⟩

/-! ## What a call of runMigrations queries -/

abbrev Hist := Past Op Reply

/-- The process has read that the file is recorded, or it has committed the file itself. -/
def Covered (h : Hist) (file : String) : Prop :=
  (∃ pool ids, ⟨.query pool .selectIds, .ok ids⟩ ∈ h ∧ file ∈ ids) ∨
    ∃ pool h', ⟨.query pool .commit, .ok ()⟩ :: ⟨.query pool (.insertId file), .ok ()⟩ :: h' <:+ h

/-- The file is next: of the files listed, those before it are covered. -/
def IsNext (h : Hist) (file : String) : Prop :=
  ∃ entries front back, ⟨.readdir, .ok entries⟩ ∈ h ∧ sqlFiles entries = front ++ file :: back ∧
    ∀ f ∈ front, Covered h f

/-- The text of the next file is read. -/
def haveRead (file text : String) (h : Hist) : Hist := ⟨.readFile file, .ok text⟩ :: h

def begun (pool : Nat) (conn : Conn) (h : Hist) : Hist := ⟨.query pool .begin, .ok conn⟩ :: h

def didRun (pool : Nat) (text : String) (h : Hist) : Hist :=
  ⟨.query pool (.sql text), .ok ()⟩ :: h

def didRecord (pool : Nat) (file : String) (h : Hist) : Hist :=
  ⟨.query pool (.insertId file), .ok ()⟩ :: h

inductive MigrateCall (pool : Nat) : Hist → Op → Prop
  | createTable (h : Hist) : MigrateCall pool h (.query pool .createTable)
  | selectIds (h : Hist) : MigrateCall pool h (.query pool .selectIds)
  | readdir (h : Hist) : MigrateCall pool h .readdir
  | readFile (h : Hist) (file : String) : MigrateCall pool h (.readFile file)
  | begin (h : Hist) : MigrateCall pool h (.query pool .begin)
  | sql (h : Hist) (file text : String) (conn : Conn) (next : IsNext h file) :
      MigrateCall pool (begun pool conn (haveRead file text h)) (.query pool (.sql text))
  | insertId (h : Hist) (file text : String) (conn : Conn) (next : IsNext h file) :
      MigrateCall pool (didRun pool text (begun pool conn (haveRead file text h)))
        (.query pool (.insertId file))
  | commit (h : Hist) (file text : String) (conn : Conn) (next : IsNext h file) :
      MigrateCall pool (didRecord pool file (didRun pool text (begun pool conn (haveRead file text h))))
        (.query pool .commit)
  | rollback (h : Hist) : MigrateCall pool h (.query pool .rollback)

def Job.Calls : Job → Hist → Op → Prop
  | .runMigrations pool, h, o => MigrateCall pool h o
  | .disconnect conn, _, o => o = .disconnect conn

theorem Covered.mono {h h' : Hist} {file : String} (hc : Covered h file) (hs : h <:+ h') :
    Covered h' file := by
  rcases hc with ⟨pool, ids, hmem, hfile⟩ | ⟨pool, past, hcommit⟩
  · exact .inl ⟨pool, ids, hs.subset hmem, hfile⟩
  · exact .inr ⟨pool, past, hcommit.trans hs⟩

section

variable {pool : Nat}

theorem applyFiles_calls (applied entries : List String) (files : List String) :
    ∀ (newlyApplied front : List String) (h : Hist),
      (∀ file, file ∈ applied → Covered h file) → ⟨.readdir, .ok entries⟩ ∈ h →
      sqlFiles entries = front ++ files → (∀ f ∈ front, Covered h f) →
      Ensures (MigrateCall pool) (fun _ _ => True) (applyFiles pool applied newlyApplied files) h := by
  induction files with
  | nil => exact fun _ _ _ _ _ _ _ => trivial
  | cons file files ih =>
      intro newlyApplied front h happlied hlisted hsorted hfront
      have hmore : sqlFiles entries = (front ++ [file]) ++ files := by
        rw [hsorted, List.append_assoc, List.singleton_append]
      have hnext : IsNext h file := ⟨entries, front, files, hlisted, hsorted, hfront⟩
      unfold applyFiles
      split_ifs with hdone
      · refine ih _ _ h happlied hlisted hmore fun f hf => ?_
        rcases List.mem_append.mp hf with hf | hf
        · exact hfront f hf
        · rw [List.mem_singleton.mp hf]
          exact happlied file (List.contains_iff_mem.mp hdone)
      rw [ensures_call_bind]
      refine ⟨.readFile h file, fun text => ?_, fun _ => trivial⟩
      rw [ensures_call_bind]
      refine ⟨.begin _, fun conn => ?_, fun _ => trivial⟩
      rw [ensures_attempt_bind]
      unfold applyFile
      rw [ensures_call_bind]
      have hfail (err : String) (h : Hist) : Ensures (MigrateCall pool) (fun _ _ => True)
          (do await (.query pool .rollback); throw err : Js (List String)) h := by
        rw [ensures_call_bind]
        exact ⟨.rollback h, fun _ => trivial, fun _ => trivial⟩
      refine ⟨.sql h file text conn hnext, fun _ => ?_, fun err => hfail err _⟩
      rw [ensures_call_bind]
      refine ⟨.insertId h file text conn hnext, fun _ => ?_, fun err => hfail err _⟩
      refine ⟨.commit h file text conn hnext, ?_⟩
      rintro (err | ⟨⟩)
      · exact hfail err _
      have hlater : h <:+ ⟨.query pool .commit, .ok ()⟩ :: didRecord pool file
          (didRun pool text (begun pool conn (haveRead file text h))) := ⟨[_, _, _, _, _], rfl⟩
      refine ih _ _ _ (fun f hf => (happlied f hf).mono hlater) (hlater.subset hlisted) hmore ?_
      intro f hf
      rcases List.mem_append.mp hf with hf | hf
      · exact (hfront f hf).mono hlater
      · rw [List.mem_singleton.mp hf]
        exact .inr ⟨pool, _, List.suffix_rfl⟩

theorem runMigrations_calls (pool : Nat) :
    Ensures (MigrateCall pool) (fun _ _ => True) (runMigrations pool) [] := by
  unfold runMigrations ensureMigrationsTable
  rw [ensures_call_bind]
  refine ⟨.createTable _, fun _ => ?_, fun _ => trivial⟩
  unfold getAppliedMigrations
  rw [ensures_call_bind]
  refine ⟨.selectIds _, fun applied => ?_, fun _ => trivial⟩
  rw [ensures_call_bind]
  refine ⟨.readdir _, fun entries => ?_, fun _ => trivial⟩
  refine applyFiles_calls applied entries _ [] [] _ (fun file hfile => ?_) List.mem_cons_self rfl
    (by simp)
  exact .inl ⟨pool, applied, List.mem_cons_of_mem _ List.mem_cons_self, hfile⟩

theorem toEnd_follows {α : Type} {P : Hist → Op → Prop} {x : Js α} {h : Hist}
    (hx : Ensures P (fun _ _ => True) x h) : Follows P (fun _ _ => True) (toEnd x) h :=
  (follows_bind _ _ _).mpr (Follows.mono (fun _ _ hp => hp) (fun _ _ _ => trivial) hx)

theorem body_calls (dir : Directory) (j : Job) :
    Follows j.Calls (fun _ _ => True) ((migrator dir).body j) [] := by
  cases j with
  | runMigrations pool => exact toEnd_follows (runMigrations_calls pool)
  | disconnect conn => exact toEnd_follows (ensures_call.mpr ⟨rfl, fun _ => trivial⟩)

end

end TrustGate.Db
