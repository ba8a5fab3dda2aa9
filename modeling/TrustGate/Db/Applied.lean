import TrustGate.Db.Migrate

set_option autoImplicit false

/-! # Migrations are applied once, on one connection

A file takes effect and is recorded by one commit if its four statements run on one connection that
nobody else uses meanwhile (`RunsWell`). Then of two calls that apply the same file one waits for the
row of the other and fails, and every call goes on only after a file that is recorded. -/

namespace TrustGate.Db

open Resumption StableSort

/-- **Applied once.** The recorded files are the first ones in sorted order, each once, and what took
effect are their texts, each once and in this order: nothing of an unrecorded file. -/
structure AppliedOnce (dir : Directory) (db : Content) : Prop where
  recorded : ∃ n, db.ids = (sqlFiles dir.names).take n
  effects : db.effects = db.ids.map dir.contents

/-- Read for one file: it is recorded if and only if its text took effect once, and the text of a
file that is not recorded took no effect. -/
theorem AppliedOnce.recorded_iff {dir : Directory} {db : Content} (h : AppliedOnce dir db)
    (hdistinct : ∀ f ∈ dir.names, ∀ f' ∈ dir.names, dir.contents f = dir.contents f' → f = f')
    {file : String} (hfile : file ∈ sqlFiles dir.names) :
    (file ∈ db.ids ↔ db.effects.count (dir.contents file) = 1) ∧
      (file ∉ db.ids → dir.contents file ∉ db.effects) := by
  obtain ⟨n, hn⟩ := h.recorded
  have hnames {f : String} (hf : f ∈ sqlFiles dir.names) : f ∈ dir.names :=
    List.mem_of_mem_filter ((mem_sorted utf16).mp hf)
  have hmem : dir.contents file ∈ db.effects ↔ file ∈ db.ids := by
    rw [h.effects, List.mem_map]
    constructor
    · rintro ⟨f, hf, heq⟩
      have hlisted : f ∈ sqlFiles dir.names := List.mem_of_mem_take (hn ▸ hf)
      rw [← hdistinct f (hnames hlisted) file (hnames hfile) heq]
      exact hf
    · exact fun hf => ⟨file, hf, rfl⟩
  have hnodup : db.effects.Nodup := by
    rw [h.effects, List.nodup_map_iff_inj_on]
    · intro f hf f' hf'
      rw [hn] at hf hf'
      exact hdistinct f (hnames (List.mem_of_mem_take hf)) f' (hnames (List.mem_of_mem_take hf'))
    · rw [hn]
      exact (nodup_sqlFiles dir.nodup).sublist (List.take_sublist n _)
  refine ⟨?_, fun hnot => hnot ∘ hmem.mp⟩
  rw [← hmem, hnodup.count]
  simp

/-! ## What a process has under way -/

/-- The connection of the last `begin` that was not ended. -/
def holding : Hist → Option Conn
  | [] => none
  | ⟨.query _ .begin, .ok conn⟩ :: _ => some conn
  | ⟨.query _ .commit, .ok _⟩ :: _ => none
  | ⟨.query _ .rollback, _⟩ :: _ => none
  | _ :: h => holding h

/-- A transaction, as the process knows it. -/
structure Doing where
  conn : Conn
  ids : List String
  effects : List String

/-- The transaction in which all has gone well so far. -/
def doing : Hist → Option Doing
  | ⟨.query _ .begin, .ok conn⟩ :: _ => some ⟨conn, [], []⟩
  | ⟨.query _ (.sql text), .ok _⟩ :: h =>
      (doing h).map fun g => { g with effects := g.effects ++ [text] }
  | ⟨.query _ (.insertId id), .ok _⟩ :: h => (doing h).map fun g => { g with ids := g.ids ++ [id] }
  | _ => none

theorem holding_of_doing {h : Hist} {g : Doing} (hg : doing h = some g) :
    holding h = some g.conn := by
  fun_induction doing h generalizing g with
  | case1 pool conn h =>
      cases hg
      rfl
  | case2 pool text u h ih =>
      obtain ⟨g', hg', rfl⟩ := Option.map_eq_some_iff.mp hg
      have hholding := ih hg'
      exact hholding
  | case3 pool id u h ih =>
      obtain ⟨g', hg', rfl⟩ := Option.map_eq_some_iff.mp hg
      have hholding := ih hg'
      exact hholding
  | case4 h => cases hg

/-! ## Runs on one connection -/

/-- The statement runs on a connection that is meant for it: a `begin` on an idle one that nobody has
a transaction of its own on, the statements of a file on the connection of its `begin`, and everything
else outside of any transaction. -/
def RunsWell (s : Database) (t : Trace Op Reply) (pid : Nat) (conn : Conn) : Statement → Prop
  | .createTable | .selectIds => (s.session conn).isActive = false
  | .begin => s.session conn = .idle ∧ ∀ call ∈ t, holding (own call.pid t) ≠ some conn
  | .sql _ | .insertId _ | .commit => holding (own pid t) = some conn
  | .rollback => holding (own pid t) = some conn ∨ (s.session conn).isActive = false

/-- Every query that reaches the server runs well. -/
def Orderly (s : Database) (t : Trace Op Reply) (pid : Nat) : Op → Outcome → Prop
  | .query pool q, c => c.fault.isUnsent = true ∨ RunsWell s t pid ⟨pool, c.index⟩ q
  | _, _ => True

/-- Any number of calls, from any number of instances, at once or one after another. Queries may fail,
connections break and processes crash at any point. -/
def orderly : Regime Op Reply Job Outcome Database where
  job _ := True
  call := Orderly
  crash := True

instance (s : Database) (t : Trace Op Reply) (pid : Nat) (conn : Conn) :
    (q : Statement) → Decidable (RunsWell s t pid conn q)
  | .createTable => inferInstanceAs (Decidable ((s.session conn).isActive = false))
  | .selectIds => inferInstanceAs (Decidable ((s.session conn).isActive = false))
  | .begin => inferInstanceAs (Decidable (_ ∧ ∀ call ∈ t, holding (own call.pid t) ≠ some conn))
  | .sql _ => inferInstanceAs (Decidable (holding (own pid t) = some conn))
  | .insertId _ => inferInstanceAs (Decidable (holding (own pid t) = some conn))
  | .commit => inferInstanceAs (Decidable (holding (own pid t) = some conn))
  | .rollback => inferInstanceAs (Decidable (holding (own pid t) = some conn ∨ _))

instance (s : Database) (t : Trace Op Reply) (pid : Nat) (c : Outcome) :
    (o : Op) → Decidable (Orderly s t pid o c)
  | .query _ _ => inferInstanceAs (Decidable (_ ∨ RunsWell s t pid _ _))
  | .readdir => .isTrue trivial
  | .readFile _ => .isTrue trivial
  | .disconnect _ => .isTrue trivial

instance : DecidablePred orderly.job := fun _ => .isTrue trivial

instance (s : Database) (t : Trace Op Reply) (pid : Nat) (o : Op) (c : Outcome) :
    Decidable (orderly.call s t pid o c) := inferInstanceAs (Decidable (Orderly s t pid o c))

instance : Decidable orderly.crash := .isTrue trivial

/-! ## What a statement does -/

/-- The statement reached the server: it was refused, or carried out, and then the connection may have
broken. -/
def Sent (conn : Conn) (s : Database) (q : Statement) (r : Except String q.Value)
    (s' : Database) : Prop :=
  s.session conn ≠ .closed ∧
    ((∃ e, r = .error e ∧ s' = refuse conn s q) ∨
      ∃ r₀ s₁, query conn s q = some (r₀, s₁) ∧
        (r = r₀ ∧ s' = s₁ ∨ ∃ e, r = .error e ∧ s' = s₁.setSession conn .closed))

/-- Nothing is committed, and no other connection is touched. -/
structure Moved (s s' : Database) (conn : Conn) : Prop where
  ids : s'.committed.ids = s.committed.ids
  effects : s'.committed.effects = s.committed.effects
  others : ∀ c, c ≠ conn → s'.session c = s.session c

theorem Moved.refl (s : Database) (conn : Conn) : Moved s s conn := ⟨rfl, rfl, fun _ _ => rfl⟩

theorem moved_setSession (s : Database) (conn : Conn) (x : Session) :
    Moved s (s.setSession conn x) conn :=
  ⟨rfl, rfl, fun _ hne => s.session_setSession_ne x hne⟩

theorem Moved.trans {s s' s'' : Database} {conn : Conn} (h : Moved s s' conn)
    (h' : Moved s' s'' conn) : Moved s s'' conn where
  ids := h'.ids.trans h.ids
  effects := h'.effects.trans h.effects
  others c hne := (h'.others c hne).trans (h.others c hne)

section

variable {dir : Directory} {s s' : Database} {conn : Conn} {done : Content}

theorem exec_query {pool : Nat} {q : Statement} {c : Outcome} {r : Reply (.query pool q)}
    (hx : exec dir (.query pool q) c s = some (r, s')) :
    ((∃ e, r = .error e) ∧ s' = s) ∨
      c.fault.isUnsent = false ∧ Sent ⟨pool, c.index⟩ s q r s' := by
  unfold exec at hx
  dsimp only at hx
  cases hf : c.fault with
  | unsent e =>
      rw [hf] at hx
      cases hx
      exact .inl ⟨⟨e, rfl⟩, rfl⟩
  | refused e =>
      rw [hf] at hx
      dsimp only at hx
      split_ifs at hx with hclosed
      cases hx
      exact .inr ⟨rfl, hclosed, .inl ⟨e, rfl, rfl⟩⟩
  | none =>
      rw [hf] at hx
      dsimp only at hx
      refine .inr ⟨rfl, fun hclosed => ?_, .inr ⟨r, s', hx, .inl ⟨rfl, rfl⟩⟩⟩
      rw [query, if_pos hclosed] at hx
      cases hx
  | lost e =>
      rw [hf] at hx
      obtain ⟨⟨r₀, s₁⟩, hq, heq⟩ := Option.map_eq_some_iff.mp hx
      cases heq
      refine .inr ⟨rfl, fun hclosed => ?_, .inr ⟨r₀, s₁, hq, .inr ⟨e, rfl, rfl⟩⟩⟩
      rw [query, if_pos hclosed] at hq
      cases hq

/-- The files are read, and nothing is changed. -/
theorem exec_readdir {c : Outcome} {r : Reply .readdir} (hx : exec dir .readdir c s = some (r, s')) :
    s' = s ∧ ∀ entries, r = .ok entries → entries.Perm dir.names := by
  unfold exec at hx
  dsimp only at hx
  split at hx
  · split_ifs at hx with hperm
    cases hx
    refine ⟨rfl, fun entries heq => ?_⟩
    cases heq
    exact hperm
  all_goals
    cases hx
    exact ⟨rfl, nofun⟩

theorem exec_readFile {file : String} {c : Outcome} {r : Reply (.readFile file)}
    (hx : exec dir (.readFile file) c s = some (r, s')) :
    s' = s ∧ ∀ text, r = .ok text → text = dir.contents file := by
  unfold exec at hx
  dsimp only at hx
  split at hx
  · cases hx
    refine ⟨rfl, fun text heq => ?_⟩
    cases heq
    rfl
  all_goals
    cases hx
    exact ⟨rfl, nofun⟩

theorem change_active (hactive : s.session conn = .active done) (f : Content → Content) :
    s.change conn f = s.setSession conn (.active (f done)) := by
  rw [Database.change, hactive]

theorem moved_abort (s : Database) (conn : Conn) : Moved s (s.abort conn) conn := by
  unfold Database.abort
  split_ifs
  · exact moved_setSession _ _ _
  · exact .refl _ _

theorem abort_not_active (s : Database) (conn : Conn) :
    ((s.abort conn).session conn).isActive = false := by
  unfold Database.abort
  split_ifs with h
  · rw [Database.session_setSession]
    rfl
  · simpa using h

/-- A statement of a file is carried out or fails, and then at most what was done before is left. -/
theorem Sent.sql {text : String} {r : Except String Unit} (h : Sent conn s (.sql text) r s')
    (hactive : s.session conn = .active done) :
    Moved s s' conn ∧
      (r = .ok () ∧ s'.session conn = .active { done with effects := done.effects ++ [text] } ∨
        (∃ e, r = .error e) ∧ (s'.session conn).isActive = false) := by
  obtain ⟨-, ⟨e, rfl, rfl⟩ | ⟨r₀, s₁, hq, hend⟩⟩ := h
  · exact ⟨moved_abort _ _, .inr ⟨⟨e, rfl⟩, abort_not_active _ _⟩⟩
  rw [query, hactive, if_neg nofun, if_neg (by simp), perform, change_active hactive] at hq
  cases hq
  rcases hend with ⟨rfl, rfl⟩ | ⟨e, rfl, rfl⟩
  · exact ⟨moved_setSession _ _ _, .inl ⟨rfl, Database.session_setSession _ _ _⟩⟩
  · refine ⟨(moved_setSession _ _ _).trans (moved_setSession _ _ _), .inr ⟨⟨e, rfl⟩, ?_⟩⟩
    rw [Database.session_setSession]
    rfl

theorem Sent.insertId {id : String} {r : Except String Unit} (h : Sent conn s (.insertId id) r s')
    (hactive : s.session conn = .active done) :
    Moved s s' conn ∧
      (r = .ok () ∧ s'.session conn = .active { done with ids := done.ids ++ [id] } ∧
          id ∉ s.committed.ids ∧ (∀ c, c ≠ conn → id ∉ (s.session c).ids) ∨
        (∃ e, r = .error e) ∧ (s'.session conn).isActive = false) := by
  obtain ⟨-, ⟨e, rfl, rfl⟩ | ⟨r₀, s₁, hq, hend⟩⟩ := h
  · exact ⟨moved_abort _ _, .inr ⟨⟨e, rfl⟩, abort_not_active _ _⟩⟩
  rw [query, hactive, if_neg nofun, if_neg (by simp), perform] at hq
  -- whatever happened, a connection that broke has no transaction
  have hbroken (s₁ : Database) (hm : Moved s s₁ conn) (e : String) :
      Moved s (s₁.setSession conn .closed) conn ∧
        (∃ e', (Except.error e : Except String Unit) = .error e') ∧
          ((s₁.setSession conn .closed).session conn).isActive = false := by
    refine ⟨hm.trans (moved_setSession _ _ _), ⟨e, rfl⟩, ?_⟩
    rw [Database.session_setSession]
    rfl
  have hfailed (e : String) (hq : some (.error e, s.abort conn) = some (r₀, s₁)) :
      Moved s s' conn ∧ (∃ e, r = .error e) ∧ (s'.session conn).isActive = false := by
    cases hq
    rcases hend with ⟨rfl, rfl⟩ | ⟨e', rfl, rfl⟩
    · exact ⟨moved_abort _ _, ⟨e, rfl⟩, abort_not_active _ _⟩
    · exact hbroken _ (moved_abort _ _) e'
  split_ifs at hq with htable hdup hlocked
  · exact ⟨(hfailed _ hq).1, .inr (hfailed _ hq).2⟩
  · rw [change_active hactive] at hq
    cases hq
    have hids : id ∉ s.committed.ids := by
      intro hid
      refine hdup ?_
      rw [Database.visible, hactive]
      exact List.mem_append_left _ hid
    have hothers (c : Conn) (hne : c ≠ conn) : id ∉ (s.session c).ids :=
      Database.not_mem_of_awaitsRow (by simpa using hlocked) hne
    rcases hend with ⟨rfl, rfl⟩ | ⟨e, rfl, rfl⟩
    · exact ⟨moved_setSession _ _ _,
        .inl ⟨rfl, Database.session_setSession _ _ _, hids, hothers⟩⟩
    · obtain ⟨hm, hr⟩ := hbroken _ (moved_setSession _ _ _) e
      exact ⟨hm, .inr hr⟩
  · exact ⟨(hfailed _ hq).1, .inr (hfailed _ hq).2⟩

theorem Sent.commit {r : Except String Unit} (h : Sent conn s .commit r s')
    (hactive : s.session conn = .active done) :
    (∀ c, c ≠ conn → s'.session c = s.session c) ∧ (s'.session conn).isActive = false ∧
      ((∃ e, r = .error e) ∧ s'.committed = s.committed ∨
        s'.committed = s.committed.append done) := by
  obtain ⟨-, ⟨e, rfl, rfl⟩ | ⟨r₀, s₁, hq, hend⟩⟩ := h
  · have hrefuse : refuse conn s .commit = s.setSession conn .idle := if_pos rfl
    rw [hrefuse]
    refine ⟨fun c hne => s.session_setSession_ne _ hne, ?_, .inl ⟨⟨e, rfl⟩, rfl⟩⟩
    rw [Database.session_setSession]
    rfl
  rw [query, hactive, if_neg nofun, if_neg (by simp), perform, hactive] at hq
  cases hq
  rcases hend with ⟨rfl, rfl⟩ | ⟨e, rfl, rfl⟩
  · exact ⟨fun c hne => s.session_setSession_ne _ hne,
      congrArg Session.isActive (s.session_setSession conn .idle), .inr rfl⟩
  · refine ⟨fun c hne => ?_, ?_, .inr rfl⟩
    · rw [Database.session_setSession_ne _ _ hne]
      exact s.session_setSession_ne _ hne
    · rw [Database.session_setSession]
      rfl

theorem Sent.begin {r : Except String Conn} (h : Sent conn s .begin r s')
    (hidle : s.session conn = .idle) :
    Moved s s' conn ∧ (r = .ok conn ∧ s'.session conn = .active .empty ∨
      (∃ e, r = .error e) ∧ (s'.session conn).isActive = false) := by
  obtain ⟨-, ⟨e, rfl, rfl⟩ | ⟨r₀, s₁, hq, hend⟩⟩ := h
  · exact ⟨moved_abort _ _, .inr ⟨⟨e, rfl⟩, abort_not_active _ _⟩⟩
  rw [query, hidle, if_neg nofun, if_neg (by simp), perform, if_pos hidle] at hq
  cases hq
  rcases hend with ⟨rfl, rfl⟩ | ⟨e, rfl, rfl⟩
  · exact ⟨moved_setSession _ _ _, .inl ⟨rfl, Database.session_setSession _ _ _⟩⟩
  · refine ⟨(moved_setSession _ _ _).trans (moved_setSession _ _ _), .inr ⟨⟨e, rfl⟩, ?_⟩⟩
    rw [Database.session_setSession]
    rfl

theorem Sent.rollback {r : Except String Unit} (h : Sent conn s .rollback r s') :
    Moved s s' conn ∧ (s'.session conn).isActive = false := by
  obtain ⟨hopen, ⟨e, -, rfl⟩ | ⟨r₀, s₁, hq, hend⟩⟩ := h
  · exact ⟨moved_abort _ _, abort_not_active _ _⟩
  rw [query, if_neg hopen, if_neg (by simp [Statement.endsTransaction]), perform] at hq
  cases hq
  rcases hend with ⟨-, rfl⟩ | ⟨e, -, rfl⟩
  · exact ⟨moved_setSession _ _ _, congrArg Session.isActive (s.session_setSession conn .idle)⟩
  · refine ⟨(moved_setSession _ _ _).trans (moved_setSession _ _ _), ?_⟩
    rw [Database.session_setSession]
    rfl

/-- Outside of any transaction a query that is no change of rows leaves everything as it is, but the
connection may break. -/
theorem Sent.aside {q : Statement} {r : Except String q.Value} (h : Sent conn s q r s')
    (hfree : (s.session conn).isActive = false) (hq : q = .createTable ∨ q = .selectIds) :
    Moved s s' conn ∧ (s'.session conn = s.session conn ∨ s'.session conn = .closed) := by
  have habort : s.abort conn = s := by
    rw [Database.abort, if_neg (by simp [hfree])]
  have hquery {r₀ : Except String q.Value} {s₁ : Database} (hx : query conn s q = some (r₀, s₁)) :
      Moved s s₁ conn ∧ s₁.session conn = s.session conn := by
    unfold query at hx
    split_ifs at hx
    · cases hx
      exact ⟨.refl _ _, rfl⟩
    rcases hq with rfl | rfl
    · have hchange : s.change conn (fun db => { db with table := true }) =
          { s with committed := { s.committed with table := true } } := by
        unfold Database.change
        cases hs : s.session conn with
        | active done =>
            rw [hs] at hfree
            cases hfree
        | _ => rfl
      rw [perform, hchange] at hx
      cases hx
      exact ⟨⟨rfl, rfl, fun _ _ => rfl⟩, rfl⟩
    · rw [perform, habort] at hx
      split_ifs at hx
      · cases hx
        exact ⟨.refl _ _, rfl⟩
      · cases hx
        exact ⟨.refl _ _, rfl⟩
  obtain ⟨-, ⟨e, -, rfl⟩ | ⟨r₀, s₁, hx, hend⟩⟩ := h
  · have hrefuse : refuse conn s q = s := by
      rcases hq with rfl | rfl
      · exact habort
      · exact habort
    rw [hrefuse]
    exact ⟨.refl _ _, .inl rfl⟩
  obtain ⟨hm, hsame⟩ := hquery hx
  rcases hend with ⟨-, rfl⟩ | ⟨e, -, rfl⟩
  · exact ⟨hm, .inl hsame⟩
  · exact ⟨hm.trans (moved_setSession _ _ _), .inr (Database.session_setSession _ _ _)⟩

theorem Sent.selected {ids : List String} (h : Sent conn s .selectIds (.ok ids) s')
    (hfree : (s.session conn).isActive = false) : ids = s.committed.ids := by
  have hvisible : s.visible conn = s.committed := by
    unfold Database.visible
    cases hs : s.session conn with
    | active done =>
        rw [hs] at hfree
        cases hfree
    | _ => rfl
  obtain ⟨-, ⟨e, he, -⟩ | ⟨r₀, s₁, hq, ⟨rfl, -⟩ | ⟨e, he, -⟩⟩⟩ := h
  · cases he
  · unfold query at hq
    split_ifs at hq
    · cases hq
    · rw [perform, hvisible] at hq
      split_ifs at hq
      · cases hq
        rfl
      · cases hq
  · cases he

end

/-! ## What holds in a run -/

/-- What a process was told is so. -/
def Told (dir : Directory) (ids : List String) (h : Hist) : Done Op Reply → Prop
  | ⟨.readFile file, .ok text⟩ => text = dir.contents file
  | ⟨.readdir, .ok entries⟩ => entries.Perm dir.names
  | ⟨.query _ .selectIds, .ok seen⟩ => ∀ id ∈ seen, id ∈ ids
  | ⟨.query _ .commit, .ok _⟩ => ∀ pool file h',
      h = ⟨.query pool (.insertId file), .ok ()⟩ :: h' → file ∈ ids
  | _ => True

/-- The connection is as the process thinks, if it did not break. -/
def Underway (s : Database) (g : Doing) : Prop :=
  s.session g.conn = .closed ∨ ∃ table, s.session g.conn = .active ⟨table, g.ids, g.effects⟩

structure Sound (dir : Directory) (s : Database) (t : Trace Op Reply) : Prop where
  applied : AppliedOnce dir s.committed
  told : ∀ pid d h, d :: h <:+ own pid t → Told dir s.committed.ids h d
  underway : ∀ pid g, doing (own pid t) = some g → Underway s g
  /-- No two processes have begun on one connection. -/
  alone : ∀ pid pid' conn, holding (own pid t) = some conn → holding (own pid' t) = some conn →
    pid = pid'
  /-- A row is inserted in one transaction at a time, and not again. -/
  unique : ∀ conn id, id ∈ (s.session conn).ids → id ∉ s.committed.ids ∧
    ∀ c, c ≠ conn → id ∉ (s.session c).ids

theorem Told.mono {dir : Directory} {ids ids' : List String} {h : Hist} {d : Done Op Reply}
    (ht : Told dir ids h d) (hids : ∀ id ∈ ids, id ∈ ids') : Told dir ids' h d := by
  unfold Told at ht ⊢
  split
  · exact ht
  · exact ht
  · exact fun id hid => hids id (ht id hid)
  · exact fun pool file h' heq => hids file (ht pool file h' heq)
  · trivial

theorem not_mem_ids {x : Session} (hx : x.isActive = false) (id : String) : id ∉ x.ids := by
  cases x with
  | active done => cases hx
  | _ => exact List.not_mem_nil

theorem holding_ne {t : Trace Op Reply} {conn : Conn}
    (h : ∀ call ∈ t, holding (own call.pid t) ≠ some conn) (i : Nat) :
    holding (own i t) ≠ some conn := by
  intro hi
  have hne : own i t ≠ [] := by
    intro hnil
    rw [hnil] at hi
    cases hi
  obtain ⟨call, hcall, rfl⟩ := exists_call_of_ne_nil hne
  exact h call hcall hi

/-- An element that is missing from the first ones of a list, where those before it are not. -/
theorem take_eq_front {α : Type} {front back : List α} {x : α} {n : Nat}
    (hnodup : (front ++ x :: back).Nodup) (hx : x ∉ (front ++ x :: back).take n)
    (hfront : ∀ a ∈ front, a ∈ (front ++ x :: back).take n) :
    (front ++ x :: back).take n = front := by
  have hle : n ≤ front.length := by
    by_contra hlt
    refine hx ?_
    rw [List.take_append]
    refine List.mem_append_right _ ?_
    obtain ⟨k, hk⟩ := Nat.exists_eq_add_of_lt (Nat.lt_of_not_le hlt)
    rw [show n - front.length = k + 1 by omega, List.take_succ_cons]
    exact List.mem_cons_self
  rw [List.take_append_of_le_length hle] at hfront ⊢
  have hge : front.length ≤ n := by
    have hlength := (List.subperm_of_subset (List.nodup_append.mp hnodup).1 hfront).length_le
    rw [List.length_take] at hlength
    omega
  exact List.take_of_length_le hge

section

variable {dir : Directory} {s s' : Database} {t : Trace Op Reply} {pid pool : Nat} {conn : Conn}
  {o : Op} {r : Reply o}

theorem told_error (dir : Directory) (ids : List String) (h : Hist) (q : Statement) (e : String) :
    Told dir ids h ⟨.query pool q, .error e⟩ := by
  cases q <;> trivial

theorem doing_error (h : Hist) (q : Statement) (e : String) :
    doing (⟨.query pool q, .error e⟩ :: h) = none := by
  cases q <;> rfl

theorem holding_error {h : Hist} {q : Statement} {e : String}
    (hh : holding (⟨.query pool q, .error e⟩ :: h) = some conn) : holding h = some conn := by
  cases q with
  | rollback => cases hh
  | _ => exact hh

namespace Sound

/-- What is known of the trace, after one more call. -/
theorem told_cons (h : Sound dir s t) (hids : ∀ id ∈ s.committed.ids, id ∈ s'.committed.ids)
    (htold : Told dir s'.committed.ids (own pid t) ⟨o, r⟩) (i : Nat) (d : Done Op Reply) (past : Hist)
    (hs : d :: past <:+ own i (⟨pid, o, r⟩ :: t)) : Told dir s'.committed.ids past d := by
  by_cases hi : pid = i
  · subst hi
    rw [own_cons_self] at hs
    rcases List.suffix_cons_iff.mp hs with heq | hs
    · cases heq
      exact htold
    · exact (h.told pid d past hs).mono hids
  · rw [own_cons_ne hi] at hs
    exact (h.told i d past hs).mono hids

theorem alone_cons (h : Sound dir s t)
    (hholding : ∀ c, holding (⟨o, r⟩ :: own pid t) = some c →
      holding (own pid t) = some c ∨ ∀ i, holding (own i t) ≠ some c) (i i' : Nat) (c : Conn)
    (hi : holding (own i (⟨pid, o, r⟩ :: t)) = some c)
    (hi' : holding (own i' (⟨pid, o, r⟩ :: t)) = some c) : i = i' := by
  have hother {i : Nat} (hne : pid ≠ i) (hi : holding (own i (⟨pid, o, r⟩ :: t)) = some c) :
      holding (own i t) = some c := by rwa [own_cons_ne hne] at hi
  have hself (hi : holding (own pid (⟨pid, o, r⟩ :: t)) = some c) :
      holding (own pid t) = some c ∨ ∀ i, holding (own i t) ≠ some c := by
    rw [own_cons_self] at hi
    exact hholding c hi
  by_cases hpi : pid = i
  · subst hpi
    by_cases hpi' : pid = i'
    · exact hpi'
    rcases hself hi with hold | hnone
    · exact h.alone _ _ c hold (hother hpi' hi')
    · exact absurd (hother hpi' hi') (hnone i')
  by_cases hpi' : pid = i'
  · subst hpi'
    rcases hself hi' with hold | hnone
    · exact h.alone _ _ c (hother hpi hi) hold
    · exact absurd (hother hpi hi) (hnone i)
  · exact h.alone _ _ c (hother hpi hi) (hother hpi' hi')

/-- A call that touches one connection, which no other process has a transaction on. -/
theorem moved (h : Sound dir s t) (hm : Moved s s' conn)
    (htold : Told dir s.committed.ids (own pid t) ⟨o, r⟩)
    (hothers : ∀ i g, i ≠ pid → doing (own i t) = some g → g.conn = conn → Underway s' g)
    (hdoing : ∀ g, doing (⟨o, r⟩ :: own pid t) = some g → Underway s' g)
    (hholding : ∀ c, holding (⟨o, r⟩ :: own pid t) = some c →
      holding (own pid t) = some c ∨ ∀ i, holding (own i t) ≠ some c)
    (hunique : ∀ id ∈ (s'.session conn).ids, id ∉ s.committed.ids ∧
      ∀ c, c ≠ conn → id ∉ (s.session c).ids) : Sound dir s' (⟨pid, o, r⟩ :: t) := by
  constructor
  · refine ⟨?_, ?_⟩
    · rw [hm.ids]
      exact h.applied.recorded
    · rw [hm.ids, hm.effects]
      exact h.applied.effects
  · exact h.told_cons (fun id hid => by rwa [hm.ids]) (by rwa [hm.ids])
  · intro i g hg
    by_cases hi : pid = i
    · subst hi
      rw [own_cons_self] at hg
      exact hdoing g hg
    · rw [own_cons_ne hi] at hg
      by_cases hconn : g.conn = conn
      · exact hothers i g (Ne.symm hi) hg hconn
      · unfold Underway
        rw [hm.others _ hconn]
        exact h.underway i g hg
  · exact h.alone_cons hholding
  · intro c id hid
    rw [hm.ids]
    by_cases hc : c = conn
    · subst hc
      obtain ⟨hcommitted, hothers⟩ := hunique id hid
      refine ⟨hcommitted, fun c' hne => ?_⟩
      rw [hm.others c' hne]
      exact hothers c' hne
    · rw [hm.others c hc] at hid
      obtain ⟨hcommitted, hothers⟩ := h.unique c id hid
      refine ⟨hcommitted, fun c' hne => ?_⟩
      by_cases hc' : c' = conn
      · subst hc'
        exact fun hid' => (hunique id hid').2 c hc hid
      · rw [hm.others c' hc']
        exact hothers c' hne

/-- A call that changes nothing. -/
theorem still (h : Sound dir s t) (htold : Told dir s.committed.ids (own pid t) ⟨o, r⟩)
    (hdoing : doing (⟨o, r⟩ :: own pid t) = none)
    (hholding : ∀ c, holding (⟨o, r⟩ :: own pid t) = some c → holding (own pid t) = some c) :
    Sound dir s (⟨pid, o, r⟩ :: t) := by
  refine h.moved (.refl s ⟨0, 0⟩) htold (fun i g _ hg _ => h.underway i g hg) ?_
    (fun c hc => .inl (hholding c hc)) fun id hid => h.unique _ id hid
  rw [hdoing]
  nofun

/-- A query that does not reach the server. -/
theorem unsent (h : Sound dir s t) (q : Statement) (e : String) :
    Sound dir s (⟨pid, .query pool q, .error e⟩ :: t) :=
  h.still (told_error _ _ _ q e) (doing_error _ q e) fun _ => holding_error

/-- Nobody has a transaction of its own on a connection without one. -/
theorem free (h : Sound dir s t) (hopen : s.session conn ≠ .closed)
    (hfree : (s.session conn).isActive = false) {i : Nat} {g : Doing}
    (hg : doing (own i t) = some g) : g.conn ≠ conn := by
  rintro rfl
  rcases h.underway i g hg with hclosed | ⟨table, hactive⟩
  · exact hopen hclosed
  · rw [hactive] at hfree
    cases hfree

/-- Nobody else has a transaction on the connection of a process. -/
theorem mine (h : Sound dir s t) (hown : holding (own pid t) = some conn) {i : Nat} {g : Doing}
    (hi : i ≠ pid) (hg : doing (own i t) = some g) : g.conn ≠ conn := by
  rintro rfl
  exact hi (h.alone _ _ _ (holding_of_doing hg) hown)

/-- The transaction of a process in which all has gone well. -/
theorem active (h : Sound dir s t) {g : Doing} (hg : doing (own pid t) = some g)
    (hopen : s.session g.conn ≠ .closed) :
    ∃ table, s.session g.conn = .active ⟨table, g.ids, g.effects⟩ :=
  (h.underway pid g hg).resolve_left hopen

/-! ### The statements -/

theorem aside (h : Sound dir s t) {q : Statement} {r : Reply (.query pool q)}
    (hsent : Sent conn s q r s') (hfree : (s.session conn).isActive = false)
    (hq : q = .createTable ∨ q = .selectIds) : Sound dir s' (⟨pid, .query pool q, r⟩ :: t) := by
  obtain ⟨hm, hsame⟩ := hsent.aside hfree hq
  have hnone : doing (⟨.query pool q, r⟩ :: own pid t) = none := by
    rcases hq with rfl | rfl <;> rfl
  refine h.moved hm ?_ (fun i g _ hg hconn => absurd hconn (h.free hsent.1 hfree hg)) ?_ ?_ ?_
  · rcases hq with rfl | rfl
    · trivial
    · cases r with
      | error e => trivial
      | ok seen =>
          intro id hid
          rwa [← hsent.selected hfree]
  · rw [hnone]
    nofun
  · rcases hq with rfl | rfl <;> exact fun c hc => .inl hc
  · intro id hid
    rcases hsame with hsame | hclosed
    · rw [hsame] at hid
      exact h.unique conn id hid
    · rw [hclosed] at hid
      cases hid

theorem begin (h : Sound dir s t) {r : Reply (.query pool .begin)}
    (hsent : Sent conn s .begin r s') (hidle : s.session conn = .idle)
    (hnobody : ∀ i, holding (own i t) ≠ some conn) :
    Sound dir s' (⟨pid, .query pool .begin, r⟩ :: t) := by
  obtain ⟨hm, hr⟩ := hsent.begin hidle
  have hothers (i : Nat) (g : Doing) (hg : doing (own i t) = some g) : g.conn ≠ conn := by
    rintro rfl
    exact hnobody i (holding_of_doing hg)
  rcases hr with ⟨rfl, hactive⟩ | ⟨⟨e, rfl⟩, hgone⟩
  · refine h.moved hm trivial (fun i g _ hg hconn => absurd hconn (hothers i g hg)) ?_ ?_ ?_
    · intro g hg
      cases hg
      exact .inr ⟨false, hactive⟩
    · intro c hc
      cases hc
      exact .inr hnobody
    · intro id hid
      rw [hactive] at hid
      cases hid
  · refine h.moved hm trivial (fun i g _ hg hconn => absurd hconn (hothers i g hg)) (fun _ hg => ?_)
      (fun c hc => .inl hc) fun id hid => absurd hid (not_mem_ids hgone id)
    cases hg

theorem rollback (h : Sound dir s t) {r : Reply (.query pool .rollback)}
    (hsent : Sent conn s .rollback r s')
    (hwell : holding (own pid t) = some conn ∨ (s.session conn).isActive = false) :
    Sound dir s' (⟨pid, .query pool .rollback, r⟩ :: t) := by
  obtain ⟨hm, hgone⟩ := hsent.rollback
  refine h.moved hm trivial (fun i g hi hg hconn => absurd hconn ?_) (fun _ hg => nomatch hg)
    (fun _ hc => nomatch hc) fun id hid => absurd hid (not_mem_ids hgone id)
  rcases hwell with hown | hfree
  · exact h.mine hown hi hg
  · exact h.free hsent.1 hfree hg

/-- The two statements of a file change what is under way, or end it. -/
theorem changed (h : Sound dir s t) {q : Statement} {r : Reply (.query pool q)} {g : Doing}
    (g' : Doing) (hg : doing (own pid t) = some g)
    (hm : Moved s s' g.conn) (hconn : g'.conn = g.conn)
    (hkept : ∀ c, holding (⟨.query pool q, r⟩ :: own pid t) = some c → holding (own pid t) = some c)
    (htold : Told dir s.committed.ids (own pid t) ⟨.query pool q, r⟩)
    (hr : doing (⟨.query pool q, r⟩ :: own pid t) = some g' ∧
        (∃ table, s'.session g.conn = .active ⟨table, g'.ids, g'.effects⟩) ∧
        (∀ id ∈ g'.ids, id ∉ s.committed.ids ∧ ∀ c, c ≠ g.conn → id ∉ (s.session c).ids) ∨
      (∃ e, r = .error e) ∧ (s'.session g.conn).isActive = false) :
    Sound dir s' (⟨pid, .query pool q, r⟩ :: t) := by
  have hothers (i : Nat) (g₁ : Doing) (hi : i ≠ pid) (hg₁ : doing (own i t) = some g₁) :
      g₁.conn ≠ g.conn := h.mine (holding_of_doing hg) hi hg₁
  rcases hr with ⟨hdoing, ⟨table, hactive⟩, hunique⟩ | ⟨⟨e, rfl⟩, hgone⟩
  · refine h.moved hm htold (fun i g₁ hi hg₁ heq => absurd heq (hothers i g₁ hi hg₁)) ?_
      (fun c hc => .inl (hkept c hc)) ?_
    · intro g₁ hg₁
      rw [hdoing] at hg₁
      cases hg₁
      refine .inr ⟨table, ?_⟩
      rw [hconn]
      exact hactive
    · rw [hactive]
      exact hunique
  · refine h.moved hm htold (fun i g₁ hi hg₁ heq => absurd heq (hothers i g₁ hi hg₁)) ?_
      (fun c hc => .inl (hkept c hc)) fun id hid => absurd hid (not_mem_ids hgone id)
    rw [doing_error]
    nofun

theorem sql (h : Sound dir s t) {text : String} {r : Reply (.query pool (.sql text))} {g : Doing}
    (hg : doing (own pid t) = some g) (hsent : Sent g.conn s (.sql text) r s') :
    Sound dir s' (⟨pid, .query pool (.sql text), r⟩ :: t) := by
  obtain ⟨table, hactive⟩ := h.active hg hsent.1
  obtain ⟨hm, hr⟩ := hsent.sql hactive
  refine h.changed { g with effects := g.effects ++ [text] } hg hm rfl
    (fun c hc => ?_) ?_ ?_
  · cases r <;> exact hc
  · cases r <;> trivial
  rcases hr with ⟨rfl, hactive'⟩ | hgone
  · refine .inl ⟨?_, ⟨table, hactive'⟩, fun id hid => h.unique g.conn id ?_⟩
    · rw [doing, hg]
      rfl
    · rw [hactive]
      exact hid
  · exact .inr hgone

theorem insertId (h : Sound dir s t) {id : String} {r : Reply (.query pool (.insertId id))}
    {g : Doing} (hg : doing (own pid t) = some g) (hsent : Sent g.conn s (.insertId id) r s') :
    Sound dir s' (⟨pid, .query pool (.insertId id), r⟩ :: t) := by
  obtain ⟨table, hactive⟩ := h.active hg hsent.1
  obtain ⟨hm, hr⟩ := hsent.insertId hactive
  refine h.changed { g with ids := g.ids ++ [id] } hg hm rfl
    (fun c hc => ?_) ?_ ?_
  · cases r <;> exact hc
  · cases r <;> trivial
  rcases hr with ⟨rfl, hactive', hnew, hnobody⟩ | hgone
  · refine .inl ⟨?_, ⟨table, hactive'⟩, fun id' hid => ?_⟩
    · rw [doing, hg]
      rfl
    · rcases List.mem_append.mp hid with hold | hself
      · refine h.unique g.conn id' ?_
        rw [hactive]
        exact hold
      · rw [List.mem_singleton.mp hself]
        exact ⟨hnew, hnobody⟩
  · exact .inr hgone

/-- What a process has covered is recorded. -/
theorem recorded (h : Sound dir s t) {past : Hist} (hp : past <:+ own pid t) {file : String}
    (hc : Covered past file) : file ∈ s.committed.ids := by
  rcases hc with ⟨pool, seen, hmem, hfile⟩ | ⟨pool, h', hs⟩
  · obtain ⟨newer, earlier, rfl⟩ := List.append_of_mem hmem
    have hs : ⟨.query pool .selectIds, .ok seen⟩ :: earlier <:+ own pid t :=
      (List.suffix_append newer _).trans hp
    exact h.told pid _ _ hs file hfile
  · exact h.told pid _ _ (hs.trans hp) pool file h' rfl

/-- The next file, if it is not recorded, comes right after those that are. -/
theorem next (h : Sound dir s t) {past : Hist} (hp : past <:+ own pid t) {file : String}
    (hnext : IsNext past file) (hnew : file ∉ s.committed.ids) :
    ∃ n, s.committed.ids ++ [file] = (sqlFiles dir.names).take n := by
  obtain ⟨entries, front, back, hlisted, hsorted, hfront⟩ := hnext
  obtain ⟨newer, earlier, rfl⟩ := List.append_of_mem hlisted
  have hs : ⟨.readdir, .ok entries⟩ :: earlier <:+ own pid t :=
    (List.suffix_append newer _).trans hp
  have hperm : entries.Perm dir.names := h.told pid _ _ hs
  rw [sqlFiles_perm hperm] at hsorted
  have hnodup := nodup_sqlFiles dir.nodup
  obtain ⟨n, hn⟩ := h.applied.recorded
  have hids : s.committed.ids = front := by
    rw [hsorted] at hn hnodup
    rw [hn] at hnew ⊢
    refine take_eq_front hnodup hnew fun f hf => ?_
    rw [← hn]
    exact h.recorded hp (hfront f hf)
  refine ⟨front.length + 1, ?_⟩
  rw [hids, hsorted, List.take_length_add_append, List.take_succ_cons, List.take_zero]

theorem commit (h : Sound dir s t) {file text : String} {past : Hist}
    {r : Reply (.query pool .commit)}
    (hown : own pid t = didRecord pool file (didRun pool text (begun pool conn
      (haveRead file text past))))
    (hnext : IsNext past file) (hsent : Sent conn s .commit r s') :
    Sound dir s' (⟨pid, .query pool .commit, r⟩ :: t) := by
  have hdoing : doing (own pid t) = some ⟨conn, [file], [text]⟩ := by
    rw [hown]
    rfl
  have hholding : holding (own pid t) = some conn := holding_of_doing hdoing
  obtain ⟨table, hactive⟩ := h.active hdoing hsent.1
  obtain ⟨hothers, hgone, ⟨⟨e, rfl⟩, hsame⟩ | hcommitted⟩ := hsent.commit hactive
  · -- the server refused the commit
    refine h.moved ⟨by rw [hsame], by rw [hsame], hothers⟩ trivial
      (fun i g hi hg hconn => absurd hconn (h.mine hholding hi hg)) (fun _ hg => nomatch hg)
      (fun c hc => .inl hc) fun id hid => absurd hid (not_mem_ids hgone id)
  obtain ⟨hnew, hnobody⟩ := h.unique conn file (by rw [hactive]; exact List.mem_singleton_self _)
  have hids : s'.committed.ids = s.committed.ids ++ [file] := by rw [hcommitted]; rfl
  have heffects : s'.committed.effects = s.committed.effects ++ [text] := by rw [hcommitted]; rfl
  have hread : haveRead file text past <:+ own pid t := by
    rw [hown]
    exact ⟨[_, _, _], rfl⟩
  have htext : text = dir.contents file := h.told pid ⟨.readFile file, .ok text⟩ past hread
  constructor
  · refine ⟨?_, ?_⟩
    · rw [hids]
      exact h.next ((List.suffix_cons _ _).trans hread) hnext hnew
    · rw [hids, heffects, h.applied.effects, List.map_append, List.map_singleton, htext]
  · refine h.told_cons (fun id hid => ?_) ?_
    · rw [hids]
      exact List.mem_append_left _ hid
    · cases r with
      | error e => trivial
      | ok u =>
          intro pool' file' h' heq
          rw [hown] at heq
          cases heq
          rw [hids]
          exact List.mem_append_right _ (List.mem_singleton_self _)
  · intro i g hg
    by_cases hi : pid = i
    · subst hi
      rw [own_cons_self] at hg
      cases hg
    · rw [own_cons_ne hi] at hg
      unfold Underway
      rw [hothers _ (h.mine hholding (Ne.symm hi) hg)]
      exact h.underway i g hg
  · refine h.alone_cons fun c hc => .inl ?_
    cases r with
    | error e => exact hc
    | ok u => cases hc
  · intro c id hid
    by_cases hc : c = conn
    · subst hc
      exact absurd hid (not_mem_ids hgone id)
    rw [hothers c hc] at hid
    obtain ⟨hold, halone⟩ := h.unique c id hid
    refine ⟨fun hmem => ?_, fun c' hc' => ?_⟩
    · rw [hids] at hmem
      rcases List.mem_append.mp hmem with hmem | hmem
      · exact hold hmem
      · rw [List.mem_singleton.mp hmem] at hid
        exact hnobody c hc hid
    · by_cases hconn : c' = conn
      · subst hconn
        exact not_mem_ids hgone id
      · rw [hothers c' hconn]
        exact halone c' hc'

/-- **Every call that is explained and runs well** keeps the database sound. -/
theorem call (h : Sound dir s t) {j : Job} {c : Outcome} (hc : j.Calls (own pid t) o)
    (hwell : Orderly s t pid o c) (hx : exec dir o c s = some (r, s')) :
    Sound dir s' (⟨pid, o, r⟩ :: t) := by
  cases j with
  | disconnect conn =>
      cases hc
      cases hx
      refine h.moved (moved_setSession s conn .closed) trivial (fun i g _ hg hconn => .inl ?_)
        (fun _ hg => nomatch hg) (fun c hc => .inl hc) ?_
      · rw [hconn, Database.session_setSession]
      · rw [Database.session_setSession]
        nofun
  | runMigrations pool =>
      -- the queries fail before they reach the server, or run on a connection meant for them
      have hquery {q : Statement} {r : Reply (.query pool q)}
          (hx : exec dir (.query pool q) c s = some (r, s'))
          (hwell : Orderly s t pid (.query pool q) c)
          (hsent : Sent ⟨pool, c.index⟩ s q r s' → RunsWell s t pid ⟨pool, c.index⟩ q →
            Sound dir s' (⟨pid, .query pool q, r⟩ :: t)) :
          Sound dir s' (⟨pid, .query pool q, r⟩ :: t) := by
        rcases exec_query hx with ⟨⟨e, rfl⟩, rfl⟩ | ⟨hreach, hs⟩
        · exact h.unsent q e
        · exact hsent hs (hwell.resolve_left (by simp [hreach]))
      generalize hown : own pid t = past at hc
      cases hc with
      | createTable => exact hquery hx hwell fun hs hfree => h.aside hs hfree (.inl rfl)
      | selectIds => exact hquery hx hwell fun hs hfree => h.aside hs hfree (.inr rfl)
      | readdir =>
          obtain ⟨rfl, hperm⟩ := exec_readdir hx
          refine h.still ?_ rfl fun c hc => hc
          cases r with
          | error e => trivial
          | ok entries => exact hperm entries rfl
      | readFile file =>
          obtain ⟨rfl, htext⟩ := exec_readFile hx
          refine h.still ?_ rfl fun c hc => hc
          cases r with
          | error e => trivial
          | ok text => exact htext text rfl
      | begin => exact hquery hx hwell fun hs hidle => h.begin hs hidle.1 (holding_ne hidle.2)
      | sql past file text conn hnext =>
          refine hquery hx hwell fun hs hholding => h.sql (g := ⟨conn, [], []⟩) ?_ ?_
          · rw [hown]
            rfl
          · have hconn : holding (own pid t) = some conn := by
              rw [hown]
              rfl
            cases hholding.symm.trans hconn
            exact hs
      | insertId past file text conn hnext =>
          refine hquery hx hwell fun hs hholding => h.insertId (g := ⟨conn, [], [text]⟩) ?_ ?_
          · rw [hown]
            rfl
          · have hconn : holding (own pid t) = some conn := by
              rw [hown]
              rfl
            cases hholding.symm.trans hconn
            exact hs
      | commit past file text conn hnext =>
          refine hquery hx hwell fun hs hholding => h.commit hown hnext ?_
          have hconn : holding (own pid t) = some conn := by
            rw [hown]
            rfl
          cases hholding.symm.trans hconn
          exact hs
      | rollback => exact hquery hx hwell fun hs hrolls => h.rollback hs hrolls

end Sound

end

/-- **Migrations are applied once and atomically** in every run whose queries run well: calls of
`runMigrations` from any number of instances, in any order of steps, where queries fail, connections
break and processes crash at any point. -/
theorem migrations_applied_once (dir : Directory) (db : Content) (before : AppliedOnce dir db)
    (sched : List (Act Job Outcome))
    (meets : Meets (migrator dir) orderly (.initial ⟨db, []⟩) sched) :
    AppliedOnce dir (runSched (migrator dir) (.initial ⟨db, []⟩) sched).state.committed := by
  have hinitial : Sound dir ⟨db, []⟩ [] :=
    ⟨before, fun _ _ _ hs => by simp at hs, nofun, nofun, nofun⟩
  exact (runSched_rule (I := Sound dir) (fun j _ => body_calls dir j)
    (fun s t pid j o c r s' h _ hc hwell hx => h.call hc hwell hx) sched _ hinitial (.initial _)
    meets).1.applied

theorem twoMigrations_nodup : ["0002_bids.sql", "README.md", "0001_tasks.sql"].Nodup := by decide

def twoMigrations : Directory :=
  ⟨["0002_bids.sql", "README.md", "0001_tasks.sql"], twoMigrations_nodup, fun f => "-- " ++ f⟩

/-- The process goes on for `n` calls, on one connection. -/
def goOn (pid n : Nat) : List (Act Job Outcome) :=
  List.replicate n (.run pid { listing := twoMigrations.names })

theorem two_migrations_applied :
    AppliedOnce twoMigrations (runSched (migrator twoMigrations) (.initial ⟨.empty, []⟩)
      (.spawn (.runMigrations 0) :: goOn 0 13)).state.committed :=
  migrations_applied_once twoMigrations .empty ⟨⟨0, rfl⟩, rfl⟩ _ (by decide +kernel)

/-- The SQL of the first file runs on another connection than the `begin`, and the process crashes. -/
def splitAndCrash : List (Act Job Outcome) :=
  .spawn (.runMigrations 0) :: goOn 0 5 ++ [.run 0 { index := 1 }, .crash 0]

/-- The file took effect and is not recorded. -/
theorem split_migration_not_atomic :
    ¬ ∀ (dir : Directory) (sched : List (Act Job Outcome)),
      AppliedOnce dir (runSched (migrator dir) (.initial ⟨.empty, []⟩) sched).state.committed := by
  intro h
  have heffects := (h twoMigrations splitAndCrash).effects
  have hcommitted : (runSched (migrator twoMigrations) (.initial ⟨.empty, []⟩)
      splitAndCrash).state.committed = ⟨true, [], ["-- 0001_tasks.sql"]⟩ := by decide +kernel
  rw [hcommitted] at heffects
  cases heffects

end TrustGate.Db
