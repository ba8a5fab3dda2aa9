import TrustGate.Lib.Lines
import TrustGate.Market.Denied
import TrustGate.Market.Listed
import TrustGate.Market.Money
import TrustGate.Market.Paused

set_option autoImplicit false

/-! # Operators' switches

`src/src/config/safetyFeatures.ts`: the pauses and the denylist are texts in the environment. They
are read once, by the first load that accepts them, and every controller and worker of the process
goes by what was read then. -/

namespace TrustGate.Market

open Resumption

/-! ## The texts -/

abbrev Env := String → Option String

/-- `toLowerCase`, where ASCII comes out: besides the capitals, only the Kelvin sign has such a
lower case. Other letters stay as they are, and are in no word that is looked for. -/
def lowerChar (c : Char) : Char := if c.toNat = 0x212A then 'k' else c.toLower

/-- `raw.trim().toLowerCase()`. -/
def trimLower (raw : String) : String := String.ofList ((jsTrim raw.toList).map lowerChar)

def onWords : List String := ["1", "true", "yes", "on"]

def offWords : List String := ["0", "false", "no", "off"]

def parseBoolEnv (env : Env) (name : String) (defaultValue : Bool) : Except String Bool :=
  match env name with
  | none => .ok defaultValue
  | some raw =>
      if raw = "" then .ok defaultValue
      else if trimLower raw ∈ onWords then .ok true
      else if trimLower raw ∈ offWords then .ok false
      else .error ("[safetyFeatures] Invalid boolean for " ++ name ++
        ": expected true/false/1/0/yes/no/on/off, got \"" ++ raw ++ "\"")

/-- The parts between commas that are not blank, trimmed. -/
def denylistItems (raw : String) : List String :=
  ((raw.toList.splitOn ',').map fun s => String.ofList (jsTrim s)).filter fun s => s ≠ ""

def parseExecutorDenylist (raw : Option String) : Except String (List String) :=
  match raw with
  | none => .ok []
  | some raw =>
      if jsTrim raw.toList = [] then .ok []
      else
        let invalid := (denylistItems raw).filter fun s => !isStrkey 'G' s
        if invalid ≠ [] then
          .error ("[safetyFeatures] EXECUTOR_DENYLIST contains invalid Stellar addresses: " ++
            String.intercalate ", " invalid)
        else .ok (denylistItems raw).eraseDups

inductive EscrowImplementation
  | trustlesswork
  | mock
  | ourown
  deriving DecidableEq

def parseEscrowImplementation (raw : Option String) : Except String EscrowImplementation :=
  let lower := trimLower (raw.getD "trustlesswork")
  if lower = "trustlesswork" then .ok .trustlesswork
  else if lower = "mock" then .ok .mock
  else if lower = "ourown" then .ok .ourown
  else .error ("[safetyFeatures] Invalid ESCROW_IMPLEMENTATION: expected \"trustlesswork\", " ++
    "\"mock\" or \"ourown\", got \"" ++ raw.getD "undefined" ++ "\"")

/-- `length` of a string, in UTF-16 code units. -/
def jsLength (cs : List Char) : Nat :=
  (cs.map fun c => if c.toNat < 0x10000 then 1 else 2).sum

def parseOptionalStringMinLen (raw : Option String) (envName : String) (minLen : Nat) :
    Except String (Option String) :=
  match raw with
  | none => .ok none
  | some raw =>
      let trimmed := jsTrim raw.toList
      if raw = "" then .ok none
      else if jsLength trimmed < minLen then
        .error ("[safetyFeatures] " ++ envName ++ " too short: expected >= " ++ toString minLen ++
          " chars when set, got " ++ toString (jsLength trimmed))
      else .ok (some (String.ofList trimmed))

structure SafetyFeatures where
  pauseNewTasks : Bool
  pauseNewBids : Bool
  pauseWorkerConsumption : Bool
  executorDenylist : List String
  escrowImplementation : EscrowImplementation
  trustlessWorkWebhookPublicKey : Option String
  deriving DecidableEq

/-- What `loadSafetyFeatures` stores if nothing is cached. -/
def parseSafetyFeatures (env : Env) : Except String SafetyFeatures := do
  return {
    pauseNewTasks := ← parseBoolEnv env "PAUSE_NEW_TASKS" false
    pauseNewBids := ← parseBoolEnv env "PAUSE_NEW_BIDS" false
    pauseWorkerConsumption := ← parseBoolEnv env "PAUSE_WORKER_CONSUMPTION" false
    executorDenylist := ← parseExecutorDenylist (env "EXECUTOR_DENYLIST")
    escrowImplementation := ← parseEscrowImplementation (env "ESCROW_IMPLEMENTATION")
    trustlessWorkWebhookPublicKey := ←
      parseOptionalStringMinLen (env "TRUSTLESS_WORK_WEBHOOK_PUBLIC_KEY")
        "TRUSTLESS_WORK_WEBHOOK_PUBLIC_KEY" 32 }

/-- The result, and what is cached from then on. -/
def loadSafetyFeatures (env : Env) (cached : Option SafetyFeatures) :
    Except String SafetyFeatures × Option SafetyFeatures :=
  match cached with
  | some features => (.ok features, some features)
  | none =>
      match parseSafetyFeatures env with
      | .ok features => (.ok features, some features)
      | .error e => (.error e, none)

/-- The results of one load after the other, each in the environment of its time. -/
def loads : Option SafetyFeatures → List Env → List (Except String SafetyFeatures)
  | _, [] => []
  | cached, env :: envs =>
      (loadSafetyFeatures env cached).1 :: loads (loadSafetyFeatures env cached).2 envs

/-! ## What the texts say -/

/-- The text is one of the words, in capitals or not, between spaces. -/
def OneOf (raw : String) (words : List String) : Prop :=
  ∃ before word after : List Char, raw.toList = before ++ word ++ after ∧
    (∀ c ∈ before ++ after, isJsSpace c = true) ∧ String.ofList (word.map lowerChar) ∈ words

/-- The variable switches something on. -/
def Env.On (env : Env) (name : String) : Prop := ∃ raw ∈ env name, OneOf raw onWords

/-- The variable is not set, or switches something off. -/
def Env.Off (env : Env) (name : String) : Prop :=
  ∀ raw ∈ env name, raw = "" ∨ OneOf raw offWords

/-- The key stands in the list between two commas, and spaces. -/
def Env.Lists (env : Env) (name key : String) : Prop :=
  ∃ raw ∈ env name, ∃ first before after last : List Char,
    ',' :: raw.toList ++ [','] = first ++ ',' :: (before ++ key.toList ++ after) ++ ',' :: last ∧
      ∀ c ∈ before ++ after, isJsSpace c = true

/-- A space has no other lower case. -/
theorem lowerChar_space {c : Char} (h : isJsSpace c = true) : lowerChar c = c := by
  simp only [isJsSpace, Bool.or_eq_true, Bool.and_eq_true, decide_eq_true_eq] at h
  unfold lowerChar Char.toLower
  rw [if_neg (by omega), dif_neg]
  rintro ⟨hlow, hhigh⟩
  have hlow' : 65 ≤ c.toNat := hlow
  have hhigh' : c.toNat ≤ 90 := hhigh
  omega

/-- Trimming takes off the spaces at either end, and only them. -/
theorem jsTrim_split (cs : List Char) : ∃ before after, cs = before ++ jsTrim cs ++ after ∧
    ∀ c ∈ before ++ after, isJsSpace c = true := by
  refine ⟨cs.takeWhile isJsSpace,
    ((cs.dropWhile isJsSpace).reverse.takeWhile isJsSpace).reverse, ?_, ?_⟩
  · have hback := List.takeWhile_append_dropWhile (p := isJsSpace)
      (l := (cs.dropWhile isJsSpace).reverse)
    have hrev := congrArg List.reverse hback
    rw [List.reverse_append, List.reverse_reverse] at hrev
    unfold jsTrim
    rw [List.append_assoc, hrev, List.takeWhile_append_dropWhile]
  · intro c hc
    rcases List.mem_append.mp hc with hc | hc
    · exact List.all_eq_true.mp List.all_takeWhile c hc
    · exact List.all_eq_true.mp List.all_takeWhile c (List.mem_reverse.mp hc)

theorem jsTrim_append {before word after : List Char}
    (hspace : ∀ c ∈ before ++ after, isJsSpace c = true) (hword : ∀ c ∈ word, isJsSpace c = false) :
    jsTrim (before ++ word ++ after) = word := by
  have hbefore : ∀ c ∈ before, isJsSpace c = true := fun c hc => hspace c (by simp [hc])
  have hafter : ∀ c ∈ after.reverse, isJsSpace c = true := fun c hc =>
    hspace c (List.mem_append_right _ (List.mem_reverse.mp hc))
  have hkept := jsTrim_eq hword
  unfold jsTrim at hkept ⊢
  rw [List.append_assoc, List.dropWhile_append_of_pos hbefore]
  rcases word with _ | ⟨c, word⟩
  · rw [List.nil_append, List.dropWhile_eq_nil_iff.mpr fun c hc =>
      hafter c (List.mem_reverse.mpr hc)]
    rfl
  · have hfirst : ¬ isJsSpace c = true := by simp [hword c List.mem_cons_self]
    rw [List.dropWhile_cons_of_neg hfirst] at hkept
    rw [List.cons_append, List.dropWhile_cons_of_neg hfirst, ← List.cons_append,
      List.reverse_append, List.dropWhile_append_of_pos hafter, hkept]

/-! ## What the parsers accept -/

/-- Words without spaces are found wherever spaces are around them. -/
theorem trimLower_mem {raw : String} {words : List String}
    (hwords : ∀ word ∈ words, ∀ c ∈ word.toList, isJsSpace c = false) :
    trimLower raw ∈ words ↔ OneOf raw words := by
  constructor
  · intro h
    obtain ⟨before, after, heq, hspace⟩ := jsTrim_split raw.toList
    exact ⟨before, _, after, heq, hspace, h⟩
  · rintro ⟨before, word, after, heq, hspace, hmem⟩
    have hword : ∀ c ∈ word, isJsSpace c = false := by
      intro c hc
      rw [Bool.eq_false_iff]
      intro hsp
      have hfree := hwords _ hmem (lowerChar c) (by
        rw [String.toList_ofList]
        exact List.mem_map_of_mem hc)
      rw [lowerChar_space hsp, hsp] at hfree
      cases hfree
    unfold trimLower
    rwa [heq, jsTrim_append hspace hword]

theorem words_no_space :
    ∀ word ∈ onWords ++ offWords, ∀ c ∈ word.toList, isJsSpace c = false := by
  simp [onWords, offWords]
  decide

theorem trimLower_on {raw : String} : trimLower raw ∈ onWords ↔ OneOf raw onWords :=
  trimLower_mem fun word hw => words_no_space word (List.mem_append_left _ hw)

theorem trimLower_off {raw : String} : trimLower raw ∈ offWords ↔ OneOf raw offWords :=
  trimLower_mem fun word hw => words_no_space word (List.mem_append_right _ hw)

/-- **A switch is read as it is meant, or not at all.** -/
theorem parseBoolEnv_reads {env : Env} {name : String} {b : Bool}
    (h : parseBoolEnv env name false = .ok b) :
    (env.On name ∧ b = true) ∨ (env.Off name ∧ b = false) := by
  unfold parseBoolEnv at h
  unfold Env.On Env.Off
  cases henv : env name with
  | none =>
      rw [henv] at h
      cases h
      exact .inr ⟨by simp, rfl⟩
  | some raw =>
      rw [henv] at h
      dsimp only at h
      split_ifs at h with hempty hword hword' <;> cases h
      · exact .inr ⟨by simp [hempty], rfl⟩
      · exact .inl ⟨⟨raw, rfl, trimLower_on.mp hword⟩, rfl⟩
      · refine .inr ⟨?_, rfl⟩
        rintro _ ⟨⟩
        exact .inr (trimLower_off.mp hword')

/-- No text means both. -/
theorem Env.On.not_off {env : Env} {name : String} (h : env.On name) : ¬ env.Off name := by
  obtain ⟨raw, hraw, hon⟩ := h
  have hword : trimLower raw ∈ onWords := trimLower_on.mpr hon
  intro hoff
  rcases hoff raw hraw with rfl | hoff
  · revert hword
    decide
  · have hword' : trimLower raw ∈ offWords := trimLower_off.mpr hoff
    have hdisjoint : ∀ word ∈ onWords, word ∉ offWords := by decide
    exact hdisjoint _ hword hword'

/-- Keys are written in letters and digits. -/
theorem isStrkey_char {c : Char} {s : String} (h : isStrkey 'G' s = true) (hc : c ∈ s.toList) :
    isJsSpace c = false ∧ c ≠ ',' := by
  have hrange : 50 ≤ c.toNat ∧ c.toNat ≤ 90 := by
    unfold isStrkey at h
    cases hs : s.toList with
    | nil => rw [hs] at hc; cases hc
    | cons first rest =>
        rw [hs] at h hc
        simp only [Bool.and_eq_true, decide_eq_true_eq, List.all_eq_true, Bool.or_eq_true] at h
        rcases List.mem_cons.mp hc with rfl | hc
        · rw [h.1.1]
          decide
        · rcases h.2 c hc with ⟨hlow, hhigh⟩ | ⟨hlow, hhigh⟩
          · have hlow' : 65 ≤ c.toNat := hlow
            have hhigh' : c.toNat ≤ 90 := hhigh
            omega
          · have hlow' : 50 ≤ c.toNat := hlow
            have hhigh' : c.toNat ≤ 55 := hhigh
            omega
  constructor
  · simp only [isJsSpace, Bool.or_eq_false_iff, Bool.and_eq_false_iff, decide_eq_false_iff_not]
    omega
  · rintro rfl
    exact absurd hrange (by decide)

theorem isStrkey_ne_nil {kind : Char} {s : String} (h : isStrkey kind s = true) :
    s.toList ≠ [] := by
  intro hnil
  unfold isStrkey at h
  rw [hnil] at h
  cases h

/-- The keys among the items stand between two commas. -/
theorem mem_denylistItems {raw key : String} (hkey : isStrkey 'G' key = true) :
    key ∈ denylistItems raw ↔ ∃ first before after last : List Char,
      ',' :: raw.toList ++ [','] = first ++ ',' :: (before ++ key.toList ++ after) ++ ',' :: last ∧
        ∀ c ∈ before ++ after, isJsSpace c = true := by
  have hne := isStrkey_ne_nil hkey
  unfold denylistItems
  constructor
  · intro hmem
    obtain ⟨part, hpart, hword⟩ := List.mem_map.mp (List.mem_of_mem_filter hmem)
    obtain ⟨first, last, htext⟩ := Lines.between_of_mem_splitOn hpart
    obtain ⟨before, after, heq, hspace⟩ := jsTrim_split part
    refine ⟨first, before, after, last, ?_, hspace⟩
    rw [← hword, String.toList_ofList, ← heq]
    exact htext
  · rintro ⟨first, before, after, last, htext, hspace⟩
    have hcomma : ',' ∉ before ++ key.toList ++ after := by
      intro hmem
      rcases List.mem_append.mp hmem with hmem | hmem
      · rcases List.mem_append.mp hmem with hmem | hmem
        · exact absurd (hspace _ (List.mem_append_left _ hmem)) (by decide)
        · exact (isStrkey_char hkey hmem).2 rfl
      · exact absurd (hspace _ (List.mem_append_right _ hmem)) (by decide)
    have hpart : before ++ key.toList ++ after ∈ raw.toList.splitOn ',' :=
      Lines.mem_splitOn_of_between (by simp [hne]) hcomma htext
    refine List.mem_filter.mpr ⟨List.mem_map.mpr ⟨_, hpart, ?_⟩, ?_⟩
    · rw [jsTrim_append hspace fun c hc => (isStrkey_char hkey hc).1, String.ofList_toList]
    · simpa using hne

/-- **The denylist is what the text lists**, and all of it are keys. -/
theorem parseExecutorDenylist_lists {env : Env} {name : String} {keys : List String}
    (h : parseExecutorDenylist (env name) = .ok keys) {key : String} :
    key ∈ keys ↔ isStrkey 'G' key = true ∧ env.Lists name key := by
  unfold parseExecutorDenylist at h
  unfold Env.Lists
  cases henv : env name with
  | none =>
      rw [henv] at h
      cases h
      simp
  | some raw =>
      rw [henv] at h
      dsimp only at h
      split_ifs at h with hblank hinvalid
      · -- a key has a letter, and a blank text has none
        cases h
        refine ⟨fun hmem => absurd hmem List.not_mem_nil, ?_⟩
        rintro ⟨hkey, _, ⟨⟩, first, before, after, last, htext, -⟩
        obtain ⟨c, hc⟩ := List.exists_mem_of_ne_nil _ (isStrkey_ne_nil hkey)
        obtain ⟨hletter, hcomma⟩ := isStrkey_char hkey hc
        have hmem : c ∈ ',' :: raw.toList ++ [','] := by
          rw [htext]
          simp [hc]
        obtain ⟨spaces, spaces', hraw, hspace⟩ := jsTrim_split raw.toList
        rw [hblank, List.append_nil] at hraw
        rw [hraw] at hmem
        have hspaces : c ∈ spaces ++ spaces' := by simpa [hcomma] using hmem
        rw [hspace c hspaces] at hletter
        cases hletter
      · cases h
        rw [ne_eq, not_not, List.filter_eq_nil_iff] at hinvalid
        rw [List.mem_eraseDups]
        constructor
        · intro hmem
          have hkey : isStrkey 'G' key = true := by simpa using hinvalid key hmem
          exact ⟨hkey, raw, rfl, (mem_denylistItems hkey).mp hmem⟩
        · rintro ⟨hkey, _, ⟨⟩, htext⟩
          exact (mem_denylistItems hkey).mpr htext

/-- What is accepted in steps is accepted in each step. -/
theorem bind_eq_ok {α β : Type} {x : Except String α} {f : α → Except String β} {b : β}
    (h : x >>= f = .ok b) : ∃ a, x = .ok a ∧ f a = .ok b := by
  cases x with
  | error e => cases h
  | ok a => exact ⟨a, rfl, h⟩

/-- What was read for each variable. -/
theorem parseSafetyFeatures_ok {env : Env} {features : SafetyFeatures}
    (h : parseSafetyFeatures env = .ok features) :
    parseBoolEnv env "PAUSE_NEW_TASKS" false = .ok features.pauseNewTasks ∧
    parseBoolEnv env "PAUSE_NEW_BIDS" false = .ok features.pauseNewBids ∧
    parseBoolEnv env "PAUSE_WORKER_CONSUMPTION" false = .ok features.pauseWorkerConsumption ∧
    parseExecutorDenylist (env "EXECUTOR_DENYLIST") = .ok features.executorDenylist := by
  unfold parseSafetyFeatures at h
  obtain ⟨pauseNewTasks, htasks, h⟩ := bind_eq_ok h
  obtain ⟨pauseNewBids, hbids, h⟩ := bind_eq_ok h
  obtain ⟨pauseWorkerConsumption, hworker, h⟩ := bind_eq_ok h
  obtain ⟨executorDenylist, hdeny, h⟩ := bind_eq_ok h
  obtain ⟨escrowImplementation, -, h⟩ := bind_eq_ok h
  obtain ⟨webhookPublicKey, -, h⟩ := bind_eq_ok h
  cases h
  exact ⟨htasks, hbids, hworker, hdeny⟩

theorem loads_cached {features cached : SafetyFeatures} (envs : List Env)
    (h : Except.ok features ∈ loads (some cached) envs) : features = cached := by
  induction envs with
  | nil => cases h
  | cons env envs ih =>
      rcases List.mem_cons.mp h with heq | h
      · exact Except.ok.inj heq
      · exact ih h

/-- **The first environment that is accepted counts**, whatever it says later. -/
theorem loads_first {features : SafetyFeatures} {envs : List Env}
    (h : Except.ok features ∈ loads none envs) :
    ∃ env, envs.find? (fun env => (parseSafetyFeatures env).isOk) = some env ∧
      parseSafetyFeatures env = .ok features := by
  induction envs with
  | nil => cases h
  | cons env envs ih =>
      unfold loads loadSafetyFeatures at h
      cases hparse : parseSafetyFeatures env with
      | ok first =>
          rw [hparse] at h
          refine ⟨env, by rw [List.find?_cons_of_pos (by rw [hparse]; rfl)], ?_⟩
          rcases List.mem_cons.mp h with heq | h
          · rw [hparse, Except.ok.inj heq]
          · rw [hparse, loads_cached envs h]
      | error e =>
          rw [hparse] at h
          obtain ⟨env', hfirst, hok⟩ := ih ((List.mem_cons.mp h).resolve_left (by simp))
          refine ⟨env', ?_, hok⟩
          rw [List.find?_cons_of_neg (by rw [hparse]; exact Bool.false_ne_true), hfirst]

/-! ## Processes -/

/-- The settings are those of a process with these features. -/
structure SafetyFeatures.Governs (features : SafetyFeatures) (cfg : Settings) : Prop where
  newTasks : cfg.pauseNewTasks = features.pauseNewTasks
  newBids : cfg.pauseNewBids = features.pauseNewBids
  workerConsumption : cfg.pauseWorkerConsumption = features.pauseWorkerConsumption
  denylist : cfg.executorDenylist = features.executorDenylist

/-- Whatever runs was given features that were loaded in these environments, one after the other. -/
abbrev governed (envs : List Env) : Regime Op Reply Job Outcome Store :=
  ⟨fun j => ∃ features, Except.ok features ∈ loads none envs ∧ features.Governs j.settings,
    fun _ _ _ _ _ => True, True⟩

/-- The request is turned away: its kind is paused, or its executor is on the denylist. -/
def Job.refused : Job → Bool
  | .createTask cfg _ => cfg.pauseNewTasks
  | .createPaid cfg _ => cfg.pauseNewTasks
  | .createBid cfg (.ok b) => cfg.pauseNewBids || decide (b.executor ∈ cfg.executorDenylist)
  | .createBid cfg (.error _) => cfg.pauseNewBids
  | _ => false

theorem createBid_refused {cfg : Settings} {body : Parsed CreateBidBody}
    (h : (Job.createBid cfg body).refused = true) :
    Ensures (fun _ _ => False) (fun h _ => (Job.createBid cfg body).Ended h) (createBid cfg body)
      [] := by
  unfold createBid
  cases body with
  | error detail =>
      have hpaused : cfg.pauseNewBids = true := h
      rw [if_pos hpaused]
      rfl
  | ok b =>
      have hidle : BidEnd b [] := .idle [] (by simp)
      split_ifs with hpaused
      · exact hidle
      dsimp only
      cases bidSecretError cfg b with
      | some response => exact hidle
      | none =>
          have hdenied : b.executor ∈ cfg.executorDenylist := by
            simpa [Job.refused, hpaused] using h
          dsimp only
          rw [if_pos hdenied]
          exact hidle

/-- **A request that is turned away calls nothing.** -/
theorem body_refused {j : Job} (h : j.refused = true) :
    Follows (fun _ _ => False) (fun h _ => j.Ended h) j.body [] := by
  cases j with
  | createTask cfg body =>
      have hpaused : cfg.pauseNewTasks = true := h
      refine toEnd_follows ?_
      unfold createTask
      rw [if_pos hpaused]
      trivial
  | createPaid cfg body =>
      have hpaused : cfg.pauseNewTasks = true := h
      refine toEnd_follows ?_
      unfold createPaid
      rw [if_pos hpaused]
      trivial
  | createBid cfg body => exact toEnd_follows (createBid_refused h)
  | _ => cases h

/-- A call of a job that was not turned away; a paused worker consumes nothing. -/
structure Job.Admits (j : Job) (h : Hist) (o : Op) : Prop where
  calls : j.Calls h o
  admitted : j.refused = false
  paused : j.settings.pauseWorkerConsumption = true → o.consumes = false

/-- A listing request that was not turned away. -/
theorem Job.Admits.unpaused {j : Job} {h : Hist} {o : Op} (ha : j.Admits h o) {cfg : Settings}
    {body : Parsed CreateTaskBody} (hj : j = .createTask cfg body ∨ j = .createPaid cfg body) :
    j.settings.pauseNewTasks = false := by
  rcases hj with rfl | rfl <;> exact ha.admitted

theorem body_admits (j : Job) : Follows j.Admits (fun h _ => j.Ended h) j.body [] := by
  cases hrefused : j.refused with
  | true => exact (body_refused hrefused).mono (fun _ _ hfalse => hfalse.elim) fun _ _ hq => hq
  | false =>
      by_cases hpause : j.settings.pauseWorkerConsumption = true
      · have hpaused : j.paused = true := by
          cases j with
          | tick cfg cursor => exact hpause
          | _ => rfl
        exact (body_paused j hpaused).mono (fun _ _ hc => ⟨hc.1, hrefused, fun _ => hc.2⟩)
          fun _ _ hq => hq
      · exact (body_follows j).mono (fun _ _ hc => ⟨hc, hrefused, fun h => absurd h hpause⟩)
          fun _ _ hq => hq

/-! ## Creations -/

/-- The calls that charge for a task or lock collateral for a bid. -/
def Op.charges : Op → Bool
  | .chargeListingFee _ _ => true
  | .createEscrow _ _ _ => true
  | _ => false

/-- **Who charges, and for what.** -/
theorem Job.charging {j : Job} {h : Hist} {o : Op} (hc : j.Calls h o) (ho : o.charges = true) :
    ((∃ cfg body, j = .createTask cfg body ∨ j = .createPaid cfg body) ∧
      ∃ requester stroops, o = .chargeListingFee requester stroops) ∨
    ∃ cfg b, j = .createBid cfg (.ok b) ∧ o = .createEscrow b.executor b.taskId b.collateral := by
  have emits : ¬ EmitCall h o := fun he => by cases he <;> cases ho
  have selects : ∀ taskId, ¬ SelectCall taskId h o := fun taskId hs => by cases hs <;> cases ho
  cases j with
  | createTask cfg body =>
      cases hc with
      | charge requester stroops => exact .inl ⟨⟨cfg, body, .inl rfl⟩, requester, stroops, rfl⟩
      | emits _ _ he => exact absurd he emits
      | _ => cases ho
  | createPaid cfg body =>
      cases hc with
      | charge requester stroops => exact .inl ⟨⟨cfg, body, .inr rfl⟩, requester, stroops, rfl⟩
      | emits _ _ he => exact absurd he emits
      | _ => cases ho
  | select cfg taskId =>
      cases hc with
      | select hs => exact absurd hs (selects taskId)
      | emits he => exact absurd he emits
  | createBid cfg body =>
      cases body with
      | error detail => exact hc.elim
      | ok b =>
          cases hc with
          | escrow task opened => exact .inr ⟨cfg, b, rfl, rfl⟩
          | select _ _ _ _ _ _ hs => exact absurd hs (selects b.taskId)
          | emits _ _ he => exact absurd he emits
          | _ => cases ho
  | tick cfg cursor =>
      cases hc with
      | dispatch _ _ x hc =>
          cases hc.2 with
          | completion _ hc =>
              cases hc with
              | emits _ _ he => exact absurd he emits
              | _ => cases ho
          | _ => cases ho
      | _ => cases ho
  | complete _ _ _
  | publishResult _ _ _ _
  | runOnce _ =>
      cases hc with
      | emits _ _ he => exact absurd he emits
      | _ => cases ho

/-- A task is created by a listing request, or it is an old one. -/
theorem Job.createsTask {j : Job} {h : Hist} {row : Task} (hc : j.Calls h (.saveTask row)) :
    (∃ cfg body, j = .createTask cfg body ∨ j = .createPaid cfg body) ∨ WritesBack h row := by
  by_cases hlisting : ∃ cfg body, j = .createTask cfg body ∨ j = .createPaid cfg body
  · exact .inl hlisting
  refine .inr ((Job.saves hc).resolve_left ?_)
  rintro ⟨hopen, -⟩
  have hlists := Job.opensListed hc (fun cfg body heq => hlisting ⟨cfg, body, .inl heq⟩)
    (fun cfg body heq => hlisting ⟨cfg, body, .inr heq⟩) row rfl hopen
  cases hlists with
  | charged cfg b => exact hlisting ⟨cfg, .ok b, .inl rfl⟩
  | gated cfg b => exact hlisting ⟨cfg, .ok b, .inr rfl⟩

section

variable {o : Op} {c : Outcome} {m₀ m m' : Store} {r : Reply o} {t : Trace Op Reply} {pid : Nat}
  {j : Job}

/-- Every task in use was stored at the beginning. -/
def OldTasks (m₀ m : Store) (t : Trace Op Reply) : Prop :=
  ∀ task ∈ taskCopies m t, ∃ old ∈ m₀.tasks, old.id = task.id

/-- Every bid in use of these executors was stored at the beginning. -/
def OldBids (executors : Set String) (m₀ m : Store) (t : Trace Op Reply) : Prop :=
  ∀ bid ∈ bidCopies m t, bid.executorPublicKey ∈ executors →
    ∃ old ∈ m₀.bids, old.id = bid.id ∧ old.executorPublicKey = bid.executorPublicKey

theorem OldTasks.call (h : OldTasks m₀ m t) (hc : j.Calls (own pid t) o)
    (hj : ¬ ∃ cfg body, j = .createTask cfg body ∨ j = .createPaid cfg body)
    (hx : exec o c m = some (r, m')) : OldTasks m₀ m' (⟨pid, o, r⟩ :: t) := by
  intro task ht
  rcases taskCopies_call hx ht with hold | rfl
  · exact h task hold
  · obtain ⟨old, hold, hid, -⟩ := ((Job.createsTask hc).resolve_left hj).copy (m := m)
    obtain ⟨first, hfirst, hid'⟩ := h old hold
    exact ⟨first, hfirst, hid'.trans hid⟩

theorem OldBids.call {executors : Set String} (h : OldBids executors m₀ m t)
    (hc : j.Calls (own pid t) o)
    (hj : ∀ cfg b, j = .createBid cfg (.ok b) → b.executor ∉ executors)
    (hx : exec o c m = some (r, m')) : OldBids executors m₀ m' (⟨pid, o, r⟩ :: t) := by
  intro bid hb hexecutor
  rcases bidCopies_call hx hb with hold | ⟨row, rfl, hrow⟩
  · exact h bid hold hexecutor
  -- the stored row has the id and the executor of the saved one
  have hsame : bid.id = row.id ∧ bid.executorPublicKey = row.executorPublicKey := by
    rcases hrow with rfl | ⟨old, -, -, rfl⟩
    · exact ⟨rfl, rfl⟩
    · cases hbackend : m.backend <;> exact ⟨rfl, rfl⟩
  rw [hsame.2] at hexecutor
  rw [hsame.1, hsame.2]
  rcases Job.placesBid hc with ⟨cfg, b, task, heq, placed, -⟩ | ⟨d, hd, old, hold, heq⟩
  · rw [placed.executor] at hexecutor
    exact absurd hexecutor (hj cfg b heq)
  · rw [heq] at hexecutor ⊢
    exact h old (mem_bidCopies_of_own hd hold) hexecutor

end

/-! ## Runs -/

/-- The switches that are on or off. -/
def switches : List String := ["PAUSE_NEW_TASKS", "PAUSE_NEW_BIDS", "PAUSE_WORKER_CONSUMPTION"]

/-- The environment by which the processes go. -/
def firstAccepted (envs : List Env) : Option Env :=
  envs.find? fun env => (parseSafetyFeatures env).isOk

/-- Every job has the features that were read from that environment. -/
theorem governed_by_first {envs : List Env} {env : Env} (hfirst : firstAccepted envs = some env) :
    ∃ features, parseSafetyFeatures env = .ok features ∧
      ∀ j, (governed envs).job j → features.Governs j.settings := by
  cases hparse : parseSafetyFeatures env with
  | error e =>
      have hok := List.find?_some hfirst
      rw [hparse] at hok
      cases hok
  | ok features =>
      refine ⟨features, rfl, ?_⟩
      rintro j ⟨loaded, hmem, hgoverns⟩
      obtain ⟨env', hfirst', hparse'⟩ := loads_first hmem
      obtain rfl : env = env' := Option.some.inj (hfirst.symm.trans hfirst')
      cases hparse.symm.trans hparse'
      exact hgoverns

section

variable {envs : List Env} {m : Store} {sched : List (Act Job Outcome)}

/-- Every call is one of a job with features, that was not turned away. -/
theorem admitted_run (loaded : Meets market (governed envs) (.initial m) sched)
    {c : Call Op Reply} (hc : c ∈ (runSched market (.initial m) sched).trace) :
    ∃ j h, (governed envs).job j ∧ j.Admits h c.op := by
  obtain ⟨newer, earlier, ht⟩ := List.append_of_mem hc
  obtain ⟨j, -, hj, hadmits⟩ := (runSched_explained (R := governed envs) (P := Job.Admits)
    (Q := Job.Ended) m sched loaded fun j _ => body_admits j).at ⟨newer, ht.symm⟩
  exact ⟨j, _, hj, hadmits⟩

/-- Where new tasks are paused, no task comes into being. -/
theorem oldTasks_run (loaded : Meets market (governed envs) (.initial m) sched)
    (paused : ∀ j, (governed envs).job j → j.settings.pauseNewTasks = true) :
    ∀ task ∈ (runSched market (.initial m) sched).state.tasks,
      ∃ old ∈ m.tasks, old.id = task.id := by
  have hrun : OldTasks m (runSched market (.initial m) sched).state
      (runSched market (.initial m) sched).trace := by
    refine (runSched_rule (I := OldTasks m) (R := governed envs) (P := Job.Admits) (Q := Job.Ended)
      (fun j _ => body_admits j) ?_ sched (.initial m) ?_ (.initial m) loaded).1
    · rintro m' t pid j o c r m'' hold hj hadmits - hx
      refine hold.call hadmits.calls ?_ hx
      -- a listing request would have been turned away
      rintro ⟨cfg, body, hlisting⟩
      exact absurd (hadmits.unpaused hlisting) (by simp [paused j hj])
    · rintro task (ht | ⟨c, hc, -⟩)
      · exact ⟨task, ht, rfl⟩
      · cases hc
  exact fun task ht => hrun task (.inl ht)

theorem uncharged_run (loaded : Meets market (governed envs) (.initial m) sched)
    (paused : ∀ j, (governed envs).job j → j.settings.pauseNewTasks = true) :
    ∀ c ∈ (runSched market (.initial m) sched).trace, ∀ requester stroops,
      c.op ≠ .chargeListingFee requester stroops := by
  intro c hc requester stroops heq
  obtain ⟨j, h, hj, hadmits⟩ := admitted_run loaded hc
  rcases Job.charging hadmits.calls (by rw [heq]; rfl) with
    ⟨⟨cfg, body, hlisting⟩, -⟩ | ⟨cfg, b, -, heq'⟩
  · exact absurd (hadmits.unpaused hlisting) (by simp [paused j hj])
  · cases heq.symm.trans heq'

/-- Every bid request of one of these executors is turned away. -/
def Barred (envs : List Env) (executors : Set String) : Prop :=
  ∀ j, (governed envs).job j → ∀ cfg b, j = .createBid cfg (.ok b) → b.executor ∈ executors →
    j.refused = true

/-- Of executors that are barred, no bid comes into being. -/
theorem oldBids_run (loaded : Meets market (governed envs) (.initial m) sched)
    {executors : Set String} (barred : Barred envs executors) :
    ∀ bid ∈ (runSched market (.initial m) sched).state.bids, bid.executorPublicKey ∈ executors →
      ∃ old ∈ m.bids, old.id = bid.id ∧ old.executorPublicKey = bid.executorPublicKey := by
  have hrun : OldBids executors m (runSched market (.initial m) sched).state
      (runSched market (.initial m) sched).trace := by
    refine (runSched_rule (I := OldBids executors m) (R := governed envs) (P := Job.Admits)
      (Q := Job.Ended) (fun j _ => body_admits j) ?_ sched (.initial m) ?_ (.initial m) loaded).1
    · rintro m' t pid j o c r m'' hold hj hadmits - hx
      refine hold.call hadmits.calls (fun cfg b heq hmem => ?_) hx
      exact absurd (barred j hj cfg b heq hmem) (by simp [hadmits.admitted])
    · rintro bid (hb | ⟨c, hc, -⟩) -
      · exact ⟨bid, hb, rfl, rfl⟩
      · cases hc
  exact fun bid hb => hrun bid (.inl hb)

theorem unlocked_run (loaded : Meets market (governed envs) (.initial m) sched)
    {executors : Set String} (barred : Barred envs executors) :
    ∀ c ∈ (runSched market (.initial m) sched).trace, ∀ executor ∈ executors,
      ∀ taskId collateral, c.op ≠ .createEscrow executor taskId collateral := by
  intro c hc executor hmem taskId collateral heq
  obtain ⟨j, h, hj, hadmits⟩ := admitted_run loaded hc
  rcases Job.charging hadmits.calls (by rw [heq]; rfl) with
    ⟨-, requester, stroops, heq'⟩ | ⟨cfg, b, hjob, heq'⟩
  · cases heq.symm.trans heq'
  · cases heq.symm.trans heq'
    exact absurd (barred j hj cfg b hjob hmem) (by simp [hadmits.admitted])

end

/-- **The switches hold** for every run of processes that loaded their features in these
environments, one load after the other, from any store. What counts is the first environment whose
texts are all accepted, and in it every switch is plainly on or off. Where new tasks are paused no
task comes into being, and the server signs no charge of a fee (a payment gate in front of
`createPaid` has taken its fee by then); where new bids are, no bid does and no collateral is locked;
where consumption is, no event is consumed. Nothing is locked for an executor that the denylist
names, and no bid of it placed. -/
theorem switches_hold (envs : List Env) (m : Store) (sched : List (Act Job Outcome))
    (loaded : Meets market (governed envs) (.initial m) sched) :
    let cfg := runSched market (.initial m) sched
    ∀ env ∈ firstAccepted envs,
      (∀ name ∈ switches, env.On name ∨ env.Off name) ∧
      (env.On "PAUSE_NEW_TASKS" →
        (∀ task ∈ cfg.state.tasks, ∃ old ∈ m.tasks, old.id = task.id) ∧
        ∀ c ∈ cfg.trace, ∀ requester stroops, c.op ≠ .chargeListingFee requester stroops) ∧
      (env.On "PAUSE_NEW_BIDS" →
        (∀ bid ∈ cfg.state.bids, ∃ old ∈ m.bids, old.id = bid.id) ∧
        ∀ c ∈ cfg.trace, ∀ executor taskId collateral,
          c.op ≠ .createEscrow executor taskId collateral) ∧
      (env.On "PAUSE_WORKER_CONSUMPTION" → ∀ c ∈ cfg.trace, c.op.consumes = false) ∧
      ∀ key, isStrkey 'G' key = true → env.Lists "EXECUTOR_DENYLIST" key →
        (∀ bid ∈ cfg.state.bids, bid.executorPublicKey = key →
          ∃ old ∈ m.bids, old.id = bid.id ∧ old.executorPublicKey = key) ∧
        ∀ c ∈ cfg.trace, ∀ taskId collateral, c.op ≠ .createEscrow key taskId collateral := by
  intro cfg env hfirst
  obtain ⟨features, hparse, hgoverns⟩ := governed_by_first hfirst
  obtain ⟨htasks, hbids, hworker, hdeny⟩ := parseSafetyFeatures_ok hparse
  have htasks := parseBoolEnv_reads htasks
  have hbids := parseBoolEnv_reads hbids
  have hworker := parseBoolEnv_reads hworker
  refine ⟨?_, fun hon => ?_, fun hon => ?_, fun hon => ?_, fun key hkey hlists => ?_⟩
  · simp only [switches, List.forall_mem_cons, List.not_mem_nil, false_implies, implies_true,
      and_true]
    exact ⟨htasks.imp And.left And.left, hbids.imp And.left And.left,
      hworker.imp And.left And.left⟩
  · have hpaused : ∀ j, (governed envs).job j → j.settings.pauseNewTasks = true := fun j hj =>
      (hgoverns j hj).newTasks.trans (htasks.resolve_right fun hoff => hon.not_off hoff.1).2
    exact ⟨oldTasks_run loaded hpaused, uncharged_run loaded hpaused⟩
  · have hbarred : Barred envs Set.univ := by
      rintro _ hj s b rfl -
      have hpause : s.pauseNewBids = true := (hgoverns _ hj).newBids.trans
        (hbids.resolve_right fun hoff => hon.not_off hoff.1).2
      simp [Job.refused, hpause]
    constructor
    · intro bid hb
      obtain ⟨old, hold, hid, -⟩ := oldBids_run loaded hbarred bid hb (Set.mem_univ _)
      exact ⟨old, hold, hid⟩
    · exact fun c hc executor => unlocked_run loaded hbarred c hc executor (Set.mem_univ _)
  · intro c hc
    obtain ⟨j, h, hj, hadmits⟩ := admitted_run loaded hc
    exact hadmits.paused ((hgoverns j hj).workerConsumption.trans
      (hworker.resolve_right fun hoff => hon.not_off hoff.1).2)
  · have hdenied : key ∈ features.executorDenylist :=
      (parseExecutorDenylist_lists hdeny).mpr ⟨hkey, hlists⟩
    have hbarred : Barred envs {key} := by
      rintro _ hj s b rfl rfl
      have hlist : s.executorDenylist = features.executorDenylist := (hgoverns _ hj).denylist
      simp [Job.refused, hlist, hdenied]
    constructor
    · intro bid hb hexecutor
      obtain ⟨old, hold, hid, hsame⟩ := oldBids_run loaded hbarred bid hb hexecutor
      exact ⟨old, hold, hid, hsame.trans hexecutor⟩
    · exact fun c hc => unlocked_run loaded hbarred c hc key rfl

/-! ## A denied executor -/

def deniedKey : String := String.ofList ('G' :: List.replicate 55 'A')

def denyingEnv : Env := fun name =>
  if name = "PAUSE_NEW_TASKS" then some " Yes "
  else if name = "EXECUTOR_DENYLIST" then some (" ," ++ deniedKey ++ " ") else none

/-- At first a switch is misspelt; in the end nothing is set any more. -/
def denyingEnvs : List Env :=
  [fun name => if name = "PAUSE_NEW_TASKS" then some "yse" else none, denyingEnv, fun _ => none]

def denyingSettings : Settings :=
  { hasOutbox := false, pauseNewTasks := true, executorDenylist := [deniedKey] }

def oneOpenTask : Store :=
  { emptyStore with tasks := [⟨"t", "R", 10000000, "work", 10, .open⟩] }

/-- The denied executor bids for the task, and then `E` does. -/
def bothBid : List (Act Job Outcome) :=
  [.spawn (.createBid denyingSettings (.ok ⟨"t", deniedKey, "1", "2", ""⟩)), goes 0,
    .spawn (.createBid denyingSettings (.ok ⟨"t", "E", "1", "2", ""⟩)), goes 1, goes 1,
    .run 1 { text := "e" }, .run 1 { text := "b" }, .run 1 { now := 1 }, goes 1]

theorem denyingEnvs_load : (loads none denyingEnvs)[1]? =
    some (.ok ⟨true, false, false, [deniedKey], .trustlesswork, none⟩) := by
  decide +kernel

theorem bothBid_governed : Meets market (governed denyingEnvs) (.initial oneOpenTask) bothBid := by
  refine meets_of_jobs market (fun _ _ _ _ _ => trivial) trivial (fun j hj => ?_) _
  have hsettings : j.settings = denyingSettings := by
    simp only [bothBid, goes, List.mem_cons, List.not_mem_nil, or_false, reduceCtorEq,
      Act.spawn.injEq, false_or] at hj
    rcases hj with rfl | rfl <;> rfl
  refine ⟨_, List.mem_of_getElem? denyingEnvs_load, ?_⟩
  rw [hsettings]
  exact ⟨rfl, rfl, rfl, rfl⟩

/-- The bid of `E` goes through, and nothing is locked for the other one. -/
theorem denied_bid_turned_away :
    let cfg := runSched market (.initial oneOpenTask) bothBid
    cfg.state.bids.map Bid.executorPublicKey = ["E"] ∧
    ∀ c ∈ cfg.trace, ∀ taskId collateral, c.op ≠ .createEscrow deniedKey taskId collateral := by
  refine ⟨by decide +kernel, ?_⟩
  refine ((switches_hold denyingEnvs oneOpenTask bothBid bothBid_governed denyingEnv ?_).2.2.2.2
    deniedKey (by decide +kernel) ?_).2
  · unfold firstAccepted denyingEnvs
    rw [List.find?_cons_of_neg (by decide +kernel), List.find?_cons_of_pos (by decide +kernel)]
    rfl
  · refine ⟨" ," ++ deniedKey ++ " ", by decide +kernel, [',', ' '], [], [' '], [], ?_, ?_⟩
    · simp [String.toList_append]
    · simp [isJsSpace]

end TrustGate.Market
