import Mathlib.Algebra.Group.Nat.Defs
import SmartQuantCollector.Config.Loader
import SmartQuantCollector.Exchange.Pipelines
import SmartQuantCollector.Lib.GuardedLog
import SmartQuantCollector.Lib.Machine

/-! # `RithmicEngine` (`src/rithmic_gateway/rithmic_engine.cpp`, `src/rithmic_gateway/main.cpp`)

The gateway's main thread logs in, subscribes, stores heartbeats and ends at a signal. What it waits
for comes from the threads of the API: `Alert` stores the status of a login, `AgreementList` counts
the agreements that are mandatory and not accepted, one increment after the other, and then sets a
flag. SIGTERM may come at any moment. `SpawnChild` starts the gateway with an empty signal mask, and
the handlers are installed when `Start` has returned, so until then SIGTERM kills the process.

The operations of all of them interleave. `session_followed` says what the gateway asks for and
when, `sigterm_ends` that it ends behind a SIGTERM. -/

namespace Sqc
open Concurrency GuardedLog

namespace RithmicEngine

/-! ## Requests -/

/-- `LoginParams`, the fields that are set. -/
structure LoginParams where
  mdUser : String
  mdPassword : String
  mdCnnctPt : String
  tsUser : String
  tsPassword : String
  tsCnnctPt : String
  /-- User, password and connect point. -/
  ih : Option (String × String × String)
  pnlCnnctPt : Option String
deriving DecidableEq

/-- The calls of the API. -/
inductive Request where
  /-- The constructor of `REngine`. -/
  | create (appName appVersion : String) (envp : List String)
  | loginRepository (envKey user password cnnctPt : String)
  | listAgreements (accepted : Bool)
  | logoutRepository
  | login (params : LoginParams)
  /-- With `MD_ALL`. -/
  | subscribe (exchange ticker : String)
  | unsubscribe (exchange ticker : String)
  | logout
deriving DecidableEq

section
variable (cfg : Config.RithmicConfig)

def buildFakeEnvp : List String :=
  ["MML_SSL_CLNT_AUTH_FILE=" ++ cfg.sslCertFile] ++
  (if cfg.domainServers ≠ "" then ["MML_DMN_SRVR_ADDR=" ++ cfg.domainServers] else []) ++
  ["MML_DOMAIN_NAME=" ++ cfg.domainName] ++
  (if cfg.licenseServers ≠ "" then ["MML_LIC_SRVR_ADDR=" ++ cfg.licenseServers] else []) ++
  (if cfg.localBroker ≠ "" then ["MML_LOC_BROK_ADDR=" ++ cfg.localBroker] else []) ++
  (if cfg.loggerServers ≠ "" then ["MML_LOGGER_ADDR=" ++ cfg.loggerServers] else []) ++
  ["MML_LOG_TYPE=log_net", "USER=" ++ cfg.user]

def mdCnnctPt : String :=
  if cfg.useAggregatedMd ∧ cfg.mdConnectPtAgg ≠ "" then cfg.mdConnectPtAgg else cfg.mdConnectPt

def loginParams : LoginParams where
  mdUser := cfg.user
  mdPassword := cfg.password
  mdCnnctPt := mdCnnctPt cfg
  tsUser := cfg.user
  tsPassword := cfg.password
  tsCnnctPt := cfg.tsConnectPt
  ih := if cfg.ihConnectPt ≠ "" then some (cfg.user, cfg.password, cfg.ihConnectPt) else none
  pnlCnnctPt := if cfg.pnlConnectPt ≠ "" then some cfg.pnlConnectPt else none

/-- The requests up to the login for market data. -/
def opening : List Request :=
  [.create cfg.appName cfg.appVersion (buildFakeEnvp cfg),
    .loginRepository "system" cfg.user cfg.password cfg.repositoryConnectPt,
    .listAgreements false, .logoutRepository, .login (loginParams cfg)]

end

/-! ## Callbacks -/

inductive LoginStatus where
  | notLoggedIn
  | awaitingResults
  | failed
  | complete
deriving DecidableEq

/-- The connections whose status is kept. -/
inductive Connection where
  | repository
  | marketData
deriving DecidableEq

inductive AlertType where
  | loginComplete
  | loginFailed
  | connectionBroken
  | other
deriving DecidableEq

/-- What `Alert` stores for its connection. -/
def AlertType.status : AlertType → Option LoginStatus
  | .loginComplete => some .complete
  | .loginFailed | .connectionBroken => some .failed
  | .other => none

structure AgreementInfo where
  status : String
  mandatory : Bool
deriving DecidableEq

structure AgreementListInfo where
  accepted : Bool
  agreements : List AgreementInfo
deriving DecidableEq

/-- The agreement is counted by `AgreementList`. -/
def AgreementInfo.counts (a : AgreementInfo) : Bool := a.status == "active" && a.mandatory

/-! ## The threads -/

/-- Where the main thread stands; the status of a login is loaded up to three times. -/
inductive Pc where
  | create
  | loginRepository
  | testComplete (c : Connection)
  | testFailed (c : Connection)
  | checkFailed (c : Connection)
  | listAgreements
  | testAgreements
  | checkMandatory
  /-- Before the `logoutRepository` behind which `Start` returns false. -/
  | giveUp
  | logoutRepository
  | login
  | subscribe (rest : List SubEntry)
  /-- Before `signal`. -/
  | install
  /-- Before `sigprocmask`, which finds nothing to unblock. -/
  | unblock
  | storeReady
  | testExit
  | heartbeat
  | storeNotReady
  | unsubscribe (rest : List SubEntry)
  | logout
  | exited (code : Nat)
  /-- SIGTERM without a handler. -/
  | killed
deriving DecidableEq

inductive Entry where
  | request (r : Request) (ok : Bool)
  | childReady (value : Bool)
  | heartbeat
  | alert (c : Connection) (type : AlertType)
  /-- A call of `AgreementList`. -/
  | agreementList (info : AgreementListInfo)
  /-- Its end. -/
  | received (info : AgreementListInfo)
  | sigterm
deriving DecidableEq

/-- An `AgreementList` in progress: the index of its loop. -/
structure Listing where
  info : AgreementListInfo
  i : Nat

structure State (ι : Type*) where
  pc : Pc
  loginStatus : Connection → LoginStatus
  /-- `g_bRcvdUnacceptedAgreements` -/
  rcvdUnacceptedAgreements : Bool
  /-- `g_iUnacceptedMandatoryAgreements` -/
  unacceptedMandatoryAgreements : Int32
  listings : ι → Option Listing
  /-- `g_bExit` -/
  exit : Bool
  /-- SIGTERM has a handler. -/
  handler : Bool
  /-- The increments made so far. -/
  counted : Nat
  log : List Entry

inductive Action (ι : Type*) where
  /-- The next operation of the main thread; the API takes a request or refuses it. -/
  | main (ok : Bool)
  | alert (c : Connection) (type : AlertType)
  /-- A thread of the API calls `AgreementList`. -/
  | agreementList (i : ι) (info : AgreementListInfo)
  /-- The next operation of an `AgreementList`. -/
  | listing (i : ι)
  | sigterm

variable {ι : Type*}

namespace State

def goto (s : State ι) (pc : Pc) : State ι := { s with pc }

def add (s : State ι) (e : Entry) : State ι := { s with log := s.log ++ [e] }

def request (s : State ι) (r : Request) (ok : Bool) (pc : Pc) : State ι :=
  (s.add (.request r ok)).goto pc

end State

/-- Behind the check of a login. -/
def loggedIn (subs : List SubEntry) : Connection → Pc
  | .repository => .listAgreements
  | .marketData => .subscribe subs

def main (cfg : Config.RithmicConfig) (subs : List SubEntry) (s : State ι) (ok : Bool) :
    Option (State ι) :=
  match s.pc with
  | .create =>
    some (s.request (.create cfg.appName cfg.appVersion (buildFakeEnvp cfg)) ok
      (if ok then .loginRepository else .exited 1))
  | .loginRepository =>
    some (s.request (.loginRepository "system" cfg.user cfg.password cfg.repositoryConnectPt) ok
      (if ok then .testComplete .repository else .exited 1))
  | .testComplete c =>
    some (s.goto (if s.loginStatus c = .complete then .checkFailed c else .testFailed c))
  | .testFailed c =>
    some (s.goto (if s.loginStatus c = .failed then .checkFailed c else .testComplete c))
  | .checkFailed c =>
    some (s.goto (if s.loginStatus c = .failed then .exited 1 else loggedIn subs c))
  | .listAgreements =>
    some (s.request (.listAgreements false) ok (if ok then .testAgreements else .giveUp))
  | .testAgreements =>
    some (s.goto (if s.rcvdUnacceptedAgreements then .checkMandatory else .testAgreements))
  | .checkMandatory =>
    some (s.goto (if s.unacceptedMandatoryAgreements > 0 then .giveUp else .logoutRepository))
  | .giveUp => some (s.request .logoutRepository ok (.exited 1))
  | .logoutRepository =>
    some (s.request .logoutRepository ok (if ok then .login else .exited 1))
  | .login =>
    some (s.request (.login (loginParams cfg)) ok
      (if ok then .testComplete .marketData else .exited 1))
  | .subscribe [] => some (s.goto .install)
  | .subscribe (sub :: rest) =>
    if sub.enabled then some (s.request (.subscribe sub.exchange sub.ticker) ok (.subscribe rest))
    else some (s.goto (.subscribe rest))
  | .install => some { s with handler := true, pc := .unblock }
  | .unblock => some (s.goto .storeReady)
  | .storeReady => some ((s.add (.childReady true)).goto .testExit)
  | .testExit => some (s.goto (if s.exit then .storeNotReady else .heartbeat))
  | .heartbeat => some ((s.add .heartbeat).goto .testExit)
  | .storeNotReady => some ((s.add (.childReady false)).goto (.unsubscribe subs))
  | .unsubscribe [] => some (s.goto .logout)
  | .unsubscribe (sub :: rest) =>
    some (s.request (.unsubscribe sub.exchange sub.ticker) ok (.unsubscribe rest))
  | .logout => some (s.request .logout ok (.exited 0))
  | .exited _ | .killed => none

def alert (s : State ι) (c : Connection) (type : AlertType) : State ι :=
  let s := s.add (.alert c type)
  match type.status with
  | some status => { s with loginStatus := Function.update s.loginStatus c status }
  | none => s

variable [DecidableEq ι]

def agreementList (s : State ι) (i : ι) (info : AgreementListInfo) : Option (State ι) :=
  match s.listings i with
  | some _ => none
  | none =>
    let s := s.add (.agreementList info)
    if info.accepted then some (s.add (.received info))
    else some { s with listings := Function.update s.listings i (some ⟨info, 0⟩) }

def listing (s : State ι) (i : ι) : Option (State ι) :=
  match s.listings i with
  | none => none
  | some l =>
    match l.info.agreements[l.i]? with
    | some a =>
      let s := { s with listings := Function.update s.listings i (some { l with i := l.i + 1 }) }
      if a.counts then
        some { s with
          unacceptedMandatoryAgreements := s.unacceptedMandatoryAgreements + 1
          counted := s.counted + 1 }
      else some s
    | none =>
      some { s.add (.received l.info) with
        listings := Function.update s.listings i none
        rcvdUnacceptedAgreements := true }

def sigterm (s : State ι) : State ι :=
  let s := s.add .sigterm
  if s.handler then { s with exit := true } else s.goto .killed

/-- Whether the process is still there. -/
def Pc.alive : Pc → Bool
  | .exited _ | .killed => false
  | _ => true

def step (cfg : Config.RithmicConfig) (subs : List SubEntry) (s : State ι) (a : Action ι) :
    Option (State ι) :=
  if s.pc.alive then
    match a with
    | .main ok => main cfg subs s ok
    | .alert c type => some (alert s c type)
    | .agreementList i info => agreementList s i info
    | .listing i => listing s i
    | .sigterm => some (sigterm s)
  else none

/-- The start of the process, with an empty signal mask and without handlers. -/
def init : State ι where
  pc := .create
  loginStatus _ := .notLoggedIn
  rcvdUnacceptedAgreements := false
  unacceptedMandatoryAgreements := 0
  listings _ := none
  exit := false
  handler := false
  counted := 0
  log := []

def machine (ι : Type*) [DecidableEq ι] (cfg : Config.RithmicConfig) (subs : List SubEntry) :
    Machine (State ι) (Action ι) where
  init := init
  step := step cfg subs

/-! ## The session -/

/-- What the gateway does to the outside. -/
inductive Output where
  | request (r : Request)
  | childReady (value : Bool)
  | heartbeat
deriving DecidableEq

def Entry.output : Entry → Option Output
  | .request r _ => some (.request r)
  | .childReady value => some (.childReady value)
  | .heartbeat => some .heartbeat
  | .alert .. | .agreementList _ | .received _ | .sigterm => none

def outputs (log : List Entry) : List Output := log.filterMap Entry.output

section
variable (cfg : Config.RithmicConfig) (subs : List SubEntry)

/-- The first `k` requests. -/
def asked (k : Nat) : List Output := ((opening cfg).take k).map .request

def subscribes : List Output :=
  (subs.filter (·.enabled)).map fun sub => .request (.subscribe sub.exchange sub.ticker)

def unsubscribes : List Output :=
  subs.map fun sub => .request (.unsubscribe sub.exchange sub.ticker)

/-- Up to the `n`-th heartbeat. -/
def serving (n : Nat) : List Output :=
  asked cfg 5 ++ subscribes subs ++ [.childReady true] ++ List.replicate n .heartbeat

/-- A whole session with `n` heartbeats. -/
def session (n : Nat) : List Output :=
  serving cfg subs n ++ [.childReady false] ++ unsubscribes subs ++ [.request .logout]

end

/-- The status of a login after the alerts of the log. -/
def status (c : Connection) (log : List Entry) : LoginStatus :=
  log.foldl (fun st e => match e with
    | .alert c' type => if c' = c then type.status.getD st else st
    | _ => st) .notLoggedIn

/-- A list of agreements that are not accepted has come, and none of those that have come names an
active mandatory one. -/
structure Agreed (log : List Entry) : Prop where
  received : ∃ info, .received info ∈ log ∧ info.accepted = false
  optional : ∀ info, .received info ∈ log → info.accepted = false →
    ∀ a ∈ info.agreements, a.counts = false

/-- What has to be before an entry. -/
def justified (l : List Entry) : Entry → Prop
  | .request (.listAgreements _) _ => Earlier (status .repository · = .complete) l
  | .request (.login _) _ => Earlier Agreed l
  | .request (.subscribe ..) _ => Earlier (status .marketData · = .complete) l
  | .childReady false | .request (.unsubscribe ..) _ | .request .logout _ => .sigterm ∈ l
  | _ => True

/-- Why `Start` has failed. -/
inductive Failure (cfg : Config.RithmicConfig) (log : List Entry) : Prop where
  | refused {r} (mem : r ∈ opening cfg) (refused : .request r false ∈ log)
  | login (c : Connection) (failed : Earlier (status c · = .failed) log)
  | agreement {info a} (called : .agreementList info ∈ log) (unaccepted : info.accepted = false)
      (mem : a ∈ info.agreements) (counts : a.counts = true)

/-- What the gateway does, in any run. -/
structure Session (cfg : Config.RithmicConfig) (subs : List SubEntry) (s : State ι) : Prop where
  order : ∃ n, outputs s.log <+: session cfg subs n
  justified : Guarded justified s.log
  ended : s.pc = .exited 0 → ∃ n, outputs s.log = session cfg subs n
  failed : ∀ {code}, s.pc = .exited (code + 1) → Failure cfg s.log
  /-- SIGTERM kills the process just in case it comes before the handler. -/
  killed_iff : s.pc = .killed ↔ s.handler = false ∧ .sigterm ∈ s.log
  /-- The handler is installed behind the subscriptions. -/
  unhandled : s.handler = false → outputs s.log <+: asked cfg 5 ++ subscribes subs

/-! ## What the callbacks have told -/

/-- The entries of `Alert` and `AgreementList`. -/
def Entry.isCallback : Entry → Bool
  | .alert .. | .agreementList _ | .received _ => true
  | .request .. | .childReady _ | .heartbeat | .sigterm => false

/-- A step that is not one of a callback. -/
structure Unheard (s t : State ι) : Prop where
  loginStatus : t.loginStatus = s.loginStatus
  rcvd : t.rcvdUnacceptedAgreements = s.rcvdUnacceptedAgreements
  unaccepted : t.unacceptedMandatoryAgreements = s.unacceptedMandatoryAgreements
  listings : t.listings = s.listings
  counted : t.counted = s.counted
  log : t.log = s.log ∨ ∃ e, t.log = s.log ++ [e] ∧ e.isCallback = false

/-- The variables of the callbacks against the log. -/
structure Heard (s : State ι) : Prop where
  loginStatus : ∀ c, s.loginStatus c = status c s.log
  received : s.rcvdUnacceptedAgreements = true →
    ∃ info, .received info ∈ s.log ∧ info.accepted = false
  unaccepted : s.unacceptedMandatoryAgreements = Int32.ofNat s.counted
  listing : ∀ {i l}, s.listings i = some l →
    l.info.accepted = false ∧ .agreementList l.info ∈ s.log
  /-- With no increment, what has been looked at needs no acceptance. -/
  optional : s.counted = 0 →
    (∀ info, .received info ∈ s.log → info.accepted = false →
      ∀ a ∈ info.agreements, a.counts = false) ∧
    ∀ {i l}, s.listings i = some l → ∀ a ∈ l.info.agreements.take l.i, a.counts = false
  counted : s.counted ≠ 0 → ∃ info a, .agreementList info ∈ s.log ∧ info.accepted = false ∧
    a ∈ info.agreements ∧ a.counts = true

section
variable {cfg : Config.RithmicConfig} {subs : List SubEntry} {s t : State ι}

omit [DecidableEq ι] in
theorem unheard_main {ok : Bool} (h : main cfg subs s ok = some t) : Unheard s t := by
  unfold main at h
  repeat' split at h
  all_goals first
    | cases h; exact ⟨rfl, rfl, rfl, rfl, rfl, .inr ⟨_, rfl, rfl⟩⟩
    | cases h; exact ⟨rfl, rfl, rfl, rfl, rfl, .inl rfl⟩
    | cases h

omit [DecidableEq ι] in
theorem unheard_sigterm (s : State ι) : Unheard s (sigterm s) := by
  unfold sigterm
  dsimp only
  split <;> exact ⟨rfl, rfl, rfl, rfl, rfl, .inr ⟨_, rfl, rfl⟩⟩

theorem status_concat (c : Connection) (log : List Entry) (e : Entry) :
    status c (log ++ [e]) = match e with
      | .alert c' type => if c' = c then type.status.getD (status c log) else status c log
      | _ => status c log := by
  rw [status, List.foldl_append]
  rfl

theorem status_concat_of_not_callback (c : Connection) (log : List Entry) {e : Entry}
    (he : e.isCallback = false) : status c (log ++ [e]) = status c log := by
  rw [status_concat]
  cases e with
  | alert c' type => cases he
  | _ => rfl

namespace Heard

omit [DecidableEq ι] in
theorem init : Heard (init : State ι) where
  loginStatus _ := rfl
  received h := by cases h
  unaccepted := rfl
  listing h := by cases h
  optional _ := by
    refine ⟨fun info hinfo => ?_, fun {i l} hl => ?_⟩
    · cases hinfo
    · cases hl
  counted h := absurd rfl h

omit [DecidableEq ι] in
/-- A step that starts no `AgreementList` and counts nothing. -/
theorem keep (h : Heard s) (hstatus : ∀ c, t.loginStatus c = status c t.log)
    (hrcvd : t.rcvdUnacceptedAgreements = s.rcvdUnacceptedAgreements)
    (hunaccepted : t.unacceptedMandatoryAgreements = s.unacceptedMandatoryAgreements)
    (hlistings : t.listings = s.listings) (hcounted : t.counted = s.counted)
    (hlog : s.log ⊆ t.log)
    (hnew : ∀ info, .received info ∈ t.log → info.accepted = false → .received info ∈ s.log) :
    Heard t := by
  refine ⟨hstatus, fun hr => ?_, ?_, fun {i l} hl => ?_, fun hzero => ?_, fun hne => ?_⟩
  · obtain ⟨info, hinfo, hacc⟩ := h.received (hrcvd ▸ hr)
    exact ⟨info, hlog hinfo, hacc⟩
  · rw [hunaccepted, hcounted, h.unaccepted]
  · exact (h.listing (hlistings ▸ hl)).imp_right fun hcalled => hlog hcalled
  · obtain ⟨hopt, hlist⟩ := h.optional (hcounted ▸ hzero)
    exact ⟨fun info hinfo hacc => hopt info (hnew info hinfo hacc) hacc,
      fun hl => hlist (hlistings ▸ hl)⟩
  · obtain ⟨info, a, hcalled, hrest⟩ := h.counted (hcounted ▸ hne)
    exact ⟨info, a, hlog hcalled, hrest⟩

omit [DecidableEq ι] in
theorem unheard (h : Heard s) (ht : Unheard s t) : Heard t := by
  rcases ht.log with hlog | ⟨e, hlog, he⟩
  · refine h.keep (fun c => ?_) ht.rcvd ht.unaccepted ht.listings ht.counted ?_ ?_
    · rw [ht.loginStatus, hlog, h.loginStatus c]
    · rw [hlog]; exact List.Subset.refl _
    · rw [hlog]; exact fun _ hinfo _ => hinfo
  · refine h.keep (fun c => ?_) ht.rcvd ht.unaccepted ht.listings ht.counted ?_
      fun info hinfo _ => ?_
    · rw [ht.loginStatus, hlog, status_concat_of_not_callback c _ he, h.loginStatus c]
    · rw [hlog]; exact List.subset_append_left _ _
    · rw [hlog, List.mem_append, List.mem_singleton] at hinfo
      refine hinfo.resolve_right ?_
      rintro rfl
      cases he

omit [DecidableEq ι] in
theorem alert (h : Heard s) (c : Connection) (type : AlertType) : Heard (alert s c type) := by
  have hstatus (d : Connection) : (RithmicEngine.alert s c type).loginStatus d =
      status d (s.log ++ [.alert c type]) := by
    rw [status_concat, ← h.loginStatus d]
    dsimp only
    unfold RithmicEngine.alert
    rcases eq_or_ne c d with rfl | hcd
    · rw [if_pos rfl]
      cases type.status with
      | none => rfl
      | some st => exact Function.update_self ..
    · rw [if_neg hcd]
      cases type.status with
      | none => rfl
      | some st => exact Function.update_of_ne hcd.symm ..
  have hnew (info : AgreementListInfo) (hinfo : .received info ∈ s.log ++ [.alert c type]) :
      .received info ∈ s.log := by simpa using hinfo
  revert hstatus
  unfold RithmicEngine.alert
  cases type.status <;>
    exact fun hstatus => h.keep hstatus rfl rfl rfl rfl (List.subset_append_left _ _)
      fun info hinfo _ => hnew info hinfo

/-- What another thread lists, or what this one does from now on. -/
theorem listing_cases {f : ι → Option Listing} {i j : ι} {v : Option Listing} {l : Listing}
    (h : Function.update f i v j = some l) : j = i ∧ v = some l ∨ f j = some l := by
  rcases eq_or_ne j i with rfl | hji
  · exact .inl ⟨rfl, (Function.update_self j v f).symm.trans h⟩
  · exact .inr ((Function.update_of_ne hji v f).symm.trans h)

theorem agreementList (h : Heard s) {i : ι} {info : AgreementListInfo}
    (ht : agreementList s i info = some t) : Heard t := by
  unfold RithmicEngine.agreementList at ht
  split at ht
  next => cases ht
  next hi =>
    have hcall (c : Connection) : status c (s.log ++ [.agreementList info]) = status c s.log := by
      rw [status_concat]
    dsimp only at ht
    split at ht
    next hacc =>
      cases ht
      refine h.keep (fun c => ?_) rfl rfl rfl rfl ?_ fun x hx hxacc => ?_
      · show s.loginStatus c = status c (s.log ++ [.agreementList info] ++ [.received info])
        rw [status_concat, h.loginStatus c, hcall]
      · exact fun e he => List.mem_append_left _ (List.mem_append_left _ he)
      · have hx : x = info ∨ Entry.received x ∈ s.log := by simpa [State.add, or_comm] using hx
        refine hx.resolve_left ?_
        rintro rfl
        cases hxacc.symm.trans hacc
    next hacc =>
      cases ht
      have hkeep : Heard (s.add (.agreementList info)) :=
        h.keep (fun c => (h.loginStatus c).trans (hcall c).symm) rfl rfl rfl rfl
          (List.subset_append_left _ _) fun x hx _ => by simpa [State.add] using hx
      refine { hkeep with listing := fun hl => ?_, optional := fun hzero => ?_ }
      · rcases listing_cases hl with ⟨-, hl⟩ | hl
        · cases hl
          exact ⟨Bool.eq_false_iff.mpr hacc, List.mem_append_right _ (List.mem_singleton_self _)⟩
        · exact hkeep.listing hl
      · refine ⟨(hkeep.optional hzero).1, fun hl => ?_⟩
        rcases listing_cases hl with ⟨-, hl⟩ | hl
        · cases hl
          exact List.forall_mem_nil _
        · exact (hkeep.optional hzero).2 hl

theorem listing_step (h : Heard s) {i : ι} (ht : RithmicEngine.listing s i = some t) :
    Heard t := by
  unfold RithmicEngine.listing at ht
  split at ht
  next => cases ht
  next l hl =>
    obtain ⟨hacc, hcalled⟩ := h.listing hl
    split at ht
    next a ha =>
      -- one agreement further
      have hlisting {j : ι} {m : Listing}
          (hm : Function.update s.listings i (some { l with i := l.i + 1 }) j = some m) :
          m.info.accepted = false ∧ .agreementList m.info ∈ s.log := by
        rcases listing_cases hm with ⟨-, hm⟩ | hm
        · cases hm
          exact ⟨hacc, hcalled⟩
        · exact h.listing hm
      dsimp only at ht
      split at ht
      next hcounts =>
        cases ht
        refine ⟨h.loginStatus, h.received, ?_, hlisting,
          fun hzero => absurd hzero (Nat.succ_ne_zero _), fun _ => ?_⟩
        · show s.unacceptedMandatoryAgreements + 1 = Int32.ofNat (s.counted + 1)
          rw [h.unaccepted, Int32.ofNat_add]
          rfl
        · exact ⟨l.info, a, hcalled, hacc, List.mem_of_getElem? ha, hcounts⟩
      next hcounts =>
        cases ht
        refine { h with listing := hlisting, optional := fun hzero => ?_ }
        obtain ⟨hopt, hlist⟩ := h.optional hzero
        refine ⟨hopt, fun hm => ?_⟩
        rcases listing_cases hm with ⟨-, hm⟩ | hm
        · cases hm
          intro b hb
          rw [List.take_add_one, ha, List.mem_append] at hb
          rcases hb with hb | hb
          · exact hlist hl b hb
          · cases List.mem_singleton.mp hb
            exact Bool.eq_false_iff.mpr hcounts
        · exact hlist hm
    next hend =>
      -- the loop is over
      cases ht
      have hlen : l.info.agreements.length ≤ l.i := List.getElem?_eq_none_iff.mp hend
      have hother {j : ι} {m : Listing} (hm : Function.update s.listings i none j = some m) :
          s.listings j = some m :=
        (listing_cases hm).resolve_left fun hnone => nomatch hnone.2
      refine ⟨fun c => ?_, fun _ => ?_, h.unaccepted, fun hm => ?_, fun hzero => ?_, fun hne => ?_⟩
      · show s.loginStatus c = status c (s.log ++ [.received l.info])
        rw [status_concat, h.loginStatus c]
      · exact ⟨l.info, List.mem_append_right _ (List.mem_singleton_self _), hacc⟩
      · exact (h.listing (hother hm)).imp_right (List.mem_append_left _)
      · obtain ⟨hopt, hlist⟩ := h.optional hzero
        refine ⟨fun x hx hxacc => ?_, fun hm => hlist (hother hm)⟩
        have hx : x = l.info ∨ Entry.received x ∈ s.log := by simpa [State.add, or_comm] using hx
        rcases hx with rfl | hx
        · have hall := hlist hl
          rwa [List.take_of_length_le hlen] at hall
        · exact hopt x hx hxacc
      · obtain ⟨x, a, hmem, hrest⟩ := h.counted hne
        exact ⟨x, a, List.mem_append_left _ hmem, hrest⟩

theorem step (h : Heard s) {a : Action ι} (ht : step cfg subs s a = some t) : Heard t := by
  unfold RithmicEngine.step at ht
  split at ht
  next =>
    cases a with
    | main ok => exact h.unheard (unheard_main ht)
    | alert c type =>
      cases ht
      exact h.alert c type
    | agreementList i info => exact h.agreementList ht
    | listing i => exact h.listing_step ht
    | sigterm =>
      cases ht
      exact h.unheard (unheard_sigterm s)
  next => cases ht

end Heard

end

/-! ## SIGTERM -/

/-- A step of a callback, as the main thread and the signals see it. -/
structure Callback (s t : State ι) : Prop where
  pc : t.pc = s.pc
  exit : t.exit = s.exit
  handler : t.handler = s.handler
  log : ∃ es, t.log = s.log ++ es ∧ ∀ e ∈ es, e.isCallback = true

theorem step_cases {cfg : Config.RithmicConfig} {subs : List SubEntry} {s t : State ι}
    {a : Action ι} (h : step cfg subs s a = some t) :
    (∃ ok, main cfg subs s ok = some t) ∨ s.pc.alive = true ∧ t = sigterm s ∨ Callback s t := by
  unfold step at h
  split at h
  next halive =>
    cases a with
    | main ok => exact .inl ⟨ok, h⟩
    | sigterm =>
      cases h
      exact .inr (.inl ⟨halive, rfl⟩)
    | alert c type =>
      cases h
      refine .inr (.inr ?_)
      unfold alert
      dsimp only
      split <;> exact ⟨rfl, rfl, rfl, [_], rfl, List.forall_mem_singleton.mpr rfl⟩
    | agreementList i info =>
      refine .inr (.inr ?_)
      simp only [agreementList] at h
      split at h
      next => cases h
      next =>
        split at h
        next =>
          cases h
          exact ⟨rfl, rfl, rfl, [_, _], List.append_assoc .., by simp [Entry.isCallback]⟩
        next =>
          cases h
          exact ⟨rfl, rfl, rfl, [_], rfl, List.forall_mem_singleton.mpr rfl⟩
    | listing i =>
      refine .inr (.inr ?_)
      simp only [listing] at h
      split at h
      next => cases h
      next =>
        split at h
        next =>
          split at h <;> cases h <;>
            exact ⟨rfl, rfl, rfl, [], (List.append_nil _).symm, List.forall_mem_nil _⟩
        next =>
          cases h
          exact ⟨rfl, rfl, rfl, [_], rfl, List.forall_mem_singleton.mpr rfl⟩
  next => cases h

/-- Behind `signal`. -/
def Pc.handled : Pc → Bool
  | .unblock | .storeReady | .testExit | .heartbeat | .storeNotReady | .unsubscribe _ | .logout
  | .exited 0 => true
  | _ => false

/-- Behind the loop. -/
def Pc.left : Pc → Bool
  | .storeNotReady | .unsubscribe _ | .logout | .exited 0 => true
  | _ => false

/-- What is left of the loop over the subscriptions. -/
def Within (subs : List SubEntry) : Pc → Prop
  | .unsubscribe rest => rest.length ≤ subs.length
  | _ => True

structure Signals (s : State ι) : Prop where
  handler : s.handler = s.pc.handled
  exit_iff : s.exit = true ↔ s.handler = true ∧ .sigterm ∈ s.log
  killed_iff : s.pc = .killed ↔ s.handler = false ∧ .sigterm ∈ s.log
  left : s.pc.left = true → .sigterm ∈ s.log

section
omit [DecidableEq ι]
variable {cfg : Config.RithmicConfig} {subs : List SubEntry} {s t : State ι} {ok : Bool}

/-- Where the main thread may go. -/
structure Path (subs : List SubEntry) (s t : State ι) : Prop where
  sigterm : .sigterm ∈ t.log ↔ .sigterm ∈ s.log
  exit : t.exit = s.exit
  handled : s.handler = s.pc.handled → t.handler = t.pc.handled
  wasNotKilled : s.pc ≠ .killed
  notKilled : t.pc ≠ .killed
  handler : t.handler = s.handler ∨ s.pc = .install
  left : t.pc.left = true → s.pc.left = true ∨ s.pc = .testExit ∧ s.exit = true
  within : Within subs s.pc → Within subs t.pc

theorem path_main (h : main cfg subs s ok = some t) : Path subs s t := by
  cases hpc : s.pc with
  | checkFailed c =>
    simp only [main, hpc] at h
    cases h
    by_cases hfailed : s.loginStatus c = .failed <;> cases c <;> constructor <;>
      simp_all [State.goto, Pc.handled, Pc.left, Within, loggedIn]
  | _ =>
    simp only [main, hpc] at h
    repeat' split at h
    all_goals cases h
    all_goals constructor
    all_goals simp_all [State.request, State.add, State.goto, Pc.handled, Pc.left, Within,
      Nat.le_of_succ_le]

namespace Signals

theorem init : Signals (init : State ι) where
  handler := rfl
  exit_iff := by simp [RithmicEngine.init]
  killed_iff := by simp [RithmicEngine.init]
  left h := by cases h

/-- No SIGTERM has come before the handler. -/
theorem handler_of_sent (h : Signals s) (halive : s.pc ≠ .killed) (hsent : .sigterm ∈ s.log) :
    s.handler = true :=
  Bool.not_eq_false _ ▸ fun hno => halive (h.killed_iff.mpr ⟨hno, hsent⟩)

theorem main (h : Signals s) (ht : main cfg subs s ok = some t) : Signals t := by
  have hpath := path_main ht
  have hsent : .sigterm ∈ s.log → s.handler = true := h.handler_of_sent hpath.wasNotKilled
  have hhandler : .sigterm ∈ s.log → t.handler = true := by
    intro hmem
    rcases hpath.handler with hsame | hinstall
    · exact hsame.trans (hsent hmem)
    · have hno := h.handler
      rw [hinstall, hsent hmem] at hno
      cases hno
  refine ⟨hpath.handled h.handler, ?_, ?_, fun hleft => hpath.sigterm.mpr ?_⟩
  · rw [hpath.exit, h.exit_iff, hpath.sigterm]
    exact ⟨fun ⟨_, hmem⟩ => ⟨hhandler hmem, hmem⟩, fun ⟨_, hmem⟩ => ⟨hsent hmem, hmem⟩⟩
  · rw [hpath.sigterm]
    refine iff_of_false hpath.notKilled ?_
    rintro ⟨hno, hmem⟩
    cases (hhandler hmem).symm.trans hno
  · rcases hpath.left hleft with hs | ⟨-, hexit⟩
    · exact h.left hs
    · exact (h.exit_iff.mp hexit).2

theorem callback (h : Signals s) (ht : Callback s t) : Signals t := by
  have hlog : .sigterm ∈ t.log ↔ .sigterm ∈ s.log := by
    obtain ⟨es, hes, hcallback⟩ := ht.log
    rw [hes, List.mem_append]
    refine or_iff_left fun hmem => ?_
    cases hcallback _ hmem
  exact
    { handler := by rw [ht.pc, ht.handler]; exact h.handler
      exit_iff := by rw [hlog, ht.exit, ht.handler]; exact h.exit_iff
      killed_iff := by rw [hlog, ht.pc, ht.handler]; exact h.killed_iff
      left := by rw [ht.pc, hlog]; exact h.left }

theorem sigterm (h : Signals s) (halive : s.pc.alive = true) : Signals (sigterm s) := by
  unfold RithmicEngine.sigterm
  dsimp only
  have hmem : Entry.sigterm ∈ (s.add .sigterm).log :=
    List.mem_append_right _ (List.mem_singleton_self _)
  split
  next hhandler =>
    refine ⟨h.handler, iff_of_true rfl ⟨hhandler, hmem⟩, iff_of_false ?_ ?_, fun _ => hmem⟩
    · intro hpc
      change s.pc = .killed at hpc
      rw [hpc] at halive
      cases halive
    · rintro ⟨hno, -⟩
      cases hhandler.symm.trans hno
  next hhandler =>
    have hno : s.handler = false := Bool.not_eq_true _ ▸ hhandler
    refine ⟨hno, iff_of_false ?_ ?_, iff_of_true rfl ⟨hno, hmem⟩, nofun⟩
    · exact fun hexit => hhandler (h.exit_iff.mp hexit).1
    · exact fun hhandled => hhandler hhandled.1

end Signals

theorem signals_step [DecidableEq ι] (h : Signals s) {a : Action ι}
    (ht : step cfg subs s a = some t) : Signals t := by
  rcases step_cases ht with ⟨ok, ht⟩ | ⟨halive, rfl⟩ | ht
  · exact h.main ht
  · exact h.sigterm halive
  · exact h.callback ht

end

/-! ## The main thread -/

section
variable (cfg : Config.RithmicConfig) (subs : List SubEntry)

/-- What has been done where the main thread stands. -/
def Place : Pc → List Output → Prop
  | .create, out => out = asked cfg 0
  | .loginRepository, out => out = asked cfg 1
  | .testComplete .repository, out | .testFailed .repository, out | .checkFailed .repository, out
  | .listAgreements, out => out = asked cfg 2
  | .testAgreements, out | .checkMandatory, out | .giveUp, out | .logoutRepository, out =>
    out = asked cfg 3
  | .login, out => out = asked cfg 4
  | .testComplete .marketData, out | .testFailed .marketData, out
  | .checkFailed .marketData, out => out = asked cfg 5
  | .subscribe rest, out => ∃ done, subs = done ++ rest ∧ out = asked cfg 5 ++ subscribes done
  | .install, out | .unblock, out | .storeReady, out => out = asked cfg 5 ++ subscribes subs
  | .testExit, out | .heartbeat, out | .storeNotReady, out => ∃ n, out = serving cfg subs n
  | .unsubscribe rest, out => ∃ n done, subs = done ++ rest ∧
    out = serving cfg subs n ++ [.childReady false] ++ unsubscribes done
  | .logout, out => ∃ n, out = serving cfg subs n ++ [.childReady false] ++ unsubscribes subs
  | .exited 0, out => ∃ n, out = session cfg subs n
  | .exited _, out | .killed, out => out <+: asked cfg 5 ++ subscribes subs

/-- What the main thread has seen where it stands. -/
def Knows : Pc → List Entry → Prop
  | .listAgreements, log => Earlier (status .repository · = .complete) log
  | .giveUp, log => Failure cfg log
  | .logoutRepository, log | .login, log => Earlier Agreed log
  | .subscribe _, log => Earlier (status .marketData · = .complete) log
  | .checkFailed c, log => status c log = .complete ∨ status c log = .failed
  | .checkMandatory, log => ∃ info, .received info ∈ log ∧ info.accepted = false
  | .exited (_ + 1), log => Failure cfg log
  | _, _ => True

structure Scripted (s : State ι) : Prop where
  place : Place cfg subs s.pc (outputs s.log)
  knows : Knows cfg s.pc s.log
  guarded : Guarded justified s.log

end

section
variable {cfg : Config.RithmicConfig} {subs : List SubEntry} {log : List Entry} {e : Entry}

theorem outputs_concat (log : List Entry) (e : Entry) :
    outputs (log ++ [e]) = outputs log ++ e.output.toList := by
  rw [outputs, List.filterMap_append]
  refine congrArg (outputs log ++ ·) ?_
  cases h : e.output <;> simp [h]

theorem subscribes_concat (done : List SubEntry) (sub : SubEntry) :
    subscribes (done ++ [sub]) = subscribes done ++
      if sub.enabled then [.request (.subscribe sub.exchange sub.ticker)] else [] := by
  rw [subscribes, List.filter_append, List.map_append]
  refine congrArg (subscribes done ++ ·) ?_
  cases h : sub.enabled <;> simp [h]

theorem Failure.concat (h : Failure cfg log) : Failure cfg (log ++ [e]) := by
  cases h with
  | refused hr hlog => exact .refused hr (List.mem_append_left _ hlog)
  | login c hc => exact .login c hc.concat
  | agreement hcalled hacc ha hcounts =>
    exact .agreement (List.mem_append_left _ hcalled) hacc ha hcounts

theorem asked_isPrefix (k : Nat) : asked cfg k <+: asked cfg 5 :=
  List.IsPrefix.map _ (List.take_prefix k (opening cfg))

theorem subscribes_isPrefix {done rest : List SubEntry} (h : subs = done ++ rest) :
    subscribes done <+: subscribes subs := by
  rw [h, subscribes, subscribes, List.filter_append, List.map_append]
  exact List.prefix_append _ _

theorem serving_isPrefix (n : Nat) : serving cfg subs n <+: session cfg subs n := by
  rw [session, List.append_assoc, List.append_assoc]
  exact List.prefix_append _ _

theorem started_isPrefix (n : Nat) : asked cfg 5 ++ subscribes subs <+: session cfg subs n := by
  refine List.IsPrefix.trans ?_ (serving_isPrefix n)
  rw [serving, List.append_assoc]
  exact List.prefix_append _ _

theorem asked_isPrefix_started (k : Nat) : asked cfg k <+: asked cfg 5 ++ subscribes subs :=
  (asked_isPrefix k).trans (List.prefix_append _ _)

/-- Without a handler the main thread is in `Start`, or just behind it. -/
theorem Place.isPrefix_of_unhandled {pc : Pc} {out : List Output} (h : Place cfg subs pc out)
    (hpc : pc.handled = false) : out <+: asked cfg 5 ++ subscribes subs := by
  cases pc with
  | testComplete c | testFailed c | checkFailed c =>
    cases c <;> exact h ▸ asked_isPrefix_started _
  | create | loginRepository | listAgreements | testAgreements | checkMandatory | giveUp
  | logoutRepository | login => exact h ▸ asked_isPrefix_started _
  | subscribe rest =>
    obtain ⟨done, hdone, rfl⟩ := h
    exact List.prefix_append_right_inj _ |>.mpr (subscribes_isPrefix hdone)
  | install => exact h ▸ List.prefix_rfl
  | exited code =>
    cases code with
    | zero => cases hpc
    | succ code => exact h
  | killed => exact h
  | unblock | storeReady | testExit | heartbeat | storeNotReady | unsubscribe | logout => cases hpc

/-- The main thread is always somewhere in the session. -/
theorem Place.isPrefix {pc : Pc} {out : List Output} (h : Place cfg subs pc out) :
    ∃ n, out <+: session cfg subs n := by
  cases hpc : pc.handled with
  | false => exact ⟨0, (h.isPrefix_of_unhandled hpc).trans (started_isPrefix 0)⟩
  | true =>
    cases pc with
    | unblock | storeReady => exact ⟨0, h ▸ started_isPrefix 0⟩
    | testExit | heartbeat | storeNotReady =>
      obtain ⟨n, rfl⟩ := h
      exact ⟨n, serving_isPrefix n⟩
    | unsubscribe rest =>
      obtain ⟨n, done, hdone, rfl⟩ := h
      refine ⟨n, ?_⟩
      rw [session, hdone, unsubscribes, unsubscribes, List.map_append, List.append_assoc,
        List.append_assoc, List.append_assoc, List.append_assoc]
      refine (List.prefix_append_right_inj _).mpr ((List.prefix_append_right_inj _).mpr ?_)
      exact List.prefix_append _ _
    | logout =>
      obtain ⟨n, rfl⟩ := h
      exact ⟨n, List.prefix_append _ _⟩
    | exited code =>
      cases code with
      | zero =>
        obtain ⟨n, rfl⟩ := h
        exact ⟨n, List.prefix_rfl⟩
      | succ code => cases hpc
    | _ => cases hpc

end

namespace Scripted

omit [DecidableEq ι]
variable {cfg : Config.RithmicConfig} {subs : List SubEntry} {s t : State ι}

theorem init : Scripted cfg subs (init : State ι) where
  place := rfl
  knows := trivial
  guarded := .nil

theorem goto (h : Scripted cfg subs s) {pc : Pc} (hplace : Place cfg subs pc (outputs s.log))
    (hknows : Knows cfg pc s.log) : Scripted cfg subs (s.goto pc) := ⟨hplace, hknows, h.guarded⟩

/-- The main thread adds an entry and goes on. -/
theorem output (h : Scripted cfg subs s) {e : Entry} {pc : Pc} (he : justified s.log e)
    (hplace : Place cfg subs pc (outputs s.log ++ e.output.toList))
    (hknows : Knows cfg pc (s.log ++ [e])) : Scripted cfg subs ((s.add e).goto pc) where
  place := by
    show Place cfg subs pc (outputs (s.log ++ [e]))
    rw [outputs_concat]
    exact hplace
  knows := hknows
  guarded := h.guarded.concat he

theorem asked_succ {k : Nat} {r : Request} (hr : (opening cfg)[k]? = some r) :
    asked cfg k ++ [.request r] = asked cfg (k + 1) := by
  rw [asked, asked, List.take_add_one, hr, List.map_append]
  rfl

/-- A request of the opening, behind which `Start` goes on or fails. -/
theorem ask (h : Scripted cfg subs s) {k : Nat} {r : Request} (hr : (opening cfg)[k]? = some r)
    (hout : outputs s.log = asked cfg k) {ok : Bool} (he : justified s.log (.request r ok))
    {pc : Pc} (hplace : Place cfg subs pc (asked cfg (k + 1)))
    (hknows : Knows cfg pc (s.log ++ [.request r ok])) :
    Scripted cfg subs (s.request r ok (if ok then pc else .exited 1)) := by
  have hnext : outputs s.log ++ (Entry.request r ok).output.toList = asked cfg (k + 1) := by
    rw [hout]
    exact asked_succ hr
  cases ok with
  | true => exact h.output he (hnext ▸ hplace) hknows
  | false =>
    refine h.output he (hnext ▸ asked_isPrefix_started _) ?_
    exact .refused (List.mem_of_getElem? hr) (List.mem_append_right _ List.mem_cons_self)

/-- The three loads of a status. -/
theorem await (h : Scripted cfg subs s) (hheard : Heard s) {c : Connection}
    (hpc : s.pc = .testComplete c ∨ s.pc = .testFailed c ∨ s.pc = .checkFailed c) {ok : Bool}
    (ht : RithmicEngine.main cfg subs s ok = some t) : Scripted cfg subs t := by
  have hplace := h.place
  have hstatus := hheard.loginStatus c
  have hsame : ∀ {pc}, pc = .testComplete c ∨ pc = .testFailed c ∨ pc = .checkFailed c →
      Place cfg subs pc (outputs s.log) := by
    intro pc hpc'
    rcases hpc with hpc | hpc | hpc <;> rw [hpc] at hplace <;>
      rcases hpc' with rfl | rfl | rfl <;> cases c <;> exact hplace
  rcases hpc with hpc | hpc | hpc
  · simp only [RithmicEngine.main, hpc] at ht
    cases ht
    split
    next hc => exact h.goto (hsame (.inr (.inr rfl))) (.inl (hstatus.symm.trans hc))
    next => exact h.goto (hsame (.inr (.inl rfl))) trivial
  · simp only [RithmicEngine.main, hpc] at ht
    cases ht
    split
    next hc => exact h.goto (hsame (.inr (.inr rfl))) (.inr (hstatus.symm.trans hc))
    next => exact h.goto (hsame (.inl rfl)) trivial
  · have hknows := h.knows
    rw [hpc] at hplace hknows
    simp only [RithmicEngine.main, hpc] at ht
    cases ht
    split
    next hfailed =>
      refine h.goto (hplace.isPrefix_of_unhandled rfl) (.login c (.now ?_))
      exact hstatus.symm.trans hfailed
    next hfailed =>
      -- a status that has been stored is complete or failed
      have hcomplete : status c s.log = .complete :=
        hknows.resolve_right fun hf => hfailed (hstatus.trans hf)
      cases c with
      | repository => exact h.goto hplace (.now hcomplete)
      | marketData =>
        refine h.goto ⟨[], rfl, ?_⟩ (.now hcomplete)
        exact hplace.trans (List.append_nil _).symm

theorem counted_eq_zero (hheard : Heard s) (hwrap : s.counted < 2 ^ 31)
    (h : ¬s.unacceptedMandatoryAgreements > 0) : s.counted = 0 := by
  rw [hheard.unaccepted, gt_iff_lt, Int32.lt_iff_toInt_lt, Int32.toInt_ofNat_of_lt hwrap] at h
  simpa using h

theorem checkMandatory (h : Scripted cfg subs s) (hheard : Heard s) (hwrap : s.counted < 2 ^ 31)
    (hpc : s.pc = .checkMandatory) {ok : Bool}
    (ht : RithmicEngine.main cfg subs s ok = some t) : Scripted cfg subs t := by
  have hplace := h.place
  have hknows := h.knows
  rw [hpc] at hplace hknows
  simp only [RithmicEngine.main, hpc] at ht
  cases ht
  split
  next hpos =>
    have hne : s.counted ≠ 0 := by
      intro hzero
      rw [hheard.unaccepted, hzero] at hpos
      exact absurd hpos (by decide)
    obtain ⟨info, a, hcalled, hacc, ha, hcounts⟩ := hheard.counted hne
    exact h.goto hplace (.agreement hcalled hacc ha hcounts)
  next hpos =>
    have hzero := counted_eq_zero hheard hwrap hpos
    exact h.goto hplace (.now ⟨hknows, (hheard.optional hzero).1⟩)

theorem listAgreements (h : Scripted cfg subs s) (hpc : s.pc = .listAgreements) {ok : Bool}
    (ht : RithmicEngine.main cfg subs s ok = some t) : Scripted cfg subs t := by
  have hplace := h.place
  have hknows := h.knows
  rw [hpc] at hplace hknows
  simp only [RithmicEngine.main, hpc] at ht
  cases ht
  have hnext : outputs s.log ++ [.request (.listAgreements false)] = asked cfg 3 := by
    rw [hplace]
    exact asked_succ rfl
  cases ok with
  | true => exact h.output hknows hnext trivial
  | false =>
    refine h.output hknows hnext (.refused (List.mem_of_getElem? (i := 2) rfl) ?_)
    exact List.mem_append_right _ List.mem_cons_self

theorem testAgreements (h : Scripted cfg subs s) (hheard : Heard s) (hpc : s.pc = .testAgreements)
    {ok : Bool} (ht : RithmicEngine.main cfg subs s ok = some t) : Scripted cfg subs t := by
  have hplace := h.place
  rw [hpc] at hplace
  simp only [RithmicEngine.main, hpc] at ht
  cases ht
  split
  next hrcvd => exact h.goto hplace (hheard.received hrcvd)
  next => exact h.goto hplace trivial

theorem giveUp (h : Scripted cfg subs s) (hpc : s.pc = .giveUp) {ok : Bool}
    (ht : RithmicEngine.main cfg subs s ok = some t) : Scripted cfg subs t := by
  have hplace := h.place
  have hknows := h.knows
  rw [hpc] at hplace hknows
  simp only [RithmicEngine.main, hpc] at ht
  cases ht
  have hnext : outputs s.log ++ [.request .logoutRepository] = asked cfg 4 := by
    rw [hplace]
    exact asked_succ rfl
  exact h.output trivial (hnext ▸ asked_isPrefix_started 4) hknows.concat

/-- The requests behind which `Start` goes on or returns. -/
theorem opening (h : Scripted cfg subs s)
    (hpc : s.pc = .create ∨ s.pc = .loginRepository ∨ s.pc = .logoutRepository ∨ s.pc = .login)
    {ok : Bool} (ht : RithmicEngine.main cfg subs s ok = some t) : Scripted cfg subs t := by
  have hplace := h.place
  have hknows := h.knows
  rcases hpc with hpc | hpc | hpc | hpc
  all_goals
    rw [hpc] at hplace hknows
    simp only [RithmicEngine.main, hpc] at ht
    cases ht
  · refine h.ask rfl hplace ?_ rfl ?_ <;> trivial
  · refine h.ask rfl hplace ?_ rfl ?_ <;> trivial
  · refine h.ask rfl hplace ?_ rfl hknows.concat
    trivial
  · refine h.ask rfl hplace ?_ rfl ?_
    · exact hknows
    · trivial

theorem subscribe (h : Scripted cfg subs s) {rest : List SubEntry} (hpc : s.pc = .subscribe rest)
    {ok : Bool} (ht : RithmicEngine.main cfg subs s ok = some t) : Scripted cfg subs t := by
  have hplace := h.place
  have hknows := h.knows
  rw [hpc] at hplace hknows
  obtain ⟨done, hdone, hout⟩ := hplace
  cases rest with
  | nil =>
    simp only [RithmicEngine.main, hpc] at ht
    cases ht
    rw [List.append_nil] at hdone
    exact h.goto (hdone ▸ hout) trivial
  | cons sub rest =>
    have hsplit : subs = done ++ [sub] ++ rest := by rw [hdone, List.append_assoc]; rfl
    simp only [RithmicEngine.main, hpc] at ht
    split at ht
    next henabled =>
      cases ht
      refine h.output hknows ⟨_, hsplit, ?_⟩ hknows.concat
      rw [subscribes_concat, if_pos henabled, ← List.append_assoc, ← hout]
      rfl
    next henabled =>
      cases ht
      refine h.goto ⟨_, hsplit, ?_⟩ hknows
      rw [subscribes_concat, if_neg henabled, List.append_nil]
      exact hout

theorem signals (h : Scripted cfg subs s) (hpc : s.pc = .install ∨ s.pc = .unblock) {ok : Bool}
    (ht : RithmicEngine.main cfg subs s ok = some t) : Scripted cfg subs t := by
  have hplace := h.place
  rcases hpc with hpc | hpc
  all_goals
    rw [hpc] at hplace
    simp only [RithmicEngine.main, hpc] at ht
    cases ht
    exact ⟨hplace, trivial, h.guarded⟩

/-- The stores of `child_ready` and of the heartbeats. -/
theorem serve (h : Scripted cfg subs s)
    (hpc : s.pc = .storeReady ∨ s.pc = .testExit ∨ s.pc = .heartbeat) {ok : Bool}
    (ht : RithmicEngine.main cfg subs s ok = some t) : Scripted cfg subs t := by
  have hplace := h.place
  rcases hpc with hpc | hpc | hpc
  all_goals
    rw [hpc] at hplace
    simp only [RithmicEngine.main, hpc] at ht
    cases ht
  · refine h.output trivial ⟨0, ?_⟩ trivial
    rw [hplace]
    exact (List.append_nil _).symm
  · split
    next => exact h.goto hplace trivial
    next => exact h.goto hplace trivial
  · obtain ⟨n, hout⟩ := hplace
    refine h.output trivial ⟨n + 1, ?_⟩ trivial
    rw [hout, serving, serving, List.replicate_succ', List.append_assoc _ (List.replicate n _)]
    rfl

theorem unsubscribe (h : Scripted cfg subs s) (hsent : .sigterm ∈ s.log) {rest : List SubEntry}
    (hpc : s.pc = .unsubscribe rest) {ok : Bool}
    (ht : RithmicEngine.main cfg subs s ok = some t) : Scripted cfg subs t := by
  have hplace := h.place
  rw [hpc] at hplace
  obtain ⟨n, done, hdone, hout⟩ := hplace
  cases rest with
  | nil =>
    simp only [RithmicEngine.main, hpc] at ht
    cases ht
    rw [List.append_nil] at hdone
    exact h.goto ⟨n, hdone ▸ hout⟩ trivial
  | cons sub rest =>
    have hsplit : subs = done ++ [sub] ++ rest := by rw [hdone, List.append_assoc]; rfl
    simp only [RithmicEngine.main, hpc] at ht
    cases ht
    refine h.output hsent ⟨n, _, hsplit, ?_⟩ trivial
    rw [unsubscribes, List.map_append, ← List.append_assoc, hout]
    rfl

/-- The first and the last operation behind the loop. -/
theorem finish (h : Scripted cfg subs s) (hsent : .sigterm ∈ s.log)
    (hpc : s.pc = .storeNotReady ∨ s.pc = .logout) {ok : Bool}
    (ht : RithmicEngine.main cfg subs s ok = some t) : Scripted cfg subs t := by
  have hplace := h.place
  rcases hpc with hpc | hpc
  all_goals
    rw [hpc] at hplace
    obtain ⟨n, hout⟩ := hplace
    simp only [RithmicEngine.main, hpc] at ht
    cases ht
  · refine h.output hsent ⟨n, [], rfl, ?_⟩ trivial
    rw [hout]
    exact (List.append_nil _).symm
  · exact h.output hsent ⟨n, congrArg (· ++ [_]) hout⟩ trivial

theorem main (h : Scripted cfg subs s) (hheard : Heard s) (hsignals : Signals s)
    (hwrap : s.counted < 2 ^ 31) {ok : Bool} (ht : main cfg subs s ok = some t) :
    Scripted cfg subs t := by
  have hleft := hsignals.left
  cases hpc : s.pc with
  | create => exact h.opening (.inl hpc) ht
  | loginRepository => exact h.opening (.inr (.inl hpc)) ht
  | testComplete c => exact h.await hheard (.inl hpc) ht
  | testFailed c => exact h.await hheard (.inr (.inl hpc)) ht
  | checkFailed c => exact h.await hheard (.inr (.inr hpc)) ht
  | listAgreements => exact h.listAgreements hpc ht
  | testAgreements => exact h.testAgreements hheard hpc ht
  | checkMandatory => exact h.checkMandatory hheard hwrap hpc ht
  | giveUp => exact h.giveUp hpc ht
  | logoutRepository => exact h.opening (.inr (.inr (.inl hpc))) ht
  | login => exact h.opening (.inr (.inr (.inr hpc))) ht
  | subscribe rest => exact h.subscribe hpc ht
  | install => exact h.signals (.inl hpc) ht
  | unblock => exact h.signals (.inr hpc) ht
  | storeReady => exact h.serve (.inl hpc) ht
  | testExit => exact h.serve (.inr (.inl hpc)) ht
  | heartbeat => exact h.serve (.inr (.inr hpc)) ht
  | storeNotReady =>
    rw [hpc] at hleft
    exact h.finish (hleft rfl) (.inl hpc) ht
  | unsubscribe rest =>
    rw [hpc] at hleft
    exact h.unsubscribe (hleft rfl) hpc ht
  | logout =>
    rw [hpc] at hleft
    exact h.finish (hleft rfl) (.inr hpc) ht
  | exited code | killed =>
    simp only [RithmicEngine.main, hpc] at ht
    cases ht

theorem knows_concat {pc : Pc} {log : List Entry} (h : Knows cfg pc log) (e : Entry) :
    Knows cfg pc (log ++ [e]) := by
  cases pc with
  | checkFailed c =>
    -- an alert stores complete or failed, or leaves the status
    change status c _ = _ ∨ status c _ = _
    rw [status_concat]
    cases e with
    | alert c' type =>
      dsimp only
      split
      next =>
        cases type with
        | loginComplete => exact .inl rfl
        | loginFailed | connectionBroken => exact .inr rfl
        | other => exact h
      next => exact h
    | _ => exact h
  | listAgreements | logoutRepository | login | subscribe rest => exact Earlier.concat h
  | giveUp => exact Failure.concat h
  | checkMandatory =>
    obtain ⟨info, hinfo, hacc⟩ := h
    exact ⟨info, List.mem_append_left _ hinfo, hacc⟩
  | exited code =>
    cases code with
    | zero => trivial
    | succ code => exact Failure.concat h
  | _ => trivial

/-- A step that adds an entry of a callback or a signal. -/
theorem add (h : Scripted cfg subs s) {e : Entry} (he : e.output = none)
    (hjust : justified s.log e) : Scripted cfg subs (s.add e) where
  place := by
    show Place cfg subs s.pc (outputs (s.log ++ [e]))
    rw [outputs_concat, he]
    exact (List.append_nil _).symm ▸ h.place
  knows := knows_concat h.knows e
  guarded := h.guarded.concat hjust

theorem of_same (h : Scripted cfg subs s) (hpc : t.pc = s.pc) (hlog : t.log = s.log) :
    Scripted cfg subs t :=
  ⟨hpc ▸ hlog ▸ h.place, hpc ▸ hlog ▸ h.knows, hlog ▸ h.guarded⟩

theorem sigterm (h : Scripted cfg subs s) (hsignals : Signals s) :
    Scripted cfg subs (sigterm s) := by
  have hadd : Scripted cfg subs (s.add .sigterm) := h.add rfl trivial
  unfold RithmicEngine.sigterm
  dsimp only
  split
  next => exact hadd.of_same rfl rfl
  next hhandler =>
    have hunhandled : s.pc.handled = false :=
      hsignals.handler.symm.trans (Bool.not_eq_true _ ▸ hhandler)
    exact hadd.goto (hadd.place.isPrefix_of_unhandled hunhandled) trivial

theorem callback (h : Scripted cfg subs s) (ht : Callback s t) : Scripted cfg subs t := by
  obtain ⟨es, hes, hcallback⟩ := ht.log
  have hpc := ht.pc
  clear ht
  induction es generalizing s with
  | nil => exact h.of_same hpc (hes.trans (List.append_nil _))
  | cons e es ih =>
    rw [List.forall_mem_cons] at hcallback
    have hadd : Scripted cfg subs (s.add e) := by
      cases e with
      | alert | agreementList | received => exact h.add rfl trivial
      | request | childReady | heartbeat | sigterm => cases hcallback.1
    exact ih hadd (hes.trans (List.append_cons ..)) hcallback.2 hpc

theorem step [DecidableEq ι] (h : Scripted cfg subs s) (hheard : Heard s) (hsignals : Signals s)
    (hwrap : s.counted < 2 ^ 31) {a : Action ι} (ht : step cfg subs s a = some t) :
    Scripted cfg subs t := by
  rcases step_cases ht with ⟨ok, ht⟩ | ⟨-, rfl⟩ | ht
  · exact h.main hheard hsignals hwrap ht
  · exact h.sigterm hsignals
  · exact h.callback ht

end Scripted

/-- The counter of agreements has not wrapped. -/
def Unwrapped (s : State ι) (_ : Action ι) : Prop := s.counted < 2 ^ 31

section
variable {cfg : Config.RithmicConfig} {subs : List SubEntry} {s : State ι} {as : List (Action ι)}

theorem exec_signals (hs : (machine ι cfg subs).exec init as = some s) : Signals s :=
  (machine ι cfg subs).exec_invariant (C := fun _ _ => True)
    (fun _ _ _ h _ ht => signals_step h ht) .init (Machine.along_true _) hs

theorem exec_scripted (hC : (machine ι cfg subs).Along Unwrapped init as)
    (hs : (machine ι cfg subs).exec init as = some s) : Scripted cfg subs s := by
  have hall := (machine ι cfg subs).exec_invariant (C := Unwrapped)
    (I := fun s => Scripted cfg subs s ∧ Heard s ∧ Signals s)
    (fun _ _ _ h hC ht => ⟨h.1.step h.2.1 h.2.2 hC ht, h.2.1.step ht, signals_step h.2.2 ht⟩)
    ⟨.init, .init, .init⟩ hC hs
  exact hall.1

end

/-- Over every interleaving of the main thread with any number of threads of the API, and with
SIGTERM at any moment. -/
theorem session_followed (cfg : Config.RithmicConfig) (subs : List SubEntry)
    (as : List (Action ι)) (s : State ι) (hC : (machine ι cfg subs).Along Unwrapped init as)
    (hs : (machine ι cfg subs).exec init as = some s) : Session cfg subs s := by
  have hscripted := exec_scripted hC hs
  have hsignals := exec_signals hs
  have hplace := hscripted.place
  refine ⟨hplace.isPrefix, hscripted.guarded, fun hpc => ?_, fun hpc => ?_, hsignals.killed_iff,
    fun hno => hplace.isPrefix_of_unhandled (hsignals.handler.symm.trans hno)⟩
  · rw [hpc] at hplace
    exact hplace
  · have hknows := hscripted.knows
    rw [hpc] at hknows
    exact hknows

/-- A gateway for one future, from the first login to the last logout. -/
def wholeSession : List (Action Unit) :=
  [.main true, .main true, .alert .repository .loginComplete, .main true, .main true, .main true,
    .agreementList () ⟨false, [⟨"active", false⟩, ⟨"expired", true⟩]⟩, .listing (), .listing (),
    .listing ()] ++ List.replicate 4 (.main true) ++ [.alert .marketData .loginComplete] ++
    List.replicate 10 (.main true) ++ [.sigterm] ++ List.replicate 6 (.main true)

def oneFuture : List SubEntry := [⟨true, "CME", "GCQ6", 7⟩]

instance (s : State ι) (a : Action ι) : Decidable (Unwrapped s a) :=
  inferInstanceAs (Decidable (s.counted < 2 ^ 31))

theorem wholeSession_followed :
    (machine Unit {} oneFuture).Along Unwrapped init wholeSession ∧
    ∃ s, (machine Unit {} oneFuture).exec init wholeSession = some s ∧
      Session {} oneFuture s ∧ s.pc = .exited 0 := by
  have hrun : ((machine Unit {} oneFuture).exec init wholeSession).map (·.pc) =
      some (.exited 0) := by decide +kernel
  have hC : (machine Unit {} oneFuture).Along Unwrapped init wholeSession := by decide +kernel
  obtain ⟨s, hs, hpc⟩ := Option.map_eq_some_iff.mp hrun
  exact ⟨hC, s, hs, session_followed {} oneFuture wholeSession s hC hs, hpc⟩

/-- SIGTERM while `Start` waits for the repository. -/
example : ((machine Unit {} oneFuture).exec init [.main true, .main true, .sigterm]).map (·.pc) =
    some .killed := by decide +kernel

/-! ## The end -/

/-- The operations of the main thread that are left when SIGTERM has come, at most. -/
def left (subs : List SubEntry) (s : State ι) : Nat :=
  match s.pc with
  | .unblock => subs.length + 6
  | .storeReady | .heartbeat => subs.length + 5
  | .testExit => subs.length + 4
  | .storeNotReady => subs.length + 3
  | .unsubscribe rest => rest.length + 2
  | .logout => 1
  | _ => 0

section
omit [DecidableEq ι]
variable {cfg : Config.RithmicConfig} {subs : List SubEntry} {s t : State ι} {ok : Bool}

/-- Each operation of the main thread brings the end nearer. -/
theorem left_main (hsignals : Signals s) (hsent : .sigterm ∈ s.log)
    (ht : main cfg subs s ok = some t) : left subs t < left subs s := by
  have hhandler := hsignals.handler_of_sent (path_main ht).wasNotKilled hsent
  have hexit : s.exit = true := hsignals.exit_iff.mpr ⟨hhandler, hsent⟩
  have hhandled : s.pc.handled = true := hsignals.handler.symm.trans hhandler
  cases hpc : s.pc with
  | testExit =>
    simp only [main, hpc, hexit, if_true] at ht
    cases ht
    simp only [left, State.goto, hpc]
    omega
  | unsubscribe rest =>
    cases rest with
    | nil =>
      simp only [main, hpc] at ht
      cases ht
      simp [left, State.goto, hpc]
    | cons sub rest =>
      simp only [main, hpc] at ht
      cases ht
      simp [left, State.request, State.goto, hpc]
  | unblock | storeReady | heartbeat | storeNotReady | logout =>
    simp only [main, hpc] at ht
    cases ht
    simp [left, State.request, State.goto, State.add, hpc]
  | exited code =>
    simp only [main, hpc] at ht
    cases ht
  | _ =>
    rw [hpc] at hhandled
    cases hhandled

variable (cfg subs ok) in
theorem main_isSome (h : s.pc.alive = true) : ∃ t, main cfg subs s ok = some t := by
  cases hpc : s.pc with
  | exited code | killed =>
    rw [hpc] at h
    cases h
  | subscribe rest | unsubscribe rest =>
    cases rest with
    | nil => exact ⟨_, by simp only [main, hpc]; rfl⟩
    | cons sub rest =>
      simp only [main, hpc]
      try split
      all_goals exact ⟨_, rfl⟩
  | _ => exact ⟨_, by simp only [main, hpc]; rfl⟩

/-- Behind a SIGTERM for which there was a handler, the process can only end with code 0. -/
theorem exited_of_sent (hsignals : Signals s) (hkilled : s.pc ≠ .killed) (hsent : .sigterm ∈ s.log)
    (h : s.pc.alive = false) : s.pc = .exited 0 := by
  have hhandled : s.pc.handled = true :=
    hsignals.handler.symm.trans (hsignals.handler_of_sent hkilled hsent)
  cases hpc : s.pc with
  | exited code =>
    cases code with
    | zero => rfl
    | succ code =>
      rw [hpc] at hhandled
      cases hhandled
  | killed => exact absurd hpc hkilled
  | _ =>
    rw [hpc] at h
    cases h

end

section
variable {cfg : Config.RithmicConfig} {subs : List SubEntry} {s t : State ι}

theorem step_main {ok : Bool} (h : s.pc.alive = true) :
    step cfg subs s (.main ok) = main cfg subs s ok := if_pos h

/-- The main thread ends by itself. -/
theorem exits_of_sent {s : State ι} {oks : List Bool} (hsignals : Signals s)
    (hkilled : s.pc ≠ .killed) (hsent : .sigterm ∈ s.log) (hoks : left subs s ≤ oks.length) :
    ∃ n t, (machine ι cfg subs).exec s ((oks.take n).map .main) = some t ∧ t.pc = .exited 0 := by
  cases halive : s.pc.alive with
  | false => exact ⟨0, s, rfl, exited_of_sent hsignals hkilled hsent halive⟩
  | true =>
    obtain ⟨t, ht⟩ := main_isSome cfg subs (oks.headD true) halive
    have hlt := left_main hsignals hsent ht
    cases oks with
    | nil => exact absurd (hlt.trans_le hoks) (Nat.not_lt_zero _)
    | cons ok oks =>
      have hpath := path_main ht
      have hlen : left subs t ≤ oks.length := Nat.le_of_lt_succ (hlt.trans_le hoks)
      obtain ⟨n, u, hu, hcode⟩ :=
        exits_of_sent (hsignals.main ht) hpath.notKilled (hpath.sigterm.mpr hsent) hlen
      refine ⟨n + 1, u, ?_, hcode⟩
      rw [List.take_succ_cons, List.map_cons]
      exact (machine ι cfg subs).exec_cons_iff.mpr ⟨t, (step_main halive).trans ht, hu⟩
termination_by oks.length

theorem within_step {a : Action ι} (h : Within subs s.pc) (ht : step cfg subs s a = some t) :
    Within subs t.pc := by
  rcases step_cases ht with ⟨ok, ht⟩ | ⟨-, rfl⟩ | ht
  · exact (path_main ht).within h
  · unfold sigterm
    dsimp only
    split
    · exact h
    · trivial
  · exact ht.pc ▸ h

omit [DecidableEq ι] in
theorem left_le (h : Within subs s.pc) : left subs s ≤ subs.length + 6 := by
  unfold left
  split
  case h_6 rest hpc =>
    rw [hpc] at h
    exact Nat.add_le_add h (by decide)
  all_goals omega

end

/-- In every run: once SIGTERM has been sent, the process was killed by it, because it had no
handler yet, or the main thread ends by itself with code 0 in a bounded number of operations,
whatever the API answers to its requests. -/
theorem sigterm_ends (cfg : Config.RithmicConfig) (subs : List SubEntry) (as : List (Action ι))
    (s : State ι) (hs : (machine ι cfg subs).exec init as = some s) (hsent : .sigterm ∈ s.log)
    (oks : List Bool) (hoks : oks.length = subs.length + 6) :
    (s.pc = .killed ∧ s.handler = false) ∨
      ∃ n t, (machine ι cfg subs).exec s ((oks.take n).map .main) = some t ∧ t.pc = .exited 0 := by
  have hwithin : Within subs s.pc :=
    (machine ι cfg subs).exec_invariant (C := fun _ _ => True) (I := fun s => Within subs s.pc)
      (fun _ _ _ h _ ht => within_step h ht) (show Within subs .create from trivial)
      (Machine.along_true _) hs
  have hsignals := exec_signals hs
  by_cases hkilled : s.pc = .killed
  · exact .inl ⟨hkilled, (hsignals.killed_iff.mp hkilled).1⟩
  · exact .inr (exits_of_sent hsignals hkilled hsent ((left_le hwithin).trans_eq hoks.symm))

/-- SIGTERM comes behind a heartbeat; from then on the API refuses everything. -/
theorem wholeSession_ends :
    ∃ s, (machine Unit {} oneFuture).exec init (wholeSession.take 26) = some s ∧
      .sigterm ∈ s.log ∧ ∃ n t, (machine Unit {} oneFuture).exec s
        (((List.replicate 7 false).take n).map .main) = some t ∧ t.pc = .exited 0 := by
  have hrun : ((machine Unit {} oneFuture).exec init (wholeSession.take 26)).map (fun s =>
      decide (.sigterm ∈ s.log ∧ s.handler = true)) = some true := by decide +kernel
  obtain ⟨s, hs, hfacts⟩ := Option.map_eq_some_iff.mp hrun
  obtain ⟨hsent, hhandler⟩ := of_decide_eq_true hfacts
  refine ⟨s, hs, hsent, (sigterm_ends {} oneFuture _ s hs hsent _ rfl).resolve_left ?_⟩
  rintro ⟨-, hno⟩
  cases hhandler.symm.trans hno

end RithmicEngine

end Sqc
