import RkmoonKvm.Client.Auth
import RkmoonKvm.Client.Window

/-! The refreshes of the host: what each reply to serverinfo leaves of the binding. The
parts of the upstream client that read a reply are parameters. -/
namespace Client

structure Computer where
  uuid : String
  name : String
  appVersion : String
  paired : Bool
  deriving DecidableEq

/-- `NvHTTP` and the constructor of `NvComputer`, as far as a refresh uses them. -/
structure NvHttp (Body : Type) where
  getXmlString : Body → String → String
  /-- A root status other than 200 is thrown with its message. -/
  verifyResponseStatus : Body → Except (Int × String) Unit
  computer : Body → Except String Computer

inductive NetworkError where
  | noError | timeout | temporaryNetworkFailure | remoteHostClosed | connectionRefused
  | authenticationRequired | contentAccessDenied
  | other (text : String)
  deriving DecidableEq

/-- A finished request; without a reply its status is 0. -/
structure Finished (Body : Type) where
  error : NetworkError
  status : Int
  body : Body

inductive Thrown where
  | runtimeError (text : String)
  | gfeHttpResponse (code : Int) (text : String)
  | networkReply (error : NetworkError)

def isAuthorizationFailure (error : NetworkError) : Bool :=
  error = .authenticationRequired || error = .contentAccessDenied

structure Config where
  address : String
  httpPort : UInt16
  hostUuid : String := ""
  hostName : String := ""
  appId : Int := 0

structure KvmHost where
  config : Config
  auth : Auth := {}
  computer : Option Computer := none
  display : Display := {}
  supportsAbsoluteMouse : Bool := false
  supportsRelativeMouse : Bool := false
  streaming : Bool := false
  transientFailure : Bool := false

namespace KvmHost

def unbindTarget (h : KvmHost) : KvmHost := { h with auth := h.auth.unbindTarget }

section refresh
variable {Body : Type} (nv : NvHttp Body)

/-- A display or a computer that cannot be read is thrown as it is. -/
def acceptInfo (info : Body) (h : KvmHost) : Except Thrown Unit × KvmHost :=
  if nv.getXmlString info "RKMoonAuth" ≠ schemeVersion then
    (.error (.runtimeError "This host does not speak RKMoon password authentication"), h.unbindTarget)
  else match Info.read (nv.getXmlString info) with
  | .error text => (.error (.runtimeError text), h)
  | .ok mode => match nv.computer info with
    | .error text => (.error (.runtimeError text), h)
    | .ok host =>
      if host.uuid = "" ∨ host.appVersion = "" then
        (.error (.runtimeError "Incomplete GameStream server information"), h.unbindTarget)
      else if h.config.hostUuid ≠ "" ∧ host.uuid ≠ h.config.hostUuid then
        (.error (.runtimeError "Host identity changed; forget the binding and bind again"), h.unbindTarget)
      else if !host.paired then
        (.error (.runtimeError "Host did not accept this client's password"), h.unbindTarget)
      else
        (.ok (), { h with
          config := { h.config with
            appId := if h.config.hostUuid = "" then 0 else h.config.appId
            hostUuid := host.uuid, hostName := host.name }
          supportsAbsoluteMouse := mode.absolute, supportsRelativeMouse := mode.relative
          display := mode.display
          computer := if h.streaming then h.computer else some host })

def refresh (reply : Finished Body) (h : KvmHost) : Except Thrown Unit × KvmHost :=
  let h := { h.unbindTarget with computer := none }
  if h.config.address = "" ∨ h.config.httpPort = 0 then
    (.error (.runtimeError "Set a host address and port first"), h)
  else if !h.auth.hasPassword then
    (.error (.runtimeError "Enter the host password first"), h)
  else
    let h := { h with auth := h.auth.bindTarget h.config.address h.config.httpPort }
    if !h.auth.hasTarget then
      (.error (.runtimeError "Incomplete host binding; check the address and port"), h)
    else if reply.error ≠ .noError then
      if isAuthorizationFailure reply.error then
        (.error (.runtimeError "Host rejected the password"), h.unbindTarget)
      else (.error (.networkReply reply.error), h.unbindTarget)
    else match nv.verifyResponseStatus reply.body with
    | .error (code, text) =>
      if code = 401 ∨ code = 403 then
        (.error (.runtimeError "Host rejected the password, or its failure budget is temporarily exhausted; wait a few seconds and retry"),
          h.unbindTarget)
      else (.error (.gfeHttpResponse code text), h.unbindTarget)
    | .ok () => acceptInfo nv reply.body h

def isTransient (reply : Finished Body) : Bool :=
  reply.status = 0 &&
    (reply.error = .timeout || reply.error = .temporaryNetworkFailure ||
      reply.error = .remoteHostClosed || reply.error = .connectionRefused)

/-- The end of a `refreshAsync` for serverinfo; what it throws is reported. -/
def refreshAsync (reply : Finished Body) (h : KvmHost) : Except Thrown Unit × KvmHost :=
  let h := { h with transientFailure := isTransient reply }
  if reply.error ≠ .noError ∨ reply.status ≠ 200 then
    (.error (.runtimeError "Host request failed; check connection and password"), h)
  else match nv.verifyResponseStatus reply.body with
  | .error (code, text) => (.error (.gfeHttpResponse code text), h)
  | .ok () => acceptInfo nv reply.body h

def Ready (h : KvmHost) : Prop :=
  h.config.address ≠ "" ∧ h.config.httpPort ≠ 0 ∧ h.auth.hasPassword

def Readable (info : Body) : Prop :=
  nv.getXmlString info "RKMoonAuth" = schemeVersion →
    (∃ mode, Info.read (nv.getXmlString info) = .ok mode) ∧ ∃ host, nv.computer info = .ok host

def Verified (info : Body) : Prop := nv.verifyResponseStatus info = .ok ()

/-- The rejections of a reply disarm the credential, and both refreshes agree about a
reply to the same request. -/
structure Disarms (foldCase : Char → Char) (reply : Finished Body) (h : KvmHost) : Prop where
  sync : ∀ e h', refresh nv reply h = (.error e, h') → h'.auth.Disarmed foldCase
  async : ∀ e h', refreshAsync nv reply h = (.error e, h') → !h'.transientFailure →
    h'.auth.Disarmed foldCase
  agree : h.Ready → h.auth.hasTarget → !isTransient reply →
    (refresh nv reply h).2.auth.hasTarget = (refreshAsync nv reply h).2.auth.hasTarget

end refresh

section proofs
variable {Body : Type} {nv : NvHttp Body} {reply : Finished Body} {h : KvmHost}

inductive Accepts (nv : NvHttp Body) (info : Body) (h : KvmHost) : Except Thrown Unit × KvmHost → Prop
  | rejected (e : Thrown) (read : Readable nv info) : Accepts nv info h (.error e, h.unbindTarget)
  | unread (e : Thrown) (other : ¬ Readable nv info) : Accepts nv info h (.error e, h)
  | accepted (h' : KvmHost) (read : Readable nv info) (same : h'.auth = h.auth) :
      Accepts nv info h (.ok (), h')

variable (nv) in
theorem acceptInfo_accepts (info : Body) (h : KvmHost) : Accepts nv info h (acceptInfo nv info h) := by
  unfold acceptInfo
  split
  next foreign => exact .rejected _ fun marked => absurd marked foreign
  next marked =>
    have marked := not_ne_iff.mp marked
    split
    next text failed =>
      refine .unread _ fun read => ?_
      obtain ⟨⟨mode, known⟩, _⟩ := read marked
      rw [known] at failed
      cases failed
    next mode known =>
      split
      next text failed =>
        refine .unread _ fun read => ?_
        obtain ⟨_, host, built⟩ := read marked
        rw [built] at failed
        cases failed
      next host built =>
        have read : Readable nv info := fun _ => ⟨⟨mode, known⟩, host, built⟩
        split
        · exact .rejected _ read
        · split
          · exact .rejected _ read
          · split
            · exact .rejected _ read
            · exact .accepted _ read rfl

theorem acceptInfo_agrees (info : Body) {h₁ h₂ : KvmHost} (config : h₁.config = h₂.config)
    (armed : h₁.auth.hasTarget = h₂.auth.hasTarget) :
    (acceptInfo nv info h₁).2.auth.hasTarget = (acceptInfo nv info h₂).2.auth.hasTarget := by
  unfold acceptInfo
  rw [config]
  split
  · rfl
  · split
    · exact armed
    · split
      · exact armed
      · split
        · rfl
        · split
          · rfl
          · split
            · rfl
            · exact armed

variable (nv) in
theorem refresh_cases (reply : Finished Body) (h : KvmHost) :
    (¬ (h.Ready ∧ reply.error = .noError ∧ Verified nv reply.body) ∧
      ∃ e h', refresh nv reply h = (.error e, h') ∧ h'.auth.hasTarget = false) ∨
    (h.Ready ∧ reply.error = .noError ∧ Verified nv reply.body ∧
      ∃ h', refresh nv reply h = acceptInfo nv reply.body h' ∧ h'.config = h.config ∧
        h'.auth.hasTarget = true) := by
  unfold refresh
  dsimp only
  split
  next incomplete =>
    exact .inl ⟨fun all => incomplete.elim all.1.1 all.1.2.1, _, _, rfl, rfl⟩
  next complete =>
    obtain ⟨named, numbered⟩ := not_or.mp complete
    split
    next missing =>
      refine .inl ⟨fun all => ?_, _, _, rfl, rfl⟩
      exact absurd (all.1.2.2.symm.trans ((Bool.not_eq_true' _).mp missing)) nofun
    next has =>
      have ready : h.Ready := ⟨named, numbered, Bool.of_not_eq_false (mt (Bool.not_eq_true' _).mpr has)⟩
      have armed := Auth.bindTarget_hasTarget h.auth.unbindTarget named numbered
      split
      next unarmed => exact absurd (armed.symm.trans ((Bool.not_eq_true' _).mp unarmed)) nofun
      next =>
        split
        next broken => split <;> exact .inl ⟨fun all => broken all.2.1, _, _, rfl, rfl⟩
        next clean =>
          have clean := not_ne_iff.mp clean
          split
          next code text refused =>
            have other : ¬ Verified nv reply.body := fun verified => by
              rw [verified] at refused
              cases refused
            split <;> exact .inl ⟨fun all => other all.2.2, _, _, rfl, rfl⟩
          next verified => exact .inr ⟨ready, clean, verified, _, rfl, rfl, armed⟩

variable (nv) in
theorem refreshAsync_cases (reply : Finished Body) (h : KvmHost) :
    ∃ h', h'.auth = h.auth ∧ h'.config = h.config ∧ h'.transientFailure = isTransient reply ∧
      ((¬ (reply.error = .noError ∧ reply.status = 200 ∧ Verified nv reply.body) ∧
        ∃ e, refreshAsync nv reply h = (.error e, h')) ∨
      (reply.error = .noError ∧ reply.status = 200 ∧ Verified nv reply.body ∧
        refreshAsync nv reply h = acceptInfo nv reply.body h')) := by
  refine ⟨{ h with transientFailure := isTransient reply }, rfl, rfl, rfl, ?_⟩
  unfold refreshAsync
  dsimp only
  split
  next failed => exact .inl ⟨fun all => failed.elim (· all.1) (· all.2.1), _, rfl⟩
  next fine =>
    obtain ⟨clean, status⟩ := not_or.mp fine
    split
    next code text refused =>
      refine .inl ⟨fun all => ?_, _, rfl⟩
      rw [all.2.2] at refused
      cases refused
    next verified => exact .inr ⟨not_ne_iff.mp clean, not_ne_iff.mp status, verified, rfl⟩

theorem unread_error {info : Body} (unread : ¬ Readable nv info) (h : KvmHost) :
    ∃ e, acceptInfo nv info h = (.error e, h) := by
  generalize known : acceptInfo nv info h = answer
  have accepts := acceptInfo_accepts nv info h
  rw [known] at accepts
  cases accepts with
  | rejected _ read | accepted _ read => exact absurd read unread
  | unread e => exact ⟨e, rfl⟩

theorem rejected_disarmed {info : Body} (read : Readable nv info) {h h' : KvmHost} {e : Thrown}
    (thrown : acceptInfo nv info h = (.error e, h')) : h'.auth.hasTarget = false := by
  have accepts := acceptInfo_accepts nv info h
  rw [thrown] at accepts
  cases accepts with
  | rejected => rfl
  | unread _ other => exact absurd read other

/-- Every rejection disarms the credential exactly when a reply that came through with the scheme
marker can be read, and no other failure meets an armed target in `refreshAsync`. -/
theorem disarms_iff (foldCase : Char → Char) (reply : Finished Body) (h : KvmHost) :
    Disarms nv foldCase reply h ↔
      (h.Ready → reply.error = .noError → Verified nv reply.body → Readable nv reply.body) ∧
      (h.auth.hasTarget → !isTransient reply →
        reply.error = .noError ∧ reply.status = 200 ∧ Verified nv reply.body ∧ Readable nv reply.body) := by
  obtain ⟨h₂, auth, config, transient, async⟩ := refreshAsync_cases nv reply h
  have bound : h₂.auth.hasTarget = h.auth.hasTarget := by rw [auth]
  constructor
  · intro disarms
    constructor
    · intro ready clean verified
      by_contra unread
      rcases refresh_cases nv reply h with ⟨other, _⟩ | ⟨_, _, _, h₁, came, _, armed⟩
      · exact other ⟨ready, clean, verified⟩
      · obtain ⟨e, thrown⟩ := unread_error unread h₁
        have disarmed := (disarms.sync e h₁ (came.trans thrown)).1
        exact absurd (armed.symm.trans disarmed) nofun
    · intro armed lasting
      have stays (e : Thrown) (thrown : refreshAsync nv reply h = (.error e, h₂)) : False := by
        have disarmed := (disarms.async e h₂ thrown (by rw [transient]; exact lasting)).1
        exact absurd ((bound.trans armed).symm.trans disarmed) nofun
      rcases async with ⟨_, e, thrown⟩ | ⟨clean, status, verified, came⟩
      · exact (stays e thrown).elim
      · refine ⟨clean, status, verified, ?_⟩
        by_contra unread
        obtain ⟨e, thrown⟩ := unread_error unread h₂
        exact stays e (came.trans thrown)
  · rintro ⟨whole, safe⟩
    constructor
    · intro e h' thrown
      rcases refresh_cases nv reply h with ⟨_, e', h₁, failed, none⟩ | ⟨ready, clean, verified, h₁, came, _⟩
      · cases failed.symm.trans thrown
        exact Auth.disarmed_iff.mpr none
      · exact Auth.disarmed_iff.mpr
          (rejected_disarmed (whole ready clean verified) (came.symm.trans thrown))
    · intro e h' thrown lasting
      refine Auth.disarmed_iff.mpr ?_
      rcases async with ⟨failed, e', refused⟩ | ⟨_, _, _, came⟩
      · cases refused.symm.trans thrown
        refine Bool.of_not_eq_true fun armed => failed ?_
        rw [transient] at lasting
        obtain ⟨clean, status, verified, _⟩ := safe (bound.symm.trans armed) lasting
        exact ⟨clean, status, verified⟩
      · refine Bool.of_not_eq_true fun left => ?_
        have accepts := acceptInfo_accepts nv reply.body h₂
        rw [came.symm.trans thrown] at accepts
        cases accepts with
        | rejected => exact absurd left nofun
        | unread _ other =>
          rw [transient] at lasting
          exact other (safe (bound.symm.trans left) lasting).2.2.2
    · intro ready armed lasting
      obtain ⟨clean, status, verified, read⟩ := safe armed lasting
      rcases refresh_cases nv reply h with ⟨other, _⟩ | ⟨_, _, _, h₁, came, config₁, armed₁⟩
      · exact absurd ⟨ready, clean, verified⟩ other
      · rcases async with ⟨other, _⟩ | ⟨_, _, _, came₂⟩
        · exact absurd ⟨clean, status, verified⟩ other
        · rw [came, came₂]
          exact acceptInfo_agrees reply.body (config₁.trans config.symm)
            (armed₁.trans (bound.trans armed).symm)

end proofs

def tableNv : NvHttp (List (String × String)) where
  getXmlString info tag := (info.lookup tag).getD ""
  verifyResponseStatus info :=
    match toInt ((info.lookup "status_code").getD "") with
    | some 200 => .ok ()
    | code => .error (code.getD (-1), (info.lookup "status_message").getD "")
  computer info := .ok {
    uuid := (info.lookup "uniqueid").getD ""
    name := (info.lookup "hostname").getD ""
    appVersion := (info.lookup "appversion").getD ""
    paired := info.lookup "PairStatus" = some "1" }

def rejection : Finished (List (String × String)) where
  error := .noError
  status := 200
  body := [("status_code", "401"), ("status_message", "Password authentication failed")]

def bound : KvmHost where
  config := { address := "192.168.1.20", httpPort := 47989, hostUuid := "0123", hostName := "kvm" }
  auth := { password := "kvm", host := "192.168.1.20", port := 47989 }

/-- The rejection is reported, and the password stays armed. -/
theorem rejection_stays_armed :
    (∃ e h', refreshAsync tableNv rejection bound = (.error e, h') ∧ !h'.transientFailure ∧
      h'.auth.hasTarget) ∧
      ¬ Disarms tableNv id rejection bound := by
  have reported : ∃ e h', refreshAsync tableNv rejection bound = (.error e, h') ∧ !h'.transientFailure ∧
      h'.auth.hasTarget := ⟨_, _, rfl, rfl, rfl⟩
  refine ⟨reported, fun disarms => ?_⟩
  obtain ⟨e, h', thrown, lasting, armed⟩ := reported
  exact absurd (armed.symm.trans (disarms.async e h' thrown lasting).1) nofun

end KvmHost

end Client
