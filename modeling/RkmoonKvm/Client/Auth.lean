import RkmoonKvm.Library.Base64
import RkmoonKvm.Library.Runs

/-! The credential of the client: the password, and the one target that it may be sent to. -/
namespace Client
open Base64 Runs

/-- What of a `QUrl` is compared with the target; `port` is 0 where the URL has none. -/
structure Url where
  scheme : String
  host : String
  port : Int

structure Auth where
  password : String := ""
  host : String := ""
  port : UInt16 := 0

structure NetworkRequest where
  manualRedirect : Bool
  authorization : Option (List UInt8)

def userName : String := "kvm"
def schemeVersion : String := "password-http-v1"

namespace Auth

def setPassword (password : String) (auth : Auth) : Auth := { auth with password }

def hasPassword (auth : Auth) : Bool := auth.password ≠ ""

def bindTarget (host : String) (port : UInt16) (auth : Auth) : Auth :=
  if host = "" ∨ port = 0 then { auth with host := "", port := 0 } else { auth with host, port }

def hasTarget (auth : Auth) : Bool := auth.host ≠ "" && auth.port ≠ 0

def unbindTarget (auth : Auth) : Auth := { auth with host := "", port := 0 }

def clear (_ : Auth) : Auth := {}

def matchesTarget (foldCase : Char → Char) (url : Url) (auth : Auth) : Bool :=
  auth.host ≠ "" && auth.port ≠ 0 &&
    url.scheme.toList.map foldCase = "http".toList.map foldCase &&
    url.port = auth.port.toNat && url.host.toList.map foldCase = auth.host.toList.map foldCase

def authorizationValue (foldCase : Char → Char) (url : Url) (auth : Auth) : List UInt8 :=
  if !auth.matchesTarget foldCase url then []
  else if auth.password = "" then []
  else ascii "Basic " ++ encode (ascii userName ++ ascii ":" ++ auth.password.toUTF8.data.toList)

def prepareRequest (foldCase : Char → Char) (url : Url) (auth : Auth) : NetworkRequest where
  manualRedirect := true
  authorization :=
    if auth.authorizationValue foldCase url = [] then none else some (auth.authorizationValue foldCase url)

theorem bindTarget_hasTarget {host : String} {port : UInt16} (auth : Auth) (named : host ≠ "")
    (numbered : port ≠ 0) : (auth.bindTarget host port).hasTarget = true := by
  unfold bindTarget hasTarget
  rw [if_neg (by simp [named, numbered])]
  simp [named, numbered]

end Auth

/-- What else the client does with the credential. -/
inductive Use where
  | setPassword (password : String)
  | bindTarget (host : String) (port : UInt16)
  | unbindTarget
  | clear

def Auth.use (auth : Auth) : Use → Auth
  | .setPassword password => auth.setPassword password
  | .bindTarget host port => auth.bindTarget host port
  | .unbindTarget => auth.unbindTarget
  | .clear => auth.clear

/-- No target is armed, and no request carries the password until one is bound again. -/
def Auth.Disarmed (foldCase : Char → Char) (auth : Auth) : Prop :=
  auth.hasTarget = false ∧ ∀ us : List Use, (∀ u ∈ us, ∀ host port, u ≠ .bindTarget host port) →
    ∀ url, ((run Auth.use auth us).prepareRequest foldCase url).authorization = none

theorem Auth.silent {auth : Auth} (none : auth.hasTarget = false) (foldCase : Char → Char) (url : Url) :
    (auth.prepareRequest foldCase url).authorization = Option.none := by
  have other : auth.matchesTarget foldCase url = false := by
    unfold matchesTarget
    unfold hasTarget at none
    rw [none, Bool.false_and, Bool.false_and, Bool.false_and]
  have empty : auth.authorizationValue foldCase url = [] := by
    rw [authorizationValue, other]
    rfl
  exact if_pos empty

theorem Auth.use_hasTarget {auth : Auth} (none : auth.hasTarget = false) {u : Use}
    (other : ∀ host port, u ≠ .bindTarget host port) : (auth.use u).hasTarget = false := by
  cases u with
  | setPassword password => exact none
  | bindTarget host port => exact absurd rfl (other host port)
  | unbindTarget | clear => rfl

theorem Auth.disarmed_iff {foldCase : Char → Char} {auth : Auth} :
    auth.Disarmed foldCase ↔ auth.hasTarget = false := by
  refine ⟨fun disarmed => disarmed.1, fun none => ⟨none, fun us others url => ?_⟩⟩
  have unarmed : (run Auth.use auth us).hasTarget = false :=
    meets_invariant Auth.use (fun _ u => ∀ host port, u ≠ .bindTarget host port)
      (fun auth => auth.hasTarget = false) (fun _ _ none other => use_hasTarget none other) none us
      (meets_of_forall others auth)
  exact silent unarmed foldCase url

end Client
