/-!
# Response status

The status codes of a time-stamp response.
-/

namespace Asn1.TimeStamp

/-- The status of a response. -/
inductive Status where
  | granted
  | grantedWithMods
  | rejection
  | waiting
  | revocationWarning
  | revocationNotification
  deriving Repr, DecidableEq

namespace Status

/-- The number that stands for a status. -/
def code : Status → Nat
  | .granted => 0
  | .grantedWithMods => 1
  | .rejection => 2
  | .waiting => 3
  | .revocationWarning => 4
  | .revocationNotification => 5

/-- The status of a number, if there is one. -/
def ofCode? : Int → Option Status
  | 0 => some .granted
  | 1 => some .grantedWithMods
  | 2 => some .rejection
  | 3 => some .waiting
  | 4 => some .revocationWarning
  | 5 => some .revocationNotification
  | _ => none

/-- Whether a token comes with the status. -/
def isGranted : Status → Bool
  | .granted | .grantedWithMods => true
  | _ => false

/-- How a status is shown to a reader. -/
def text : Status → String
  | .granted => "granted"
  | .grantedWithMods => "grantedWithMods"
  | .rejection => "rejection"
  | .waiting => "waiting"
  | .revocationWarning => "revocationWarning"
  | .revocationNotification => "revocationNotification"

/-- The one-word name of a status. -/
def name : Status → String
  | .granted => "Granted"
  | .grantedWithMods => "GrantedWithMods"
  | .rejection => "Rejection"
  | .waiting => "Waiting"
  | .revocationWarning => "RevocationWarning"
  | .revocationNotification => "RevocationNotification"

theorem ofCode?_code (status : Status) : ofCode? status.code = some status := by
  cases status <;> rfl

theorem code_lt (status : Status) : status.code < 6 := by
  cases status <;> decide

theorem code_of_ofCode? {n : Int} {status : Status} (h : ofCode? n = some status) :
    (status.code : Int) = n := by
  unfold ofCode? at h
  split at h <;> simp_all <;> subst h <;> rfl

theorem ofCode?_eq_some_iff {n : Int} {status : Status} :
    ofCode? n = some status ↔ n = status.code := by
  constructor
  · intro h
    exact (code_of_ofCode? h).symm
  · rintro rfl
    exact ofCode?_code status

end Status

end Asn1.TimeStamp
