import HealthCheck.Lib.CString

/-!
# Requests to the buzzer

`buzzer_service.c`, as far as other tasks ask it for sounds: an alert, and one warning for each
health-check resource. The buzzer task plays what is requested and clears the requests.
-/

namespace HealthCheck.BuzzerService

/-- `HEALTH_CHECK_CONFIG_MAX_RESOURCES`. -/
def maxResources : ℕ := 3

/-- `buzzerTask != NULL`, `alertRequested` and `certificateWarningMask`. -/
structure Ram where
  ready : Bool
  alertRequested : UInt8
  certificateWarningMask : UInt8
deriving DecidableEq

/-- `BuzzerService_Alert`. -/
def alert (ram : Ram) : Bool × Ram :=
  if !ram.ready then (false, ram) else (true, { ram with alertRequested := 1 })

/-- `BuzzerService_CertificateExpiryWarning`. -/
def certificateExpiryWarning (resourceIndex : ℕ) (ram : Ram) : Bool × Ram :=
  if !ram.ready || resourceIndex ≥ maxResources then (false, ram)
  else (true, { ram with
    certificateWarningMask := ram.certificateWarningMask ||| UInt8.ofNat (2 ^ resourceIndex) })

end HealthCheck.BuzzerService
