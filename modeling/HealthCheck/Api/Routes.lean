import HealthCheck.Api.NamedObjects

/-!
# The routes that store members of an object

Method and path select a route. The routes here store what an administrator sends as members of a
JSON object: accounts, the callback configuration and health-check resources.

* `guarded` — the checks that are made before.
* `dispatch_putCallbackConfig` and its like — which requests come to which of these routes.
-/

namespace HealthCheck.ApiService

open Nor hiding read driven_read read_ok read_cases
open CString TwoBank

/-- A route behind the checks of the token and of the role. -/
def guarded (env : Env) (request : Request) (ram : Ram)
    (route : AuthService.Principal → Route) : Route :=
  match authorize env request ram with
  | none => pure (invalidAccessToken, ram)
  | some principal => administrator principal ram (route principal)

/-- The route of an update. -/
def Collection.put (collection : Collection) (env : Env) (request : Request) (body : Bytes)
    (principal : AuthService.Principal) (ram : Ram) : Route :=
  match collection with
  | .users => putUser env (cstr body) (request.behind "/api/v1/users/") principal ram
  | .anchors =>
    match pathNumber TlsTrustStore.maxPersisted (request.behind "/api/v1/trust-anchors/") with
    | none => pure (notFound "trust_anchor_not_found", ram)
    | some id => putTrustAnchor env body id ram
  | .resources =>
    match pathNumber (HealthCheckConfig.maxResources - 1)
      (request.behind "/api/v1/health-check/resources/") with
    | none => pure (notFound "resource_not_found", ram)
    | some index => putResource (cstr body) index ram

section Routes

variable {env : Env} {request : Request} {ram : Ram} {body : Bytes}

/-- Without an administrator's token a route is not reached. -/
theorem guarded_of_not (route : AuthService.Principal → Route)
    (h : ¬Administrator env request ram) :
    guarded env request ram route = pure (invalidAccessToken, ram) ∨
      guarded env request ram route = pure (forbidden, ram) := by
  unfold guarded
  cases hprincipal : authorize env request ram with
  | none => exact .inl rfl
  | some principal =>
    refine .inr (if_pos fun hadmin => h ⟨principal, hprincipal, hadmin⟩)

/-- With one it is. -/
theorem guarded_of_administrator {route : AuthService.Principal → Route}
    {principal : AuthService.Principal} (hprincipal : authorize env request ram = some principal)
    (hadmin : principal.role = UserStore.roleAdministrator) :
    guarded env request ram route = route principal := by
  rw [guarded, hprincipal]
  exact if_neg (not_not_intro hadmin)

theorem dispatch_putCallbackConfig (h : request.is "PUT" "/api/v1/callback/config") :
    dispatch env request body ram =
      guarded env request ram fun _ => putCallbackConfig (cstr body) ram := by
  simp only [Request.is, Bool.and_eq_true, decide_eq_true_eq] at h
  cases hprincipal : authorize env request ram <;>
    simp +decide [dispatch, authorized, guarded, hprincipal, Request.is, Request.under, h.1, h.2]

theorem dispatch_putHealthCheckConfig (h : request.is "PUT" "/api/v1/health-check/config") :
    dispatch env request body ram =
      guarded env request ram fun _ => putHealthCheckConfig (cstr body) ram := by
  simp only [Request.is, Bool.and_eq_true, decide_eq_true_eq] at h
  cases hprincipal : authorize env request ram <;>
    simp +decide [dispatch, authorized, guarded, hprincipal, Request.is, Request.under, h.1, h.2]

theorem dispatch_postUser (h : request.is "POST" "/api/v1/users") :
    dispatch env request body ram =
      guarded env request ram fun principal => postUser env (cstr body) principal ram := by
  simp only [Request.is, Bool.and_eq_true, decide_eq_true_eq] at h
  cases hprincipal : authorize env request ram <;>
    simp +decide [dispatch, authorized, guarded, hprincipal, Request.is, h.1, h.2]

theorem dispatch_postResource (h : request.is "POST" "/api/v1/health-check/resources") :
    dispatch env request body ram =
      guarded env request ram fun _ => postResource (cstr body) ram := by
  simp only [Request.is, Bool.and_eq_true, decide_eq_true_eq] at h
  cases hprincipal : authorize env request ram <;>
    simp +decide [dispatch, authorized, guarded, hprincipal, Request.is, Request.under, h.1, h.2]

/-- **An update** comes to the route of its collection. -/
theorem dispatch_put (collection : Collection) (h : request.under "PUT" collection.path) :
    dispatch env request body ram =
      guarded env request ram fun principal => collection.put env request body principal ram := by
  have hroute := h
  simp only [Request.under, Bool.and_eq_true, decide_eq_true_eq, List.isPrefixOf_iff_prefix] at h
  obtain ⟨hmethod, hbegins⟩ := h
  have hother {method : String} (path : String) (h : ascii "PUT" ≠ ascii method) :
      request.is method path = false := by
    simp [Request.is, hmethod, h]
  have hdelete (path : String) : request.under "DELETE" path = false := by
    have hne : ascii "PUT" ≠ ascii "DELETE" := by decide
    simp [Request.under, hmethod, hne]
  have hsingle (path : String) (hpath : ¬ascii collection.path <+: ascii path) :
      request.is "PUT" path = false := Bool.eq_false_iff.2 (not_is hbegins hpath)
  have hcertificate := hsingle "/api/v1/tls/certificate" (by cases collection <;> decide)
  have hkey := hsingle "/api/v1/tls/private-key" (by cases collection <;> decide)
  have hcallback := hsingle "/api/v1/callback/config" (by cases collection <;> decide)
  have hhealth := hsingle "/api/v1/health-check/config" (by cases collection <;> decide)
  have hunder (collection' : Collection) :
      request.under "PUT" collection'.path = decide (collection' = collection) := by
    by_cases heq : collection' = collection
    · subst heq
      rw [hroute, decide_eq_true rfl]
    · rw [decide_eq_false heq]
      exact Bool.eq_false_iff.2 fun h => heq (eq_of_under hbegins h)
  have hget : ascii "PUT" ≠ ascii "GET" := by decide
  have hhead : ascii "PUT" ≠ ascii "HEAD" := by decide
  have hpost : ascii "PUT" ≠ ascii "POST" := by decide
  have hdeleted : ascii "PUT" ≠ ascii "DELETE" := by decide
  have husers := hunder .users
  have hanchors := hunder .anchors
  have hresources := hunder .resources
  simp only [Collection.path] at husers hanchors hresources
  cases hprincipal : authorize env request ram <;>
    cases hid : pathNumber TlsTrustStore.maxPersisted (request.behind "/api/v1/trust-anchors/") <;>
    cases hindex : pathNumber (HealthCheckConfig.maxResources - 1)
      (request.behind "/api/v1/health-check/resources/") <;>
    cases collection <;>
    simp [dispatch, authorized, guarded, hprincipal, hother, hdelete, hcertificate, hkey, hcallback,
      hhealth, husers, hanchors, hresources, hget, hhead, hpost, hdeleted, Collection.put, hmethod,
      hid, hindex]

end Routes

end HealthCheck.ApiService
