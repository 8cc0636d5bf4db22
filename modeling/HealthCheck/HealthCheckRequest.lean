import HealthCheck.CallbackDelivery
import HealthCheck.Device
import HealthCheck.HealthCheckSlots

/-!
# The request for a stored resource

The routes under `/api/v1/health-check/resources` take a host and a path from a JSON body and the
store checks no more than their lengths and the first character of the path, where the callback
configuration checks every character. `TlsTransport_Head` prints them as they are.

* `Stored` — the resources that can come into a slot.
* `Stored.readable` — what is known of their texts.
* `well_sent_iff` — the request always fits, and a server understands it as it was meant exactly
  when no blank is in its way.
-/

namespace HealthCheck.HealthCheckConfig

open Nor hiding read driven_read read_ok read_cases
open ApiService (postResource putResource)
open CString
open JsonText (Plain zero_notMem_of_plain)

/-! ## Stored resources -/

/-- The occupied slots of a configuration. -/
def Slots (P : Resource → Prop) (ram : Ram) : Prop :=
  ∀ i (h : i < maxResources), ram.snapshot.resources[i].occupied ≠ 0 → P ram.snapshot.resources[i]

/-- **The resources that get into the slots**: the one of the factory, and what POST and PUT make
of a configuration whose resources got there in the same way. -/
inductive Stored : Resource → Prop
  | factory : Stored defaultResource
  | post {json : Bytes} {ram : ApiService.Ram} {c c' : Chip}
      {r : ApiService.Response × ApiService.Ram}
      (hbefore : ∀ i (h : i < maxResources), ram.health.snapshot.resources[i].occupied ≠ 0 →
        Stored ram.health.snapshot.resources[i])
      (h : postResource json ram c = (some r, c')) (i : ℕ) (hi : i < maxResources)
      (hoccupied : r.2.health.snapshot.resources[i].occupied ≠ 0) :
      Stored r.2.health.snapshot.resources[i]
  | put {json : Bytes} {index : ℕ} {ram : ApiService.Ram} {c c' : Chip}
      {r : ApiService.Response × ApiService.Ram}
      (hbefore : ∀ i (h : i < maxResources), ram.health.snapshot.resources[i].occupied ≠ 0 →
        Stored ram.health.snapshot.resources[i])
      (h : putResource json index ram c = (some r, c')) (i : ℕ) (hi : i < maxResources)
      (hoccupied : r.2.health.snapshot.resources[i].occupied ≠ 0) :
      Stored r.2.health.snapshot.resources[i]

/-- What is known of the texts of a resource. -/
structure Readable (r : Resource) : Prop where
  host : cstr r.host.toList ≠ [] ∧ (cstr r.host.toList).length < hostSize ∧
    Plain (cstr r.host.toList)
  path : (cstr r.path.toList).head? = some 0x2F ∧ (cstr r.path.toList).length < pathSize ∧
    Plain (cstr r.path.toList)

theorem readable_filled {slot : Resource} {host path : Bytes} {port : UInt16} {enabled : Bool}
    {trustAnchorId : UInt8} (hhost : Plain host) (hpath : Plain path)
    (h : argumentsValid host port path trustAnchorId = true) :
    Readable (filled slot host port path enabled trustAnchorId) := by
  simp only [argumentsValid, Bool.and_eq_true, decide_eq_true_eq] at h
  obtain ⟨⟨⟨⟨⟨hne, hslash⟩, -⟩, -⟩, hhostLength⟩, hpathLength⟩ := h
  have hhostText : cstr (charArray hostSize host).toList = host :=
    cstr_charArray hhostLength (zero_notMem_of_plain hhost)
  have hpathText : cstr (charArray pathSize path).toList = path :=
    cstr_charArray hpathLength (zero_notMem_of_plain hpath)
  have hhostField : (filled slot host port path enabled trustAnchorId).host =
      charArray hostSize host := rfl
  have hpathField : (filled slot host port path enabled trustAnchorId).path =
      charArray pathSize path := rfl
  constructor
  · rw [hhostField, hhostText]
    exact ⟨hne, hhostLength, hhost⟩
  · rw [hpathField, hpathText]
    exact ⟨hslash, hpathLength, hpath⟩

/-- The texts a mutation is called with are plain. -/
def Op.Plain : Op → Prop
  | .addResource host _ path _ _ => JsonText.Plain host ∧ JsonText.Plain path
  | .updateResource _ host _ path _ _ => JsonText.Plain host ∧ JsonText.Plain path
  | _ => True

/-- **A mutation with plain texts** leaves readable resources behind. -/
theorem slots_apply {op : Op} {ram ram' : Ram} {c c' : Chip} {status : ConfigStatus}
    (h : apply op ram c = (some (status, ram'), c')) (hplain : op.Plain)
    (hslots : Slots Readable ram) : Slots Readable ram' := by
  rcases apply_eq_some h with ⟨candidate, hedit, ⟨-, hsnapshot⟩ | ⟨-, rfl⟩⟩ | ⟨-, -, rfl⟩
  · intro i hi
    rw [hsnapshot]
    show candidate.resources[i].occupied ≠ 0 → Readable candidate.resources[i]
    rcases edited_ok hedit with ⟨periodSeconds, -, -, rfl⟩ |
      ⟨index, hindex, slot, -, hmakes, rfl⟩
    · exact hslots i hi
    · rw [Vector.getElem_set]
      split
      · cases op with
        | setPeriodSeconds _ => exact hmakes.elim
        | addResource host port path enabled trustAnchorId =>
          obtain ⟨hvalid, -, rfl⟩ := hmakes
          exact fun _ => readable_filled hplain.1 hplain.2 hvalid
        | updateResource index host port path enabled trustAnchorId =>
          obtain ⟨hvalid, -, rfl⟩ := hmakes
          exact fun _ => readable_filled hplain.1 hplain.2 hvalid
        | deleteResource index =>
          obtain ⟨-, rfl⟩ := hmakes
          exact fun hne => absurd rfl hne
      · exact hslots i hi
  · exact hslots
  · exact hslots

/-! ### The two routes -/

section Routes

variable {json : Bytes} {ram : ApiService.Ram} {c c' : Chip}
  {r : ApiService.Response × ApiService.Ram}

theorem slots_refused {response : ApiService.Response} (hslots : Slots Readable ram.health)
    (h : (pure (response, ram) : ApiService.Route) c = (some r, c')) :
    Slots Readable r.2.health := by
  rw [pure_apply, Prod.mk.injEq, Option.some.injEq] at h
  rw [← h.1]
  exact hslots

theorem slots_postResource (hslots : Slots Readable ram.health)
    (h : postResource json ram c = (some r, c')) : Slots Readable r.2.health := by
  unfold postResource at h
  rcases hhost : ApiService.jsonString json (ascii "host") hostSize with _ | host
  · rw [hhost] at h
    exact slots_refused hslots h
  rcases hpath : ApiService.jsonString json (ascii "path") pathSize with _ | path
  · rw [hhost, hpath] at h
    exact slots_refused hslots h
  rcases hport : ApiService.jsonNumber json (ascii "port") with _ | port
  · rw [hhost, hpath, hport] at h
    exact slots_refused hslots h
  · rw [hhost, hpath, hport] at h
    dsimp only at h
    split at h
    · exact slots_refused hslots h
    · split at h
      · exact slots_refused hslots h
      · obtain ⟨⟨⟨status, assigned⟩, health⟩, c₁, hadd, hret⟩ := bind_eq_some.1 h
        simp only [pure_apply, Prod.mk.injEq, Option.some.injEq] at hret
        rw [← hret.1]
        have happly : apply (.addResource host (UInt16.ofNat port) path
            ((ApiService.jsonBoolean json (ascii "enabled")).getD true) (UInt8.ofNat
            ((ApiService.jsonNumber json (ascii "trust_anchor_id")).getD 0))) ram.health c =
            (some (status, health), c₁) := bind_of_some hadd
        have hplain : Plain host ∧ Plain path := ⟨(ApiService.jsonString_eq_some hhost).1,
          (ApiService.jsonString_eq_some hpath).1⟩
        exact slots_apply happly hplain hslots

/-- A member that is read from the request is plain, and so is one that is kept. -/
theorem plain_of_textAsked {n : ℕ} {text : Bytes} {stored : Vector UInt8 n}
    (h : ApiService.TextAsked text stored) (hstored : Plain (cstr stored.toList)) : Plain text := by
  rcases h with hread | rfl
  · exact hread
  · exact fun c hc => hstored c (List.mem_of_mem_take hc)

theorem slots_putResource {index : ℕ} (hslots : Slots Readable ram.health)
    (h : putResource json index ram c = (some r, c')) : Slots Readable r.2.health := by
  unfold putResource at h
  dsimp only at h
  split at h
  · exact slots_refused hslots h
  · rename_i hoccupied
    obtain ⟨hindex, hslot⟩ := getD_occupied hoccupied
    rw [hslot] at h hoccupied
    have hreadable := hslots index hindex hoccupied
    rcases hmembers : ApiService.resourceMembers json ram.health.snapshot.resources[index] with
      _ | members
    · rw [hmembers] at h
      exact slots_refused hslots h
    · rw [hmembers] at h
      dsimp only at h
      simp only [ApiService.resourceMembers, Option.bind_eq_bind, Option.bind_eq_some_iff,
        Option.pure_def, Option.some.injEq] at hmembers
      obtain ⟨host, hhost, path, hpath, port, -, enabled, -, id, -, rfl⟩ := hmembers
      split at h
      · exact slots_refused hslots h
      · split at h
        · exact slots_refused hslots h
        · obtain ⟨⟨status, health⟩, c₁, hupdate, hret⟩ := bind_eq_some.1 h
          simp only [pure_apply, Prod.mk.injEq, Option.some.injEq] at hret
          rw [← hret.1]
          have happly : apply (.updateResource index host (UInt16.ofNat port) path enabled
              (UInt8.ofNat id)) ram.health c = (some (status, health), c₁) := hupdate
          have hplain : Plain host ∧ Plain path :=
            ⟨plain_of_textAsked (ApiService.textAsked_member hhost) hreadable.host.2.2,
              plain_of_textAsked (ApiService.textAsked_member hpath) hreadable.path.2.2⟩
          exact slots_apply happly hplain hslots

end Routes

theorem readable_default : Readable defaultResource := by
  have hhost : Plain (ascii "pgw.intraclear.com") := by
    unfold JsonText.Plain
    decide +kernel
  have hpath : Plain (ascii "/") := by
    unfold JsonText.Plain
    decide +kernel
  exact readable_filled hhost hpath (by decide +kernel)

/-- **Every stored resource is readable.** -/
theorem Stored.readable {r : Resource} (h : Stored r) : Readable r := by
  induction h with
  | factory => exact readable_default
  | post _ h i hi hoccupied ih => exact slots_postResource ih h i hi hoccupied
  | put _ h i hi hoccupied ih => exact slots_putResource ih h i hi hoccupied

/-! ## The request -/

/-- The arguments of `TlsTransport_Head` for a resource. -/
def headArgs (r : Resource) : TlsTransport.Args where
  method := ascii "HEAD"
  host := cstr r.host.toList
  port := r.port
  resource := cstr r.path.toList
  body := []
  contentType := none

/-- The host a server is to see. -/
def hostValue (r : Resource) : Bytes :=
  cstr r.host.toList ++ if r.port = 443 then [] else ascii ":" ++ decimalText r.port.toNat

/-- The request fits, and a server that reads it finds the method, the path as the one word
between it and the version, and the host. -/
def WellSent (r : Resource) : Prop :=
  ∃ text message, (∀ lower p, ∃ p', TlsTransport.buildRequest (headArgs r) lower p =
      .ok (text, p')) ∧
    Http.Request.read text = some message ∧ message.method = ascii "HEAD" ∧
    message.target = cstr r.path.toList ∧ message.version = ascii "HTTP/1.1" ∧
    (message.valuesOf (ascii "Host")).map Http.trimmed = [hostValue r]

/-- No blank is in the way of a reader. -/
structure Unblanked (r : Resource) : Prop where
  path : 0x20 ∉ cstr r.path.toList
  before : (cstr r.host.toList).head? ≠ some 0x20
  behind : r.port = 443 → (cstr r.host.toList).getLast? ≠ some 0x20

variable {r : Resource}

theorem isLine_of_plain {text : Bytes} (h : Plain text) : IsLine text :=
  ⟨fun hc => absurd (h _ hc).2.2 (by decide), fun hc => absurd (h _ hc).2.2 (by decide)⟩

theorem head_hostValue (h : Readable r) : (hostValue r).head? = (cstr r.host.toList).head? := by
  obtain ⟨c, rest, hhost⟩ := List.exists_cons_of_ne_nil h.host.1
  rw [hostValue, hhost]
  rfl

/-- Behind a host and a port there is a digit. -/
theorem last_hostValue (hblank : (hostValue r).getLast? = some 0x20) :
    r.port = 443 ∧ (cstr r.host.toList).getLast? = some 0x20 := by
  by_cases hport : r.port = 443
  · rw [hostValue, if_pos hport, List.append_nil] at hblank
    exact ⟨hport, hblank⟩
  · obtain ⟨hne, hdigits, -⟩ := decimalText_spec r.port.toNat
    rw [hostValue, if_neg hport, ← List.append_assoc, List.getLast?_append_of_ne_nil _ hne] at hblank
    have hdigit := hdigits _ (List.mem_of_getLast? hblank)
    exact absurd hdigit (by decide)

/-- What is sent is read back. -/
theorem Unblanked.wellSent (hr : Readable r) (h : Unblanked r) : WellSent r := by
  have hhost := TlsTransport.hostHeader_eq_some hr.host.1 hr.host.2.1 r.port
  have hvalue : IsLine (hostValue r) := by
    have hline := isLine_of_plain hr.host.2.2
    by_cases hport : r.port = 443
    · rwa [hostValue, if_pos hport, List.append_nil]
    · have hsuffix : Http.Visible (ascii ":" ++ decimalText r.port.toNat) :=
        Http.Visible.append (by decide +kernel) (Http.visible_decimalText _)
      rw [hostValue, if_neg hport]
      simp only [IsLine, List.mem_append, not_or] at hline ⊢
      have hsuffixLine := hsuffix.isLine.1
      simp only [IsLine, List.mem_append, not_or] at hsuffixLine
      exact ⟨⟨hline.1, hsuffixLine.1⟩, hline.2, hsuffixLine.2⟩
  have hne : hostValue r ≠ [] := List.append_ne_nil_of_left_ne_nil hr.host.1 _
  have hmethod : Http.Visible (ascii "HEAD") := by decide +kernel
  have hwell : (CallbackService.message (headArgs r) (hostValue r) []).WellFormed :=
    CallbackService.wellFormed_message hmethod ⟨isLine_of_plain hr.path.2.2, h.path⟩
      ⟨hvalue, head_hostValue hr ▸ h.before⟩ (by rintro _ ⟨⟩)
  have hlength : (CallbackService.message (headArgs r) (hostValue r) []).text.length <
      TlsTransport.requestSize := by
    refine (CallbackService.length_message _ _ _).trans_lt ?_
    have hport : (decimalText r.port.toNat).length ≤ 5 :=
      length_decimalText_le (by decide) (r.port.toNat_lt.trans (by decide))
    have hhostLength : (cstr r.host.toList).length < 64 := hr.host.2.1
    have hpathLength : (cstr r.path.toList).length < 80 := hr.path.2.1
    have hfixed : (ascii "HEAD").length = 4 ∧ (ascii ":").length = 1 ∧
        (decimalText 0).length = 1 := ⟨rfl, rfl, rfl⟩
    have hvalueLength : (hostValue r).length < 70 := by
      rw [hostValue]
      split
      · simp only [List.append_nil]
        omega
      · simp only [List.length_append]
        omega
    simp only [headArgs, TlsTransport.requestSize, hfixed, List.length_nil]
    omega
  refine ⟨_, _, CallbackService.buildRequest_eq hhost (fun hne => absurd rfl hne) hlength,
    Http.Request.read_text hwell, rfl, rfl, rfl, ?_⟩
  show [Http.trimmed (hostValue r)] = [hostValue r]
  rw [(Http.trimmed_eq_self_iff hne).2 fun hlast => ?_]
  obtain ⟨hport, hhostLast⟩ := last_hostValue hlast
  exact h.behind hport hhostLast

/-- What is read back had no blank in the way. -/
theorem WellSent.unblanked (hr : Readable r) (h : WellSent r) : Unblanked r := by
  obtain ⟨text, message, -, hread, -, htarget, -, hhost⟩ := h
  obtain ⟨hblank, hvalues⟩ := Http.Request.read_spec hread
  have hmem : hostValue r ∈ (message.valuesOf (ascii "Host")).map Http.trimmed := by
    rw [hhost]
    exact List.mem_cons_self
  obtain ⟨value, hvalue, htrimmed⟩ := List.mem_map.1 hmem
  obtain ⟨f, hf, rfl⟩ := List.mem_map.1 hvalue
  have hfirst := Http.head_trimmed (hvalues f (List.mem_of_mem_filter hf))
  have hlast := Http.getLast_trimmed f.2
  rw [htrimmed] at hfirst hlast
  refine ⟨htarget ▸ hblank, head_hostValue hr ▸ hfirst, fun hport => ?_⟩
  rwa [hostValue, if_pos hport, List.append_nil] at hlast

/-- **The request for a stored resource** is well-formed exactly when no blank is in the path, none
begins the host, and none ends a host without a port. -/
theorem well_sent_iff (h : Stored r) : WellSent r ↔ Unblanked r :=
  ⟨WellSent.unblanked h.readable, Unblanked.wellSent h.readable⟩

/-! ### A path with a blank -/

/-- A mutation that is not refused is stored while every command completes. -/
theorem apply_calm {op : Op} {candidate : Snapshot} {ram : Ram}
    (hedit : edited op ram.snapshot = .ok candidate)
    (hperiod : periodValid candidate.periodSeconds = true) (m : Cells) (log : List Command) :
    ∃ ram' c', apply op ram ⟨m, {}, log⟩ = (some (.ok, ram'), c') ∧
      ram'.snapshot = stamp candidate := by
  obtain ⟨ram', log', happly, hsnapshot⟩ := apply_stored hedit hperiod m log
  exact ⟨ram', _, happly, hsnapshot⟩

/-- The variables of a device that was just started for the first time. -/
theorem first_start : ∃ ram : ApiService.Ram, ram.health.snapshot = stamp default ∧
    ram.trust.snapshot = TlsTrustStore.stamp TlsTrustStore.default := by
  obtain ⟨ram, c, -, hopened, -⟩ := Device.startup_erased
    (P := fun p image => image = p.store.factory) fun _ => rfl
  exact ⟨ram, ((hopened .health).2 _ rfl).snapshot, ((hopened .trust).2 _ rfl).snapshot⟩

/-- A request for the path `/a b`. -/
def blankBody : Bytes :=
  ApiService.object [("host", JsonText.quoted (ascii "h")), ("port", decimalText 443),
    ("path", JsonText.quoted (ascii "/a b"))]

/-- What it is stored as. -/
def blankOp : Op := .addResource (ascii "h") 443 (ascii "/a b") true 0

def blankResource : Resource :=
  filled { zeroResource with occupied := 1 } (ascii "h") 443 (ascii "/a b") true 0

/-- **A path with a blank** is stored, and the request for it names another target. -/
theorem blank_stored : ∃ r, Stored r ∧ cstr r.path.toList = ascii "/a b" ∧ ¬WellSent r := by
  obtain ⟨ram, hhealth, htrust⟩ := first_start
  have hanchor : ApiService.unknownAnchor 0 ram = false := by
    rw [ApiService.unknownAnchor, TlsTrustStore.anchorExists, htrust]
    rfl
  have hbefore : ∀ i (h : i < maxResources), ram.health.snapshot.resources[i].occupied ≠ 0 →
      Stored ram.health.snapshot.resources[i] := by
    intro i hi hoccupied
    have hslot : ram.health.snapshot.resources[i] =
        ((Vector.replicate maxResources zeroResource).set 0 defaultResource)[i] := by
      rw [hhealth]
      rfl
    rw [hslot, Vector.getElem_set] at hoccupied ⊢
    split at hoccupied
    · rename_i hzero
      rw [if_pos hzero]
      exact .factory
    · rw [Vector.getElem_replicate] at hoccupied
      exact absurd rfl hoccupied
  have hedit : edited blankOp ram.health.snapshot = .ok { stamp default with
      resources := default.resources.setIfInBounds 1 blankResource } := by
    rw [hhealth]
    rfl
  obtain ⟨health, c, happly, hsnapshot⟩ := apply_calm hedit (by decide +kernel) (fun _ => 0xFF) []
  obtain ⟨⟨⟨status, assigned⟩, health'⟩, c₁, hadd, hret⟩ := bind_eq_some.1 happly
  simp only [pure_apply, Prod.mk.injEq, Option.some.injEq] at hret
  obtain ⟨⟨-, rfl⟩, -⟩ := hret
  have hhost : ApiService.jsonString blankBody (ascii "host") hostSize = some (ascii "h") := by
    decide +kernel
  have hpath : ApiService.jsonString blankBody (ascii "path") pathSize = some (ascii "/a b") := by
    decide +kernel
  have hport : ApiService.jsonNumber blankBody (ascii "port") = some 443 := by decide +kernel
  have henabled : ApiService.jsonBoolean blankBody (ascii "enabled") = none := by decide +kernel
  have hid : ApiService.jsonNumber blankBody (ascii "trust_anchor_id") = none := by decide +kernel
  have hpost : ∃ response, postResource blankBody ram ⟨fun _ => 0xFF, {}, []⟩ =
      (some (response, { ram with health := health' }), c₁) := by
    unfold postResource
    rw [hhost, hpath, hport, henabled, hid]
    dsimp only [Option.getD]
    rw [if_neg (by decide), hanchor, if_neg Bool.false_ne_true]
    exact ⟨_, bind_of_some hadd⟩
  obtain ⟨response, hpost⟩ := hpost
  have hslot : health'.snapshot.resources[1] = blankResource := by
    rw [hsnapshot]
    rfl
  have hoccupied : health'.snapshot.resources[1].occupied ≠ 0 := by
    rw [hslot]
    decide
  have hstored : Stored health'.snapshot.resources[1] := .post hbefore hpost 1 (by decide) hoccupied
  rw [hslot] at hstored
  have htext : cstr blankResource.path.toList = ascii "/a b" := by decide +kernel
  refine ⟨blankResource, hstored, htext, fun hsent => ?_⟩
  have hblank := (hsent.unblanked hstored.readable).path
  rw [htext] at hblank
  exact hblank (by decide +kernel)

/-- The resource of the factory is asked for as it is meant. -/
theorem well_sent_factory : WellSent defaultResource :=
  (well_sent_iff .factory).2 ⟨by decide +kernel, by decide +kernel, by decide +kernel⟩

end HealthCheck.HealthCheckConfig
