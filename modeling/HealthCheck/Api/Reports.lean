import HealthCheck.Api.Bodies
import HealthCheck.StoredTexts

/-!
# What the lists report

The management API shows the accounts and the trust anchors. Each body is a JSON text, and a
general reader of JSON finds in it exactly what the variables hold.

* `Response.Complete`, `Response.Reports` — a response that is sent as a whole, and what a client
  reads in it.
* `getUsers_reports`, `getTrustAnchors_reports` — the two lists.
-/

namespace HealthCheck.ApiService

open Nor hiding read driven_read read_ok read_cases
open CString
open JsonText (Json Spells spells_number spells_integer integerText)

/-! ## Responses that are sent -/

/-- The status lines of the API. -/
def statusLines : List (ℕ × Bytes) :=
  [(200, ascii "OK"), (201, ascii "Created"), (202, ascii "Accepted"), (400, ascii "Bad Request"),
    (401, ascii "Unauthorized"), (403, ascii "Forbidden"), (404, ascii "Not Found"),
    (409, ascii "Conflict"), (500, ascii "Internal Server Error"),
    (503, ascii "Service Unavailable")]

namespace Response

/-- What is written when the response fits: without its body in answer to a HEAD. -/
def full (r : Response) : Bytes := r.header ++ if r.headOnly then [] else r.json

/-- A response with a known status line and an object as its body, sent as a whole. `head` says
that the body is left out, and a body that is sent on its own is one line. -/
structure Complete (head : Bool) (r : Response) : Prop where
  shown : r.headOnly = head
  line : (r.status, r.reason) ∈ statusLines
  text : ∃ members, Spells r.json (.object members)
  whole : r.sent = some r.full
  unbroken : r.buffered = true → 0x0A ∉ r.json

/-- A complete response with status 200, and what `read` finds in its body. -/
structure Reports {α : Type} (r : Response) (read : Json → Option α) (value : α) : Prop where
  ok : r.status = 200
  complete : r.Complete false
  body : (JsonText.parse r.json).bind read = some value

theorem length_line {r : Response} (h : (r.status, r.reason) ∈ statusLines) :
    (decimalText r.status).length = 3 ∧ r.reason.length ≤ 21 := by
  have hall : ∀ l ∈ statusLines, (decimalText l.1).length = 3 ∧ l.2.length ≤ 21 := by
    decide
  exact hall (r.status, r.reason) h

theorem length_header {r : Response} (h : (r.status, r.reason) ∈ statusLines) :
    r.header.length = 111 + r.reason.length + (decimalText r.json.length).length := by
  have hstart : (ascii "HTTP/1.1 ").length = 9 := rfl
  have hblank : (ascii " ").length = 1 := rfl
  have hmiddle : (ascii
      "\r\nContent-Type: application/json\r\nContent-Length: ").length = 50 := rfl
  have hend : (ascii
      "\r\nConnection: close\r\nCache-Control: no-store\r\n\r\n").length = 48 := rfl
  rw [header]
  simp only [List.length_append, hstart, hblank, hmiddle, hend, (length_line h).1]
  omega

/-- A body that leaves room for the header is sent. -/
theorem complete_of_short {r : Response} (hline : (r.status, r.reason) ∈ statusLines)
    {members : List (Bytes × Json)} (htext : Spells r.json (.object members))
    (hshort : r.json.length < responseSize - 192) (hbuffered : r.buffered = false) :
    r.Complete r.headOnly where
  shown := rfl
  line := hline
  text := ⟨members, htext⟩
  unbroken h := by
    rw [hbuffered] at h
    cases h
  whole := by
    have hheader := length_header hline
    have hreason := (length_line hline).2
    simp only [responseSize] at hshort
    have hdigits : (decimalText r.json.length).length ≤ 4 :=
      length_decimalText_le (by decide) (by omega)
    have hfits : ¬ r.full.length ≥ responseSize := by
      rw [full, List.length_append, responseSize, not_le]
      have hbody : (if r.headOnly then [] else r.json).length ≤ r.json.length := by
        split <;> simp
      omega
    rw [sent, hbuffered, if_neg (by decide)]
    exact if_neg hfits

end Response

/-- The usual responses are not in pieces and not cut to their header. -/
theorem respond_complete {status : ℕ} {reason : String} {json : Bytes}
    (hline : (status, ascii reason) ∈ statusLines) {members : List (Bytes × Json)}
    (htext : Spells json (.object members)) (hshort : json.length < responseSize - 192) :
    (respond status reason json).Complete false :=
  Response.complete_of_short (r := respond status reason json) hline htext hshort rfl

theorem ok_mem : (200, ascii "OK") ∈ statusLines := List.mem_cons_self

theorem Response.Reports.respond {α : Type} {json : Bytes} {members : List (Bytes × Json)}
    {read : Json → Option α} {value : α} (htext : Spells json (.object members))
    (hshort : json.length < responseSize - 192) (hread : read (.object members) = some value) :
    (respond 200 "OK" json).Reports read value where
  ok := rfl
  complete := respond_complete ok_mem htext hshort
  body := by
    show (JsonText.parse json).bind read = some value
    rw [htext.parse, Option.bind_some, hread]

/-! ## Accounts -/

/-- An account as a client reads it. -/
structure Account where
  username : Bytes
  role : UInt8
  enabled : UInt8
deriving DecidableEq

/-- `roleText`, read back. -/
def roleOf (text : Bytes) : Option UInt8 :=
  if text = ascii "administrator" then some UserStore.roleAdministrator
  else if text = ascii "user" then some UserStore.roleUser
  else none

/-- `boolText`, read back as the flag it was printed for. -/
def flagOf (b : Bool) : UInt8 := if b then 1 else 0

def Account.ofJson : Json → Option Account
  | .object [(n₁, .string username), (n₂, .string role), (n₃, .boolean enabled)] =>
    if [n₁, n₂, n₃] = [ascii "username", ascii "role", ascii "enabled"] then
      (roleOf role).map fun role => ⟨username, role, flagOf enabled⟩
    else none
  | _ => none

/-- The account that is compiled in. -/
def master : Account := ⟨ascii "master", UserStore.roleAdministrator, 1⟩

def Account.of (r : UserStore.Record) : Account := ⟨r.name, r.role, r.enabled⟩

/-- What `userJson` spells. -/
def accountFields (username role : Bytes) (enabled : Bool) : List (String × Bytes × Json) :=
  [("username", quoted username, .string username), ("role", quoted role, .string role),
    ("enabled", boolText enabled, .boolean enabled)]

theorem spells_userJson {username role : Bytes} (husername : JsonText.Plain username)
    (hrole : JsonText.Plain role) (enabled : Bool) :
    Spells (userJson username role enabled)
      (.object ((accountFields username role enabled).map fun f => (ascii f.1, f.2.2))) := by
  refine spells_object (accountFields username role enabled) ?_
  simp only [accountFields, List.forall_mem_cons, List.not_mem_nil, false_implies, implies_true,
    and_true]
  exact ⟨⟨by simp [memberNames], spells_quoted husername⟩,
    ⟨by simp [memberNames], spells_quoted hrole⟩, by simp [memberNames], spells_boolText enabled⟩

theorem length_userJson_le {username role : Bytes} (husername : username.length < 25)
    (hrole : role.length ≤ 13) (enabled : Bool) :
    (userJson username role enabled).length ≤ 79 := by
  have hnames : [(ascii "username").length, (ascii "role").length, (ascii "enabled").length] =
      [8, 4, 7] := rfl
  simp only [List.cons.injEq, and_true] at hnames
  have henabled := length_boolText_le enabled
  rw [userJson, length_object (by simp)]
  simp only [objectLength, List.map_cons, List.map_nil, List.sum_cons, List.sum_nil, hnames,
    length_quoted]
  omega

theorem roleText_spec (role : UInt8) :
    JsonText.Plain (roleText role) ∧ (roleText role).length ≤ 13 := by
  unfold roleText
  split <;> decide

theorem roleOf_roleText {role : UInt8}
    (h : role = UserStore.roleAdministrator ∨ role = UserStore.roleUser) :
    roleOf (roleText role) = some role := by
  rcases h with rfl | rfl <;> decide

theorem flagOf_ne_zero {flag : UInt8} (h : flag = 0 ∨ flag = 1) :
    flagOf (decide (flag ≠ 0)) = flag := by
  rcases h with rfl | rfl <;> rfl

theorem plain_master : JsonText.Plain (ascii "master") ∧
    JsonText.Plain (ascii "administrator") := by
  decide

/-- The rows of the list: the user's name, the text of the role and the state. -/
abbrev Row := Bytes × Bytes × Bool

/-- The row of an account. -/
def rowOf (r : UserStore.Record) : Row := (r.name, roleText r.role, decide (r.enabled ≠ 0))

/-- The row of the master. -/
def masterRow : Row := (ascii "master", ascii "administrator", true)

def rowJson (row : Row) : Bytes := userJson row.1 row.2.1 row.2.2

/-- The text of the list of accounts. -/
theorem getUsers_eq {principal : AuthService.Principal} {ram : Ram}
    (hadmin : AuthService.isAdministrator principal = true)
    (h : UserStore.Presentable ram.auth.users.snapshot) :
    let json := object [("users", array
      ((masterRow :: ram.auth.users.snapshot.records.map rowOf).map rowJson))]
    getUsers principal ram = respond 200 "OK" json ∧ json.length < responseSize - 192 := by
  have hcount : ram.auth.users.snapshot.records.length ≤ UserStore.maxUsers := by
    rw [UserStore.length_records h.count]
    exact h.count
  have hlist : AuthService.listUsers principal UserStore.maxUsers ram.auth =
      ram.auth.users.snapshot.records := by
    rw [AuthService.listUsers, if_pos hadmin]
    exact List.take_of_length_le hcount
  have hrow (r : UserStore.Record) (hr : r ∈ ram.auth.users.snapshot.records) :
      (rowJson (rowOf r)).length ≤ 79 :=
    length_userJson_le (h.accounts r hr).short (roleText_spec r.role).2 _
  unfold getUsers
  dsimp only
  rw [hlist]
  refine respondList_eq (fun _ r => ascii "," ++ rowJson (rowOf r)) 80
    (fun r _ _ used hfits => append_eq hfits) (fun r hr _ => ?_) ?_ ?_
  · rw [List.length_append]
    have := hrow r hr
    have : (ascii ",").length = 1 := rfl
    omega
  · have hopening : (ascii "\x7b\"users\":[" ++
        userJson (ascii "master") (ascii "administrator") true).length ≤ 80 := by decide
    simp only [UserStore.maxUsers, responseSize] at *
    omega
  · have hopening : ascii "\x7b\"users\":[" =
        0x7B :: (quoted (ascii "users") ++ [0x3A, 0x5B]) := by decide
    have hpieces := map_zipIdx (fun r => ascii "," ++ rowJson (rowOf r))
      ram.auth.users.snapshot.records 0
    rw [object_array, List.map_cons, intercalate_cons, hopening, List.map_map, List.map_map,
      hpieces]
    simp only [List.append_assoc]
    rfl

/-- The value of a row. -/
def rowValue (row : Row) : Json :=
  .object ((accountFields row.1 row.2.1 row.2.2).map fun f => (ascii f.1, f.2.2))

theorem ofJson_rowValue {username role : Bytes} {enabled : Bool} {r : UInt8}
    (h : roleOf role = some r) :
    Account.ofJson (rowValue (username, role, enabled)) = some ⟨username, r, flagOf enabled⟩ := by
  simp only [rowValue, accountFields, List.map_cons, List.map_nil, Account.ofJson, if_true, h,
    Option.map_some]

/-- **The list of accounts** shows the master and every stored account, each with its name, its
role and its state. -/
theorem getUsers_reports {principal : AuthService.Principal} {ram : Ram}
    (hadmin : AuthService.isAdministrator principal = true)
    (h : UserStore.Presentable ram.auth.users.snapshot) :
    (getUsers principal ram).Reports (listMember "users" Account.ofJson)
      (master :: (UserStore.list UserStore.maxUsers ram.auth.users).map Account.of) := by
  obtain ⟨hresponse, hshort⟩ := getUsers_eq hadmin h
  have hspells : ∀ row ∈ masterRow :: ram.auth.users.snapshot.records.map rowOf,
      Spells (rowJson row) (rowValue row) := by
    refine List.forall_mem_cons.2 ⟨spells_userJson plain_master.1 plain_master.2 true, ?_⟩
    simp only [List.mem_map, forall_exists_index, and_imp, forall_apply_eq_imp_iff₂]
    exact fun r hr => spells_userJson (h.accounts r hr).name (roleText_spec r.role).1 _
  have hlist : UserStore.list UserStore.maxUsers ram.auth.users =
      ram.auth.users.snapshot.records := by
    refine List.take_of_length_le ?_
    rw [UserStore.length_records h.count]
    exact h.count
  have hread : (masterRow :: ram.auth.users.snapshot.records.map rowOf).map rowValue =
      (rowValue masterRow :: ram.auth.users.snapshot.records.map (rowValue ∘ rowOf)) := by
    rw [List.map_cons, List.map_map]
  have hbody := spells_object [("users", array
      ((masterRow :: ram.auth.users.snapshot.records.map rowOf).map rowJson),
      .array ((masterRow :: ram.auth.users.snapshot.records.map rowOf).map rowValue))]
    (by simpa [memberNames] using spells_array hspells)
  rw [hresponse]
  refine .respond hbody hshort ?_
  show listMember "users" Account.ofJson (.object [(ascii "users", .array _)]) = _
  rw [listMember, if_pos rfl, hread, List.mapM_cons, hlist,
    mapM_map Account.of fun r hr => ?_]
  · have hmaster : Account.ofJson (rowValue masterRow) = some master :=
      ofJson_rowValue (by decide)
    rw [hmaster]
    rfl
  · refine (ofJson_rowValue (roleOf_roleText (h.accounts r hr).role)).trans ?_
    rw [flagOf_ne_zero (h.accounts r hr).enabled]
    rfl

/-! ## Trust anchors -/

/-- The subjects that Mbed TLS writes have no control characters. -/
def Printable (text : Bytes) : Prop := ∀ c ∈ text, 0x20 ≤ c

/-- A text that fits is escaped. -/
theorem appendCharacters_eq {capacity : ℕ} {value used : Bytes} (h : Printable value)
    (hfits : used.length + (JsonText.escape value).length < capacity) :
    appendCharacters capacity value used = some (used ++ JsonText.escape value) := by
  induction value generalizing used with
  | nil => simp [appendCharacters, JsonText.escape]
  | cons c value ih =>
    obtain ⟨hc, hrest⟩ := List.forall_mem_cons.1 h
    rw [JsonText.escape, List.flatMap_cons] at hfits ⊢
    change used.length + (_ ++ JsonText.escape value).length < capacity at hfits
    change _ = some (used ++ (_ ++ JsonText.escape value))
    rw [List.length_append] at hfits
    rw [appendCharacters, if_neg (UInt8.not_lt.2 hc)]
    by_cases hspecial : c = 0x22 ∨ c = 0x5C
    · rw [if_pos hspecial] at hfits ⊢
      rw [List.length_cons, List.length_singleton] at hfits
      rw [if_neg (by omega), ih hrest (by simp; omega), if_pos hspecial, List.append_assoc]
    · rw [if_neg hspecial] at hfits ⊢
      rw [List.length_singleton] at hfits
      rw [if_neg (by omega), ih hrest (by simp; omega), if_neg hspecial, List.append_assoc]

/-- A text with a control character is refused. -/
theorem printable_of_appendCharacters {capacity : ℕ} {value used out : Bytes}
    (h : appendCharacters capacity value used = some out) : Printable value := by
  induction value generalizing used with
  | nil => exact fun c hc => absurd hc List.not_mem_nil
  | cons c value ih =>
    rw [appendCharacters] at h
    split at h
    · cases h
    · rename_i hc
      have hfirst : 0x20 ≤ c := UInt8.not_lt.1 hc
      split at h
      · split at h
        · cases h
        · exact List.forall_mem_cons.2 ⟨hfirst, ih h⟩
      · split at h
        · cases h
        · exact List.forall_mem_cons.2 ⟨hfirst, ih h⟩

theorem length_escape_le (text : Bytes) : (JsonText.escape text).length ≤ 2 * text.length := by
  induction text with
  | nil => rfl
  | cons c text ih =>
    rw [JsonText.escape, List.flatMap_cons, List.length_append, List.length_cons]
    change _ + (JsonText.escape text).length ≤ _
    have hpiece : (if c = 0x22 ∨ c = 0x5C then [0x5C, c] else [c]).length ≤ 2 := by
      split <;> simp
    omega

/-- One anchor of the list. -/
def anchorFields (anchor : TlsTrustStore.Info) : List (String × Bytes × Json) :=
  [("id", decimalText anchor.id, .number anchor.id), ("factory", boolText false, .boolean false),
    ("der_length", decimalText anchor.derLength.toNat, .number anchor.derLength.toNat),
    ("subject", quoted (JsonText.escape anchor.subject), .string anchor.subject)]

def anchorJson (anchor : TlsTrustStore.Info) : Bytes :=
  object ((anchorFields anchor).map fun f => (f.1, f.2.1))

def anchorValue (anchor : TlsTrustStore.Info) : Json :=
  .object ((anchorFields anchor).map fun f => (ascii f.1, f.2.2))

theorem spells_anchorJson {anchor : TlsTrustStore.Info} (h : Printable anchor.subject) :
    Spells (anchorJson anchor) (anchorValue anchor) := by
  refine spells_object (anchorFields anchor) ?_
  simp only [anchorFields, List.forall_mem_cons, List.not_mem_nil, false_implies, implies_true,
    and_true]
  exact ⟨⟨by simp [memberNames], spells_number _⟩, ⟨by simp [memberNames], spells_boolText false⟩,
    ⟨by simp [memberNames], spells_number _⟩, by simp [memberNames], JsonText.spells_escape h⟩

/-- What is known of an anchor in the list. -/
theorem mem_list {capacity : ℕ} {ram : TlsTrustStore.Ram} {anchor : TlsTrustStore.Info}
    (h : anchor ∈ TlsTrustStore.list capacity ram) :
    anchor.id < TlsTrustStore.maxAnchors ∧ anchor.subject.length < TlsTrustStore.subjectSize := by
  obtain ⟨⟨stored, id⟩, hmem, hinfo⟩ := List.mem_filterMap.1 (List.mem_of_mem_take h)
  dsimp only at hinfo
  split at hinfo
  · cases hinfo
  · cases hinfo
    have hid := (List.mem_zipIdx hmem).2.1
    rw [Vector.length_toList] at hid
    have hsubject := List.length_take_le (TlsTrustStore.subjectSize - 1) (cstr stored.subject.toList)
    have hpos : 0 < TlsTrustStore.subjectSize := by decide
    refine ⟨by simpa using hid, ?_⟩
    show (List.take _ _).length < TlsTrustStore.subjectSize
    omega

theorem length_list_le (capacity : ℕ) (ram : TlsTrustStore.Ram) :
    (TlsTrustStore.list capacity ram).length ≤ capacity := List.length_take_le _ _

theorem length_anchorJson_le {anchor : TlsTrustStore.Info} {capacity : ℕ}
    {ram : TlsTrustStore.Ram} (h : anchor ∈ TlsTrustStore.list capacity ram) :
    (anchorJson anchor).length ≤ 310 := by
  obtain ⟨hid, hsubject⟩ := mem_list h
  have hnames : [(ascii "id").length, (ascii "factory").length, (ascii "der_length").length,
      (ascii "subject").length] = [2, 7, 10, 7] := rfl
  simp only [List.cons.injEq, and_true] at hnames
  have hescape := length_escape_le anchor.subject
  have hlength : (decimalText anchor.derLength.toNat).length ≤ 5 :=
    length_decimalText_le (by decide) (anchor.derLength.toNat_lt.trans (by decide))
  have hnumber : (decimalText anchor.id).length ≤ 1 :=
    length_decimalText_le (by decide) (hid.trans (by decide))
  have hfalse := length_boolText_le false
  simp only [TlsTrustStore.subjectSize] at hsubject
  rw [anchorJson, length_object (by simp [anchorFields])]
  simp only [objectLength, anchorFields, List.map_cons, List.map_nil, List.sum_cons, List.sum_nil,
    hnames, length_quoted]
  omega

/-- The loop body of `GET /api/v1/trust-anchors`. -/
def appendAnchor (capacity index : ℕ) (anchor : TlsTrustStore.Info) (used : Bytes) :
    Option Bytes := do
  let used ← append capacity ((if index = 0 then [] else ascii ",") ++ ascii "\x7b" ++
    members [("id", decimalText anchor.id), ("factory", boolText false),
      ("der_length", decimalText anchor.derLength.toNat)] ++ ascii ",\"subject\":\"") used
  let used ← appendJsonString capacity anchor.subject used
  append capacity (ascii "\"\x7d") used

theorem getTrustAnchors_loop (ram : Ram) : getTrustAnchors ram =
    respondList (responseSize - 192) "]\x7d" (appendAll (appendAnchor (responseSize - 192))
      (TlsTrustStore.list TlsTrustStore.maxAnchors ram.trust) (ascii "\x7b\"trust_anchors\":[")) :=
  rfl

theorem appendAnchor_eq {capacity index : ℕ} {anchor : TlsTrustStore.Info} {used : Bytes}
    (h : Printable anchor.subject)
    (hfits : used.length + (separated index (anchorJson anchor)).length < capacity) :
    appendAnchor capacity index anchor used =
      some (used ++ separated index (anchorJson anchor)) := by
  have hsplit : separated index (anchorJson anchor) =
      ((if index = 0 then [] else ascii ",") ++ ascii "\x7b" ++
        members [("id", decimalText anchor.id), ("factory", boolText false),
          ("der_length", decimalText anchor.derLength.toNat)] ++ ascii ",\"subject\":\"") ++
        JsonText.escape anchor.subject ++ ascii "\"\x7d" := by
    have hsubject : ascii ",\"subject\":\"" = 0x2C :: (quoted (ascii "subject") ++ [0x3A, 0x22]) := by
      decide
    have hbrace : ascii "\x7b" = [0x7B] := by decide
    have hclose : ascii "\"\x7d" = [0x22, 0x7D] := by decide
    rw [hsubject, hbrace, hclose, separated, anchorJson, anchorFields]
    simp [object, members, braces, quoted, List.intercalate_cons_cons]
  rw [hsplit] at hfits ⊢
  generalize hpiece : (if index = 0 then [] else ascii ",") ++ ascii "\x7b" ++
    members [("id", decimalText anchor.id), ("factory", boolText false),
      ("der_length", decimalText anchor.derLength.toNat)] ++ ascii ",\"subject\":\"" = piece at *
  simp only [List.length_append] at hfits
  have hfirst : append capacity piece used = some (used ++ piece) := append_eq (by omega)
  have hsecond : appendJsonString capacity anchor.subject (used ++ piece) =
      some (used ++ piece ++ JsonText.escape anchor.subject) := by
    rw [appendJsonString, if_neg (by rw [List.length_append]; omega)]
    exact appendCharacters_eq h (by rw [List.length_append]; omega)
  have hthird : append capacity (ascii "\"\x7d") (used ++ piece ++ JsonText.escape anchor.subject) =
      some (used ++ piece ++ JsonText.escape anchor.subject ++ ascii "\"\x7d") :=
    append_eq (by simp only [List.length_append]; omega)
  rw [appendAnchor, hpiece, hfirst]
  simp only [Option.bind_eq_bind, Option.bind_some, hsecond, hthird]
  simp only [List.append_assoc]

/-- The text of the list of anchors. -/
theorem getTrustAnchors_eq {ram : Ram}
    (h : ∀ anchor ∈ TlsTrustStore.list TlsTrustStore.maxAnchors ram.trust,
      Printable anchor.subject) :
    let json := object [("trust_anchors", array
      ((TlsTrustStore.list TlsTrustStore.maxAnchors ram.trust).map anchorJson))]
    getTrustAnchors ram = respond 200 "OK" json ∧ json.length < responseSize - 192 := by
  have hcount := length_list_le TlsTrustStore.maxAnchors ram.trust
  have hopening : ascii "\x7b\"trust_anchors\":[" =
      0x7B :: (quoted (ascii "trust_anchors") ++ [0x3A, 0x5B]) := by decide
  have hlength : (ascii "\x7b\"trust_anchors\":[").length = 18 := by decide
  obtain ⟨hresponse, hshort, -⟩ := namedList_eq (responseSize - 192) "trust_anchors"
    (TlsTrustStore.list TlsTrustStore.maxAnchors ram.trust) anchorJson 310
    (fun anchor hanchor index used hfits => appendAnchor_eq (h anchor hanchor) hfits)
    (fun anchor hanchor => length_anchorJson_le hanchor) hopening (by
      rw [hlength]
      simp only [TlsTrustStore.maxAnchors, TlsTrustStore.maxPersisted, responseSize] at *
      omega)
  exact ⟨hresponse, hshort⟩

/-- One anchor as a client reads it. -/
structure Anchor where
  id : ℕ
  derLength : ℕ
  subject : Bytes
deriving DecidableEq

def Anchor.of (anchor : TlsTrustStore.Info) : Anchor :=
  ⟨anchor.id, anchor.derLength.toNat, anchor.subject⟩

def Anchor.ofJson : Json → Option Anchor
  | .object [(n₁, id), (n₂, .boolean false), (n₃, derLength), (n₄, .string subject)] =>
    if [n₁, n₂, n₃, n₄] = [ascii "id", ascii "factory", ascii "der_length", ascii "subject"] then
      do some ⟨← natural id, ← natural derLength, subject⟩
    else none
  | _ => none

theorem ofJson_anchorValue (anchor : TlsTrustStore.Info) :
    Anchor.ofJson (anchorValue anchor) = some (.of anchor) := by
  simp [anchorValue, anchorFields, Anchor.ofJson, Anchor.of]

/-- **The list of anchors** shows every anchor that is held, whatever its subject, as long as no
subject has a control character. -/
theorem getTrustAnchors_reports {ram : Ram}
    (h : ∀ anchor ∈ TlsTrustStore.list TlsTrustStore.maxAnchors ram.trust,
      Printable anchor.subject) :
    (getTrustAnchors ram).Reports (listMember "trust_anchors" Anchor.ofJson)
      ((TlsTrustStore.list TlsTrustStore.maxAnchors ram.trust).map Anchor.of) := by
  obtain ⟨hresponse, hshort⟩ := getTrustAnchors_eq h
  have hspells := spells_array fun anchor hanchor => spells_anchorJson (h anchor hanchor)
  have hbody := spells_object [("trust_anchors", array
      ((TlsTrustStore.list TlsTrustStore.maxAnchors ram.trust).map anchorJson),
      .array ((TlsTrustStore.list TlsTrustStore.maxAnchors ram.trust).map anchorValue))]
    (by simpa [memberNames] using hspells)
  rw [hresponse]
  exact .respond hbody hshort (listMember_eq fun anchor _ => ofJson_anchorValue anchor)

/-- A list with another subject is refused. -/
theorem getTrustAnchors_cases (ram : Ram) :
    (∀ anchor ∈ TlsTrustStore.list TlsTrustStore.maxAnchors ram.trust,
      Printable anchor.subject) ∨ getTrustAnchors ram = responseTooLarge := by
  rw [getTrustAnchors_loop]
  cases hall : appendAll (appendAnchor (responseSize - 192))
      (TlsTrustStore.list TlsTrustStore.maxAnchors ram.trust)
      (ascii "\x7b\"trust_anchors\":[") with
  | none => exact .inr rfl
  | some used =>
    refine .inl fun anchor hanchor => ?_
    obtain ⟨index, before, after, happend⟩ := appended_of_appendAll hall anchor hanchor
    rw [appendAnchor] at happend
    obtain ⟨_, -, happend⟩ := Option.bind_eq_some_iff.1 happend
    obtain ⟨_, hsubject, -⟩ := Option.bind_eq_some_iff.1 happend
    rw [appendJsonString] at hsubject
    split at hsubject
    · cases hsubject
    · exact printable_of_appendCharacters hsubject

end HealthCheck.ApiService
