import HealthCheck.Api.Dispatch
import HealthCheck.CallbackDelivery

/-!
# Bodies of responses

A body is printed piece by piece into an array of fixed size, and the size is checked before each
piece. A list that fits is one JSON text, the same that `object` and `array` spell.

* `appendAll_eq` — a loop that appends pieces which fit.
* `spells_object`, `spells_array` — the texts of objects and arrays.
* `length_object` — how long they are.
* `namedList_eq` — the response with a list.
-/

namespace HealthCheck.ApiService

open CString
open JsonText (Json Spells spells_number spells_integer spells_boolean spells_string)

/-! ## Pieces -/

section Pieces

variable {α : Type} {f : ℕ → α → Bytes → Option Bytes} {text : ℕ → α → Bytes} {capacity : ℕ}

theorem append_eq {piece used : Bytes} (h : used.length + piece.length < capacity) :
    append capacity piece used = some (used ++ piece) := if_neg (by omega)

theorem foldlM_pieces {items : List α} {bound : ℕ}
    (hf : ∀ x ∈ items, ∀ index used, used.length + (text index x).length < capacity →
      f index x used = some (used ++ text index x))
    (hbound : ∀ x ∈ items, ∀ index, (text index x).length ≤ bound) {used : Bytes} (k : ℕ)
    (hfits : used.length + items.length * bound < capacity) :
    (items.zipIdx k).foldlM (fun used (item, index) => f index item used) used =
      some (used ++ ((items.zipIdx k).map fun x => text x.2 x.1).flatten) := by
  induction items generalizing used k with
  | nil => simp
  | cons x items ih =>
    obtain ⟨hx, hrest⟩ := List.forall_mem_cons.1 hf
    obtain ⟨hbx, hbrest⟩ := List.forall_mem_cons.1 hbound
    have hpiece := hbx k
    rw [List.length_cons, Nat.succ_mul] at hfits
    have hfitsRest : (used ++ text k x).length + items.length * bound < capacity := by
      rw [List.length_append]
      omega
    have hlater := ih hrest hbrest (k + 1) hfitsRest
    rw [List.zipIdx_cons, List.foldlM_cons]
    simp only [hx k used (by omega), Option.bind_eq_bind, Option.bind_some, List.map_cons,
      List.flatten_cons]
    rw [hlater, List.append_assoc]

/-- **A loop of pieces that fit** writes them one behind the other. -/
theorem appendAll_eq {items : List α} {bound : ℕ}
    (hf : ∀ x ∈ items, ∀ index used, used.length + (text index x).length < capacity →
      f index x used = some (used ++ text index x))
    (hbound : ∀ x ∈ items, ∀ index, (text index x).length ≤ bound) {used : Bytes}
    (hfits : used.length + items.length * bound < capacity) :
    appendAll f items used = some (used ++ (items.zipIdx.map fun x => text x.2 x.1).flatten) :=
  foldlM_pieces hf hbound 0 hfits

theorem appended_of_foldlM {items : List α} {used out : Bytes} {k : ℕ}
    (h : (items.zipIdx k).foldlM (fun used (item, index) => f index item used) used = some out) :
    ∀ x ∈ items, ∃ index before after, f index x before = some after := by
  induction items generalizing used k with
  | nil => exact fun x hx => absurd hx List.not_mem_nil
  | cons y items ih =>
    rw [List.zipIdx_cons, List.foldlM_cons] at h
    obtain ⟨after, hfirst, hrest⟩ := Option.bind_eq_some_iff.1 h
    exact List.forall_mem_cons.2 ⟨⟨k, used, after, hfirst⟩, ih hrest⟩

/-- A loop that comes to its end has appended every element. -/
theorem appended_of_appendAll {items : List α} {used out : Bytes}
    (h : appendAll f items used = some out) :
    ∀ x ∈ items, ∃ index before after, f index x before = some after :=
  appended_of_foldlM h

theorem map_zipIdx {β : Type} (g : α → β) (items : List α) (k : ℕ) :
    (items.zipIdx k).map (fun x => g x.1) = items.map g := by
  induction items generalizing k with
  | nil => rfl
  | cons x items ih => rw [List.zipIdx_cons, List.map_cons, ih, List.map_cons]

/-- A comma before every piece but the first. -/
def separated (index : ℕ) (piece : Bytes) : Bytes :=
  (if index = 0 then [] else ascii ",") ++ piece

theorem intercalate_cons (x : Bytes) (xs : List Bytes) :
    [0x2C].intercalate (x :: xs) = x ++ (xs.map fun y => 0x2C :: y).flatten := by
  induction xs generalizing x with
  | nil => simp
  | cons y ys ih =>
    rw [List.intercalate_cons_cons, ih y, List.map_cons, List.flatten_cons]
    simp

/-- Such pieces are a list with commas between its elements. -/
theorem flatten_separated (g : α → Bytes) (items : List α) :
    (items.zipIdx.map fun x => separated x.2 (g x.1)).flatten =
      [0x2C].intercalate (items.map g) := by
  have hlater (items : List α) (k : ℕ) (hk : k ≠ 0) :
      ((items.zipIdx k).map fun x => separated x.2 (g x.1)).flatten =
        ((items.map g).map fun y => 0x2C :: y).flatten := by
    induction items generalizing k with
    | nil => rfl
    | cons x items ih =>
      rw [List.zipIdx_cons, List.map_cons, List.flatten_cons, ih (k + 1) (Nat.succ_ne_zero k)]
      simp [separated, hk]
      rfl
  cases items with
  | nil => rfl
  | cons x items =>
    rw [List.zipIdx_cons, List.map_cons, List.flatten_cons, hlater items _ (by decide),
      List.map_cons, intercalate_cons]
    rfl

end Pieces

/-! ## Objects and arrays -/

/-- The text of an array. -/
def array (texts : List Bytes) : Bytes := 0x5B :: ([0x2C].intercalate texts ++ [0x5D])

/-- Every name of a member in a body. -/
def memberNames : List String :=
  ["error", "status", "awaiting", "token_type", "access_token", "expires_in", "refresh_token",
    "refresh_expires_in", "version", "build_date", "systems", "api", "network", "rtc", "flash",
    "temperature", "revoked", "scheduled", "pattern", "resource_index", "users", "username",
    "role", "enabled", "deleted", "trust_anchors", "id", "factory", "der_length", "subject",
    "replaced", "trust_anchors_cleared", "method", "host", "port", "path", "trust_anchor_id",
    "updated", "period_seconds", "resources", "index", "logs", "sequence", "timestamp",
    "http_status", "elapsed_ms", "detail", "sensors", "rom", "temperature_centi_degrees",
    "unix_time", "synchronized", "date_time", "year", "month", "day", "hour", "minute", "second"]

instance decidablePlain (text : Bytes) : Decidable (JsonText.Plain text) :=
  List.decidableBAll _ text

theorem plain_memberNames : ∀ name ∈ memberNames, JsonText.Plain (ascii name) := by
  decide

/-- **An object**, from its names and the texts of its values. -/
theorem spells_object (fields : List (String × Bytes × Json))
    (h : ∀ f ∈ fields, f.1 ∈ memberNames ∧ Spells f.2.1 f.2.2) :
    Spells (object (fields.map fun f => (f.1, f.2.1)))
      (.object (fields.map fun f => (ascii f.1, f.2.2))) := by
  have hmembers : ∀ f ∈ fields, JsonText.Plain (ascii f.1) ∧ Spells f.2.1 f.2.2 := fun f hf =>
    ⟨plain_memberNames f.1 (h f hf).1, (h f hf).2⟩
  have hspells := JsonText.spells_object (fun f : String × Bytes × Json => ascii f.1)
    (fun f => f.2.1) (fun f => f.2.2) hmembers
  have htext : object (fields.map fun f => (f.1, f.2.1)) =
      0x7B :: ([0x2C].intercalate
        (fields.map fun f => JsonText.quoted (ascii f.1) ++ 0x3A :: f.2.1) ++ [0x7D]) := by
    rw [object, members, List.map_map]
    rfl
  rwa [htext]

/-- **An array**, from the texts of its elements. -/
theorem spells_array {α : Type} {items : List α} {text : α → Bytes} {v : α → Json}
    (h : ∀ x ∈ items, Spells (text x) (v x)) :
    Spells (array (items.map text)) (.array (items.map v)) :=
  JsonText.spells_array h

theorem spells_quoted {text : Bytes} (h : JsonText.Plain text) :
    Spells (quoted text) (.string text) := spells_string h

theorem spells_boolText (b : Bool) : Spells (boolText b) (.boolean b) := spells_boolean b

/-! ### Line ends -/

theorem lf_notMem_intercalate {texts : List Bytes} (h : ∀ text ∈ texts, 0x0A ∉ text) :
    0x0A ∉ [0x2C].intercalate texts := by
  cases texts with
  | nil => simp
  | cons text texts =>
    obtain ⟨hfirst, hrest⟩ := List.forall_mem_cons.1 h
    rw [intercalate_cons, List.mem_append, List.mem_flatten]
    rintro (hc | ⟨piece, hpiece, hc⟩)
    · exact hfirst hc
    · obtain ⟨later, hlater, rfl⟩ := List.mem_map.1 hpiece
      rcases List.mem_cons.1 hc with hcomma | hc
      · exact absurd hcomma (by decide)
      · exact hrest later hlater hc

theorem lf_notMem_array {texts : List Bytes} (h : ∀ text ∈ texts, 0x0A ∉ text) :
    0x0A ∉ array texts := by
  have hinner := lf_notMem_intercalate h
  simp only [array, List.mem_cons, List.mem_append, List.not_mem_nil, or_false, not_or]
  exact ⟨by decide, hinner, by decide⟩

/-- An object has no more line ends than its names and the texts of its values. -/
theorem lf_notMem_object {fields : List (String × Bytes)}
    (h : ∀ f ∈ fields, 0x0A ∉ ascii f.1 ∧ 0x0A ∉ f.2) : 0x0A ∉ object fields := by
  have hinner : 0x0A ∉ members fields := by
    refine lf_notMem_intercalate fun text htext => ?_
    obtain ⟨f, hf, rfl⟩ := List.mem_map.1 htext
    obtain ⟨hname, hvalue⟩ := h f hf
    simp only [quoted, List.mem_append, List.mem_cons, List.not_mem_nil, or_false, not_or]
    exact ⟨⟨by decide, hname, by decide⟩, by decide, hvalue⟩
  simp only [object, braces, List.mem_cons, List.mem_append, List.not_mem_nil, or_false, not_or]
  exact ⟨by decide, hinner, by decide⟩

theorem lf_notMem_decimalText (n : ℕ) : 0x0A ∉ decimalText n := fun h =>
  absurd ((decimalText_spec n).2.1 _ h) (by decide)

/-! ## Lengths -/

/-- The length of an object, with its brackets, quotes, colons and commas. -/
def objectLength (fields : List (ℕ × ℕ)) : ℕ := 1 + (fields.map fun f => f.1 + f.2 + 4).sum

theorem members_cons_cons (f g : String × Bytes) (fields : List (String × Bytes)) :
    members (f :: g :: fields) =
      quoted (ascii f.1) ++ 0x3A :: f.2 ++ 0x2C :: members (g :: fields) := by
  simp [members, List.intercalate_cons_cons]

theorem length_members {fields : List (String × Bytes)} (h : fields ≠ []) :
    (members fields).length + 1 =
      (fields.map fun f => (ascii f.1).length + f.2.length + 4).sum := by
  induction fields with
  | nil => exact absurd rfl h
  | cons f fields ih =>
    cases fields with
    | nil =>
      simp [members, quoted]
      omega
    | cons g rest =>
      have hrest := ih (List.cons_ne_nil g rest)
      rw [List.map_cons, List.sum_cons, ← hrest, members_cons_cons]
      simp [quoted]
      omega

theorem length_object {fields : List (String × Bytes)} (h : fields ≠ []) :
    (object fields).length =
      objectLength (fields.map fun f => ((ascii f.1).length, f.2.length)) := by
  have hlength := length_members h
  rw [object, braces, List.length_cons, List.length_append, List.length_singleton, objectLength,
    List.map_map]
  have hsum : (fields.map ((fun f => f.1 + f.2 + 4) ∘
      fun f => ((ascii f.1).length, f.2.length))).sum =
        (fields.map fun f => (ascii f.1).length + f.2.length + 4).sum := rfl
  omega

theorem length_boolText_le (b : Bool) : (boolText b).length ≤ 5 := by
  cases b <;> decide

theorem length_quoted (text : Bytes) : (quoted text).length = text.length + 2 := by
  simp [quoted]

/-- What fits its array is not cut off. -/
theorem formatted_eq {n : ℕ} {text : Bytes} (h : text.length < n) : formatted n text = text :=
  List.take_of_length_le (by omega)

/-- The end of a list that has room for it. -/
theorem respondList_some {capacity : ℕ} {used : Bytes} (h : used.length + 2 < capacity) :
    respondList capacity "]\x7d" (some used) = respond 200 "OK" (used ++ [0x5D, 0x7D]) := by
  have hclosing : ascii "]\x7d" = [0x5D, 0x7D] := by decide
  rw [respondList, hclosing, formatted_eq (by simp; omega)]

theorem length_pieces_le {α : Type} {text : ℕ → α → Bytes} {items : List α} {bound : ℕ}
    (hbound : ∀ x ∈ items, ∀ index, (text index x).length ≤ bound) (k : ℕ) :
    ((items.zipIdx k).map fun x => text x.2 x.1).flatten.length ≤ items.length * bound := by
  induction items generalizing k with
  | nil => simp
  | cons x items ih =>
    obtain ⟨hx, hrest⟩ := List.forall_mem_cons.1 hbound
    have hpiece := hx k
    have hlater := ih hrest (k + 1)
    rw [List.zipIdx_cons, List.map_cons, List.flatten_cons, List.length_append, List.length_cons,
      Nat.succ_mul]
    dsimp only
    omega

/-- **A list that fits** is sent with all its pieces. -/
theorem respondList_eq {α : Type} {f : ℕ → α → Bytes → Option Bytes} (text : ℕ → α → Bytes)
    (bound : ℕ) {capacity : ℕ} {items : List α} {opening : Bytes}
    (hf : ∀ x ∈ items, ∀ index used, used.length + (text index x).length < capacity →
      f index x used = some (used ++ text index x))
    (hbound : ∀ x ∈ items, ∀ index, (text index x).length ≤ bound)
    (hfits : opening.length + items.length * bound + 2 < capacity) {json : Bytes}
    (hjson : opening ++ (items.zipIdx.map fun x => text x.2 x.1).flatten ++ [0x5D, 0x7D] = json) :
    respondList capacity "]\x7d" (appendAll f items opening) = respond 200 "OK" json ∧
      json.length < capacity := by
  have hpieces := length_pieces_le hbound 0
  have hused : (opening ++ (items.zipIdx.map fun x => text x.2 x.1).flatten).length + 2 <
      capacity := by
    rw [List.length_append]
    omega
  rw [appendAll_eq hf hbound (by omega), respondList_some hused, hjson, ← hjson,
    List.length_append]
  exact ⟨rfl, hused⟩

/-- An object with one list. -/
theorem object_array (name : String) (texts : List Bytes) : object [(name, array texts)] =
    0x7B :: (quoted (ascii name) ++ [0x3A, 0x5B]) ++ [0x2C].intercalate texts ++
      [0x5D, 0x7D] := by
  simp [object, members, braces, array]

/-- **A list of one member** is sent with all its elements, when there is room for them. -/
theorem namedList_eq {α : Type} {f : ℕ → α → Bytes → Option Bytes} (capacity : ℕ)
    (name : String) (items : List α) (text : α → Bytes) (bound : ℕ) {opening : Bytes}
    (hf : ∀ x ∈ items, ∀ index used,
      used.length + (separated index (text x)).length < capacity →
        f index x used = some (used ++ separated index (text x)))
    (hbound : ∀ x ∈ items, (text x).length ≤ bound)
    (hopening : opening = 0x7B :: (quoted (ascii name) ++ [0x3A, 0x5B]))
    (hfits : opening.length + items.length * (bound + 1) + 2 < capacity) :
    respondList capacity "]\x7d" (appendAll f items opening) =
        respond 200 "OK" (object [(name, array (items.map text))]) ∧
      (object [(name, array (items.map text))]).length < capacity ∧
      (appendAll f items opening).isSome := by
  have hpiece : ∀ x ∈ items, ∀ index, (separated index (text x)).length ≤ bound + 1 := by
    intro x hx index
    have hlength := hbound x hx
    have hcomma : (if index = 0 then [] else ascii ",").length ≤ 1 := by split <;> decide
    rw [separated, List.length_append]
    omega
  have hjson : opening ++ (items.zipIdx.map fun x => separated x.2 (text x.1)).flatten ++
      [0x5D, 0x7D] = object [(name, array (items.map text))] := by
    rw [object_array, flatten_separated, hopening]
  obtain ⟨hresponse, hlength⟩ :=
    respondList_eq (fun index x => separated index (text x)) (bound + 1) hf hpiece hfits hjson
  have hall := appendAll_eq hf hpiece (Nat.lt_of_le_of_lt (Nat.le_add_right _ 2) hfits)
  exact ⟨hresponse, hlength, by rw [hall, Option.isSome_some]⟩

/-! ## Readers of values -/

/-- A number that is not negative. -/
def natural : Json → Option ℕ
  | .number n => if 0 ≤ n then some n.toNat else none
  | _ => none

@[simp] theorem natural_number (n : ℕ) : natural (.number n) = some n := by
  simp [natural]

/-- An object with one member, a list. -/
def listMember {α : Type} (name : String) (item : Json → Option α) : Json → Option (List α)
  | .object [(n, .array elements)] => if n = ascii name then elements.mapM item else none
  | _ => none

theorem mapM_map {α β : Type} {item : Json → Option β} {v : α → Json} (view : α → β)
    {items : List α} (h : ∀ x ∈ items, item (v x) = some (view x)) :
    (items.map v).mapM item = some (items.map view) := by
  induction items with
  | nil => rfl
  | cons x items ih =>
    obtain ⟨hx, hrest⟩ := List.forall_mem_cons.1 h
    rw [List.map_cons, List.mapM_cons, hx, ih hrest]
    rfl

theorem listMember_eq {α β : Type} {name : String} {item : Json → Option β} {v : α → Json}
    {view : α → β} {items : List α} (h : ∀ x ∈ items, item (v x) = some (view x)) :
    listMember name item (.object [(ascii name, .array (items.map v))]) =
      some (items.map view) := by
  rw [listMember, if_pos rfl, mapM_map view h]

end HealthCheck.ApiService
