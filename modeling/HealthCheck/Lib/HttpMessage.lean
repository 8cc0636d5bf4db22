import HealthCheck.Lib.Lines
import Mathlib.Algebra.Order.Ring.Nat
import Mathlib.Data.List.DropRight

/-!
# Reading an HTTP request

A strict reader of HTTP/1.1 requests: a request line of three words, header fields up to an empty
line, and a body of exactly the announced length, or none without a length. It reads the query
string of a target, too.

* `Request.read`, `Request.text` — the reader and the writer.
* `read_text` — a well-formed request is read back.
* `parameters_append` — appending parameters to a query keeps those it has.
-/

namespace Http

open CString

/-! ## Reading -/

/-- A line, and what follows the CR LF behind it. -/
def line : Bytes → Option (Bytes × Bytes)
  | [] => none
  | c :: text =>
    if crlf <+: c :: text then some ([], (c :: text).drop 2)
    else (line text).map fun (l, rest) => (c :: l, rest)

/-- The parts of a text before and behind the first `c`. -/
def cut (c : UInt8) (text : Bytes) : Option (Bytes × Bytes) :=
  if c ∈ text then some (text.takeWhile (· ≠ c), (text.dropWhile (· ≠ c)).tail) else none

/-- A header field: its name, and its value without leading blanks. -/
abbrev Field := Bytes × Bytes

def field (l : Bytes) : Option Field :=
  (cut 0x3A l).map fun (name, value) => (name, value.dropWhile (· = 0x20))

/-- The header fields up to the empty line, and what follows it. -/
def fields : ℕ → Bytes → Option (List Field × Bytes)
  | 0, _ => none
  | n + 1, text =>
    (line text).bind fun (l, rest) =>
      if l = [] then some ([], rest)
      else (field l).bind fun f => (fields n rest).map fun (fs, body) => (f :: fs, body)

/-- A request as its reader understands it. -/
structure Request where
  method : Bytes
  target : Bytes
  version : Bytes
  fields : List Field
  body : Bytes
deriving DecidableEq

namespace Request

/-- The values of the fields of a name. -/
def valuesOf (r : Request) (name : Bytes) : List Bytes :=
  (r.fields.filter (·.1 = name)).map (·.2)

/-- The body is as long as the one `Content-Length` says, or empty without one. -/
def framed (r : Request) : Bool :=
  match r.valuesOf (ascii "Content-Length") with
  | [] => r.body = []
  | [value] => value ≠ [] && value.all isDigit && decimal value = r.body.length
  | _ => false

/-- A reader of requests. It takes nothing but HTTP/1.1 with exactly one `Host`. -/
def read (text : Bytes) : Option Request := do
  let (first, rest) ← line text
  let (method, words) ← cut 0x20 first
  let (target, version) ← cut 0x20 words
  let (fields, body) ← Http.fields text.length rest
  let r : Request := ⟨method, target, version, fields, body⟩
  if version = ascii "HTTP/1.1" ∧ (r.valuesOf (ascii "Host")).length = 1 ∧ r.framed
  then some r else none

/-! ## Writing -/

def fieldText (f : Field) : Bytes := f.1 ++ ascii ": " ++ f.2

/-- What is sent. -/
def text (r : Request) : Bytes :=
  r.method ++ 0x20 :: (r.target ++ 0x20 :: r.version) ++ crlf ++
    (r.fields.flatMap fun f => fieldText f ++ crlf) ++ crlf ++ r.body

/-- A request that can be sent. -/
structure WellFormed (r : Request) : Prop where
  method : IsLine r.method ∧ 0x20 ∉ r.method
  target : IsLine r.target ∧ 0x20 ∉ r.target
  version : r.version = ascii "HTTP/1.1"
  names : ∀ f ∈ r.fields, IsLine f.1 ∧ 0x3A ∉ f.1
  values : ∀ f ∈ r.fields, IsLine f.2 ∧ f.2.head? ≠ some 0x20
  host : (r.valuesOf (ascii "Host")).length = 1
  framed : r.framed

end Request

/-! ## Reading back -/

/-- A text without blanks and control characters. -/
def Visible (text : Bytes) : Prop := ∀ c ∈ text, 0x21 ≤ c ∧ c ≤ 0x7E

instance (text : Bytes) : Decidable (Visible text) :=
  inferInstanceAs (Decidable (∀ c ∈ text, 0x21 ≤ c ∧ c ≤ 0x7E))

theorem Visible.isLine {text : Bytes} (h : Visible text) : IsLine text ∧ 0x20 ∉ text := by
  refine ⟨⟨fun hc => ?_, fun hc => ?_⟩, fun hc => ?_⟩ <;> exact absurd (h _ hc).1 (by decide)

theorem Visible.append {a b : Bytes} (ha : Visible a) (hb : Visible b) : Visible (a ++ b) :=
  List.forall_mem_append.2 ⟨ha, hb⟩

theorem visible_of_isDigit {c : UInt8} (h : isDigit c) : 0x21 ≤ c ∧ c ≤ 0x7E := by
  simp only [isDigit, Bool.and_eq_true, decide_eq_true_eq, UInt8.le_iff_toNat_le] at h ⊢
  exact ⟨(by decide : (0x21 : UInt8).toNat ≤ 0x30).trans h.1,
    h.2.trans (by decide : (0x39 : UInt8).toNat ≤ 0x7E)⟩

theorem visible_decimalText (n : ℕ) : Visible (decimalText n) := fun c hc =>
  visible_of_isDigit ((decimalText_spec n).2.1 c hc)

theorem line_append {l : Bytes} (hl : IsLine l) (rest : Bytes) :
    line (l ++ (crlf ++ rest)) = some (l, rest) := by
  induction l with
  | nil =>
    show line (0x0D :: 0x0A :: rest) = some ([], rest)
    have hstart : crlf <+: 0x0D :: 0x0A :: rest := List.prefix_append crlf rest
    rw [line, if_pos hstart]
    rfl
  | cons c l ih =>
    obtain ⟨hcr, hlf⟩ := hl
    simp only [List.mem_cons, not_or] at hcr hlf
    have hnot : ¬ crlf <+: c :: (l ++ (crlf ++ rest)) := fun h =>
      hcr.1 (List.cons_prefix_cons.1 h).1
    rw [List.cons_append, line, if_neg hnot, ih ⟨hcr.2, hlf.2⟩]
    rfl

theorem cut_append {c : UInt8} {text : Bytes} (h : c ∉ text) (rest : Bytes) :
    cut c (text ++ c :: rest) = some (text, rest) := by
  have hne : ∀ d ∈ text, (decide (d ≠ c)) = true := fun d hd => by
    simpa using fun hdc : d = c => h (hdc ▸ hd)
  rw [cut, if_pos (by simp), List.takeWhile_append_of_pos hne, List.dropWhile_append_of_pos hne]
  simp

theorem cut_eq_none {c : UInt8} {text : Bytes} (h : c ∉ text) : cut c text = none := if_neg h

theorem field_fieldText {f : Field} (hname : 0x3A ∉ f.1) (hvalue : f.2.head? ≠ some 0x20) :
    field (Request.fieldText f) = some f := by
  have hsplit : Request.fieldText f = f.1 ++ 0x3A :: (0x20 :: f.2) := by
    simp [Request.fieldText, ascii]
  have hdrop : (0x20 :: f.2).dropWhile (fun c : UInt8 => decide (c = 0x20)) = f.2 := by
    rw [List.dropWhile_cons_of_pos (by decide)]
    cases hf : f.2 with
    | nil => rfl
    | cons c rest =>
      rw [hf, List.head?_cons, ne_eq, Option.some.injEq] at hvalue
      exact List.dropWhile_cons_of_neg (by simpa using hvalue)
  rw [field, hsplit, cut_append hname]
  exact congrArg (fun v => some (f.1, v)) hdrop

theorem fields_append {fs : List Field} (hnames : ∀ f ∈ fs, IsLine f.1 ∧ 0x3A ∉ f.1)
    (hvalues : ∀ f ∈ fs, IsLine f.2 ∧ f.2.head? ≠ some 0x20) (body : Bytes) :
    ∀ {n}, fs.length < n →
      fields n ((fs.flatMap fun f => Request.fieldText f ++ crlf) ++ (crlf ++ body)) =
        some (fs, body) := by
  induction fs with
  | nil =>
    intro n hn
    obtain ⟨n, rfl⟩ : ∃ k, n = k + 1 := ⟨n - 1, by omega⟩
    have hline : line ([] ++ (crlf ++ body)) = some ([], body) :=
      line_append ⟨List.not_mem_nil, List.not_mem_nil⟩ body
    rw [List.flatMap_nil, fields, hline]
    rfl
  | cons f fs ih =>
    intro n hn
    obtain ⟨n, rfl⟩ : ∃ k, n = k + 1 := ⟨n - 1, by omega⟩
    obtain ⟨⟨hname, hcolon⟩, hnames⟩ := List.forall_mem_cons.1 hnames
    obtain ⟨⟨hvalue, hblank⟩, hvalues⟩ := List.forall_mem_cons.1 hvalues
    have hrest := ih hnames hvalues (n := n) (by rw [List.length_cons] at hn; omega)
    have hisLine : IsLine (Request.fieldText f) := by
      simp only [IsLine, Request.fieldText, List.mem_append, not_or]
      exact ⟨⟨⟨hname.1, by decide⟩, hvalue.1⟩, ⟨hname.2, by decide⟩, hvalue.2⟩
    have hne : Request.fieldText f ≠ [] := by simp [Request.fieldText, ascii]
    rw [List.flatMap_cons, List.append_assoc, List.append_assoc, fields, line_append hisLine,
      Option.bind_some]
    simp only [if_neg hne, field_fieldText hcolon hblank, Option.bind_some, hrest, Option.map_some]

namespace Request

/-- **A request is read back** as it was sent. -/
theorem read_text {r : Request} (h : r.WellFormed) : read r.text = some r := by
  have hfirst : IsLine (r.method ++ 0x20 :: (r.target ++ 0x20 :: r.version)) := by
    simp only [IsLine, List.mem_append, List.mem_cons, not_or, h.version]
    exact ⟨⟨h.method.1.1, by decide, h.target.1.1, by decide, by decide⟩,
      h.method.1.2, by decide, h.target.1.2, by decide, by decide⟩
  have hlength : r.fields.length ≤ (r.fields.flatMap fun f => fieldText f ++ crlf).length := by
    induction r.fields with
    | nil => simp
    | cons f fs ih =>
      rw [List.flatMap_cons, List.length_append, List.length_cons, List.length_append]
      have : crlf.length = 2 := rfl
      omega
  have htext : r.text = (r.method ++ 0x20 :: (r.target ++ 0x20 :: r.version)) ++
      (crlf ++ ((r.fields.flatMap fun f => fieldText f ++ crlf) ++ (crlf ++ r.body))) := by
    simp only [text, List.append_assoc]
  have hfields := fields_append h.names h.values r.body (n := r.text.length) (by
    rw [htext]
    simp only [List.length_append]
    have : crlf.length = 2 := rfl
    omega)
  have hline : line r.text = some (r.method ++ 0x20 :: (r.target ++ 0x20 :: r.version),
      (r.fields.flatMap fun f => fieldText f ++ crlf) ++ (crlf ++ r.body)) := by
    rw [htext]
    exact line_append hfirst _
  simp only [read, hline, Option.bind_eq_bind, Option.bind_some, cut_append h.method.2,
    cut_append h.target.2, hfields]
  exact if_pos ⟨h.version, h.host, h.framed⟩

end Request

/-! ## What a reader can find -/

theorem notMem_of_cut {c : UInt8} {text first rest : Bytes}
    (h : cut c text = some (first, rest)) : c ∉ first := by
  unfold cut at h
  split at h
  · simp only [Option.some.injEq, Prod.mk.injEq] at h
    intro hc
    rw [← h.1] at hc
    simpa using List.mem_takeWhile_imp hc
  · cases h

/-- No field is read with a blank before its value. -/
theorem head_of_fields {n : ℕ} {text body : Bytes} {fs : List Field}
    (h : fields n text = some (fs, body)) : ∀ f ∈ fs, f.2.head? ≠ some 0x20 := by
  induction n generalizing text fs with
  | zero => cases h
  | succ n ih =>
    unfold fields at h
    obtain ⟨⟨l, rest⟩, -, h⟩ := Option.bind_eq_some_iff.1 h
    dsimp only at h
    split at h
    · cases h
      exact fun f hf => absurd hf List.not_mem_nil
    · obtain ⟨f, hf, h⟩ := Option.bind_eq_some_iff.1 h
      obtain ⟨⟨fs', body'⟩, hrest, h⟩ := Option.map_eq_some_iff.1 h
      cases h
      refine List.forall_mem_cons.2 ⟨?_, ih hrest⟩
      obtain ⟨⟨name, value⟩, -, rfl⟩ := Option.map_eq_some_iff.1 hf
      intro hhead
      have hfirst := List.head?_dropWhile_not (fun c : UInt8 => decide (c = 0x20)) value
      rw [hhead] at hfirst
      exact absurd hfirst (by decide)

/-- **What is read** has a target without blanks, and no blanks before the values of its
fields. -/
theorem Request.read_spec {text : Bytes} {r : Request} (h : read text = some r) :
    0x20 ∉ r.target ∧ ∀ f ∈ r.fields, f.2.head? ≠ some 0x20 := by
  simp only [read, Option.bind_eq_bind, Option.bind_eq_some_iff, Prod.exists] at h
  obtain ⟨first, rest, -, method, words, -, target, version, hwords, fs, body, hfields, h⟩ := h
  rw [Option.ite_none_right_eq_some, Option.some.injEq] at h
  rw [← h.2]
  exact ⟨notMem_of_cut hwords, head_of_fields hfields⟩

/-- A value without the blanks behind it. -/
def trimmed (value : Bytes) : Bytes := value.rdropWhile (· = 0x20)

theorem trimmed_eq_self_iff {value : Bytes} (hne : value ≠ []) :
    trimmed value = value ↔ value.getLast? ≠ some 0x20 := by
  rw [trimmed, List.rdropWhile_eq_self_iff, List.getLast?_eq_some_getLast hne]
  simp [hne]

theorem getLast_trimmed (value : Bytes) : (trimmed value).getLast? ≠ some 0x20 := by
  intro h
  have hne : trimmed value ≠ [] := fun hnil => by
    rw [hnil] at h
    cases h
  have hlast := List.rdropWhile_last_not (fun c : UInt8 => decide (c = 0x20)) value hne
  rw [List.getLast?_eq_some_getLast hne, Option.some.injEq] at h
  exact hlast (decide_eq_true h)

theorem head_trimmed {value : Bytes} (h : value.head? ≠ some 0x20) :
    (trimmed value).head? ≠ some 0x20 := by
  obtain ⟨rest, hrest⟩ := List.rdropWhile_prefix (fun c : UInt8 => decide (c = 0x20)) (l := value)
  intro hhead
  refine h ?_
  rw [← hrest, List.head?_append]
  exact (congrArg (Option.or · rest.head?) hhead).trans rfl

/-! ## Query strings -/

/-- The part of a target before its query. -/
def path (target : Bytes) : Bytes := target.takeWhile (· ≠ 0x3F)

/-- The parameters of a target: its query behind the first question mark, cut at ampersands. -/
def parameters (target : Bytes) : List Bytes :=
  match cut 0x3F target with
  | none => []
  | some (_, query) => query.splitOn 0x26

/-- The parameters of a target that has none are those appended with a question mark. -/
theorem parameters_append_first {target : Bytes} (h : 0x3F ∉ target) {ps : List Bytes}
    (hps : ∀ p ∈ ps, 0x26 ∉ p) (hne : ps ≠ []) :
    parameters (target ++ 0x3F :: [0x26].intercalate ps) = parameters target ++ ps := by
  rw [parameters, parameters, cut_append h, cut_eq_none h]
  exact List.splitOn_intercalate 0x26 hps hne

/-- The parameters of a target that has a query stay, and those appended with an ampersand follow
them. -/
theorem parameters_append_next {target : Bytes} (h : 0x3F ∈ target) {ps : List Bytes}
    (hps : ∀ p ∈ ps, 0x26 ∉ p) (hne : ps ≠ []) :
    parameters (target ++ 0x26 :: [0x26].intercalate ps) = parameters target ++ ps := by
  obtain ⟨before, query, rfl, hbefore⟩ := List.eq_append_cons_of_mem h
  rw [List.append_assoc, List.cons_append, parameters, parameters, cut_append hbefore,
    cut_append hbefore]
  show (query ++ 0x26 :: [0x26].intercalate ps).splitOn 0x26 = query.splitOn 0x26 ++ ps
  rw [List.splitOn_append_cons_of_beq query _ (by decide), List.splitOn_intercalate 0x26 hps hne]

theorem path_append {target : Bytes} (h : 0x3F ∈ target) (rest : Bytes) :
    path (target ++ rest) = path target := by
  obtain ⟨before, query, rfl, hbefore⟩ := List.eq_append_cons_of_mem h
  have hne : ∀ d ∈ before, (decide (d ≠ 0x3F)) = true := fun d hd => by
    simpa using fun hdc : d = 0x3F => hbefore (hdc ▸ hd)
  rw [path, path, List.append_assoc, List.takeWhile_append_of_pos hne,
    List.takeWhile_append_of_pos hne]
  simp

theorem path_append_first {target : Bytes} (h : 0x3F ∉ target) (rest : Bytes) :
    path (target ++ 0x3F :: rest) = path target := by
  have hne : ∀ d ∈ target, (decide (d ≠ 0x3F)) = true := fun d hd => by
    simpa using fun hdc : d = 0x3F => h (hdc ▸ hd)
  rw [path, path, List.takeWhile_append_of_pos hne, List.takeWhile_eq_self_iff.2 hne]
  simp

end Http
