import Mathlib.Algebra.Order.Ring.Nat
import Mathlib.Data.List.GetD
import Mathlib.Data.List.Infix
import Mathlib.Data.Set.Lattice
import Mathlib.Order.CompletePartialOrder
import Mathlib.Order.Interval.Set.Basic
import Mathlib.Tactic.Common

/-!
# NOR flash that loses power

A NOR chip as the software above it meets it. An erase sets a range of cells to `0xFF`, a page
program only clears bits, and any command may fail, time out, or be the last thing that happens
before the power goes: its **fate** is decided outside, and says what is left in the cells the
command was working on.

A program on the chip is a `FlashM`: it takes a chip and either returns or loses power, and in
both cases there is a chip afterwards. Three things are true of every program built from the
three commands, and `Driven` keeps them together:

* `Steps` — only cells of its region change, fates are only used up, the log only grows;
* `reliable` — when no command fails, a run that returns is the run in which all commands
  complete;
* `returns` — when all commands complete, it returns.

What a command leaves is arbitrary here. That a torn image fails its checksum is for a user of
this file to assume.
-/

namespace Nor

/-- The bytes of the chip, by address. -/
abbrev Cells := ℕ → UInt8

/-- What a driver call reports. -/
inductive Status where
  | ok
  | error
  | timeout
deriving DecidableEq, Repr, Inhabited

/-! ## Cells -/

/-- The `n` bytes from `a` on. -/
def Cells.slice (m : Cells) (a n : ℕ) : List UInt8 := (List.range n).map fun i => m (a + i)

/-- `n` cells from `a` on take what `left` has there. -/
def overwrite (a n : ℕ) (left m : Cells) : Cells :=
  fun i => if a ≤ i ∧ i < a + n then left i else m i

/-- An erased range. -/
def blank (a n : ℕ) (m : Cells) : Cells := overwrite a n (fun _ => 0xFF) m

/-- A page program: bits are cleared byte by byte while the address counter runs, and wraps, in
its page. -/
def burn (page : ℕ) : ℕ → List UInt8 → Cells → Cells
  | _, [], m => m
  | a, b :: data, m =>
    burn page (a - a % page + (a + 1) % page) data (Function.update m a (m a &&& b))

/-- `data` programmed over consecutive cells. -/
def programmed (a : ℕ) (data : List UInt8) (m : Cells) : Cells :=
  fun i => if a ≤ i ∧ i < a + data.length then m i &&& data.getD (i - a) 0 else m i

@[simp] theorem length_slice (m : Cells) (a n : ℕ) : (m.slice a n).length = n := by
  simp [Cells.slice]

theorem slice_congr {m m' : Cells} {a n : ℕ} (h : ∀ i, a ≤ i → i < a + n → m i = m' i) :
    m.slice a n = m'.slice a n :=
  List.map_congr_left fun _ hi =>
    h _ (Nat.le_add_right ..) (Nat.add_lt_add_left (List.mem_range.1 hi) _)

theorem getElem_slice {m : Cells} {a n i : ℕ} (h : i < (m.slice a n).length) :
    (m.slice a n)[i] = m (a + i) := by
  simp only [Cells.slice, List.getElem_map, List.getElem_range]

theorem take_slice (m : Cells) (a : ℕ) {n k : ℕ} (h : k ≤ n) :
    (m.slice a n).take k = m.slice a k := by
  rw [Cells.slice, ← List.map_take, List.take_range, Nat.min_eq_left h, Cells.slice]

theorem drop_slice (m : Cells) (a n k : ℕ) :
    (m.slice a n).drop k = m.slice (a + k) (n - k) := by
  refine List.ext_getElem (by simp) fun i _ _ => ?_
  simp only [Cells.slice, List.getElem_drop, List.getElem_map, List.getElem_range, Nat.add_assoc]

@[simp] theorem slice_const (x : UInt8) (a n : ℕ) :
    Cells.slice (fun _ => x) a n = List.replicate n x := by
  simp [Cells.slice]

@[simp] theorem slice_blank {a n b k : ℕ} (m : Cells) (h : a ≤ b) (h' : b + k ≤ a + n) :
    (blank a n m).slice b k = List.replicate k 0xFF := by
  refine List.eq_replicate_iff.2 ⟨length_slice .., fun x hx => ?_⟩
  simp only [Cells.slice, List.mem_map, List.mem_range] at hx
  obtain ⟨i, hi, rfl⟩ := hx
  exact if_pos ⟨by omega, by omega⟩

@[simp] theorem blank_zero (a : ℕ) (m : Cells) : blank a 0 m = m := by
  funext i
  exact if_neg (by omega)

theorem blank_blank (a n k : ℕ) (m : Cells) :
    blank (a + n) k (blank a n m) = blank a (n + k) m := by
  funext i
  simp only [blank, overwrite]
  split_ifs <;> first | rfl | omega

theorem programmed_nil (a : ℕ) (m : Cells) : programmed a [] m = m := by
  funext i
  exact if_neg fun h => by simp only [List.length_nil] at h; omega

theorem programmed_append (a : ℕ) (x y : List UInt8) (m : Cells) :
    programmed (a + x.length) y (programmed a x m) = programmed a (x ++ y) m := by
  funext i
  simp only [programmed, List.length_append]
  by_cases hx : a ≤ i ∧ i < a + x.length
  · rw [if_neg (by omega), if_pos hx, if_pos (by omega), List.getD_append _ _ _ _ (by omega)]
  · by_cases hy : a + x.length ≤ i ∧ i < a + x.length + y.length
    · rw [if_pos hy, if_neg hx, if_pos (by omega),
        List.getD_append_right _ _ _ _ (by omega), Nat.sub_add_eq]
    · rw [if_neg hy, if_neg hx, if_neg (by omega)]

/-- Inside one page the address counter does not wrap. -/
theorem burn_eq_programmed {page a : ℕ} (data : List UInt8) (m : Cells)
    (h : a % page + data.length ≤ page) : burn page a data m = programmed a data m := by
  induction data generalizing a m with
  | nil => exact (programmed_nil a m).symm
  | cons b data ih =>
    have hone : programmed a [b] m = Function.update m a (m a &&& b) := by
      funext i
      by_cases hi : i = a
      · subst hi
        simp [programmed]
      · simp only [programmed, List.length_singleton, Function.update_of_ne hi]
        exact if_neg (by omega)
    have happend : programmed (a + 1) data (programmed a [b] m) = programmed a (b :: data) m :=
      programmed_append a [b] data m
    simp only [List.length_cons] at h
    rw [burn, ← hone, ← happend]
    cases data with
    | nil => exact (programmed_nil _ _).symm
    | cons b' data =>
      simp only [List.length_cons] at h
      have hmod : (a + 1) % page = a % page + 1 := by
        rw [Nat.add_mod, Nat.mod_eq_of_lt (by omega : 1 < page), Nat.mod_eq_of_lt (by omega)]
      have hnext : a - a % page + (a + 1) % page = a + 1 := by
        have := Nat.mod_le a page
        omega
      rw [hnext]
      exact ih _ (by rw [hmod, List.length_cons]; omega)

/-- Programming erased cells stores the data. -/
theorem slice_programmed {a : ℕ} {data : List UInt8} {m : Cells}
    (h : ∀ i, a ≤ i → i < a + data.length → m i = 0xFF) :
    (programmed a data m).slice a data.length = data := by
  refine List.ext_getElem (by simp) fun i hi hi' => ?_
  simp only [Cells.slice, List.getElem_map, List.getElem_range, programmed]
  rw [if_pos ⟨by omega, by omega⟩, h _ (by omega) (by omega), Nat.add_sub_cancel_left,
    List.getD_eq_getElem _ _ hi']
  exact UInt8.neg_one_and

theorem blank_apply {a n i : ℕ} {m : Cells} (h : a ≤ i) (h' : i < a + n) :
    blank a n m i = 0xFF := if_pos ⟨h, h'⟩

/-- What is programmed over an erased range is there afterwards. -/
theorem slice_programmed_blank {a n : ℕ} {data : List UInt8} (m : Cells)
    (h : data.length ≤ n) : (programmed a data (blank a n m)).slice a data.length = data :=
  slice_programmed fun i hi hi' => blank_apply hi (by omega)

theorem mem_slice {m : Cells} {a n : ℕ} {b : UInt8} :
    b ∈ m.slice a n ↔ ∃ i, a ≤ i ∧ i < a + n ∧ m i = b := by
  simp only [Cells.slice, List.mem_map, List.mem_range]
  constructor
  · rintro ⟨i, hi, rfl⟩
    exact ⟨a + i, by omega, by omega, rfl⟩
  · rintro ⟨i, hi, hi', rfl⟩
    exact ⟨i - a, by omega, by rw [Nat.add_sub_cancel' hi]⟩

attribute [irreducible] Cells.slice

theorem overwrite_outside {a n i : ℕ} {left m : Cells} (h : i ∉ Set.Ico a (a + n)) :
    overwrite a n left m i = m i := if_neg h

theorem programmed_outside {a i : ℕ} {data : List UInt8} {m : Cells}
    (h : i ∉ Set.Ico a (a + data.length)) : programmed a data m i = m i := if_neg h

/-! ## Fates -/

/-- What becomes of an erase or a page program. -/
inductive WriteFate where
  | completes
  /-- The call reports a failure and `left` is in the cells it worked on. -/
  | fails (timedOut : Bool) (left : Cells)
  /-- Power is lost in the middle of the call. -/
  | powerLost (left : Cells)

/-- What becomes of a read. -/
inductive ReadFate where
  | completes
  /-- The call reports a failure and `left` is in the caller's buffer. -/
  | fails (timedOut : Bool) (left : Cells)
  | powerLost

/-- The fates of the commands to come, for each kind in order. Past the end of a list every
command completes. -/
structure Fates where
  erases : List WriteFate := []
  programs : List WriteFate := []
  reads : List ReadFate := []

/-- No read fails. -/
def Fates.ReadsSucceed (f : Fates) : Prop := ∀ t left, .fails t left ∉ f.reads

/-- No command fails: each completes or loses power. -/
structure Fates.Steady (f : Fates) : Prop where
  erases : ∀ t left, .fails t left ∉ f.erases
  programs : ∀ t left, .fails t left ∉ f.programs
  reads : f.ReadsSucceed

/-- What is left of `f` after some commands. -/
structure Fates.After (f f' : Fates) : Prop where
  erases : f'.erases <:+ f.erases
  programs : f'.programs <:+ f.programs
  reads : f'.reads <:+ f.reads

theorem Fates.After.refl (f : Fates) : f.After f :=
  ⟨List.suffix_rfl, List.suffix_rfl, List.suffix_rfl⟩

theorem Fates.After.trans {f g h : Fates} (hfg : f.After g) (hgh : g.After h) : f.After h :=
  ⟨hgh.erases.trans hfg.erases, hgh.programs.trans hfg.programs, hgh.reads.trans hfg.reads⟩

theorem Fates.After.of_nil {f : Fates} (h : Fates.After {} f) : f = {} := by
  obtain ⟨e, p, r⟩ := f
  obtain ⟨he, hp, hr⟩ := h
  simp only [List.suffix_nil] at he hp hr
  rw [he, hp, hr]

theorem Fates.Steady.after {f f' : Fates} (h : f.Steady) (hf : f.After f') : f'.Steady :=
  ⟨fun t l hm => h.erases t l (hf.erases.subset hm),
    fun t l hm => h.programs t l (hf.programs.subset hm),
    fun t l hm => h.reads t l (hf.reads.subset hm)⟩

theorem Fates.ReadsSucceed.after {f f' : Fates} (h : f.ReadsSucceed) (hf : f.After f') :
    f'.ReadsSucceed := fun t l hm => h t l (hf.reads.subset hm)

theorem Fates.steady_nil : Fates.Steady {} :=
  ⟨fun _ _ => List.not_mem_nil, fun _ _ => List.not_mem_nil, fun _ _ => List.not_mem_nil⟩

/-! ## The chip and programs on it -/

/-- A command that was given to the chip, with the cells it found. -/
inductive Command where
  | erase (address size : ℕ) (before : Cells)
  | program (address : ℕ) (data : List UInt8) (before : Cells)

/-- The chip, the fates of the commands to come, and the commands given so far, latest first. -/
structure Chip where
  cells : Cells
  fates : Fates := {}
  log : List Command := []

/-- The chip with nothing going wrong from here on. -/
def Chip.calm (c : Chip) : Chip := { c with fates := {} }

@[simp] theorem Chip.calm_cells (c : Chip) : c.calm.cells = c.cells := rfl
@[simp] theorem Chip.calm_fates (c : Chip) : c.calm.fates = {} := rfl
@[simp] theorem Chip.calm_log (c : Chip) : c.calm.log = c.log := rfl

/-- A program on the chip: it returns a value, or loses power. -/
def FlashM (α : Type) : Type := Chip → Option α × Chip

instance : Monad FlashM where
  pure a := fun c => (some a, c)
  bind x f := fun c =>
    match x c with
    | (some a, c') => f a c'
    | (none, c') => (none, c')

section Monad

variable {α β : Type}

@[simp] theorem pure_apply (a : α) (c : Chip) : (pure a : FlashM α) c = (some a, c) := rfl

theorem bind_of_some {x : FlashM α} {f : α → FlashM β} {c c' : Chip} {a : α}
    (h : x c = (some a, c')) : (x >>= f) c = f a c' := by
  change (match x c with | (some a, c') => f a c' | (none, c') => (none, c')) = _
  rw [h]

theorem bind_of_none {x : FlashM α} {f : α → FlashM β} {c c' : Chip}
    (h : x c = (none, c')) : (x >>= f) c = (none, c') := by
  change (match x c with | (some a, c') => f a c' | (none, c') => (none, c')) = _
  rw [h]

/-- A sequence that returns has returned from both parts. -/
theorem bind_eq_some {x : FlashM α} {f : α → FlashM β} {c c' : Chip} {b : β} :
    (x >>= f) c = (some b, c') ↔ ∃ a c₁, x c = (some a, c₁) ∧ f a c₁ = (some b, c') := by
  rcases hx : x c with ⟨_ | a, c₁⟩
  · simp [bind_of_none hx]
  · simp [bind_of_some hx]

/-- A sequence loses power in its first part or in the second. -/
theorem bind_eq_none {x : FlashM α} {f : α → FlashM β} {c c' : Chip} :
    (x >>= f) c = (none, c') ↔
      x c = (none, c') ∨ ∃ a c₁, x c = (some a, c₁) ∧ f a c₁ = (none, c') := by
  rcases hx : x c with ⟨_ | a, c₁⟩
  · simp [bind_of_none hx]
  · simp [bind_of_some hx]

instance : LawfulMonad FlashM := LawfulMonad.mk' FlashM
  (fun x => by
    funext c
    rcases h : x c with ⟨_ | a, c'⟩
    · exact bind_of_none h
    · exact bind_of_some h)
  (fun _ _ => rfl)
  (fun x f g => by
    funext c
    rcases h : x c with ⟨_ | a, c'⟩
    · rw [bind_of_none h, bind_of_none (bind_of_none h)]
    · rw [bind_of_some h]
      rcases hf : f a c' with ⟨_ | b, c''⟩
      · rw [bind_of_none hf, bind_of_none ((bind_of_some h).trans hf)]
      · rw [bind_of_some hf, bind_of_some ((bind_of_some h).trans hf)])

end Monad

/-! ## Commands -/

/-- The status of a call that failed. -/
def failure (timedOut : Bool) : Status := if timedOut then .timeout else .error

@[simp] theorem failure_ne_ok (t : Bool) : failure t ≠ .ok := by cases t <;> decide

/-- The end of a write to `n` cells from `a` on that would have made them `done`. -/
def conclude (fate : WriteFate) (a n : ℕ) (done : Cells) (c : Chip) : Option Status × Chip :=
  match fate with
  | .completes => (some .ok, { c with cells := done })
  | .fails t left => (some (failure t), { c with cells := overwrite a n left c.cells })
  | .powerLost left => (none, { c with cells := overwrite a n left c.cells })

/-- The erase of the `n` cells from `a` on. -/
def erase (a n : ℕ) : FlashM Status := fun c =>
  conclude (c.fates.erases.headD .completes) a n (blank a n c.cells)
    { c with
      fates := { c.fates with erases := c.fates.erases.tail }
      log := .erase a n c.cells :: c.log }

/-- The page program of `data` from `a` on. -/
def pageProgram (page a : ℕ) (data : List UInt8) : FlashM Status := fun c =>
  conclude (c.fates.programs.headD .completes) a data.length (burn page a data c.cells)
    { c with
      fates := { c.fates with programs := c.fates.programs.tail }
      log := .program a data c.cells :: c.log }

/-- The read of the `n` bytes from `a` on: a status and the caller's buffer. -/
def read (a n : ℕ) : FlashM (Status × List UInt8) := fun c =>
  let c' := { c with fates := { c.fates with reads := c.fates.reads.tail } }
  match c.fates.reads.headD .completes with
  | .completes => (some (.ok, c.cells.slice a n), c')
  | .fails t left => (some (failure t, left.slice 0 n), c')
  | .powerLost => (none, c')

/-! What a write does, by its fate. -/

section Fate

variable {c : Chip} {timedOut : Bool} {left : Cells} {a n page : ℕ} {data : List UInt8}

theorem erase_of_completes (h : c.fates.erases.headD .completes = .completes) :
    erase a n c = (some .ok, ⟨blank a n c.cells,
      { c.fates with erases := c.fates.erases.tail }, .erase a n c.cells :: c.log⟩) := by
  simp only [erase, h, conclude]

theorem erase_of_fails (h : c.fates.erases.headD .completes = .fails timedOut left) :
    erase a n c = (some (failure timedOut), ⟨overwrite a n left c.cells,
      { c.fates with erases := c.fates.erases.tail }, .erase a n c.cells :: c.log⟩) := by
  simp only [erase, h, conclude]

theorem erase_of_powerLost (h : c.fates.erases.headD .completes = .powerLost left) :
    erase a n c = (none, ⟨overwrite a n left c.cells,
      { c.fates with erases := c.fates.erases.tail }, .erase a n c.cells :: c.log⟩) := by
  simp only [erase, h, conclude]

theorem pageProgram_of_completes (h : c.fates.programs.headD .completes = .completes) :
    pageProgram page a data c = (some .ok, ⟨burn page a data c.cells,
      { c.fates with programs := c.fates.programs.tail }, .program a data c.cells :: c.log⟩) := by
  simp only [pageProgram, h, conclude]

theorem pageProgram_of_fails (h : c.fates.programs.headD .completes = .fails timedOut left) :
    pageProgram page a data c = (some (failure timedOut), ⟨overwrite a data.length left c.cells,
      { c.fates with programs := c.fates.programs.tail }, .program a data c.cells :: c.log⟩) := by
  simp only [pageProgram, h, conclude]

theorem pageProgram_of_powerLost (h : c.fates.programs.headD .completes = .powerLost left) :
    pageProgram page a data c = (none, ⟨overwrite a data.length left c.cells,
      { c.fates with programs := c.fates.programs.tail }, .program a data c.cells :: c.log⟩) := by
  simp only [pageProgram, h, conclude]

end Fate

/-! ## What holds of every program -/

/-- From `c` to `c'` only cells of `region` have changed. -/
structure Steps (region : Set ℕ) (c c' : Chip) : Prop where
  outside : ∀ i ∉ region, c'.cells i = c.cells i
  fates : c.fates.After c'.fates
  log : c.log <:+ c'.log

theorem Steps.refl (region : Set ℕ) (c : Chip) : Steps region c c :=
  ⟨fun _ _ => rfl, .refl _, List.suffix_rfl⟩

theorem Steps.trans {region : Set ℕ} {c d e : Chip} (h : Steps region c d)
    (h' : Steps region d e) : Steps region c e :=
  ⟨fun i hi => (h'.outside i hi).trans (h.outside i hi), h.fates.trans h'.fates,
    h.log.trans h'.log⟩

theorem Steps.mono {r r' : Set ℕ} {c c' : Chip} (h : Steps r c c') (hr : r ⊆ r') :
    Steps r' c c' :=
  ⟨fun i hi => h.outside i fun hm => hi (hr hm), h.fates, h.log⟩

theorem Steps.slice {region : Set ℕ} {c c' : Chip} (h : Steps region c c') {a n : ℕ}
    (hd : Disjoint (Set.Ico a (a + n)) region) : c'.cells.slice a n = c.cells.slice a n :=
  slice_congr fun i hi hi' => h.outside i (Set.disjoint_left.1 hd ⟨hi, hi'⟩)

/-- A program that works the chip through its commands, inside `region`. -/
structure Driven {α : Type} (region : Set ℕ) (x : FlashM α) : Prop where
  /-- However it ends. -/
  steps : ∀ c, Steps region c (x c).2
  /-- A run in which no command fails is, if it returns, the run in which all complete. -/
  reliable : ∀ c, c.fates.Steady → ∀ a c', x c = (some a, c') → x c.calm = (some a, c'.calm)
  /-- When all commands complete, it returns. -/
  returns : ∀ c, c.fates = {} → ∃ a c', x c = (some a, c')

section Driven

variable {α β : Type} {region : Set ℕ}

theorem Driven.pure (a : α) : Driven region (Pure.pure a : FlashM α) where
  steps c := .refl region c
  reliable c _ b c' h := by
    simp only [pure_apply, Prod.mk.injEq, Option.some.injEq] at h ⊢
    exact ⟨h.1, by rw [h.2]⟩
  returns c _ := ⟨a, c, rfl⟩

theorem Driven.bind {x : FlashM α} {f : α → FlashM β} (hx : Driven region x)
    (hf : ∀ a, Driven region (f a)) : Driven region (x >>= f) where
  steps c := by
    have hc := hx.steps c
    rcases h : x c with ⟨_ | a, c₁⟩
    · rw [bind_of_none h]
      rwa [h] at hc
    · rw [bind_of_some h]
      rw [h] at hc
      exact hc.trans ((hf a).steps c₁)
  reliable c hs b c' h := by
    obtain ⟨a, c₁, h₁, h₂⟩ := bind_eq_some.1 h
    have hc := hx.steps c
    rw [h₁] at hc
    exact bind_eq_some.2 ⟨a, c₁.calm, hx.reliable c hs a c₁ h₁,
      (hf a).reliable c₁ (hs.after hc.fates) b c' h₂⟩
  returns c hc := by
    obtain ⟨a, c₁, h₁⟩ := hx.returns c hc
    have hs := (hx.steps c).fates
    rw [h₁, hc] at hs
    obtain ⟨b, c', h₂⟩ := (hf a).returns c₁ hs.of_nil
    exact ⟨b, c', bind_eq_some.2 ⟨a, c₁, h₁, h₂⟩⟩

/-- What a program's first part has logged stays logged. -/
theorem log_bind {x : FlashM α} {f : α → FlashM β} {c : Chip}
    (hf : ∀ a, Driven region (f a)) : (x c).2.log <:+ ((x >>= f) c).2.log := by
  rcases h : x c with ⟨_ | a, c₁⟩
  · rw [bind_of_none h]
  · rw [bind_of_some h]
    exact ((hf a).steps c₁).log

theorem Driven.ite {p : Prop} [Decidable p] {x y : FlashM α} (hx : Driven region x)
    (hy : Driven region y) : Driven region (if p then x else y) := by
  split
  · exact hx
  · exact hy

theorem Driven.mono {r : Set ℕ} {x : FlashM α} (h : Driven region x) (hr : region ⊆ r) :
    Driven r x :=
  ⟨fun c => (h.steps c).mono hr, h.reliable, h.returns⟩

theorem conclude_driven {fate : WriteFate} {a n : ℕ} {done : Cells} {c₀ c : Chip}
    (hcells : c.cells = c₀.cells) (hfates : c₀.fates.After c.fates) (hlog : c₀.log <:+ c.log)
    (hdone : ∀ i ∉ Set.Ico a (a + n), done i = c₀.cells i) :
    Steps (Set.Ico a (a + n)) c₀ (conclude fate a n done c).2 := by
  cases fate with
  | completes => exact ⟨hdone, hfates, hlog⟩
  | fails t left =>
    exact ⟨fun i hi => by simp [conclude, overwrite_outside hi, hcells], hfates, hlog⟩
  | powerLost left =>
    exact ⟨fun i hi => by simp [conclude, overwrite_outside hi, hcells], hfates, hlog⟩

theorem conclude_eq_some {fate : WriteFate} {a n : ℕ} {done : Cells} {c c' : Chip} {s : Status}
    (h : conclude fate a n done c = (some s, c')) :
    (fate = .completes ∧ s = .ok ∧ c' = { c with cells := done }) ∨
    (∃ t left, fate = .fails t left ∧ s ≠ .ok) := by
  cases fate with
  | completes =>
    simp only [conclude, Prod.mk.injEq, Option.some.injEq] at h
    exact .inl ⟨rfl, h.1.symm, h.2.symm⟩
  | fails t left =>
    simp only [conclude, Prod.mk.injEq, Option.some.injEq] at h
    exact .inr ⟨t, left, rfl, h.1 ▸ failure_ne_ok t⟩
  | powerLost left => simp [conclude] at h

/-- A fate read off a list of fates without failures is no failure. -/
theorem headD_ne_fails {fates : List WriteFate} (h : ∀ t left, .fails t left ∉ fates)
    (t : Bool) (left : Cells) : fates.headD .completes ≠ .fails t left := by
  cases fates with
  | nil => simp
  | cons f fs =>
    rintro rfl
    exact h t left List.mem_cons_self

theorem driven_erase (a n : ℕ) : Driven (Set.Ico a (a + n)) (erase a n) where
  steps c := conclude_driven rfl ⟨List.tail_suffix _, List.suffix_rfl, List.suffix_rfl⟩
    (List.suffix_cons ..) fun i hi => overwrite_outside hi
  reliable c hs s c' h := by
    rcases conclude_eq_some h with ⟨hf, rfl, rfl⟩ | ⟨t, left, hf, -⟩
    · rfl
    · exact absurd hf (headD_ne_fails hs.erases t left)
  returns c hc := by
    obtain ⟨cells, fates, log⟩ := c
    subst hc
    exact ⟨_, _, rfl⟩

theorem driven_pageProgram {page a : ℕ} {data : List UInt8}
    (h : a % page + data.length ≤ page) :
    Driven (Set.Ico a (a + data.length)) (pageProgram page a data) where
  steps c := conclude_driven rfl ⟨List.suffix_rfl, List.tail_suffix _, List.suffix_rfl⟩
    (List.suffix_cons ..) fun i hi => by
      rw [burn_eq_programmed _ _ h, programmed_outside hi]
  reliable c hs s c' hc := by
    rcases conclude_eq_some hc with ⟨hf, rfl, rfl⟩ | ⟨t, left, hf, -⟩
    · rfl
    · exact absurd hf (headD_ne_fails hs.programs t left)
  returns c hc := by
    obtain ⟨cells, fates, log⟩ := c
    subst hc
    exact ⟨_, _, rfl⟩

theorem driven_read (region : Set ℕ) (a n : ℕ) : Driven region (read a n) where
  steps c := by
    have hf : c.fates.After { c.fates with reads := c.fates.reads.tail } :=
      ⟨List.suffix_rfl, List.suffix_rfl, List.tail_suffix _⟩
    unfold read
    split <;> exact ⟨fun _ _ => rfl, hf, List.suffix_rfl⟩
  reliable c hs r c' h := by
    unfold read at h
    split at h
    · simp only [Prod.mk.injEq, Option.some.injEq] at h
      obtain ⟨rfl, rfl⟩ := h
      rfl
    · rename_i t left hf
      refine absurd hf ?_
      cases hr : c.fates.reads with
      | nil => simp
      | cons f fs =>
        rintro rfl
        exact hs.reads t left (hr ▸ List.mem_cons_self)
    · simp at h
  returns c hc := by
    obtain ⟨cells, fates, log⟩ := c
    subst hc
    exact ⟨_, _, rfl⟩

/-- A read that does not fail gives the bytes or is cut off, and changes nothing. -/
theorem read_cases {a n : ℕ} {c : Chip} (hreads : c.fates.ReadsSucceed) :
    ∃ c', c'.cells = c.cells ∧ c'.log = c.log ∧ c.fates.After c'.fates ∧
      (read a n c = (some (.ok, c.cells.slice a n), c') ∨ read a n c = (none, c')) := by
  refine ⟨{ c with fates := { c.fates with reads := c.fates.reads.tail } }, rfl, rfl,
    ⟨List.suffix_rfl, List.suffix_rfl, List.tail_suffix _⟩, ?_⟩
  unfold read
  split
  · exact .inl rfl
  · rename_i t left hf
    refine absurd hf ?_
    cases hr : c.fates.reads with
    | nil => simp
    | cons f fs =>
      rintro rfl
      exact hreads t left (hr ▸ List.mem_cons_self)
  · exact .inr rfl

/-- `x` changes nothing, and finds `a` on a chip with cells `m` unless a read fails or power is
lost. -/
def Observes (x : FlashM α) (m : Cells) (a : α) : Prop :=
  ∀ c : Chip, c.cells = m → c.fates.ReadsSucceed →
    ∃ c', c'.cells = m ∧ c'.log = c.log ∧ c.fates.After c'.fates ∧
      (x c = (some a, c') ∨ x c = (none, c'))

theorem Observes.pure (a : α) (m : Cells) : Observes (Pure.pure a : FlashM α) m a :=
  fun c hc _ => ⟨c, hc, rfl, .refl _, .inl rfl⟩

theorem Observes.bind {x : FlashM α} {f : α → FlashM β} {m : Cells} {a : α} {b : β}
    (hx : Observes x m a) (hf : Observes (f a) m b) : Observes (x >>= f) m b := by
  intro c hc hreads
  obtain ⟨c₁, hcells, hlog, hafter, h | h⟩ := hx c hc hreads
  · obtain ⟨c₂, hcells', hlog', hafter', h'⟩ := hf c₁ hcells (hreads.after hafter)
    refine ⟨c₂, hcells', hlog'.trans hlog, hafter.trans hafter', ?_⟩
    rwa [bind_of_some h]
  · exact ⟨c₁, hcells, hlog, hafter, .inr (bind_of_none h)⟩

theorem observes_read (a n : ℕ) (m : Cells) : Observes (read a n) m (.ok, m.slice a n) := by
  rintro c rfl hreads
  exact read_cases hreads

/-- A program that goes on with what it has found. -/
theorem Observes.cases {x : FlashM α} {f : α → FlashM β} {m : Cells} {a : α} (h : Observes x m a)
    {c c' : Chip} {r : Option β} (hc : c.cells = m) (hreads : c.fates.ReadsSucceed)
    (hrun : (x >>= f) c = (r, c')) :
    (r = none ∧ c'.cells = m ∧ c'.log = c.log) ∨
    ∃ c₁, c₁.cells = m ∧ c₁.log = c.log ∧ c.fates.After c₁.fates ∧ f a c₁ = (r, c') := by
  obtain ⟨c₁, hcells, hlog, hafter, h | h⟩ := h c hc hreads
  · rw [bind_of_some h] at hrun
    exact .inr ⟨c₁, hcells, hlog, hafter, hrun⟩
  · rw [bind_of_none h, Prod.mk.injEq] at hrun
    obtain ⟨rfl, rfl⟩ := hrun
    exact .inl ⟨rfl, hcells, hlog⟩

/-- When all commands complete, what is found is returned. -/
theorem Observes.calm {x : FlashM α} {m : Cells} {a : α} (h : Observes x m a)
    (hx : Driven region x) (log : List Command) : x ⟨m, {}, log⟩ = (some a, ⟨m, {}, log⟩) := by
  obtain ⟨⟨cells, fates, log'⟩, hcells, hlog, hafter, h' | h'⟩ :=
    h ⟨m, {}, log⟩ rfl Fates.steady_nil.reads
  · have hfates : fates = {} := Fates.After.of_nil hafter
    cases hcells
    cases hlog
    cases hfates
    exact h'
  · obtain ⟨b, c', hb⟩ := hx.returns ⟨m, {}, log⟩ rfl
    rw [h'] at hb
    cases hb

/-! ## Programs that power does not interrupt -/

/-- Power is not lost. -/
structure Fates.NoLoss (f : Fates) : Prop where
  erases : ∀ left, .powerLost left ∉ f.erases
  programs : ∀ left, .powerLost left ∉ f.programs
  reads : .powerLost ∉ f.reads

theorem Fates.noLoss_nil : Fates.NoLoss {} :=
  ⟨fun _ => List.not_mem_nil, fun _ => List.not_mem_nil, List.not_mem_nil⟩

theorem Fates.NoLoss.after {f f' : Fates} (h : f.NoLoss) (hf : f.After f') : f'.NoLoss :=
  ⟨fun l hm => h.erases l (hf.erases.subset hm), fun l hm => h.programs l (hf.programs.subset hm),
    fun hm => h.reads (hf.reads.subset hm)⟩

/-- Without a power loss `x` returns. -/
def Uncut (x : FlashM α) : Prop := ∀ c : Chip, c.fates.NoLoss → (x c).1 ≠ none

theorem Uncut.pure (a : α) : Uncut (Pure.pure a : FlashM α) := fun _ _ => Option.some_ne_none a

theorem Uncut.bind {x : FlashM α} {f : α → FlashM β} (hd : Driven region x) (hx : Uncut x)
    (hf : ∀ a, Uncut (f a)) : Uncut (x >>= f) := by
  intro c hc
  have hsteps := hd.steps c
  rcases h : x c with ⟨_ | a, c₁⟩
  · exact absurd (congrArg Prod.fst h) (hx c hc)
  · rw [bind_of_some h]
    rw [h] at hsteps
    exact hf a c₁ (hc.after hsteps.fates)

theorem headD_ne_powerLost {fates : List WriteFate} (h : ∀ left, .powerLost left ∉ fates)
    (left : Cells) : fates.headD .completes ≠ .powerLost left := by
  cases fates with
  | nil => simp
  | cons f fs =>
    rintro rfl
    exact h left List.mem_cons_self

theorem conclude_uncut {fate : WriteFate} (h : ∀ left, fate ≠ .powerLost left) (a n : ℕ)
    (done : Cells) (c : Chip) : (conclude fate a n done c).1 ≠ none := by
  cases fate with
  | completes => exact Option.some_ne_none _
  | fails t left => exact Option.some_ne_none _
  | powerLost left => exact absurd rfl (h left)

theorem uncut_erase (a n : ℕ) : Uncut (erase a n) := fun _ hc =>
  conclude_uncut (headD_ne_powerLost hc.erases) _ _ _ _

theorem uncut_pageProgram (page a : ℕ) (data : List UInt8) : Uncut (pageProgram page a data) :=
  fun _ hc => conclude_uncut (headD_ne_powerLost hc.programs) _ _ _ _

theorem uncut_read (a n : ℕ) : Uncut (read a n) := by
  intro c hc
  unfold read
  split
  · exact Option.some_ne_none _
  · exact Option.some_ne_none _
  · rename_i hlost
    refine absurd hlost ?_
    cases hr : c.fates.reads with
    | nil => simp
    | cons f fs =>
      rintro rfl
      exact hc.reads (hr ▸ List.mem_cons_self)

/-! ## What a command that reports success has done -/

theorem erase_ok {a n : ℕ} {c c' : Chip} (h : erase a n c = (some .ok, c')) :
    c'.cells = blank a n c.cells := by
  rcases conclude_eq_some h with ⟨-, -, rfl⟩ | ⟨t, left, -, hne⟩
  · rfl
  · exact absurd rfl hne

theorem pageProgram_ok {page a : ℕ} {data : List UInt8} {c c' : Chip}
    (h : pageProgram page a data c = (some .ok, c')) : c'.cells = burn page a data c.cells := by
  rcases conclude_eq_some h with ⟨-, -, rfl⟩ | ⟨t, left, -, hne⟩
  · rfl
  · exact absurd rfl hne

theorem read_ok {a n : ℕ} {c c' : Chip} {bytes : List UInt8}
    (h : read a n c = (some (.ok, bytes), c')) :
    bytes = c.cells.slice a n ∧ c'.cells = c.cells := by
  unfold read at h
  split at h
  · simp only [Prod.mk.injEq, Option.some.injEq, true_and] at h
    exact ⟨h.1.symm, h.2 ▸ rfl⟩
  · simp at h
  · simp at h

end Driven

end Nor
