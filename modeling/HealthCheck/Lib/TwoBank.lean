import HealthCheck.Lib.Nor

/-!
# Two-bank stores

A store that keeps its state in two banks of a NOR chip and always writes the bank it is not
using. Each image carries a generation; start-up takes the newer of the valid images, and a
mutation writes the next generation to the other bank.

A `Store` is the interface of such a component: its start-up code, its operations, and what a
bank holds. `Lawful` says that its code follows the scheme. From the laws alone:

* `run_keeps` — over any run of start-ups and operations that are cut by power losses or
  fail, `Sys.Inv` holds: the banks and the RAM agree, and start-up has the last committed image
  or the one that was being written to choose from;
* `loads_last_or_cut` — so start-up loads one of these two;
* `reloads` — and after an operation that failed, the image from before it.
-/

namespace TwoBank

open Nor

/-- The two banks. -/
inductive Bank where
  | a
  | b
deriving DecidableEq, Repr

/-- The bank that is not `x`. -/
def Bank.other : Bank → Bank
  | .a => .b
  | .b => .a

@[simp] theorem Bank.other_other (x : Bank) : x.other.other = x := by cases x <;> rfl

theorem Bank.other_ne (x : Bank) : x.other ≠ x := by cases x <;> decide

theorem Bank.eq_or_other (x y : Bank) : x = y ∨ x = y.other := by
  cases x <;> cases y <;> decide

/-! ## The choice at start-up -/

section Newest

variable {Image : Type} (valid : Image → Bool) (generation : Image → ℕ)

/-- The bank start-up takes: the newer of the valid images, the first one on a tie. -/
def newest (load : Bank → Image) : Option Bank :=
  if valid (load .a) && (!valid (load .b) || generation (load .b) ≤ generation (load .a)) then
    some .a
  else if valid (load .b) then some .b
  else none

variable {valid generation} {load : Bank → Image}

theorem newest_of_outranks {x : Bank} (hx : valid (load x) = true)
    (h : valid (load x.other) = true → generation (load x.other) < generation (load x)) :
    newest valid generation load = some x := by
  cases x with
  | a =>
    by_cases hb : valid (load .b) = true
    · have := h hb
      simp only [Bank.other] at this
      simp [newest, hx, this.le]
    · simp [newest, hx, hb]
  | b =>
    simp only [Bank.other] at h
    by_cases ha : valid (load .a) = true
    · simp [newest, hx, ha, (h ha).not_ge]
    · simp [newest, hx, ha]

theorem newest_eq_none (h : ∀ x, valid (load x) = false) :
    newest valid generation load = none := by
  simp [newest, h]

theorem valid_of_newest {x : Bank} (h : newest valid generation load = some x) :
    valid (load x) = true := by
  unfold newest at h
  split at h
  · simp_all
  · split at h
    · simp_all
    · simp at h

theorem exists_newest {x : Bank} (h : valid (load x) = true) :
    ∃ z, newest valid generation load = some z := by
  unfold newest
  split_ifs with ha hb
  · exact ⟨.a, rfl⟩
  · exact ⟨.b, rfl⟩
  · cases x with
    | a => exact absurd (by simp [h, hb]) ha
    | b => exact absurd h hb

end Newest

/-! ## Stores -/

/-- A component that keeps an image in two banks. -/
structure Store where
  /-- The component's variables. -/
  Ram : Type
  /-- Its operations, with their arguments. -/
  Op : Type
  /-- What a bank holds. -/
  Image : Type
  /-- The start-up code. -/
  init : FlashM (Status × Ram)
  /-- An operation: whether it reports success, and the variables after it. -/
  exec : Op → Ram → FlashM (Bool × Ram)
  snapshot : Ram → Image
  /-- The bank the snapshot was read from or written to. -/
  active : Ram → Bank
  /-- The cells of a bank. -/
  region : Bank → Set ℕ
  load : Cells → Bank → Image
  valid : Image → Bool
  generation : Image → ℕ
  /-- Start-up finds nothing to load and nothing to migrate. -/
  Fresh : Cells → Prop
  /-- The image of a store nothing was ever written to. -/
  factory : Image
  /-- Start-up leaves `factory` unwritten. -/
  lazy : Bool

/-- An erase was among the commands. -/
def Erased (log : List Command) : Prop := ∃ a n before, Command.erase a n before ∈ log

namespace Store

variable (S : Store)

/-- The bank start-up takes. -/
def newest (m : Cells) : Option Bank := TwoBank.newest S.valid S.generation (S.load m)

/-- Bank `x` holds a valid image, and no other valid image is as new. -/
def Top (m : Cells) (x : Bank) : Prop :=
  S.valid (S.load m x) = true ∧ (S.valid (S.load m x.other) = true →
    S.generation (S.load m x.other) < S.generation (S.load m x))

/-- The variables agree with the banks: the snapshot is the newest image there, or the factory
image of a fresh store. -/
inductive Live (m : Cells) (ram : S.Ram) : Prop where
  | stored (htop : S.Top m (S.active ram)) (hload : S.load m (S.active ram) = S.snapshot ram)
  | fresh (hlazy : S.lazy = true) (hfresh : S.Fresh m) (hsnap : S.snapshot ram = S.factory)
      (hactive : S.active ram = .b)

/-- A mutation that writes `image` to the bank that is not in use. -/
structure Commits (ram : S.Ram) (image : S.Image) (x : FlashM (Bool × S.Ram)) : Prop where
  generation : S.generation image = (S.generation (S.snapshot ram) + 1) % 2 ^ 32
  driven : Driven (S.region (S.active ram).other) x
  erases : ∀ c : Chip, Erased (x c).2.log
  done : ∀ c c' ram', x c = (some (true, ram'), c') → S.valid image = true ∧
    S.load c'.cells (S.active ram).other = image ∧ S.snapshot ram' = image ∧
    S.active ram' = (S.active ram).other
  failed : ∀ c c' ram', S.Live c.cells ram → c.fates.ReadsSucceed →
    x c = (some (false, ram'), c') → S.snapshot ram' = S.snapshot ram ∧
    S.active ram' = S.active ram
  calm : ∀ c : Chip, ∃ ok ram' c', x c.calm = (some (ok, ram'), c') ∧
    S.load c'.cells (S.active ram).other = image ∧
    (ok = false → S.valid image = false)

/-- What an operation does: nothing to the chip, or one commit. -/
inductive Shape (ram : S.Ram) (x : FlashM (Bool × S.Ram)) : Prop where
  | idle (ok : Bool) (ram' : S.Ram) (hx : x = pure (ok, ram'))
      (hsnap : S.snapshot ram' = S.snapshot ram) (hactive : S.active ram' = S.active ram)
  | commits (image : S.Image) (hx : S.Commits ram image x)

/-- From `c` on, `x` writes the factory image to the first bank. -/
def Seeds (x : FlashM (Status × S.Ram)) (c : Chip) : Prop :=
  ∀ r c', x c = (r, c') → Steps (S.region .a) c c' ∧
    (c'.cells = c.cells ∨ Erased c'.log) ∧
    (∀ ram, r = some (.ok, ram) → Erased c'.log ∧ S.valid S.factory = true ∧
      S.load c'.cells .a = S.factory ∧ S.snapshot ram = S.factory ∧ S.active ram = .a) ∧
    (c.fates.Steady → ∀ s ram, r = some (s, ram) → s = .ok)

/-- There is never anything to migrate. -/
def Plain : Prop := ∀ m, (∀ x, S.valid (S.load m x) = false) → S.Fresh m

/-- The store follows the two-bank scheme. -/
structure Lawful : Prop where
  disjoint : Disjoint (S.region .a) (S.region .b)
  load_congr : ∀ {m m' x}, (∀ i ∈ S.region x, m' i = m i) → S.load m' x = S.load m x
  fresh_erased : S.Fresh fun _ => 0xFF
  fresh_valid : ∀ {m}, S.Fresh m → ∀ x, S.valid (S.load m x) = false
  factory_generation : S.generation S.factory = if S.lazy then 0 else 1
  init_driven : Driven (S.region .a ∪ S.region .b) S.init
  /-- Start-up takes the newest image and writes nothing. -/
  loads : ∀ {c c' x r}, S.newest c.cells = some x → c.fates.ReadsSucceed →
    S.init c = (r, c') → c'.cells = c.cells ∧ ∀ s ram, r = some (s, ram) →
      s = .ok ∧ S.snapshot ram = S.load c.cells x ∧ S.active ram = x
  /-- A lazy store comes up with its factory image and writes nothing. -/
  loads_factory : ∀ {c c' r}, S.lazy = true → S.Fresh c.cells → c.fates.ReadsSucceed →
    S.init c = (r, c') → c'.cells = c.cells ∧ ∀ s ram, r = some (s, ram) →
      s = .ok ∧ S.snapshot ram = S.factory ∧ S.active ram = .b
  /-- Any other store writes its factory image to the first bank. -/
  seeds : ∀ {c}, S.lazy = false → S.Fresh c.cells → c.fates.ReadsSucceed → S.Seeds S.init c
  shape : ∀ op ram, S.Shape ram (S.exec op ram)

/-- Reading before it does not change what a program seeds. -/
theorem Seeds.after_reading {S : Store} {α : Type} {p : FlashM α}
    {f : α → FlashM (Status × S.Ram)} {c : Chip}
    (hp : ∀ r c', p c = (r, c') → c'.cells = c.cells ∧ c'.log = c.log ∧ c.fates.After c'.fates)
    (hf : ∀ a c', p c = (some a, c') → S.Seeds (f a) c') : S.Seeds (p >>= f) c := by
  intro r c' h
  rcases hpc : p c with ⟨_ | a, c₁⟩
  · rw [bind_of_none hpc, Prod.mk.injEq] at h
    obtain ⟨rfl, rfl⟩ := h
    obtain ⟨hcells, hlog, hfates⟩ := hp _ _ hpc
    exact ⟨⟨fun i _ => by rw [hcells], hfates, by rw [hlog]⟩, .inl hcells, by simp, by simp⟩
  · rw [bind_of_some hpc] at h
    obtain ⟨hcells, hlog, hfates⟩ := hp _ _ hpc
    obtain ⟨hsteps, herased, hok, hsteady⟩ := hf a c₁ hpc r c' h
    refine ⟨⟨fun i hi => by rw [hsteps.outside i hi, hcells], hfates.trans hsteps.fates,
      hlog ▸ hsteps.log⟩, ?_, hok, fun hs => hsteady (hs.after hfates)⟩
    rwa [hcells] at herased

end Store

/-! ## Runs -/

/-- One thing that happens to a store: the device starts, or a running store is asked for an
operation. Each brings the fates of the commands it gives. -/
inductive Event (S : Store) where
  | boot (fates : Fates)
  | call (op : S.Op) (fates : Fates)

/-- A store in its history. `ram` is absent while the device is off or its start-up has failed.
`last` is the image of the last mutation that reported success, or the one start-up loaded;
`cut` is the complete image of a mutation that power interrupted since. -/
structure Sys (S : Store) where
  cells : Cells
  ram : Option S.Ram
  last : S.Image
  cut : Option S.Image
  /-- How many events have erased something. -/
  saves : ℕ

variable {S : Store}

/-- Erased flash, never started. -/
def Sys.start (S : Store) : Sys S := ⟨fun _ => 0xFF, none, S.factory, none, 0⟩

def isErase : Command → Bool
  | .erase .. => true
  | .program .. => false

/-- The image an operation leaves in the variables when nothing interrupts it. -/
def complete (op : S.Op) (ram : S.Ram) (m : Cells) : Option S.Image :=
  (S.exec op ram ⟨m, {}, []⟩).1.map fun r => S.snapshot r.2

/-- One event. A store that is not running ignores operations. -/
def Sys.step (s : Sys S) : Event S → Sys S
  | .boot fates =>
    match S.init ⟨s.cells, fates, []⟩ with
    | (some (.ok, ram), c) =>
      ⟨c.cells, some ram, S.snapshot ram, none, s.saves + (c.log.any isErase).toNat⟩
    | (_, c) =>
      { s with cells := c.cells, ram := none, saves := s.saves + (c.log.any isErase).toNat }
  | .call op fates =>
    match s.ram with
    | none => s
    | some ram =>
      match S.exec op ram ⟨s.cells, fates, []⟩ with
      | (some (true, ram'), c) =>
        ⟨c.cells, some ram', S.snapshot ram', none, s.saves + (c.log.any isErase).toNat⟩
      | (some (false, ram'), c) =>
        { s with
          cells := c.cells, ram := some ram', saves := s.saves + (c.log.any isErase).toNat }
      | (none, c) =>
        { s with
          cells := c.cells, ram := none, cut := complete op ram s.cells
          saves := s.saves + (c.log.any isErase).toNat }

/-- Events one after the other. -/
def Sys.run (s : Sys S) (events : List (Event S)) : Sys S := events.foldl Sys.step s

/-- A valid image found after the power was lost is the one the bank held before, or the
complete one it was to hold. -/
def Torn (before after done : Cells) : Prop :=
  ∀ x, S.valid (S.load after x) = true →
    S.load after x = S.load before x ∨ S.load after x = S.load done x

/-- A valid image found after a command failed is the one the bank held before, or one that the
snapshot in use outranks. -/
def Harmless (ram : Option S.Ram) (before after : Cells) : Prop :=
  ∀ x, S.valid (S.load after x) = true → S.load after x = S.load before x ∨
    ∃ r, ram = some r ∧ S.generation (S.load after x) < S.generation (S.snapshot r)

/-- A fresh store in which no valid image is left is still fresh. -/
def Unspoilt (before after : Cells) : Prop :=
  S.Fresh before → (∀ x, S.valid (S.load after x) = false) → S.Fresh after

/-- What an event leaves behind when it is cut off is torn, and when it fails harmless. -/
def Sys.Orderly (s : Sys S) : Event S → Prop
  | .boot fates => fates.ReadsSucceed ∧
    match S.init ⟨s.cells, fates, []⟩ with
    | (some (.ok, _), _) => True
    | (some (_, _), c) =>
      Harmless (S := S) none s.cells c.cells ∧ Unspoilt (S := S) s.cells c.cells
    | (none, c) =>
      Torn (S := S) s.cells c.cells (S.init ⟨s.cells, {}, []⟩).2.cells ∧
        Unspoilt (S := S) s.cells c.cells
  | .call op fates => fates.ReadsSucceed ∧ ∀ ram, s.ram = some ram →
    match S.exec op ram ⟨s.cells, fates, []⟩ with
    | (some (true, _), _) => True
    | (some (false, _), c) =>
      Harmless (some ram) s.cells c.cells ∧ Unspoilt (S := S) s.cells c.cells
    | (none, c) =>
      Torn (S := S) s.cells c.cells (S.exec op ram ⟨s.cells, {}, []⟩).2.cells ∧
        Unspoilt (S := S) s.cells c.cells

/-- Power losses are all that happens, and what they leave behind is torn. -/
def Sys.PowerOnly (s : Sys S) : Event S → Prop
  | .boot fates => fates.Steady ∧ ∀ c, S.init ⟨s.cells, fates, []⟩ = (none, c) →
    Torn (S := S) s.cells c.cells (S.init ⟨s.cells, {}, []⟩).2.cells
  | .call op fates => fates.Steady ∧ ∀ ram c, s.ram = some ram →
    S.exec op ram ⟨s.cells, fates, []⟩ = (none, c) →
    Torn (S := S) s.cells c.cells (S.exec op ram ⟨s.cells, {}, []⟩).2.cells

/-- A start-up that power interrupts leaves nothing to migrate where there was nothing. -/
def Sys.Unmigrated (s : Sys S) : Event S → Prop
  | .boot fates => ∀ c, S.init ⟨s.cells, fates, []⟩ = (none, c) → Unspoilt (S := S) s.cells c.cells
  | .call .. => True

/-- `P` holds of every event of a run, where it happens. -/
def Sys.Along (P : Sys S → Event S → Prop) (s : Sys S) : List (Event S) → Prop
  | [] => True
  | e :: events => P s e ∧ (s.step e).Along P events

/-! ## The invariant -/

/-- What start-up will find: the newest image is the last one or the one that was cut off, or
nothing was ever completed. -/
inductive Sys.Settled (s : Sys S) : Prop where
  | stored (x : Bank) (htop : S.Top s.cells x)
      (himage : S.load s.cells x = s.last ∨ s.cut = some (S.load s.cells x))
      (hgen : S.generation (S.load s.cells x) ≤ s.saves)
  | fresh (hfresh : S.Fresh s.cells) (hlast : s.last = S.factory)

/-- The invariant of a run: a running store is live on its last image, and a store that is off
is settled. -/
inductive Sys.Inv (s : Sys S) : Prop where
  | on (ram : S.Ram) (hram : s.ram = some ram) (hlive : S.Live s.cells ram)
      (hlast : s.last = S.snapshot ram) (hgen : S.generation s.last ≤ s.saves)
  | off (hram : s.ram = none) (hsettled : s.Settled)

theorem newest_of_top {m : Cells} {x : Bank} (h : S.Top m x) : S.newest m = some x :=
  newest_of_outranks h.1 h.2

/-- The bank in use stays on top while what is in the other one does not outrank it. -/
theorem Store.Top.keep {m m' : Cells} {x : Bank} (h : S.Top m x)
    (hload : S.load m' x = S.load m x)
    (hother : S.valid (S.load m' x.other) = true →
      S.generation (S.load m' x.other) < S.generation (S.load m x)) : S.Top m' x :=
  ⟨by rw [hload]; exact h.1, by rw [hload]; exact hother⟩

theorem any_isErase {log : List Command} (h : Erased log) : log.any isErase = true := by
  obtain ⟨a, n, before, hm⟩ := h
  exact List.any_eq_true.2 ⟨_, hm, rfl⟩

theorem Sys.Inv.settled {s : Sys S} (h : s.Inv) : s.Settled := by
  cases h with
  | on ram hram hlive hlast hgen =>
    cases hlive with
    | stored htop hload =>
      exact .stored _ htop (.inl (hload.trans hlast.symm)) (by rwa [hload, ← hlast])
    | fresh hlazy hfresh hsnap hactive => exact .fresh hfresh (hlast.trans hsnap)
  | off hram hsettled => exact hsettled

section Keeps

variable (hS : S.Lawful)
include hS

/-- A bank outside the region a program worked in holds what it held. -/
theorem load_of_steps {x : Bank} {c c' : Chip} (h : Steps (S.region x.other) c c') :
    S.load c'.cells x = S.load c.cells x := by
  refine hS.load_congr fun i hi => h.outside i fun hi' => ?_
  cases x with
  | a => exact Set.disjoint_left.1 hS.disjoint hi hi'
  | b => exact Set.disjoint_left.1 hS.disjoint hi' hi

section Commit

variable {ram : S.Ram} {image : S.Image} {x : FlashM (Bool × S.Ram)} {c : Chip}
  (hx : S.Commits ram image x) (hlive : S.Live c.cells ram)
include hx hlive

/-- A commit that reports success leaves the store live on the new image. -/
theorem live_done {c' : Chip} {ram' : S.Ram}
    (hnext : S.generation image = S.generation (S.snapshot ram) + 1)
    (h : x c = (some (true, ram'), c')) :
    S.Live c'.cells ram' ∧ S.snapshot ram' = image := by
  obtain ⟨hvalid, hload, hsnap, hactive⟩ := hx.done _ _ _ h
  have hkept := load_of_steps hS (h ▸ hx.driven.steps c)
  refine ⟨.stored ?_ (by rw [hactive, hload, hsnap]), hsnap⟩
  rw [hactive]
  refine ⟨by rwa [hload], fun hv => ?_⟩
  rw [Bank.other_other, hkept] at hv ⊢
  rw [hload, hnext]
  cases hlive with
  | stored htop hld => rw [hld]; omega
  | fresh hlazy hfresh _ _ => rw [hS.fresh_valid hfresh] at hv; cases hv

/-- A commit that fails harmlessly leaves the store live on the old image. -/
theorem live_failed {c' : Chip} {ram' : S.Ram} (hreads : c.fates.ReadsSucceed)
    (h : x c = (some (false, ram'), c'))
    (hharm : Harmless (S := S) (some ram) c.cells c'.cells)
    (hfresh' : Unspoilt (S := S) c.cells c'.cells) :
    S.Live c'.cells ram' ∧ S.snapshot ram' = S.snapshot ram := by
  obtain ⟨hsnap, hactive⟩ := hx.failed _ _ _ hlive hreads h
  have hkept := load_of_steps hS (h ▸ hx.driven.steps c)
  refine ⟨?_, hsnap⟩
  cases hlive with
  | stored htop hload =>
    refine .stored ?_ (by rw [hactive, hsnap, hkept, hload])
    rw [hactive]
    refine htop.keep hkept fun hv => ?_
    rcases hharm _ hv with hold | ⟨r, hr, hlt⟩
    · rw [hold] at hv ⊢
      exact htop.2 hv
    · cases hr
      rwa [hload]
  | fresh hlazy hfresh hsn hac =>
    refine .fresh hlazy (hfresh' hfresh fun y => ?_) (hsnap.trans hsn) (hactive.trans hac)
    by_contra hy
    rw [Bool.not_eq_false] at hy
    rcases hharm y hy with hold | ⟨r, hr, hlt⟩
    · rw [hold, hS.fresh_valid hfresh] at hy
      cases hy
    · cases hr
      rw [hsn, hS.factory_generation, if_pos hlazy] at hlt
      omega

/-- A commit that was cut off and left a torn bank leaves the old image or the new one. -/
theorem settled_lost {c' c'' : Chip} {last : S.Image} {cut : Option S.Image} {r : Bool × S.Ram}
    {saves : ℕ} (hgen : S.generation (S.snapshot ram) ≤ saves)
    (hnext : S.generation image = S.generation (S.snapshot ram) + 1)
    (h : x c = (none, c')) (hcalm : x c.calm = (some r, c''))
    (htorn : Torn (S := S) c.cells c'.cells c''.cells)
    (hfresh' : Unspoilt (S := S) c.cells c'.cells) (hlast : last = S.snapshot ram)
    (hcut : cut = some (S.snapshot r.2)) (off : Option S.Ram) :
    Sys.Settled (S := S) ⟨c'.cells, off, last, cut, saves + 1⟩ := by
  have hsteps : Steps (S.region (S.active ram).other) c c' := by
    have := hx.driven.steps c
    rwa [h] at this
  have hkept := load_of_steps hS hsteps
  -- What the other bank was to hold, and that it is what `cut` records when it is valid.
  obtain ⟨ok, ram'', d, hd, hload, hbad⟩ := hx.calm c
  obtain ⟨rfl, rfl⟩ : (ok, ram'') = r ∧ d = c'' := by
    rw [hcalm] at hd
    simpa [eq_comm] using hd
  have hnew : S.valid image = true → S.snapshot ram'' = image := fun hv => by
    cases ok with
    | true => exact (hx.done _ _ _ hd).2.2.1
    | false =>
      rw [hbad rfl] at hv
      cases hv
  have htaken : S.valid (S.load c'.cells (S.active ram).other) = true →
      S.load c'.cells (S.active ram).other = S.load c.cells (S.active ram).other ∨
      S.load c'.cells (S.active ram).other = image ∧ cut = some image := fun hv => by
    rcases htorn _ hv with hold | hnew'
    · exact .inl hold
    · rw [hload] at hnew'
      rw [hnew'] at hv
      exact .inr ⟨hnew', by rw [hcut, hnew hv]⟩
  cases hlive with
  | stored htop hld =>
    have hkeep : (S.valid (S.load c'.cells (S.active ram).other) = true →
        S.generation (S.load c'.cells (S.active ram).other) < S.generation (S.load c.cells _)) →
        Sys.Settled (S := S) ⟨c'.cells, off, last, cut, saves + 1⟩ := fun hlt => by
      refine .stored (S.active ram) (htop.keep hkept hlt) (.inl ?_) ?_
      · simp only [hkept, hld, hlast]
      · simp only [hkept, hld]
        omega
    by_cases hv : S.valid (S.load c'.cells (S.active ram).other) = true
    · rcases htaken hv with hold | ⟨hnew', hcut'⟩
      · exact hkeep fun hv' => by rw [hold] at hv' ⊢; exact htop.2 hv'
      · refine .stored (S.active ram).other ⟨hv, fun _ => ?_⟩ (.inr ?_) ?_
        · rw [Bank.other_other, hkept, hld, hnew', hnext]
          omega
        · simp only [hnew', hcut']
        · simp only [hnew', hnext]
          omega
    · exact hkeep fun hv' => absurd hv' hv
  | fresh hlazy hfresh hsn hac =>
    by_cases hv : S.valid (S.load c'.cells (S.active ram).other) = true
    · rcases htaken hv with hold | ⟨hnew', hcut'⟩
      · rw [hold, hS.fresh_valid hfresh] at hv
        cases hv
      · refine .stored (S.active ram).other ⟨hv, fun hv' => ?_⟩ (.inr ?_) ?_
        · rw [Bank.other_other, hkept, hS.fresh_valid hfresh] at hv'
          cases hv'
        · simp only [hnew', hcut']
        · simp only [hnew', hnext]
          omega
    · refine .fresh (hfresh' hfresh fun y => ?_) (hlast.trans hsn)
      rcases Bank.eq_or_other y (S.active ram) with rfl | rfl
      · rw [hkept, hS.fresh_valid hfresh]
      · exact eq_false_of_ne_true hv

end Commit

/-! ## Steps -/

/-- Start-up on a chip that is settled. -/
theorem inv_boot {s : Sys S} (hs : s.Settled) {fates : Fates} (ho : s.Orderly (.boot fates)) :
    (s.step (.boot fates)).Inv := by
  obtain ⟨hreads, ho⟩ := ho
  rcases hr : S.init ⟨s.cells, fates, []⟩ with ⟨r, c⟩
  rw [hr] at ho
  cases hs with
  | stored x htop himage hgen =>
    obtain ⟨hcells, hok⟩ := hS.loads (newest_of_top htop) hreads hr
    rcases r with _ | ⟨st, ram⟩
    · simp only [Sys.step, hr]
      exact .off rfl
          (.stored x (hcells ▸ htop) (by rwa [hcells]) (by rw [hcells]; simp only; omega))
    · obtain ⟨rfl, hsnap, hactive⟩ := hok st ram rfl
      simp only [Sys.step, hr]
      refine .on ram rfl (.stored ?_ ?_) rfl ?_
      · simpa only [hcells, hactive] using htop
      · simp only [hcells, hactive, hsnap]
      · simp only [hsnap]
        omega
  | fresh hfresh hlast =>
    cases hlazy : S.lazy with
    | true =>
      obtain ⟨hcells, hok⟩ := hS.loads_factory hlazy hfresh hreads hr
      rcases r with _ | ⟨st, ram⟩
      · simp only [Sys.step, hr]
        exact .off rfl (.fresh (hcells ▸ hfresh) hlast)
      · obtain ⟨rfl, hsnap, hactive⟩ := hok st ram rfl
        simp only [Sys.step, hr]
        refine .on ram rfl (.fresh hlazy (hcells ▸ hfresh) hsnap hactive) rfl ?_
        simp only [hsnap, hS.factory_generation, hlazy, if_true]
        omega
    | false =>
      obtain ⟨hsteps, herased, hok, -⟩ := hS.seeds hlazy hfresh hreads _ _ hr
      have hkept := load_of_steps (x := .b) hS hsteps
      have hone : S.generation S.factory = 1 := by simp [hS.factory_generation, hlazy]
      -- Without an image in the first bank the store is as fresh as it was.
      have hstill : Unspoilt (S := S) s.cells c.cells → S.valid (S.load c.cells .a) = false →
          S.Fresh c.cells := fun hu ha => hu hfresh fun y => by
        cases y with
        | a => exact ha
        | b => rw [hkept, hS.fresh_valid hfresh]
      have htop : S.valid (S.load c.cells .a) = true → S.Top c.cells .a := fun hv =>
        ⟨hv, fun hv' => by
          rw [Bank.other, hkept, hS.fresh_valid hfresh] at hv'
          cases hv'⟩
      -- A valid image there is not the one the bank held before.
      have hnew : S.valid (S.load c.cells .a) = true →
          S.load c.cells .a ≠ S.load s.cells .a := fun hv hold => by
        rw [hold, hS.fresh_valid hfresh] at hv
        cases hv
      rcases r with _ | ⟨st, ram⟩
      · simp only [Sys.step, hr]
        simp only at ho
        obtain ⟨htorn, hu⟩ := ho
        refine .off rfl ?_
        by_cases hv : S.valid (S.load c.cells .a) = true
        · -- The bank was cut off complete: it holds the factory image.
          have hdone := (htorn .a hv).resolve_left (hnew hv)
          obtain ⟨⟨st', ram'⟩, d, hd⟩ := hS.init_driven.returns ⟨s.cells, {}, []⟩ rfl
          obtain ⟨-, -, hok', hsteady⟩ := hS.seeds hlazy hfresh Fates.steady_nil.reads _ _ hd
          obtain rfl := hsteady Fates.steady_nil _ _ rfl
          rw [hd, (hok' _ rfl).2.2.1] at hdone
          have he : Erased c.log := by
            refine herased.resolve_left fun hc => ?_
            exact hnew hv (by rw [hc])
          refine .stored .a (htop hv) (.inl (hdone.trans hlast.symm)) ?_
          simp only [hdone, hone, any_isErase he, Bool.toNat_true]
          omega
        · exact .fresh (hstill hu (eq_false_of_ne_true hv)) hlast
      · cases st with
        | ok =>
          obtain ⟨he, hv, hload, hsnap, hactive⟩ := hok ram rfl
          simp only [Sys.step, hr]
          refine .on ram rfl (.stored ?_ ?_) rfl ?_
          · rw [hactive]
            exact htop (by rwa [hload])
          · rw [hactive, hload, hsnap]
          · simp only [hsnap, hone, any_isErase he, Bool.toNat_true]
            omega
        | error | timeout =>
          simp only [Sys.step, hr]
          obtain ⟨hharm, hu⟩ := ho
          refine .off rfl (.fresh (hstill hu ?_) hlast)
          by_contra ha
          rw [Bool.not_eq_false] at ha
          rcases hharm .a ha with hold | ⟨r, hr', -⟩
          · exact hnew ha hold
          · cases hr'

/-- An operation of a running store. -/
theorem inv_call {s : Sys S} (hs : s.Inv) {op : S.Op} {fates : Fates}
    (ho : s.Orderly (.call op fates)) (hsaves : (s.step (.call op fates)).saves < 2 ^ 32 - 1) :
    (s.step (.call op fates)).Inv := by
  cases hs with
  | off hram hsettled =>
    simp only [Sys.step, hram]
    exact .off hram hsettled
  | on ram hram hlive hlast hgen =>
    obtain ⟨hreads, ho⟩ := ho
    have ho := ho ram hram
    rcases hr : S.exec op ram ⟨s.cells, fates, []⟩ with ⟨r, c⟩
    rw [hr] at ho
    cases hS.shape op ram with
    | idle ok ram' hx hsnap hactive =>
      rw [hx, pure_apply, Prod.mk.injEq] at hr
      obtain ⟨rfl, rfl⟩ := hr
      have hlive' : S.Live s.cells ram' := by
        cases hlive with
        | stored htop hload => exact .stored (hactive ▸ htop) (by rw [hactive, hsnap, hload])
        | fresh hlazy hfresh hsn hac =>
          exact .fresh hlazy hfresh (hsnap.trans hsn) (hactive.trans hac)
      have hlast' : s.last = S.snapshot ram' := hlast.trans hsnap.symm
      cases ok with
      | true =>
        simp only [Sys.step, hram, hx, pure_apply]
        exact .on ram' rfl hlive' rfl (by simpa only [← hlast'] using Nat.le_add_right_of_le hgen)
      | false =>
        simp only [Sys.step, hram, hx, pure_apply]
        exact .on ram' rfl hlive' hlast' (Nat.le_add_right_of_le hgen)
    | commits image hx =>
      have he := any_isErase (hx.erases ⟨s.cells, fates, []⟩)
      rw [hr] at he
      rw [hlast] at hgen
      have hbound : s.saves + 1 < 2 ^ 32 - 1 := by
        rcases r with _ | ⟨_ | _, ram'⟩ <;>
          simpa only [Sys.step, hram, hr, he, Bool.toNat_true] using hsaves
      have hnext : S.generation image = S.generation (S.snapshot ram) + 1 := by
        rw [hx.generation, Nat.mod_eq_of_lt (by omega)]
      rcases r with _ | ⟨ok, ram'⟩
      · obtain ⟨r, c', hcalm⟩ := (hx.driven).returns ⟨s.cells, {}, []⟩ rfl
        simp only [Sys.step, hram, hr, he, Bool.toNat_true]
        rw [hcalm] at ho
        refine .off rfl (settled_lost hS hx hlive hgen hnext hr hcalm ho.1 ho.2 hlast ?_ none)
        · rw [complete, hcalm]
          rfl
      · cases ok with
        | true =>
          obtain ⟨hlive', hsnap⟩ := live_done hS hx hlive hnext hr
          simp only [Sys.step, hram, hr, he, Bool.toNat_true]
          exact .on ram' rfl hlive' rfl (by simp only [hsnap, hnext]; omega)
        | false =>
          obtain ⟨hlive', hsnap⟩ := live_failed hS hx hlive hreads hr ho.1 ho.2
          simp only [Sys.step, hram, hr, he, Bool.toNat_true]
          exact .on ram' rfl hlive' (hlast.trans hsnap.symm) (by simp only [hlast]; omega)

theorem inv_step {s : Sys S} (hs : s.Inv) {e : Event S} (ho : s.Orderly e)
    (hsaves : (s.step e).saves < 2 ^ 32 - 1) : (s.step e).Inv := by
  cases e with
  | boot fates => exact inv_boot hS hs.settled ho
  | call op fates => exact inv_call hS hs ho hsaves

/-- Start-up that no command fails in reports success. -/
theorem init_ok {s : Sys S} (hs : s.Settled) {fates : Fates} (hf : fates.Steady) {st : Status}
    {ram : S.Ram} {c : Chip} (h : S.init ⟨s.cells, fates, []⟩ = (some (st, ram), c)) :
    st = .ok := by
  cases hs with
  | stored x htop himage hgen =>
    exact ((hS.loads (newest_of_top htop) hf.reads h).2 st ram rfl).1
  | fresh hfresh hlast =>
    cases hlazy : S.lazy with
    | true => exact ((hS.loads_factory hlazy hfresh hf.reads h).2 st ram rfl).1
    | false => exact (hS.seeds hlazy hfresh hf.reads _ _ h).2.2.2 hf st ram rfl

/-- What a mutation leaves that fails although every command completes is not valid. -/
theorem harmless_of_steady {op : S.Op} {ram ram' : S.Ram} {c c' : Chip} (hf : c.fates.Steady)
    (h : S.exec op ram c = (some (false, ram'), c')) :
    Harmless (some ram) c.cells c'.cells := by
  refine fun x hx => .inl ?_
  cases hS.shape op ram with
  | idle ok ram'' hidle hsnap hactive =>
    rw [hidle, pure_apply, Prod.mk.injEq] at h
    rw [← h.2]
  | commits image hc =>
    rcases Bank.eq_or_other x (S.active ram) with rfl | rfl
    · have hsteps := hc.driven.steps c
      rw [h] at hsteps
      exact load_of_steps hS hsteps
    · obtain ⟨ok, ram'', d, hd, hload, hbad⟩ := hc.calm c
      rw [hc.driven.reliable _ hf _ _ h] at hd
      simp only [Prod.mk.injEq, Option.some.injEq] at hd
      obtain ⟨⟨rfl, -⟩, rfl⟩ := hd
      rw [Chip.calm_cells] at hload
      rw [hload, hbad rfl] at hx
      cases hx

/-- A running store with a valid image is not fresh. -/
theorem not_fresh_of_live {m : Cells} {ram : S.Ram} (hlazy : S.lazy = false) (h : S.Live m ram) :
    ¬S.Fresh m := fun hfresh => by
  cases h with
  | stored htop _ =>
    have hvalid := htop.1
    rw [hS.fresh_valid hfresh] at hvalid
    cases hvalid
  | fresh hl _ _ _ => cases hlazy.symm.trans hl

/-- Where only an interrupted start-up could leave something to migrate, none does. -/
theorem unspoilt_step (hlazy : S.lazy = false) {s : Sys S} (hs : s.Inv) {e : Event S}
    (hp : s.PowerOnly e) (he : s.Unmigrated e) : Unspoilt (S := S) s.cells (s.step e).cells := by
  cases e with
  | boot fates =>
    rcases hr : S.init ⟨s.cells, fates, []⟩ with ⟨_ | ⟨st, ram⟩, c⟩
    · simp only [Sys.step, hr]
      exact he c hr
    · obtain rfl := init_ok hS hs.settled hp.1 hr
      simp only [Sys.step, hr]
      intro hfresh hnone
      -- The factory image has been written.
      obtain ⟨-, hvalid, hload, -⟩ := (hS.seeds hlazy hfresh hp.1.reads _ _ hr).2.2.1 ram rfl
      have ha := hnone .a
      rw [hload, hvalid] at ha
      cases ha
  | call op fates =>
    cases hram : s.ram with
    | none =>
      simp only [Sys.step, hram]
      exact fun hfresh _ => hfresh
    | some ram =>
      intro hfresh _
      cases hs with
      | on ram' hram' hlive _ _ => exact absurd hfresh (not_fresh_of_live hS hlazy hlive)
      | off hram' _ => cases hram.symm.trans hram'

/-- Power losses alone make an orderly event, if they leave nothing to migrate: what then fails
has not written a valid image. -/
theorem orderly_of_powerOnly {s : Sys S} (hs : s.Inv) {e : Event S} (hp : s.PowerOnly e)
    (hspoilt : Unspoilt (S := S) s.cells (s.step e).cells) : s.Orderly e := by
  cases e with
  | boot fates =>
    obtain ⟨hf, hp⟩ := hp
    refine ⟨hf.reads, ?_⟩
    rcases hr : S.init ⟨s.cells, fates, []⟩ with ⟨_ | ⟨st, ram⟩, c⟩
    · simp only [Sys.step, hr] at hspoilt
      exact ⟨hp c hr, hspoilt⟩
    · rw [init_ok hS hs.settled hf hr]
      trivial
  | call op fates =>
    obtain ⟨hf, hp⟩ := hp
    refine ⟨hf.reads, fun ram hram => ?_⟩
    rcases hr : S.exec op ram ⟨s.cells, fates, []⟩ with ⟨_ | ⟨_ | _, ram'⟩, c⟩
    · simp only [Sys.step, hram, hr] at hspoilt
      exact ⟨hp ram c hram hr, hspoilt⟩
    · simp only [Sys.step, hram, hr] at hspoilt
      exact ⟨harmless_of_steady hS hf hr, hspoilt⟩
    · trivial

theorem inv_start : (Sys.start S).Inv := .off rfl (.fresh hS.fresh_erased rfl)

/-- Start-up loads the last image or the one that was cut off. -/
theorem loads_last_or_cut {s : Sys S} (hs : s.Settled) {fates : Fates} (hf : fates.Steady)
    {st : Status} {ram : S.Ram} {c : Chip}
    (h : S.init ⟨s.cells, fates, []⟩ = (some (st, ram), c)) :
    st = .ok ∧ (S.snapshot ram = s.last ∨ s.cut = some (S.snapshot ram)) := by
  have hok := init_ok hS hs hf h
  refine ⟨hok, ?_⟩
  cases hs with
  | stored x htop himage hgen =>
    rw [((hS.loads (newest_of_top htop) hf.reads h).2 st ram rfl).2.1]
    exact himage
  | fresh hfresh hlast =>
    rw [hlast]
    cases hlazy : S.lazy with
    | true => exact .inl ((hS.loads_factory hlazy hfresh hf.reads h).2 st ram rfl).2.1
    | false =>
      subst hok
      exact .inl ((hS.seeds hlazy hfresh hf.reads _ _ h).2.2.1 ram rfl).2.2.2.1

/-- A running store that is started again, nothing going wrong, loads its last image. -/
theorem reloads {s : Sys S} (hs : s.Inv) {ram : S.Ram} (hram : s.ram = some ram) :
    ∃ ram' c, S.init ⟨s.cells, {}, []⟩ = (some (.ok, ram'), c) ∧ S.snapshot ram' = s.last := by
  obtain ⟨⟨st, ram'⟩, c, h⟩ := hS.init_driven.returns ⟨s.cells, {}, []⟩ rfl
  obtain rfl := init_ok hS hs.settled Fates.steady_nil h
  refine ⟨ram', c, h, ?_⟩
  cases hs with
  | off hram' _ => rw [hram] at hram'; cases hram'
  | on ram₀ hram₀ hlive hlast hgen =>
    rw [hlast]
    cases hlive with
    | stored htop hload =>
      rw [((hS.loads (newest_of_top htop) Fates.steady_nil.reads h).2 _ _ rfl).2.1, hload]
    | fresh hlazy hfresh hsnap hactive =>
      rw [((hS.loads_factory hlazy hfresh Fates.steady_nil.reads h).2 _ _ rfl).2.1, hsnap]

end Keeps

theorem run_append (s : Sys S) (events events' : List (Event S)) :
    s.run (events ++ events') = (s.run events).run events' := List.foldl_append ..

theorem along_append {P : Sys S → Event S → Prop} {s : Sys S} {events events' : List (Event S)} :
    s.Along P (events ++ events') ↔ s.Along P events ∧ (s.run events).Along P events' := by
  induction events generalizing s with
  | nil => simp [Sys.Along, Sys.run]
  | cons e events ih =>
    simp only [List.cons_append, Sys.Along, ih, Sys.run, List.foldl_cons, and_assoc]

/-- A running store is on its last image. -/
theorem last_of_running {s : Sys S} (hs : s.Inv) {ram : S.Ram} (hram : s.ram = some ram) :
    s.last = S.snapshot ram := by
  cases hs with
  | on ram' hram' _ hlast _ => rw [hlast, Option.some.inj (hram'.symm.trans hram)]
  | off hram' _ => cases hram'.symm.trans hram

theorem step_booted {s : Sys S} {fates : Fates} {ram : S.Ram} {c : Chip}
    (h : S.init ⟨s.cells, fates, []⟩ = (some (.ok, ram), c)) :
    s.step (.boot fates) =
      ⟨c.cells, some ram, S.snapshot ram, none, s.saves + (c.log.any isErase).toNat⟩ := by
  simp only [Sys.step, h]

theorem step_failed {s : Sys S} {op : S.Op} {fates : Fates} {ram ram' : S.Ram} {c : Chip}
    (hram : s.ram = some ram) (h : S.exec op ram ⟨s.cells, fates, []⟩ = (some (false, ram'), c)) :
    s.step (.call op fates) =
      { s with
        cells := c.cells, ram := some ram', saves := s.saves + (c.log.any isErase).toNat } := by
  simp only [Sys.step, hram, h]

theorem orderly_failed {s : Sys S} {op : S.Op} {fates : Fates} {ram ram' : S.Ram} {c : Chip}
    (hreads : fates.ReadsSucceed) (hram : s.ram = some ram)
    (h : S.exec op ram ⟨s.cells, fates, []⟩ = (some (false, ram'), c))
    (hharm : Harmless (some ram) s.cells c.cells)
    (hfresh : Unspoilt (S := S) s.cells c.cells) : s.Orderly (.call op fates) := by
  refine ⟨hreads, fun ram₀ hram₀ => ?_⟩
  obtain rfl : ram = ram₀ := Option.some.inj (hram.symm.trans hram₀)
  rw [h]
  exact ⟨hharm, hfresh⟩

theorem saves_le_step (s : Sys S) (e : Event S) : s.saves ≤ (s.step e).saves := by
  cases e with
  | boot fates =>
    simp only [Sys.step]
    split <;> exact Nat.le_add_right ..
  | call op fates =>
    simp only [Sys.step]
    split
    · exact le_rfl
    · split <;> exact Nat.le_add_right ..

theorem saves_le_run (s : Sys S) (events : List (Event S)) : s.saves ≤ (s.run events).saves := by
  induction events generalizing s with
  | nil => exact le_rfl
  | cons e events ih => exact (saves_le_step s e).trans (ih (s.step e))

theorem saves_step_le (s : Sys S) (e : Event S) : (s.step e).saves ≤ s.saves + 1 := by
  have hone : ∀ b : Bool, s.saves + b.toNat ≤ s.saves + 1 := fun b =>
    Nat.add_le_add_left (Bool.toNat_le b) _
  cases e with
  | boot fates =>
    simp only [Sys.step]
    split <;> exact hone _
  | call op fates =>
    simp only [Sys.step]
    split
    · exact Nat.le_add_right ..
    · split <;> exact hone _

/-- A run saves at most once an event. -/
theorem saves_run_le (s : Sys S) (events : List (Event S)) :
    (s.run events).saves ≤ s.saves + events.length := by
  induction events generalizing s with
  | nil => exact le_rfl
  | cons e events ih =>
    have := saves_step_le s e
    have := ih (s.step e)
    simp only [Sys.run, List.foldl_cons, List.length_cons] at this ⊢
    omega

/-- A start-up in which every command completes. -/
theorem powerOnly_boot (hS : S.Lawful) (s : Sys S) : s.PowerOnly (.boot {}) :=
  ⟨Fates.steady_nil, fun c h => by
    obtain ⟨r, c', h'⟩ := hS.init_driven.returns ⟨s.cells, {}, []⟩ rfl
    cases h.symm.trans h'⟩

/-- An operation returns when every command completes. -/
theorem exec_returns (hS : S.Lawful) (op : S.Op) (ram : S.Ram) (m : Cells) :
    ∃ r c, S.exec op ram ⟨m, {}, []⟩ = (some r, c) := by
  cases hS.shape op ram with
  | idle ok ram' hx _ _ => exact ⟨_, _, congrFun hx _⟩
  | commits image hx => exact hx.driven.returns ⟨m, {}, []⟩ rfl

/-- An operation in which every command completes. -/
theorem powerOnly_call (hS : S.Lawful) (s : Sys S) (op : S.Op) : s.PowerOnly (.call op {}) :=
  ⟨Fates.steady_nil, fun ram c _ h => by
    obtain ⟨r, c', h'⟩ := exec_returns hS op ram s.cells
    cases h.symm.trans h'⟩

/-- A start-up that a power loss interrupts is all that can leave something to migrate. -/
theorem unmigrated_boot (hS : S.Lawful) (s : Sys S) : s.Unmigrated (.boot {}) := fun c h => by
  obtain ⟨r, c', h'⟩ := hS.init_driven.returns ⟨s.cells, {}, []⟩ rfl
  cases h.symm.trans h'

/-- A power loss that leaves nothing valid in the bank that was written to. -/
theorem torn_of_invalid (hS : S.Lawful) {op : S.Op} {ram : S.Ram} {c c' : Chip}
    {r : Option (Bool × S.Ram)} (h : S.exec op ram c = (r, c'))
    (hinvalid : S.valid (S.load c'.cells (S.active ram).other) = false) (done : Cells) :
    Torn (S := S) c.cells c'.cells done := by
  intro x hx
  rcases Bank.eq_or_other x (S.active ram) with rfl | rfl
  · refine .inl ?_
    cases hS.shape op ram with
    | idle ok ram' hidle _ _ =>
      rw [hidle, pure_apply, Prod.mk.injEq] at h
      rw [h.2]
    | commits image hc =>
      have hsteps := hc.driven.steps c
      rw [h] at hsteps
      exact load_of_steps hS hsteps
  · rw [hinvalid] at hx
    cases hx

/-- An undisturbed start-up of a settled store ends with the store running. -/
theorem running_boot (hS : S.Lawful) {s : Sys S} (hs : s.Settled) :
    ∃ ram, (s.step (.boot {})).ram = some ram := by
  obtain ⟨⟨st, ram⟩, c, h⟩ := hS.init_driven.returns ⟨s.cells, {}, []⟩ rfl
  obtain rfl := init_ok hS hs Fates.steady_nil h
  exact ⟨ram, congrArg Sys.ram (step_booted h)⟩

/-- And it keeps running through an undisturbed operation. -/
theorem running_call (hS : S.Lawful) {s : Sys S} {ram : S.Ram} (hram : s.ram = some ram)
    (op : S.Op) : ∃ ram', (s.step (.call op {})).ram = some ram' := by
  obtain ⟨⟨ok, ram'⟩, c, h⟩ := exec_returns hS op ram s.cells
  refine ⟨ram', ?_⟩
  simp only [Sys.step, hram, h]
  cases ok <;> rfl

/-- An operation that is cut off was about to leave an image. -/
theorem cut_of_lost (hS : S.Lawful) {s : Sys S} {ram : S.Ram} (hram : s.ram = some ram)
    {op : S.Op} {fates : Fates} {c : Chip} (h : S.exec op ram ⟨s.cells, fates, []⟩ = (none, c)) :
    ∃ image, (s.step (.call op fates)).cut = some image := by
  obtain ⟨⟨ok, ram'⟩, c', h'⟩ := exec_returns hS op ram s.cells
  refine ⟨S.snapshot ram', ?_⟩
  simp only [Sys.step, hram, h, complete, h']
  rfl

/-- **The invariant holds over every run** whose events are orderly and that does not exhaust
the generations. -/
theorem run_keeps (hS : S.Lawful) {P : Sys S → Event S → Prop}
    (hP : ∀ s e, s.Inv → P s e → s.Orderly e) {s : Sys S} (hs : s.Inv)
    {events : List (Event S)} (h : s.Along P events)
    (hsaves : (s.run events).saves < 2 ^ 32 - 1) : (s.run events).Inv := by
  induction events generalizing s with
  | nil => exact hs
  | cons e events ih =>
    have hstep : (s.step e).saves < 2 ^ 32 - 1 := (saves_le_run _ events).trans_lt hsaves
    exact ih (inv_step hS hs (hP s e hs h.1) hstep) h.2 hsaves

end TwoBank
