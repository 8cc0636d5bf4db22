import Mathlib.Algebra.Order.Ring.Nat
import Mathlib.Logic.Function.Iterate
import Mathlib.Tactic.Common

/-!
# The button of the factory reset

`factoryReset_Task` waits for the button of the board, counts ten seconds while it is held, and
opens a window of ten seconds in which a double click cancels the reset. It samples the level of
the button between delays and reads the time from a tick counter that wraps.

* `Button` — a level for every time, the counter, and how long the delays take.
* `armed_iff` — when a warning means that the button was not released.
* `cancel_iff` — when a double click in the window is recognised.
-/

namespace HealthCheck.FactoryResetButton

/-- `FACTORY_RESET_HOLD_MS`. -/
def holdMs : UInt32 := 10000

/-- `FACTORY_RESET_CANCEL_WINDOW_MS`. -/
def cancelWindowMs : UInt32 := 10000

/-- `FACTORY_RESET_DOUBLE_CLICK_MS`. -/
def doubleClickMs : UInt32 := 600

/-- `FACTORY_RESET_DEBOUNCE_MS`. -/
def debounceMs : ℕ := 30

/-- `FACTORY_RESET_POLL_MS`. -/
def pollMs : ℕ := 20

/-- `portMAX_DELAY`. -/
def portMaxDelay : UInt32 := 0xFFFFFFFF

/-- What the task finds around it. Time is in milliseconds; a delay that begins at a time ends when
it should or later. -/
structure Button where
  pressed : ℕ → Bool
  firstTick : UInt32
  delayed : ℕ → ℕ → ℕ
  le_delayed : ∀ t ms, t + ms ≤ delayed t ms

namespace Button

variable (w : Button)

/-- `Platform_GetTick`. -/
def tick (t : ℕ) : UInt32 := w.firstTick + UInt32.ofNat t

/-- How one round of the loop of `factoryReset_WaitForButton` ends. -/
inductive Round
  | found (t : ℕ)
  | timedOut
  | again (t : ℕ)

/-- One round of the loop of `factoryReset_WaitForButton`. -/
def round (pressed : Bool) (timeoutMs started : UInt32) (t : ℕ) : Round :=
  if w.tick t - started < timeoutMs then
    if w.pressed t = pressed then
      let t := w.delayed t debounceMs
      if w.pressed t = pressed then .found t else .again (w.delayed t pollMs)
    else .again (w.delayed t pollMs)
  else .timedOut

/-! ## The hold -/

/-- Where `factoryReset_Task` is: in the wait for a press, in the hold loop, behind it, or at the
call of `BuzzerService_FactoryResetWarning`. Behind the hold loop, `released` tells that a
debounced release has ended it. -/
inductive Place
  | waiting (started : UInt32)
  | holding (holdStarted : UInt32)
  | held (holdStarted : UInt32) (released : Bool)
  | warning (released : Bool)
deriving DecidableEq

structure State where
  place : Place
  time : ℕ
deriving DecidableEq

/-- The next step of `factoryReset_Task`. From the warning on, the rest of an iteration takes until
`rest`. -/
def step (rest : ℕ → ℕ) (s : State) : State :=
  match s.place with
  | .waiting started =>
    match w.round true portMaxDelay started s.time with
    | .found t => ⟨.holding (w.tick t), t⟩
    | .timedOut => ⟨.waiting (w.tick s.time), s.time⟩
    | .again t => ⟨.waiting started, t⟩
  | .holding holdStarted =>
    if w.tick s.time - holdStarted ≥ holdMs then ⟨.held holdStarted false, s.time⟩
    else if w.pressed s.time = false then
      let t := w.delayed s.time debounceMs
      if w.pressed t = false then ⟨.held holdStarted true, t⟩
      else ⟨.holding holdStarted, w.delayed t pollMs⟩
    else ⟨.holding holdStarted, w.delayed s.time pollMs⟩
  | .held holdStarted released =>
    if w.tick s.time - holdStarted < holdMs then ⟨.waiting (w.tick s.time), s.time⟩
    else ⟨.warning released, s.time⟩
  | .warning _ => ⟨.waiting (w.tick (rest s.time)), rest s.time⟩

/-- The beginning of an iteration. -/
def start (t : ℕ) : State := ⟨.waiting (w.tick t), t⟩

/-- The hold loop is about to find the button released before the ten seconds are over, and
released again behind the debounce delay, when they are. -/
def LateRelease (s : State) : Prop :=
  ∃ holdStarted, s.place = .holding holdStarted ∧ w.tick s.time - holdStarted < holdMs ∧
    w.pressed s.time = false ∧ w.pressed (w.delayed s.time debounceMs) = false ∧
    holdMs ≤ w.tick (w.delayed s.time debounceMs) - holdStarted

/-- A release has ended the hold loop before the ten seconds were over, and no warning comes after
a release. -/
def Faithful (s : State) : Prop :=
  match s.place with
  | .held holdStarted released => released = true → w.tick s.time - holdStarted < holdMs
  | .warning released => released = false
  | _ => True

variable {w}

theorem faithful_step {rest : ℕ → ℕ} {s : State} (h : w.Faithful s) (hlate : ¬w.LateRelease s) :
    w.Faithful (w.step rest s) := by
  unfold Faithful at h
  unfold step
  split
  · split <;> trivial
  · next holdStarted hplace =>
    dsimp only
    split_ifs with hover hreleased hagain
    · intro hnot
      cases hnot
    · intro _
      show w.tick (w.delayed s.time debounceMs) - holdStarted < holdMs
      by_contra hafter
      exact hlate ⟨holdStarted, hplace, UInt32.not_le.1 hover, hreleased, hagain,
        UInt32.not_lt.1 hafter⟩
    · trivial
    · trivial
  · next holdStarted released hplace =>
    rw [hplace] at h
    split_ifs with hover
    · trivial
    · exact Bool.eq_false_iff.2 fun hreleased => hover (h hreleased)
  · trivial

theorem faithful_iterate {rest : ℕ → ℕ} {s : State} (h : w.Faithful s) (n : ℕ)
    (hlate : ∀ k < n, ¬w.LateRelease ((w.step rest)^[k] s)) :
    w.Faithful ((w.step rest)^[n] s) := by
  induction n with
  | zero => exact h
  | succ n ih =>
    rw [Function.iterate_succ_apply']
    exact faithful_step (ih fun k hk => hlate k (Nat.lt_succ_of_lt hk))
      (hlate n (Nat.lt_succ_self n))

/-- A release that is confirmed late leads to the warning. -/
theorem warning_of_late {rest : ℕ → ℕ} {s : State} (h : w.LateRelease s) :
    (w.step rest (w.step rest s)).place = .warning true := by
  obtain ⟨holdStarted, hplace, hbefore, hreleased, hagain, hafter⟩ := h
  have hheld : w.step rest s = ⟨.held holdStarted true, w.delayed s.time debounceMs⟩ := by
    unfold step
    rw [hplace]
    dsimp only
    rw [if_neg (UInt32.not_le.2 hbefore), if_pos hreleased, if_pos hagain]
  rw [hheld]
  unfold step
  dsimp only
  rw [if_neg (UInt32.not_lt.2 hafter)]

/-- **Only a full hold arms the reset** in the runs in which no release is confirmed late, and in no
others: whenever the task comes to the warning, no debounced release has ended the hold. -/
theorem armed_iff (w : Button) (rest : ℕ → ℕ) (t : ℕ) :
    (∀ n released, ((w.step rest)^[n] (w.start t)).place = .warning released → released = false) ↔
      ∀ n, ¬w.LateRelease ((w.step rest)^[n] (w.start t)) := by
  constructor
  · intro h n hlate
    have hwarning : ((w.step rest)^[n + 2] (w.start t)).place = .warning true := by
      rw [Function.iterate_succ_apply', Function.iterate_succ_apply']
      exact warning_of_late hlate
    exact Bool.false_ne_true (h _ _ hwarning).symm
  · intro h n released hplace
    have hstart : w.Faithful (w.start t) := trivial
    have hfaithful := faithful_iterate hstart n fun k _ => h k
    unfold Faithful at hfaithful
    rwa [hplace] at hfaithful

/-- A button with delays that are exact. -/
def exact (pressed : ℕ → Bool) (firstTick : UInt32) : Button where
  pressed := pressed
  firstTick := firstTick
  delayed := fun t ms => t + ms
  le_delayed := fun _ _ => le_rfl

/-- **A button held for 9995 ms** arms the reset. Its release is confirmed behind ten seconds. -/
theorem short_hold_armed : ∃ n,
    (((exact (fun t => t < 9995) 0).step id)^[n] ((exact (fun t => t < 9995) 0).start 0)).place =
      .warning true :=
  ⟨502, by decide +kernel⟩

/-! ## Waiting for a level -/

/-- The rounds of `factoryReset_WaitForButton`, up to a number of them. -/
def waitRounds (w : Button) (pressed : Bool) (timeoutMs started : UInt32) :
    ℕ → ℕ → Option (Bool × ℕ)
  | 0, _ => none
  | n + 1, t =>
    match w.round pressed timeoutMs started t with
    | .found t => some (true, t)
    | .timedOut => some (false, t)
    | .again t => waitRounds w pressed timeoutMs started n t

/-- `factoryReset_WaitForButton`, and the time when it returns. A round takes at least
`pollMs`. -/
def waitForButton (w : Button) (pressed : Bool) (timeoutMs : UInt32) (t : ℕ) : Option (Bool × ℕ) :=
  waitRounds w pressed timeoutMs (w.tick t) (timeoutMs.toNat / pollMs + 2) t

/-- `factoryReset_CancelRequested`. -/
def cancelRequested (w : Button) (windowStarted : UInt32) (t : ℕ) : Option Bool :=
  let elapsed := w.tick t - windowStarted
  if elapsed ≥ cancelWindowMs then some false
  else (w.waitForButton false (cancelWindowMs - elapsed) t).bind fun (found, t) =>
    if !found then some false
    else
      let elapsed := w.tick t - windowStarted
      if elapsed ≥ cancelWindowMs then some false
      else (w.waitForButton true (cancelWindowMs - elapsed) t).bind fun (found, t) =>
        if !found then some false
        else
          let firstClick := w.tick t
          let elapsed := firstClick - windowStarted
          if elapsed ≥ cancelWindowMs then some false
          else
            let secondClickTimeout := if cancelWindowMs - elapsed > doubleClickMs then doubleClickMs
              else cancelWindowMs - elapsed
            (w.waitForButton false secondClickTimeout t).bind fun (found, t) =>
              if !found then some false
              else
                let clickElapsed := w.tick t - firstClick
                if clickElapsed ≥ doubleClickMs then some false
                else
                  let remaining := doubleClickMs - clickElapsed
                  let elapsed := w.tick t - windowStarted
                  if elapsed ≥ cancelWindowMs then some false
                  else
                    let windowRemaining := cancelWindowMs - elapsed
                    let remaining := if remaining > windowRemaining then windowRemaining
                      else remaining
                    (w.waitForButton true remaining t).map Prod.fst

/-- Delays end when they should. -/
def Exact (w : Button) : Prop := ∀ t ms, w.delayed t ms = t + ms

theorem tick_sub (w : Button) {s t : ℕ} (hle : s ≤ t) :
    w.tick t - w.tick s = UInt32.ofNat (t - s) := by
  obtain ⟨k, rfl⟩ := Nat.exists_eq_add_of_le hle
  rw [Nat.add_sub_cancel_left, tick, tick, UInt32.ofNat_add, ← UInt32.add_assoc,
    UInt32.add_comm, UInt32.add_sub_cancel]

theorem toNat_elapsed (w : Button) {s t : ℕ} (hle : s ≤ t) (hlt : t < s + 2 ^ 32) :
    (w.tick t - w.tick s).toNat = t - s := by
  rw [w.tick_sub hle]
  exact UInt32.toNat_ofNat_of_lt' (by
    have : UInt32.size = 2 ^ 32 := rfl
    omega)

/-- The polling from time `t` on comes to a sample at time `u`. Behind a sample of the other level the
next one is 20 ms later, behind one of the level that bounces, 50 ms. -/
inductive Polled (w : Button) (pressed : Bool) : ℕ → ℕ → Prop
  | here (t : ℕ) : Polled w pressed t t
  | other {t u : ℕ} : w.pressed t ≠ pressed → Polled w pressed (t + 20) u → Polled w pressed t u
  | bounce {t u : ℕ} : w.pressed t = pressed → w.pressed (t + 30) ≠ pressed →
      Polled w pressed (t + 50) u → Polled w pressed t u

section Waits

variable {w : Button} {pressed : Bool} {timeoutMs : UInt32} {t₀ : ℕ}

theorem Polled.le {t u : ℕ} (h : w.Polled pressed t u) : t ≤ u := by
  induction h with
  | here t => exact le_rfl
  | other _ _ ih => omega
  | bounce _ _ _ ih => omega

/-- The polling comes to a level that lasts for fifty milliseconds, if not to the same level
before. -/
theorem polled_of_level {x t : ℕ} (hlevel : ∀ u, x ≤ u → u < x + 50 → w.pressed u = pressed)
    (hlt : t < x + 20) :
    ∃ u, w.Polled pressed t u ∧ u < x + 20 ∧ w.pressed u = pressed ∧
      w.pressed (u + 30) = pressed := by
  by_cases hfirst : w.pressed t = pressed
  · by_cases hsecond : w.pressed (t + 30) = pressed
    · exact ⟨t, .here t, hlt, hfirst, hsecond⟩
    · -- the second sample is before the level begins
      have hbefore : t + 30 < x := by
        by_contra hinside
        exact hsecond (hlevel (t + 30) (by omega) (by omega))
      obtain ⟨u, hpolled, hspec⟩ := polled_of_level (t := t + 50) hlevel (by omega)
      exact ⟨u, .bounce hfirst hsecond hpolled, hspec⟩
  · have hbefore : t < x := by
      by_contra hinside
      exact hfirst (hlevel t (by omega) (by omega))
    obtain ⟨u, hpolled, hspec⟩ := polled_of_level (t := t + 20) hlevel (by omega)
    exact ⟨u, .other hfirst hpolled, hspec⟩
termination_by x + 20 - t

/-- A round of a loop with a short timeout, by the clock. -/
theorem round_exact (hexact : w.Exact) {t : ℕ} (hle : t₀ ≤ t) (hlt : t < t₀ + 2 ^ 32) :
    w.round pressed timeoutMs (w.tick t₀) t =
      if t < t₀ + timeoutMs.toNat then
        if w.pressed t = pressed then
          if w.pressed (t + 30) = pressed then .found (t + 30) else .again (t + 50)
        else .again (t + 20)
      else .timedOut := by
  have helapsed : w.tick t - w.tick t₀ < timeoutMs ↔ t < t₀ + timeoutMs.toNat := by
    rw [UInt32.lt_iff_toNat_lt, w.toNat_elapsed hle hlt]
    omega
  unfold round
  simp only [hexact t, hexact (t + debounceMs), helapsed]
  rfl

variable (hexact : w.Exact) (hshort : timeoutMs.toNat ≤ 10000)
include hexact hshort

/-- What a wait finds: two samples of its polling, the first before the timeout. -/
theorem found_spec {n t r : ℕ} (hle : t₀ ≤ t) (hlt : t < t₀ + timeoutMs.toNat + 50)
    (h : waitRounds w pressed timeoutMs (w.tick t₀) n t = some (true, r)) :
    ∃ u, w.Polled pressed t u ∧ u < t₀ + timeoutMs.toNat ∧ r = u + 30 ∧ w.pressed u = pressed ∧
      w.pressed r = pressed := by
  induction n generalizing t with
  | zero => cases h
  | succ n ih =>
    rw [waitRounds, round_exact hexact hle (by omega)] at h
    split_ifs at h with hbefore hfirst hsecond
    · cases h
      exact ⟨t, .here t, hbefore, rfl, hfirst, hsecond⟩
    · obtain ⟨u, hpolled, hspec⟩ := ih (t := t + 50) (by omega) (by omega) h
      exact ⟨u, .bounce hfirst hsecond hpolled, hspec⟩
    · obtain ⟨u, hpolled, hspec⟩ := ih (t := t + 20) (by omega) (by omega) h
      exact ⟨u, .other hfirst hpolled, hspec⟩
    · cases h

/-- A wait finds what its polling comes to before the timeout. -/
theorem found_of_polled {n t u : ℕ} (hpolled : w.Polled pressed t u)
    (hbefore : u < t₀ + timeoutMs.toNat) (hfirst : w.pressed u = pressed)
    (hsecond : w.pressed (u + 30) = pressed) (hle : t₀ ≤ t) (hrounds : u < t + 20 * n) :
    waitRounds w pressed timeoutMs (w.tick t₀) n t = some (true, u + 30) := by
  induction hpolled generalizing n with
  | here t =>
    obtain ⟨n, rfl⟩ := Nat.exists_eq_add_of_lt (show 0 < n by omega)
    rw [Nat.zero_add, waitRounds, round_exact hexact hle (by omega), if_pos hbefore, if_pos hfirst,
      if_pos hsecond]
  | other hother hrest ih =>
    have hreaches := hrest.le
    obtain ⟨n, rfl⟩ := Nat.exists_eq_add_of_lt (show 0 < n by omega)
    rw [Nat.zero_add, waitRounds, round_exact hexact hle (by omega), if_pos (by omega),
      if_neg hother]
    exact ih hbefore hfirst hsecond (by omega) (by omega)
  | bounce hlevel hbounce hrest ih =>
    have hreaches := hrest.le
    obtain ⟨n, rfl⟩ := Nat.exists_eq_add_of_lt (show 0 < n by omega)
    rw [Nat.zero_add, waitRounds, round_exact hexact hle (by omega), if_pos (by omega),
      if_pos hlevel, if_neg hbounce]
    exact ih hbefore hfirst hsecond (by omega) (by omega)

/-- A wait ends. -/
theorem ends {n t : ℕ} (hle : t₀ ≤ t) (hlt : t < t₀ + timeoutMs.toNat + 50)
    (hrounds : t₀ + timeoutMs.toNat ≤ t + 20 * n) :
    (waitRounds w pressed timeoutMs (w.tick t₀) (n + 1) t).isSome = true := by
  induction n generalizing t with
  | zero =>
    rw [waitRounds, round_exact hexact hle (by omega), if_neg (by omega)]
    rfl
  | succ n ih =>
    rw [waitRounds, round_exact hexact hle (by omega)]
    split_ifs
    · rfl
    · exact ih (t := t + 50) (by omega) (by omega) (by omega)
    · exact ih (t := t + 20) (by omega) (by omega) (by omega)
    · rfl

/-! ### The same of the function -/

theorem waitForButton_iff {r : ℕ} : w.waitForButton pressed timeoutMs t₀ = some (true, r) ↔
    ∃ u, w.Polled pressed t₀ u ∧ u < t₀ + timeoutMs.toNat ∧ r = u + 30 ∧ w.pressed u = pressed ∧
      w.pressed r = pressed := by
  constructor
  · exact found_spec hexact hshort le_rfl (by omega)
  · rintro ⟨u, hpolled, hbefore, rfl, hfirst, hsecond⟩
    refine found_of_polled hexact hshort hpolled hbefore hfirst hsecond le_rfl ?_
    have hdivide := Nat.div_add_mod timeoutMs.toNat pollMs
    have hmod := Nat.mod_lt timeoutMs.toNat (by decide : 0 < pollMs)
    simp only [pollMs] at *
    omega

theorem waitForButton_ends : (w.waitForButton pressed timeoutMs t₀).isSome = true := by
  refine ends hexact hshort le_rfl (by omega) ?_
  have hdivide := Nat.div_add_mod timeoutMs.toNat pollMs
  have hmod := Nat.mod_lt timeoutMs.toNat (by decide : 0 < pollMs)
  simp only [pollMs] at *
  omega

end Waits

/-! ## The window

The window begins at time 0. -/

/-- The polling from time `t` on comes to a level before a deadline, and the level is still there
behind the debounce delay, at time `r`. -/
def Sees (w : Button) (pressed : Bool) (deadline t r : ℕ) : Prop :=
  ∃ u, w.Polled pressed t u ∧ u < deadline ∧ r = u + 30 ∧ w.pressed u = pressed ∧
    w.pressed r = pressed

/-- The first press that the polling debounces in the window, behind the release of the hold. -/
def FirstPress (w : Button) (r : ℕ) : Prop :=
  ∃ r₀, w.Sees false 10000 0 r₀ ∧ w.Sees true 10000 r₀ r

/-- Behind a press, the polling debounces a release and another press in the time of a double
click. -/
def Followed (w : Button) (r : ℕ) : Prop :=
  ∃ r₂ r₃, w.Sees false (min (r + 600) 10000) r r₂ ∧ r₂ < r + 600 ∧
    w.Sees true (min (r + 600) 10000) r₂ r₃

/-- A press without another one behind it in the time of a double click: once the button is
released, it stays so. -/
def Single (w : Button) (r : ℕ) : Prop :=
  ∀ t u, r ≤ t → t ≤ u → u < r + 600 → w.pressed t = false → w.pressed u = false

/-- A double click in the window: two presses from `first` and from `second` on. -/
structure DoubleClick (w : Button) where
  first : ℕ
  released : ℕ
  second : ℕ
  done : ℕ
  onset : 0 < first ∧ w.pressed (first - 1) = false
  press : ∀ u, first ≤ u → u < released → w.pressed u = true
  release : ∀ u, released ≤ u → u < second → w.pressed u = false
  again : ∀ u, second ≤ u → u < done → w.pressed u = true
  first_lasts : first + 100 ≤ released
  release_lasts : released + 100 ≤ second
  second_lasts : second + 100 ≤ done
  close : second ≤ first + 400
  inside : done + 200 ≤ 10000

section Window

variable {w : Button} {pressed : Bool} {deadline t : ℕ}

theorem toNat_left (hdeadline : deadline ≤ 10000) :
    (UInt32.ofNat (deadline - t)).toNat = deadline - t :=
  UInt32.toNat_ofNat_of_lt' (by
    have : UInt32.size = 2 ^ 32 := rfl
    omega)

theorem Sees.spec {r : ℕ} (h : w.Sees pressed deadline t r) :
    ∃ u, t ≤ u ∧ u < deadline ∧ r = u + 30 ∧ w.pressed u = pressed ∧ w.pressed r = pressed := by
  obtain ⟨u, hpolled, hspec⟩ := h
  exact ⟨u, hpolled.le, hspec⟩

theorem sees_of_level {x : ℕ} (hlevel : ∀ u, x ≤ u → u < x + 50 → w.pressed u = pressed)
    (hbefore : x + 20 ≤ deadline) (hlt : t < x + 20) :
    ∃ r, w.Sees pressed deadline t r ∧ r < x + 50 := by
  obtain ⟨u, hpolled, hu, hfirst, hsecond⟩ := polled_of_level hlevel hlt
  exact ⟨u + 30, ⟨u, hpolled, by omega, rfl, hfirst, hsecond⟩, by omega⟩

/-- A wait with the rest of the time as its timeout tells what its polling sees. -/
theorem waitForButton_iff_sees (hexact : w.Exact) (hdeadline : deadline ≤ 10000) {r : ℕ} :
    w.waitForButton pressed (UInt32.ofNat (deadline - t)) t = some (true, r) ↔
      w.Sees pressed deadline t r := by
  have hleft := toNat_left (t := t) hdeadline
  rw [waitForButton_iff hexact (by omega), hleft]
  refine exists_congr fun u => and_congr_right fun hpolled => and_congr_left fun _ => ?_
  have hreaches := hpolled.le
  omega

end Window

theorem bind_eq_true {o : Option (Bool × ℕ)} {next : Bool × ℕ → Option Bool} :
    (o.bind fun a => if (!a.1) = true then some false else next a) = some true ↔
      ∃ r, o = some (true, r) ∧ next (true, r) = some true := by
  rw [Option.bind_eq_some_iff]
  constructor
  · rintro ⟨⟨found, r⟩, hwait, h⟩
    cases found with
    | false => cases h
    | true => exact ⟨r, hwait, h⟩
  · rintro ⟨r, hwait, h⟩
    exact ⟨(true, r), hwait, h⟩

theorem guard_eq_true {p : Prop} [Decidable p] {rest : Option Bool} :
    (if p then some false else rest) = some true ↔ ¬p ∧ rest = some true := by
  split_ifs with hp <;> simp [hp]

section Clock

variable (w : Button) {s t : ℕ}

theorem reached_iff (hle : s ≤ t) (hlt : t < s + 2 ^ 32) (limit : UInt32) :
    w.tick t - w.tick s ≥ limit ↔ s + limit.toNat ≤ t := by
  rw [ge_iff_le, UInt32.le_iff_toNat_le, w.toNat_elapsed hle hlt]
  omega

theorem left_eq (hle : s ≤ t) (limit : UInt32) (hinside : t ≤ s + limit.toNat) :
    limit - (w.tick t - w.tick s) = UInt32.ofNat (s + limit.toNat - t) := by
  rw [w.tick_sub hle]
  conv_lhs => rw [← UInt32.ofNat_toNat (x := limit)]
  rw [← UInt32.ofNat_sub (by omega)]
  congr 1
  omega

theorem ofNat_min {a b : ℕ} (ha : a < 2 ^ 32) (hb : b < 2 ^ 32) :
    (if UInt32.ofNat a > UInt32.ofNat b then UInt32.ofNat b else UInt32.ofNat a) =
      UInt32.ofNat (min a b) := by
  have hlt : UInt32.ofNat a > UInt32.ofNat b ↔ b < a := UInt32.ofNat_lt_iff_lt hb ha
  simp only [hlt]
  split_ifs with h
  · rw [min_eq_right h.le]
  · rw [min_eq_left (by omega)]

theorem window_left (hinside : t ≤ 10000) :
    cancelWindowMs - (w.tick t - w.tick 0) = UInt32.ofNat (10000 - t) := by
  have hleft := w.left_eq (Nat.zero_le t) cancelWindowMs (by
    show t ≤ 0 + 10000
    omega)
  exact hleft.trans (congrArg UInt32.ofNat (by
    show 0 + 10000 - t = 10000 - t
    omega))

/-- How long the release of a first click is waited for. -/
theorem release_left (hinside : t < 10000) :
    (if cancelWindowMs - (w.tick t - w.tick 0) > doubleClickMs then doubleClickMs
      else cancelWindowMs - (w.tick t - w.tick 0)) =
      UInt32.ofNat (min (t + 600) 10000 - t) := by
  rw [w.window_left hinside.le]
  exact (ofNat_min (by omega) (by decide : 600 < 2 ^ 32)).trans (congrArg UInt32.ofNat (by omega))

/-- How long the press of a second click is waited for. -/
theorem press_left (hle : s ≤ t) (hclose : t < s + 600) (hinside : t < 10000) :
    (if doubleClickMs - (w.tick t - w.tick s) > cancelWindowMs - (w.tick t - w.tick 0) then
      cancelWindowMs - (w.tick t - w.tick 0) else doubleClickMs - (w.tick t - w.tick s)) =
      UInt32.ofNat (min (s + 600) 10000 - t) := by
  have hclick : doubleClickMs - (w.tick t - w.tick s) = UInt32.ofNat (s + 600 - t) :=
    w.left_eq hle doubleClickMs hclose.le
  rw [hclick, w.window_left hinside.le]
  exact (ofNat_min (by omega) (by omega)).trans (congrArg UInt32.ofNat (by omega))

end Clock

theorem toNat_sub_le {limit elapsed : UInt32} (h : ¬elapsed ≥ limit) (hlimit : limit.toNat ≤ 10000) :
    (limit - elapsed).toNat ≤ 10000 := by
  rw [UInt32.toNat_sub_of_le _ _ (UInt32.le_of_lt (UInt32.not_le.1 h))]
  omega

theorem isSome_bind {o : Option (Bool × ℕ)} {next : Bool × ℕ → Option Bool}
    (h : o.isSome = true) (hnext : ∀ a, (next a).isSome = true) : (o.bind next).isSome = true := by
  obtain ⟨a, rfl⟩ := Option.isSome_iff_exists.1 h
  exact hnext a

theorem isSome_guard {p : Prop} [Decidable p] {rest : Option Bool}
    (h : ¬p → rest.isSome = true) : (if p then some false else rest).isSome = true := by
  split_ifs with hp
  · rfl
  · exact h hp

/-- `factoryReset_CancelRequested` returns. -/
theorem cancelRequested_ends {w : Button} (hexact : w.Exact) (windowStarted : UInt32) (t : ℕ) :
    (w.cancelRequested windowStarted t).isSome = true := by
  have hwaits {pressed : Bool} {timeoutMs : UInt32} {t : ℕ} (h : timeoutMs.toNat ≤ 10000) :
      (w.waitForButton pressed timeoutMs t).isSome = true := waitForButton_ends hexact h
  have hsmaller {a b : UInt32} (ha : a.toNat ≤ 10000) (hb : b.toNat ≤ 10000) :
      (if a > b then b else a).toNat ≤ 10000 := by
    split_ifs
    · exact hb
    · exact ha
  unfold cancelRequested
  refine isSome_guard fun hfirst => isSome_bind (hwaits (toNat_sub_le hfirst le_rfl)) fun a => ?_
  refine isSome_guard fun _ => isSome_guard fun hsecond => ?_
  refine isSome_bind (hwaits (toNat_sub_le hsecond le_rfl)) fun a => ?_
  refine isSome_guard fun _ => isSome_guard fun hthird => ?_
  refine isSome_bind (hwaits (hsmaller (toNat_sub_le hthird le_rfl) (by decide))) fun a => ?_
  refine isSome_guard fun _ => isSome_guard fun hclick => isSome_guard fun hinside => ?_
  rw [Option.isSome_map]
  exact hwaits (hsmaller (toNat_sub_le hclick (by decide)) (toNat_sub_le hinside le_rfl))

/-- What `factoryReset_CancelRequested` recognises, by the clock. -/
theorem cancelRequested_spec {w : Button} (hexact : w.Exact) :
    w.cancelRequested (w.tick 0) 0 = some true ↔ ∃ r, w.FirstPress r ∧ w.Followed r := by
  have hwindow {t : ℕ} (h : t < 2 ^ 32) : ¬w.tick t - w.tick 0 ≥ cancelWindowMs ↔ t < 10000 := by
    rw [w.reached_iff (Nat.zero_le t) (by omega), Nat.not_le]
    show t < 0 + 10000 ↔ t < 10000
    omega
  have hclick {s t : ℕ} (hle : s ≤ t) (h : t < s + 2 ^ 32) :
      ¬w.tick t - w.tick s ≥ doubleClickMs ↔ t < s + 600 := by
    rw [w.reached_iff hle h, Nat.not_le]
    rfl
  simp only [cancelRequested, guard_eq_true, bind_eq_true, Option.map_eq_some_iff, Prod.exists,
    exists_and_right, exists_eq_right]
  constructor
  · rintro ⟨_, r₀, h₀, hin₀, r, h, hin, r₂, h₂, hin₂, hinside, r₃, h₃⟩
    rw [w.window_left (Nat.zero_le _), waitForButton_iff_sees hexact le_rfl] at h₀
    have hbounds₀ := h₀.spec
    rw [hwindow (by omega)] at hin₀
    rw [w.window_left hin₀.le, waitForButton_iff_sees hexact le_rfl] at h
    have hbounds := h.spec
    rw [hwindow (by omega)] at hin
    rw [w.release_left hin, waitForButton_iff_sees hexact (min_le_right _ _)] at h₂
    have hbounds₂ := h₂.spec
    rw [hclick (by omega) (by omega)] at hin₂
    rw [hwindow (by omega)] at hinside
    rw [w.press_left (by omega) hin₂ hinside, waitForButton_iff_sees hexact (min_le_right _ _)]
      at h₃
    exact ⟨r, ⟨r₀, h₀, h⟩, r₂, r₃, h₂, hin₂, h₃⟩
  · rintro ⟨r, ⟨r₀, h₀, h⟩, r₂, r₃, h₂, hin₂, h₃⟩
    have hbounds₀ := h₀.spec
    have hbounds := h.spec
    have hbounds₂ := h₂.spec
    have hbounds₃ := h₃.spec
    refine ⟨(hwindow (by decide)).2 (by decide), r₀, ?_, (hwindow (by omega)).2 (by omega), r, ?_,
      (hwindow (by omega)).2 (by omega), r₂, ?_, (hclick (by omega) (by omega)).2 hin₂,
      (hwindow (by omega)).2 (by omega), r₃, ?_⟩
    · rw [w.window_left (Nat.zero_le _)]
      exact (waitForButton_iff_sees hexact le_rfl).2 h₀
    · rw [w.window_left (by omega)]
      exact (waitForButton_iff_sees hexact le_rfl).2 h
    · rw [w.release_left (by omega)]
      exact (waitForButton_iff_sees hexact (min_le_right _ _)).2 h₂
    · rw [w.press_left (by omega) hin₂ (by omega)]
      exact (waitForButton_iff_sees hexact (min_le_right _ _)).2 h₃

/-- The polling debounces a press, in front of a double click or in its first press, when the button
has been released for 100 ms before it. -/
theorem firstPress_of_quiet {w : Button} (d : w.DoubleClick)
    (hquiet : ∀ u, d.first ≤ u + 100 → u < d.first → w.pressed u = false)
    (hinside : 100 ≤ d.first) : ∃ r, w.FirstPress r ∧ r < d.released := by
  have hbounds := d.first_lasts
  have hbounds' := d.release_lasts
  have hbounds'' := d.second_lasts
  have hend := d.inside
  obtain ⟨r₀, hsees, hr₀⟩ : ∃ r, w.Sees false 10000 0 r ∧ r < d.first - 100 + 50 :=
    sees_of_level (fun u hu hu' => hquiet u (by omega) (by omega)) (by omega) (by omega)
  obtain ⟨r, hsees', hr⟩ : ∃ r, w.Sees true 10000 r₀ r ∧ r < d.first + 50 :=
    sees_of_level (fun u hu hu' => d.press u hu (by omega)) (by omega) (by omega)
  exact ⟨r, ⟨r₀, hsees, hsees'⟩, by omega⟩

/-- **A double click is recognised** exactly where the first press that the polling debounces is
its first press, or is itself followed by another one in time. A single click is not. -/
theorem cancel_iff {w : Button} (hexact : w.Exact) (d : w.DoubleClick) :
    (w.cancelRequested (w.tick 0) 0 = some true ↔
      ∃ r, w.FirstPress r ∧ (d.first ≤ r ∧ r < d.released ∨ w.Followed r)) ∧
      ∀ r, w.Single r → ¬w.Followed r := by
  have hbounds := d.first_lasts
  have hbounds' := d.release_lasts
  have hbounds'' := d.second_lasts
  have hclose := d.close
  have hinside := d.inside
  constructor
  · rw [cancelRequested_spec hexact]
    constructor
    · rintro ⟨r, hpress, hfollowed⟩
      exact ⟨r, hpress, Or.inr hfollowed⟩
    · rintro ⟨r, hpress, ⟨hle, hlt⟩ | hfollowed⟩
      · refine ⟨r, hpress, ?_⟩
        obtain ⟨r₂, hsees, hr₂⟩ :
            ∃ r₂, w.Sees false (min (r + 600) 10000) r r₂ ∧ r₂ < d.released + 50 :=
          sees_of_level (fun u hu hu' => d.release u hu (by omega)) (by omega) (by omega)
        obtain ⟨r₃, hsees', -⟩ :
            ∃ r₃, w.Sees true (min (r + 600) 10000) r₂ r₃ ∧ r₃ < d.second + 50 :=
          sees_of_level (fun u hu hu' => d.again u hu (by omega)) (by omega) (by omega)
        exact ⟨r₂, r₃, hsees, by omega, hsees'⟩
      · exact ⟨r, hpress, hfollowed⟩
  · rintro r hsingle ⟨r₂, r₃, hsees, hlt, hsees'⟩
    obtain ⟨u, hle, -, rfl, -, hreleased⟩ := hsees.spec
    obtain ⟨u', hle', hlt', -, hpressed, -⟩ := hsees'.spec
    have hstays := hsingle (u + 30) u' (by omega) hle' (by omega) hreleased
    rw [hstays] at hpressed
    cases hpressed

/-- The levels of a double click at 5000 ms, behind an earlier click of a given length at
1000 ms. -/
def clicks (early t : ℕ) : Bool :=
  1000 ≤ t && t < 1000 + early || 5000 ≤ t && t < 5100 || 5300 ≤ t && t < 5400

def doubleClick (early : ℕ) (hshort : early ≤ 1000) : (exact (clicks early) 0).DoubleClick where
  first := 5000
  released := 5100
  second := 5300
  done := 5400
  onset := by
    refine ⟨by decide, ?_⟩
    simp [exact, clicks]
    omega
  press := by
    intro u hle hlt
    simp [exact, clicks]
    omega
  release := by
    intro u hle hlt
    simp [exact, clicks]
    omega
  again := by
    intro u hle hlt
    simp [exact, clicks]
    omega
  first_lasts := by decide
  release_lasts := by decide
  second_lasts := by decide
  close := by decide
  inside := by decide

/-- **Behind an earlier click** of 100 ms, the double click is missed. -/
theorem missed_behind_click : (exact (clicks 100) 0).Exact ∧
    Nonempty (exact (clicks 100) 0).DoubleClick ∧
    (exact (clicks 100) 0).cancelRequested ((exact (clicks 100) 0).tick 0) 0 = some false :=
  ⟨fun _ _ => rfl, ⟨doubleClick 100 (by decide)⟩, by decide +kernel⟩

theorem cancel_alone :
    (exact (clicks 0) 0).cancelRequested ((exact (clicks 0) 0).tick 0) 0 = some true :=
  (cancel_iff (fun _ _ => rfl) (doubleClick 0 (by decide))).1.2
    ⟨5040, ⟨30, (waitForButton_iff_sees (fun _ _ => rfl) le_rfl).1 (by decide +kernel),
      (waitForButton_iff_sees (fun _ _ => rfl) le_rfl).1 (by decide +kernel)⟩,
      Or.inl ⟨by decide, by decide⟩⟩

end Button

end HealthCheck.FactoryResetButton
