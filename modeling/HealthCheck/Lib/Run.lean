import Mathlib.Algebra.Order.Ring.Nat
import Mathlib.Tactic.Common

/-!
# Runs of a machine

A machine takes events one after the other. `Along` says that a property holds of every event of
a run in the state it finds; `keeps` is the induction from one event to a run, and `follows` the
one for a specification that goes along with the machine.
-/

namespace Run

variable {σ ε : Type} (step : σ → ε → σ)

/-- The state after a run. -/
def run (s : σ) (events : List ε) : σ := events.foldl step s

/-- `P` holds of every event of a run, where it happens. -/
def Along (P : σ → ε → Prop) (s : σ) : List ε → Prop
  | [] => True
  | e :: events => P s e ∧ Along P (step s e) events

variable {step} {P Q : σ → ε → Prop}

/-- What every event keeps, a run keeps. -/
theorem keeps {Inv : σ → Prop} (hstep : ∀ s e, Inv s → P s e → Inv (step s e)) {s : σ}
    {events : List ε} (hs : Inv s) (hP : Along step P s events) : Inv (run step s events) := by
  induction events generalizing s with
  | nil => exact hs
  | cons e events ih => exact ih (hstep s e hs hP.1) hP.2

/-- What every event keeps in any case, every run keeps. -/
theorem invariant {Inv : σ → Prop} (hstep : ∀ s e, Inv s → Inv (step s e)) {s : σ} (hs : Inv s)
    (events : List ε) : Inv (run step s events) := by
  induction events generalizing s with
  | nil => exact hs
  | cons e events ih => exact ih (hstep s e hs)

theorem Along.mono {s : σ} {events : List ε} (h : Along step P s events)
    (himp : ∀ s e, P s e → Q s e) : Along step Q s events := by
  induction events generalizing s with
  | nil => trivial
  | cons e events ih => exact ⟨himp s e h.1, ih h.2⟩

/-- What holds of every event wherever it happens. -/
theorem along_of_forall {May : ε → Prop} {s : σ} {events : List ε} (h : ∀ e ∈ events, May e) :
    Along step (fun _ e => May e) s events := by
  induction events generalizing s with
  | nil => trivial
  | cons e events ih =>
    exact ⟨h e List.mem_cons_self, ih fun e' he' => h e' (List.mem_cons_of_mem _ he')⟩

/-- What holds of every event in the states that an invariant allows. -/
theorem Along.of_keeps {Inv : σ → Prop} (hstep : ∀ s e, Inv s → P s e → Inv (step s e))
    (himp : ∀ s e, Inv s → P s e → Q s e) {s : σ} {events : List ε} (hs : Inv s)
    (h : Along step P s events) : Along step Q s events := by
  induction events generalizing s with
  | nil => trivial
  | cons e events ih => exact ⟨himp s e hs h.1, ih (hstep s e hs h.1) h.2⟩

theorem Along.and {s : σ} {events : List ε} (h : Along step P s events)
    (h' : Along step Q s events) : Along step (fun s e => P s e ∧ Q s e) s events := by
  induction events generalizing s with
  | nil => trivial
  | cons e events ih => exact ⟨⟨h.1, h'.1⟩, ih h.2 h'.2⟩

/-- What never shrinks is below a bound all along if it is at the end. -/
theorem along_below {size : σ → ℕ} {bound : ℕ} (hgrows : ∀ s e, size s ≤ size (step s e)) {s : σ}
    {events : List ε} (h : size (run step s events) < bound) :
    Along step (fun s e => size (step s e) < bound) s events := by
  have hrun : ∀ (events : List ε) (s : σ), size s ≤ size (run step s events) := by
    intro events
    induction events with
    | nil => exact fun s => Nat.le_refl (size s)
    | cons e events ih => exact fun s => Nat.le_trans (hgrows s e) (ih _)
  induction events generalizing s with
  | nil => trivial
  | cons e events ih => exact ⟨Nat.lt_of_le_of_lt (hrun events _) h, ih h⟩

/-- Where every event that may come makes a count grow, or keeps it and makes a rank shrink, the
count grows sooner or later. -/
theorem grows {Inv : σ → Prop} {May : ε → Prop} {count rank : σ → ℕ}
    (hstep : ∀ s e, Inv s → May e → Inv (step s e) ∧ (count s < count (step s e) ∨
      count (step s e) = count s ∧ rank (step s e) < rank s)) {s : σ} (hs : Inv s) {e : ℕ → ε}
    (he : ∀ n, May (e n)) : ∃ n, count s < count (run step s ((List.range n).map e)) := by
  induction hrank : rank s using Nat.strongRecOn generalizing s e with
  | ind r ih =>
    obtain ⟨hinv, hgrows | ⟨hkeeps, hshrinks⟩⟩ := hstep s (e 0) hs (he 0)
    · exact ⟨1, hgrows⟩
    · obtain ⟨n, hn⟩ := ih _ (hrank ▸ hshrinks) hinv (fun n => he (n + 1)) rfl
      refine ⟨n + 1, ?_⟩
      rw [List.range_succ_eq_map, List.map_cons, List.map_map]
      exact hkeeps ▸ hn

/-- A specification with steps `spec` goes along with the machine: `Rel` relates their states after
every event, and `t'` is where the specification comes to. -/
def Follows {τ : Type} (step : σ → ε → σ) (spec : σ → ε → τ → τ → Prop) (Rel : σ → τ → Prop)
    (s : σ) (t : τ) : List ε → τ → Prop
  | [], t' => t' = t
  | e :: events, t' =>
    ∃ t₁, spec s e t t₁ ∧ Rel (step s e) t₁ ∧ Follows step spec Rel (step s e) t₁ events t'

/-- **Forward simulation**: where the specification can follow every event, it can follow a run. -/
theorem follows {τ : Type} {spec : σ → ε → τ → τ → Prop} {Rel Inv : σ → τ → Prop}
    (hstep : ∀ s e t, Inv s t → P s e → ∃ t', spec s e t t' ∧ Inv (step s e) t')
    (hrel : ∀ s t, Inv s t → Rel s t) {s : σ} {t : τ} {events : List ε} (hs : Inv s t)
    (hP : Along step P s events) :
    ∃ t', Follows step spec Rel s t events t' ∧ Inv (run step s events) t' := by
  induction events generalizing s t with
  | nil => exact ⟨t, rfl, hs⟩
  | cons e events ih =>
    obtain ⟨t₁, hspec, hinv⟩ := hstep s e t hs hP.1
    obtain ⟨t', hfollows, hend⟩ := ih hinv hP.2
    exact ⟨t', ⟨t₁, hspec, hrel _ _ hinv, hfollows⟩, hend⟩

theorem run_append (s : σ) (events later : List ε) :
    run step s (events ++ later) = run step (run step s events) later :=
  List.foldl_append

theorem along_append {s : σ} {events later : List ε} : Along step P s (events ++ later) ↔
    Along step P s events ∧ Along step P (run step s events) later := by
  induction events generalizing s with
  | nil =>
    simp only [List.nil_append, Along, true_and]
    exact Iff.rfl
  | cons e events ih => exact ((and_congr_right fun _ => ih).trans and_assoc.symm)

end Run
