import HealthCheck.Lib.StoreContents

/-!
# What start-up finds in a two-bank store

The banks of a store determine one image that start-up will find: the newest one, or the factory
image when nothing was ever written. Power that is lost during start-up does not change it, and
during a mutation it leaves the image from before or the complete new one.

* `Store.Finds` — the image that start-up will find.
* `Store.Finds.init` — start-up finds it, or leaves it to be found.
* `Store.Live.call` — a mutation of a running store, to its end or cut off, while the generations
  last; `Store.Live.wrapped` — and the one after that.
* `Store.Opens.finds` — so does a program that opens the store among other things.
-/

namespace TwoBank

open Nor

namespace Store

variable {S : Store} {m m' : Cells} {image : S.Image}

/-- What start-up will find. -/
inductive Finds (S : Store) (m : Cells) (image : S.Image) : Prop where
  | stored (x : Bank) (htop : S.Top m x) (hload : S.load m x = image)
  | fresh (hfresh : S.Fresh m) (himage : image = S.factory)

theorem Live.finds {ram : S.Ram} (h : S.Live m ram) : S.Finds m (S.snapshot ram) := by
  cases h with
  | stored htop hload => exact .stored _ htop hload
  | fresh _ hfresh hsnap => exact .fresh hfresh hsnap

theorem Live.valid {ram : S.Ram} (h : S.Live m ram) (hlazy : S.lazy = false) :
    ∃ x, S.valid (S.load m x) = true := by
  cases h with
  | stored htop _ => exact ⟨_, htop.1⟩
  | fresh hl _ _ _ => cases hlazy.symm.trans hl

/-- A store that is settled will find its last image or the one that was cut off. -/
theorem finds_of_settled {s : Sys S} (h : s.Settled) :
    S.Finds s.cells s.last ∨ ∃ image, s.cut = some image ∧ S.Finds s.cells image := by
  cases h with
  | stored x htop himage =>
    rcases himage with hlast | hcut
    · exact .inl (.stored x htop hlast)
    · exact .inr ⟨_, hcut, .stored x htop rfl⟩
  | fresh hfresh hlast => exact .inl (.fresh hfresh hlast)

section Lawful

variable (hS : S.Lawful)
include hS

theorem Top.congr {x : Bank} (h : S.Top m x) (hm : ∀ i ∈ S.span, m' i = m i) : S.Top m' x := by
  unfold Top
  rw [load_eq hS hm, load_eq hS hm]
  exact h

/-- The rest of the chip does not matter. -/
theorem Finds.congr (hL : S.Local) (h : S.Finds m image) (hm : ∀ i ∈ S.span, m' i = m i) :
    S.Finds m' image := by
  cases h with
  | stored x htop hload => exact .stored x (htop.congr hS hm) (by rwa [load_eq hS hm])
  | fresh hfresh himage => exact .fresh (hL.congr hm hfresh) himage

theorem Live.congr (hL : S.Local) {ram : S.Ram} (h : S.Live m ram)
    (hm : ∀ i ∈ S.span, m' i = m i) : S.Live m' ram := by
  cases h with
  | stored htop hload => exact .stored (htop.congr hS hm) (by rwa [load_eq hS hm])
  | fresh hlazy hfresh hsnap hactive => exact .fresh hlazy (hL.congr hm hfresh) hsnap hactive

/-! ## Start-up -/

section Init

variable {c c' : Chip} {r : Option (Status × S.Ram)} (h : S.Finds c.cells image)
  (hf : c.fates.Steady) (hinit : S.init c = (r, c'))
include h hf hinit

/-- Start-up that comes to its end loads the image, and writes no other than the factory image. -/
theorem Finds.loaded {status : Status} {ram : S.Ram} (hr : r = some (status, ram)) :
    status = .ok ∧ S.Live c'.cells ram ∧ S.snapshot ram = image ∧
      ∀ x, S.load c'.cells x = S.load c.cells x ∨ S.load c'.cells x = S.factory := by
  cases h with
  | stored x htop hload =>
    obtain ⟨hcells, hok⟩ := hS.loads (newest_of_top htop) hf.reads hinit
    obtain ⟨rfl, hsnap, hactive⟩ := hok status ram hr
    rw [hcells]
    exact ⟨rfl, .stored (hactive ▸ htop) (by rw [hactive, hsnap]), hsnap.trans hload,
      fun _ => .inl rfl⟩
  | fresh hfresh himage =>
    cases hlazy : S.lazy with
    | true =>
      obtain ⟨hcells, hok⟩ := hS.loads_factory hlazy hfresh hf.reads hinit
      obtain ⟨rfl, hsnap, hactive⟩ := hok status ram hr
      rw [hcells]
      exact ⟨rfl, .fresh hlazy hfresh hsnap hactive, hsnap.trans himage.symm, fun _ => .inl rfl⟩
    | false =>
      obtain ⟨hsteps, -, hok, hsteady⟩ := hS.seeds hlazy hfresh hf.reads _ _ hinit
      obtain rfl := hsteady hf status ram hr
      obtain ⟨-, hvalid, hload, hsnap, hactive⟩ := hok ram hr
      have hkept := load_of_steps (x := .b) hS hsteps
      have htop : S.Top c'.cells .a := ⟨by rwa [hload], fun hv => by
        rw [Bank.other, hkept, hS.fresh_valid hfresh] at hv
        cases hv⟩
      refine ⟨rfl, .stored (hactive ▸ htop) (by rw [hactive, hload, hsnap]),
        hsnap.trans himage.symm, fun x => ?_⟩
      cases x with
      | a => exact .inr hload
      | b => exact .inl hkept

/-- **Start-up leaves the image to be found** however it ends, if what it has left in a bank is
the image from before, the factory image or nothing valid. -/
theorem Finds.init (htorn : ∀ x, S.valid (S.load c'.cells x) = true →
      S.load c'.cells x = S.load c.cells x ∨ S.load c'.cells x = S.factory)
    (hspoilt : Unspoilt (S := S) c.cells c'.cells) : S.Finds c'.cells image := by
  rcases hr : r with _ | ⟨status, ram⟩
  · cases h with
    | stored x htop hload =>
      obtain ⟨hcells, -⟩ := hS.loads (newest_of_top htop) hf.reads hinit
      rw [hcells]
      exact .stored x htop hload
    | fresh hfresh himage =>
      have hold : ∀ x, S.valid (S.load c.cells x) = false := hS.fresh_valid hfresh
      by_cases hnone : ∀ x, S.valid (S.load c'.cells x) = false
      · exact .fresh (hspoilt hfresh hnone) himage
      · obtain ⟨x, hx⟩ := not_forall.1 hnone
        rw [Bool.not_eq_false] at hx
        have hlazy : S.lazy = false := by
          refine Bool.eq_false_iff.2 fun hlazy => ?_
          obtain ⟨hcells, -⟩ := hS.loads_factory hlazy hfresh hf.reads hinit
          rw [hcells, hold] at hx
          cases hx
        obtain ⟨hsteps, -⟩ := hS.seeds hlazy hfresh hf.reads _ _ hinit
        have hkept := load_of_steps (x := .b) hS hsteps
        have hb : S.valid (S.load c'.cells .b) = false := by rw [hkept, hold]
        obtain rfl : x = .a := by
          cases x with
          | a => rfl
          | b => rw [hb] at hx; cases hx
        refine .stored .a ⟨hx, fun hv => ?_⟩ ?_
        · rw [Bank.other, hb] at hv
          cases hv
        · rcases htorn .a hx with hsame | hnew
          · rw [hsame, hold] at hx
            cases hx
          · exact hnew.trans himage.symm
  · obtain ⟨-, hlive, rfl, -⟩ := h.loaded hS hf hinit hr
    exact hlive.finds

end Init

/-! ## Mutations -/

/-- **A mutation** of a running store, to its end or cut off, as long as the generations last: the
store is live on what it says, or start-up will find the image from before or the complete new
one. -/
theorem Live.call {ram : S.Ram} {op : S.Op} {c c' : Chip} {r : Option (Bool × S.Ram)}
    (h : S.Live c.cells ram) (hgen : S.generation (S.snapshot ram) + 1 < 2 ^ 32)
    (hf : c.fates.Steady) (hexec : S.exec op ram c = (r, c'))
    (htorn : Torn (S := S) c.cells c'.cells (S.exec op ram c.calm).2.cells)
    (hspoilt : Unspoilt (S := S) c.cells c'.cells) :
    (∀ ok ram', r = some (ok, ram') → S.Live c'.cells ram') ∧
      ∃ ok ram' d, S.exec op ram c.calm = (some (ok, ram'), d) ∧
        (r = none → S.Finds c'.cells (S.snapshot ram) ∨ S.Finds c'.cells (S.snapshot ram')) := by
  cases hS.shape op ram with
  | idle ok ram₁ hx hsnap hactive =>
    rw [hx, pure_apply, Prod.mk.injEq] at hexec
    obtain ⟨rfl, rfl⟩ := hexec
    refine ⟨fun ok' ram' hr => ?_, ok, ram₁, c.calm, by rw [hx, pure_apply], nofun⟩
    obtain ⟨-, rfl⟩ := Prod.mk.inj (Option.some.inj hr)
    cases h with
    | stored htop hload => exact .stored (hactive ▸ htop) (by rw [hactive, hsnap, hload])
    | fresh hlazy hfresh hsn hac => exact .fresh hlazy hfresh (hsnap.trans hsn) (hactive.trans hac)
  | commits image hx =>
    have hnext : S.generation image = S.generation (S.snapshot ram) + 1 := by
      rw [hx.generation, Nat.mod_eq_of_lt hgen]
    obtain ⟨⟨ok, ram'⟩, d, hcalm⟩ := hx.driven.returns c.calm rfl
    refine ⟨fun ok' ram'' hr => ?_, ok, ram', d, hcalm, fun hr => ?_⟩
    · subst hr
      cases ok' with
      | true => exact (live_done hS hx h hnext hexec).1
      | false =>
        exact (live_failed hS hx h hf.reads hexec (harmless_of_steady hS hf hexec) hspoilt).1
    · subst hr
      rw [hcalm] at htorn
      have hsettled := settled_lost hS hx h le_rfl hnext hexec hcalm htorn hspoilt rfl rfl none
      refine (finds_of_settled hsettled).imp id fun ⟨image', himage', hfinds⟩ => ?_
      obtain rfl := Option.some.inj himage'
      exact hfinds

/-- **A mutation at the last generation** is lost when the device starts again: its image counts
from zero, and the one from before is in the other bank. -/
theorem Live.wrapped {ram ram' : S.Ram} {image : S.Image} {x : FlashM (Bool × S.Ram)} {c c' : Chip}
    (h : S.Live c.cells ram) (hgen : S.generation (S.snapshot ram) + 1 = 2 ^ 32)
    (hx : S.Commits ram image x) (hexec : x c = (some (true, ram'), c')) :
    ∃ y, S.Top c'.cells y ∧ S.load c'.cells y = S.snapshot ram := by
  obtain ⟨-, hload, -⟩ := hx.done _ _ _ hexec
  have hsteps := hx.driven.steps c
  rw [hexec] at hsteps
  have hkept := load_of_steps hS hsteps
  have hzero : S.generation image = 0 := by rw [hx.generation, hgen, Nat.mod_self]
  cases h with
  | stored htop hold =>
    refine ⟨S.active ram, htop.keep hkept fun _ => ?_, hkept.trans hold⟩
    rw [hload, hzero, hold]
    omega
  | fresh hlazy _ hsnap _ =>
    rw [hsnap, hS.factory_generation, if_pos hlazy] at hgen
    omega

end Lawful

/-! ## Stores that are not fresh -/

/-- A store with a valid image is not fresh. -/
theorem unspoilt_of_valid (hS : S.Lawful) {x : Bank} (h : S.valid (S.load m x) = true) :
    Unspoilt (S := S) m m' := fun hfresh => by
  rw [hS.fresh_valid hfresh] at h
  cases h

theorem unspoilt_of_left {x : Bank} (h : S.valid (S.load m' x) = true) :
    Unspoilt (S := S) m m' := fun _ hnone => by
  rw [hnone] at h
  cases h

/-! ## Programs that open a store -/

/-- From `c` on the program opens the store at most once, and otherwise keeps off its banks. -/
def Opens {α : Type} (S : Store) (x : FlashM α) (c : Chip) : Prop :=
  (∀ i ∈ S.span, (x c).2.cells i = c.cells i) ∨
  ∃ c₁, (∀ i ∈ S.span, c₁.cells i = c.cells i) ∧ c.fates.After c₁.fates ∧
    ∀ i ∈ S.span, (x c).2.cells i = (S.init c₁).2.cells i

section Opens

variable {α β : Type} {R : Set ℕ} {x : FlashM α} {f : α → FlashM β} {c : Chip}

/-- A program that keeps off the banks. -/
theorem Opens.of_driven (h : Driven R x) (hR : Disjoint S.span R) : S.Opens x c :=
  .inl fun i hi => (h.steps c).outside i (Set.disjoint_left.1 hR hi)

theorem Opens.ite {p : Prop} [Decidable p] {x y : FlashM α} (hx : S.Opens x c)
    (hy : S.Opens y c) : S.Opens (if p then x else y) c := by
  split
  · exact hx
  · exact hy

/-- One that opens the store behind such a program, -/
theorem Opens.behind (hx : Steps R c (x c).2) (hR : Disjoint S.span R)
    (hf : ∀ a c', S.Opens (f a) c') : S.Opens (x >>= f) c := by
  have hkept : ∀ i ∈ S.span, (x c).2.cells i = c.cells i := fun i hi =>
    hx.outside i (Set.disjoint_left.1 hR hi)
  rcases h : x c with ⟨_ | a, c'⟩
  · refine .inl fun i hi => ?_
    rw [bind_of_none h]
    rw [h] at hkept
    exact hkept i hi
  · rw [h] at hkept hx
    unfold Opens
    rw [bind_of_some h]
    rcases hf a c' with hsame | ⟨c₁, hcells, hfates, hinit⟩
    · exact .inl fun i hi => (hsame i hi).trans (hkept i hi)
    · exact .inr ⟨c₁, fun i hi => (hcells i hi).trans (hkept i hi), hx.fates.trans hfates, hinit⟩

theorem Opens.init : S.Opens S.init c := .inr ⟨c, fun _ _ => rfl, .refl _, fun _ _ => rfl⟩

/-- and one that goes on with one. -/
theorem Opens.bind (hx : S.Opens x c) (hR : Disjoint S.span R) (hf : ∀ a, Driven R (f a)) :
    S.Opens (x >>= f) c := by
  have hkept : ∀ i ∈ S.span, ((x >>= f) c).2.cells i = (x c).2.cells i := by
    intro i hi
    rcases h : x c with ⟨_ | a, c'⟩
    · rw [bind_of_none h]
    · rw [bind_of_some h]
      exact ((hf a).steps c').outside i (Set.disjoint_left.1 hR hi)
  rcases hx with hsame | ⟨c₁, hcells, hfates, hafter⟩
  · exact .inl fun i hi => (hkept i hi).trans (hsame i hi)
  · exact .inr ⟨c₁, hcells, hfates, fun i hi => (hkept i hi).trans (hafter i hi)⟩

variable (hS : S.Lawful) (hL : S.Local)
include hS hL

/-- When nothing goes wrong, a bank is left with what it held or the factory image. -/
theorem Opens.calm (hx : S.Opens x c) (h : S.Finds c.cells image) (hc : c.fates = {}) (y : Bank) :
    S.load (x c).2.cells y = S.load c.cells y ∨ S.load (x c).2.cells y = S.factory := by
  rcases hx with hsame | ⟨c₁, hcells, hfates, hafter⟩
  · exact .inl (load_eq hS hsame y)
  · rw [load_eq hS hafter, ← load_eq hS hcells]
    have hc₁ : c₁.fates = {} := (hc ▸ hfates).of_nil
    obtain ⟨⟨status, ram⟩, c', hinit⟩ := hS.init_driven.returns c₁ hc₁
    obtain ⟨-, -, -, hloads⟩ := (h.congr hS hL hcells).loaded hS (hc₁ ▸ Fates.steady_nil) hinit rfl
    rw [hinit]
    exact hloads y

/-- A fresh store is opened, or it is still fresh. -/
theorem Opens.unspoilt (hx : S.Opens x c) (hc : c.fates = {}) :
    Unspoilt (S := S) c.cells (x c).2.cells := by
  intro hfresh hnone
  rcases hx with hsame | ⟨c₁, hcells, hfates, hafter⟩
  · exact hL.congr hsame hfresh
  · have hc₁ : c₁.fates = {} := (hc ▸ hfates).of_nil
    obtain ⟨⟨status, ram⟩, c', hinit⟩ := hS.init_driven.returns c₁ hc₁
    have hfinds : S.Finds c₁.cells S.factory := .fresh (hL.congr hcells hfresh) rfl
    obtain ⟨-, hlive, -⟩ := hfinds.loaded hS (hc₁ ▸ Fates.steady_nil) hinit rfl
    rw [hinit] at hafter
    cases hlive with
    | stored htop _ =>
      have hvalid := htop.1
      rw [← load_eq hS hafter, hnone] at hvalid
      cases hvalid
    | fresh _ hfresh' _ _ => exact hL.congr hafter hfresh'

/-- **A program that opens the store leaves its image to be found** however it ends, if what it
has left in a bank is torn. -/
theorem Opens.finds (hx : S.Opens x c) (hcalm : S.Opens x c.calm) (h : S.Finds c.cells image)
    (hf : c.fates.Steady) (htorn : Torn (S := S) c.cells (x c).2.cells (x c.calm).2.cells)
    (hspoilt : Unspoilt (S := S) c.cells (x c).2.cells) : S.Finds (x c).2.cells image := by
  have hdone := hcalm.calm hS hL h rfl
  rcases hx with hsame | ⟨c₁, hcells, hfates, hafter⟩
  · exact h.congr hS hL hsame
  · refine (Finds.init hS (h.congr hS hL hcells) (hf.after hfates) rfl (fun y hy => ?_)
      fun hfresh hnone => ?_).congr hS hL hafter
    · rw [← load_eq hS hafter] at hy ⊢
      rw [load_eq hS hcells]
      rcases htorn y hy with hold | hnew
      · exact .inl hold
      · rw [hnew]
        exact hdone y
    · have hfresh' : S.Fresh c.cells := hL.congr (fun i hi => (hcells i hi).symm) hfresh
      refine hL.congr (fun i hi => (hafter i hi).symm) (hspoilt hfresh' fun y => ?_)
      rw [load_eq hS hafter]
      exact hnone y

end Opens

end Store

end TwoBank
