import HealthCheck.Lib.TwoBank

/-!
# What a two-bank store holds

A property of images that the factory image has and that every mutation keeps is a property of
whatever the banks hold and of whatever a running store has loaded. No count of the mutations
enters: it does not matter here which of two images start-up takes.

* `Preserves` — what a program keeps of the cells when nothing interrupts it.
* `Store.Images`, `Store.Stocked`, `Store.Current` — the property in the banks, before start-up
  and of a running store.
* `Store.Stocked.boot`, `Store.Current.call` — start-up and mutations that nothing interrupts.
* `Store.Images.torn`, `Store.Images.wiped` — what is left when something does, or when banks are
  erased.
-/

namespace Nor

variable {α β : Type} {Inv : Cells → Prop}

/-- When nothing goes wrong, the program keeps a property of the cells. -/
def Preserves (Inv : Cells → Prop) (x : FlashM α) : Prop :=
  ∀ c : Chip, c.fates = {} → Inv c.cells → Inv (x c).2.cells ∧ (x c).2.fates = {}

theorem Preserves.pure (a : α) : Preserves Inv (Pure.pure a : FlashM α) :=
  fun _ hc hm => ⟨hm, hc⟩

theorem Preserves.bind {x : FlashM α} {f : α → FlashM β} (hx : Preserves Inv x)
    (hf : ∀ a, Preserves Inv (f a)) : Preserves Inv (x >>= f) := by
  intro c hc hm
  obtain ⟨hinv, hfates⟩ := hx c hc hm
  rcases h : x c with ⟨_ | a, c'⟩
  · rw [bind_of_none h]
    rw [h] at hinv hfates
    exact ⟨hinv, hfates⟩
  · rw [bind_of_some h]
    rw [h] at hinv hfates
    exact hf a c' hfates hinv

theorem Preserves.ite {p : Prop} [Decidable p] {x y : FlashM α} (hx : Preserves Inv x)
    (hy : Preserves Inv y) : Preserves Inv (if p then x else y) := by
  split
  · exact hx
  · exact hy

end Nor

namespace TwoBank

open Nor

namespace Store

variable {S : Store} {P : S.Image → Prop} {m m' : Cells} {ram : S.Ram}

/-- The cells of both banks. -/
def span (S : Store) : Set ℕ := S.region .a ∪ S.region .b

/-- Freshness is about the banks only, and a lazy store without a valid image is fresh. -/
structure Local (S : Store) : Prop where
  congr : ∀ {m m' : Cells}, (∀ i ∈ S.span, m' i = m i) → S.Fresh m → S.Fresh m'
  lazy : S.lazy = true → S.Plain

/-- The valid images in the banks have the property. -/
def Images (S : Store) (P : S.Image → Prop) (m : Cells) : Prop :=
  ∀ x, S.valid (S.load m x) = true → P (S.load m x)

/-- Start-up finds such an image, or a store nothing was ever written to. -/
structure Stocked (S : Store) (P : S.Image → Prop) (m : Cells) : Prop where
  images : S.Images P m
  found : (∃ x, S.valid (S.load m x) = true) ∨ S.Fresh m

/-- So is a running store, and so is its snapshot. -/
structure Current (S : Store) (P : S.Image → Prop) (m : Cells) (ram : S.Ram) : Prop where
  images : S.Images P m
  snapshot : P (S.snapshot ram)
  active : S.valid (S.load m (S.active ram)) = true ∨ S.lazy = true

/-- A bank is as it was, or erased. -/
def Wiped (S : Store) (m m' : Cells) : Prop :=
  ∀ x, (∀ i ∈ S.region x, m' i = m i) ∨ ∀ i ∈ S.region x, m' i = 0xFF

/-- When nothing goes wrong a mutation keeps the property, and one that is refused the bank. -/
def Keeps (S : Store) (P : S.Image → Prop) (op : S.Op) (ram : S.Ram) : Prop :=
  ∀ c : Chip, c.fates = {} → ∀ ok ram' c', S.exec op ram c = (some (ok, ram'), c') →
    P (S.snapshot ram') ∧ (ok = false → S.active ram' = S.active ram)

variable (hS : S.Lawful)
include hS

theorem load_eq (h : ∀ i ∈ S.span, m' i = m i) (x : Bank) : S.load m' x = S.load m x :=
  hS.load_congr fun i hi => h i (by cases x; exacts [.inl hi, .inr hi])

/-- A mutation writes to the banks only. -/
theorem driven_exec (op : S.Op) (ram : S.Ram) : Driven S.span (S.exec op ram) := by
  cases hS.shape op ram with
  | idle ok ram' hx => exact hx ▸ .pure _
  | commits image hx =>
    refine hx.driven.mono ?_
    cases (S.active ram).other with
    | a => exact Set.subset_union_left
    | b => exact Set.subset_union_right

theorem stocked_erased : S.Stocked P fun _ => 0xFF where
  images x hx := by
    rw [hS.fresh_valid hS.fresh_erased x] at hx
    cases hx
  found := .inr hS.fresh_erased

/-- The rest of the chip does not matter. -/
theorem Images.congr (h : S.Images P m) (hm : ∀ i ∈ S.span, m' i = m i) : S.Images P m' := by
  intro x hx
  rw [load_eq hS hm] at hx ⊢
  exact h x hx

theorem Stocked.congr (hL : S.Local) (h : S.Stocked P m) (hm : ∀ i ∈ S.span, m' i = m i) :
    S.Stocked P m' where
  images := h.images.congr hS hm
  found := h.found.imp (fun ⟨x, hx⟩ => ⟨x, by rwa [load_eq hS hm]⟩) (hL.congr hm)

theorem Current.congr (h : S.Current P m ram) (hm : ∀ i ∈ S.span, m' i = m i) :
    S.Current P m' ram where
  images := h.images.congr hS hm
  snapshot := h.snapshot
  active := h.active.imp_left fun hx => by rwa [load_eq hS hm]

omit hS in
theorem Current.stocked (hL : S.Local) (h : S.Current P m ram) : S.Stocked P m where
  images := h.images
  found := by
    by_cases hfound : ∃ x, S.valid (S.load m x) = true
    · exact .inl hfound
    · have hnone : ∀ x, S.valid (S.load m x) = false := fun x =>
        Bool.eq_false_iff.2 fun hx => hfound ⟨x, hx⟩
      refine .inr (h.active.elim (fun hactive => ?_) fun hlazy => hL.lazy hlazy _ hnone)
      exact absurd ⟨_, hactive⟩ hfound

omit hS in
/-- Start-up takes a bank when there is one to take. -/
theorem newest_ne_none (h : ∃ x, S.valid (S.load m x) = true) : ∃ x, S.newest m = some x := by
  by_contra hnone
  obtain ⟨x, hx⟩ := h
  have hall : S.newest m = none := Option.eq_none_iff_forall_ne_some.2 fun y hy => hnone ⟨y, hy⟩
  unfold Store.newest TwoBank.newest at hall
  split at hall
  · cases hall
  · rename_i ha
    split at hall
    · cases hall
    · rename_i hb
      cases x <;> simp_all

/-- **Start-up loads an image with the property**, or the factory image. -/
theorem Stocked.boot (hfactory : P S.factory) {c : Chip} (hc : c.fates = {})
    (h : S.Stocked P c.cells) :
    ∃ ram c', S.init c = (some (.ok, ram), c') ∧ S.Current P c'.cells ram := by
  have hreads : c.fates.ReadsSucceed := hc ▸ Fates.steady_nil.reads
  obtain ⟨⟨status, ram⟩, c', hinit⟩ := hS.init_driven.returns c hc
  refine ⟨ram, c', ?_⟩
  by_cases hfound : ∃ x, S.valid (S.load c.cells x) = true
  · obtain ⟨x, hx⟩ := newest_ne_none hfound
    obtain ⟨hcells, hram⟩ := hS.loads hx hreads hinit
    obtain ⟨rfl, hsnapshot, hactive⟩ := hram _ _ rfl
    have hvalid : S.valid (S.load c.cells x) = true := valid_of_newest hx
    refine ⟨hinit, by rw [hcells]; exact h.images, ?_, .inl ?_⟩
    · rw [hsnapshot]
      exact h.images x hvalid
    · rw [hactive, hcells]
      exact hvalid
  · have hfresh := h.found.resolve_left hfound
    cases hlazy : S.lazy with
    | true =>
      obtain ⟨hcells, hram⟩ := hS.loads_factory hlazy hfresh hreads hinit
      obtain ⟨rfl, hsnapshot, -⟩ := hram _ _ rfl
      exact ⟨hinit, by rw [hcells]; exact h.images, by rwa [hsnapshot], .inr hlazy⟩
    | false =>
      obtain ⟨hsteps, -, hdone, hok⟩ := hS.seeds hlazy hfresh hreads _ _ hinit
      obtain rfl := hok (hc ▸ Fates.steady_nil) _ _ rfl
      obtain ⟨-, hvalid, hload, hsnapshot, hactive⟩ := hdone _ rfl
      have hother : S.load c'.cells .b = S.load c.cells .b :=
        load_of_steps hS (x := .b) hsteps
      refine ⟨hinit, fun x hx => ?_, by rwa [hsnapshot], .inl ?_⟩
      · cases x with
        | a =>
          rw [hload]
          exact hfactory
        | b =>
          rw [hother, hS.fresh_valid hfresh] at hx
          cases hx
      · rw [hactive, hload]
        exact hvalid

/-- The banks behind a mutation that nothing interrupts. -/
theorem Images.call {op : S.Op} {c : Chip} (hc : c.fates = {}) (h : S.Images P c.cells)
    (hkeeps : ∀ ram' c', S.exec op ram c = (some (true, ram'), c') → P (S.snapshot ram')) :
    S.Images P (S.exec op ram c).2.cells := by
  cases hS.shape op ram with
  | idle ok ram' hx hsnapshot hactive =>
    rw [hx]
    exact h
  | commits image hx =>
    have hcalm : c.calm = c := by
      cases c
      cases hc
      rfl
    obtain ⟨ok, ram', c', hexec, hload, hbad⟩ := hx.calm c
    rw [hcalm] at hexec
    have hsteps := hx.driven.steps c
    rw [hexec] at hsteps ⊢
    have hkept : S.load c'.cells (S.active ram) = S.load c.cells (S.active ram) :=
      load_of_steps hS hsteps
    intro x hvalid
    rcases Bank.eq_or_other x (S.active ram) with rfl | rfl
    · rw [hkept] at hvalid ⊢
      exact h _ hvalid
    · cases ok with
      | true =>
        obtain ⟨-, -, himage, -⟩ := hx.done _ _ _ hexec
        rw [hload, ← himage]
        exact hkeeps _ _ hexec
      | false =>
        rw [hload, hbad rfl] at hvalid
        cases hvalid

/-- **A mutation keeps the property.** -/
theorem Current.call {op : S.Op} {c : Chip} (hc : c.fates = {}) (h : S.Current P c.cells ram)
    (hkeeps : S.Keeps P op ram) :
    ∃ ok ram' c', S.exec op ram c = (some (ok, ram'), c') ∧ S.Current P c'.cells ram' := by
  have himages := h.images.call hS hc fun ram' c' hexec => (hkeeps c hc _ _ _ hexec).1
  cases hS.shape op ram with
  | idle ok ram' hx hsnapshot hactive =>
    refine ⟨ok, ram', c, by rw [hx]; rfl, h.images, ?_, ?_⟩
    · rw [hsnapshot]
      exact h.snapshot
    · rw [hactive]
      exact h.active
  | commits image hx =>
    have hcalm : c.calm = c := by
      cases c
      cases hc
      rfl
    obtain ⟨ok, ram', c', hexec, hload, -⟩ := hx.calm c
    rw [hcalm] at hexec
    rw [hexec] at himages
    obtain ⟨hsnapshot, hfailed⟩ := hkeeps c hc _ _ _ hexec
    refine ⟨ok, ram', c', hexec, himages, hsnapshot, ?_⟩
    cases ok with
    | true =>
      obtain ⟨hvalid, -, -, hactive⟩ := hx.done _ _ _ hexec
      rw [hactive, hload]
      exact .inl hvalid
    | false =>
      have hsteps := hx.driven.steps c
      rw [hexec] at hsteps
      have hkept : S.load c'.cells (S.active ram) = S.load c.cells (S.active ram) :=
        load_of_steps hS hsteps
      rw [hfailed rfl, hkept]
      exact h.active

/-! ## Erased banks -/

omit hS in
theorem Wiped.of_same (h : ∀ i ∈ S.span, m' i = m i) : S.Wiped m m' := fun x =>
  .inl fun i hi => h i (by cases x; exacts [.inl hi, .inr hi])

omit hS in
theorem Wiped.trans {m'' : Cells} (h : S.Wiped m m') (h' : S.Wiped m' m'') : S.Wiped m m'' := by
  intro x
  rcases h' x with hsame | hblank
  · refine (h x).imp (fun hx i hi => (hsame i hi).trans (hx i hi)) fun hx i hi => ?_
    exact (hsame i hi).trans (hx i hi)
  · exact .inr hblank

/-- An erased bank holds no valid image. -/
theorem Images.wiped (h : S.Images P m) (hm : S.Wiped m m') : S.Images P m' := by
  intro x hx
  rcases hm x with hsame | hblank
  · rw [hS.load_congr hsame] at hx ⊢
    exact h x hx
  · rw [hS.load_congr (m := fun _ => 0xFF) hblank, hS.fresh_valid hS.fresh_erased] at hx
    cases hx

/-! ## Interruptions -/

omit hS in
/-- What an interruption leaves has the property too, when it is torn. -/
theorem Images.torn {done : Cells} (h : S.Images P m) (hdone : S.Images P done)
    (htorn : Torn (S := S) m m' done) : S.Images P m' := by
  intro x hx
  rcases htorn x hx with hold | hnew
  · rw [hold] at hx ⊢
    exact h x hx
  · rw [hnew] at hx ⊢
    exact hdone x hx

end Store

end TwoBank
