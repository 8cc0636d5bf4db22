import HealthCheck.FactoryResetRuns
import HealthCheck.Lib.StoreContents

/-!
# A factory reset and the banks of a store

A store of the device knows nothing of the factory reset, and the factory reset nothing of what it
erases. Between them there are sectors: those of a bank are erased as a whole or not at all.

* `Wipes` — a program that leaves a bank alone or erases it, as start-up and the reset do.
* `recover_ok` — when start-up gets behind the reset, all sectors are as they were or all erased.
-/

namespace HealthCheck.FactoryReset

open Nor hiding read driven_read read_ok read_cases observes_read uncut_read
open FlashLayout TwoBank W25q64

/-- Each bank is a sector. -/
def BanksAreSectors (S : Store) : Prop :=
  ∀ x, ∃ a, a % sectorSize = 0 ∧ S.region x = Set.Ico a (a + sectorSize)

/-- When nothing goes wrong, the program leaves a bank as it was, or erases it. -/
def Wipes (S : Store) {α : Type} (x : FlashM α) : Prop :=
  ∀ c : Chip, c.fates = {} → S.Wiped c.cells (x c).2.cells ∧ (x c).2.fates = {}

variable {S : Store}

theorem Wipes.of_driven {α : Type} {x : FlashM α} {R : Set ℕ} (h : Driven R x)
    (hR : Disjoint S.span R) : Wipes S x := fun c hc =>
  ⟨.of_same fun i hi => (h.steps c).outside i (Set.disjoint_left.1 hR hi),
    (hc ▸ (h.steps c).fates).of_nil⟩

/-- Whatever the banks held before. -/
theorem wipes_iff {α : Type} {x : FlashM α} : Wipes S x ↔ ∀ m, Preserves (S.Wiped m) x :=
  ⟨fun h _ c hc hm => ⟨hm.trans (h c hc).1, (h c hc).2⟩,
    fun h c hc => h c.cells c hc (.of_same fun _ _ => rfl)⟩

/-- What erasing a bank keeps, the program keeps. -/
theorem Wipes.preserves {α : Type} {x : FlashM α} {Inv : Cells → Prop} (h : Wipes S x)
    (hInv : ∀ {m m'}, Inv m → S.Wiped m m' → Inv m') : Preserves Inv x := fun c hc hm =>
  ⟨hInv hm (h c hc).1, (h c hc).2⟩

theorem Wipes.pure {α : Type} (a : α) : Wipes S (Pure.pure a : FlashM α) :=
  wipes_iff.2 fun _ => .pure a

theorem Wipes.bind {α β : Type} {x : FlashM α} {f : α → FlashM β} (hx : Wipes S x)
    (hf : ∀ a, Wipes S (f a)) : Wipes S (x >>= f) :=
  wipes_iff.2 fun m => (wipes_iff.1 hx m).bind fun a => wipes_iff.1 (hf a) m

theorem Wipes.ite {α : Type} {p : Prop} [Decidable p] {x y : FlashM α} (hx : Wipes S x)
    (hy : Wipes S y) : Wipes S (if p then x else y) :=
  wipes_iff.2 fun m => (wipes_iff.1 hx m).ite (wipes_iff.1 hy m)

/-- A sector is a bank, or none of its cells is in a bank. -/
theorem wipes_eraseSector (hS : BanksAreSectors S) {a : ℕ} (haligned : a % sectorSize = 0)
    (hbelow : a < capacityBytes) : Wipes S (eraseSector a) := by
  rintro ⟨m, fates, log⟩ rfl
  rw [eraseSector_calm m log [] haligned hbelow]
  refine ⟨fun x => ?_, rfl⟩
  obtain ⟨b, hb, hregion⟩ := hS x
  rw [hregion]
  by_cases hsame : a = b
  · exact .inr fun i hi => blank_apply (hsame ▸ hi.1) (hsame ▸ hi.2)
  · refine .inl fun i hi => ?_
    show blank a sectorSize m i = m i
    exact overwrite_outside fun hi' => hsame (sector_unique haligned hb hi' hi)

theorem wipes_eraseSectors (hS : BanksAreSectors S) {sectors : List ℕ}
    (h : ∀ a ∈ sectors, a % sectorSize = 0 ∧ a < capacityBytes) :
    Wipes S (eraseSectors sectors) := by
  induction sectors with
  | nil => exact .pure _
  | cons a sectors ih =>
    obtain ⟨haligned, hbelow⟩ := h a List.mem_cons_self
    have hverify : Wipes S (verifyErased a) :=
      .of_driven (driven_verifyChunks ∅ a _) (Set.disjoint_empty _)
    exact (wipes_eraseSector hS haligned hbelow).bind fun _ => (Wipes.pure _).ite
      (hverify.bind fun _ => (Wipes.pure _).ite (ih fun b hb => h b (List.mem_cons_of_mem a hb)))

theorem wipes_erasePersistentData (hS : BanksAreSectors S) : Wipes S erasePersistentData := by
  rw [erasePersistentData_eq]
  exact (wipes_eraseSectors hS aligned_ownedSectors).bind fun _ => (Wipes.pure _).ite
    (wipes_eraseSector hS (by decide) (by decide))

theorem wipes_recover (hS : BanksAreSectors S) : Wipes S recover :=
  (Wipes.of_driven driven_markerValid (Set.disjoint_empty _)).bind fun _ =>
    (wipes_erasePersistentData hS).ite (.pure _)

theorem wipes_execute (hS : BanksAreSectors S) (hmarker : Disjoint S.span markerRegion)
    (locked : Bool) : Wipes S (execute locked) :=
  (Wipes.pure _).ite ((Wipes.of_driven driven_arm hmarker).bind fun _ =>
    (Wipes.pure _).ite ((wipes_erasePersistentData hS).bind fun _ => .pure _))

/-- Start-up gets behind the reset when there is nothing to do, or with everything erased. -/
theorem recover_ok {c c' : Chip} (h : recover c = (some .ok, c')) :
    c'.cells = c.cells ∨ AllErased c'.cells := by
  obtain ⟨found, c₁, hfound, h⟩ := bind_eq_some.1 h
  have hsteps := driven_markerValid.steps c
  rw [hfound] at hsteps
  have hcells : c₁.cells = c.cells := funext fun i => hsteps.outside i (Set.notMem_empty i)
  cases found with
  | false =>
    simp only [Bool.false_eq_true, if_false, pure_apply, Prod.mk.injEq] at h
    exact .inl (h.2 ▸ hcells)
  | true =>
    rw [if_pos rfl, erasePersistentData_eq] at h
    obtain ⟨status, c₂, herase, h⟩ := bind_eq_some.1 h
    split at h
    · cases h
    · rename_i hstatus
      rw [not_ne_iff] at hstatus
      subst hstatus
      have hall : AllErased c₂.cells :=
        eraseSectors_ok nodup_ownedSectors (fun a ha => (aligned_ownedSectors a ha).1) herase
      have houtside := ((driven_eraseSector factoryResetMarkerSector).steps c₂).outside
      rw [h] at houtside
      exact .inr (hall.congr houtside)

end HealthCheck.FactoryReset
