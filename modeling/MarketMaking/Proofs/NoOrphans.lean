import Mathlib
import MarketMaking.Proofs.Desk

/-! No order is orphaned. Whatever happens at a desk, each resting order is tracked or was listed by
the last fetch that succeeded, and the next one that succeeds brings each of them to light once. -/

namespace MarketMaking
open Process

variable {n : Nat} {m : Maker} {f h g : Floor τ} {listing : List Order}

theorem filter_key [BEq κ] [LawfulBEq κ] {key : α → κ} {all : List α} (unique : (all.map key).Nodup)
    (here : a ∈ all) : all.filter (key · == key a) = [a] := by
  induction all with
  | nil => cases here
  | cons b rest ih =>
    obtain ⟨absent, unique⟩ := List.nodup_cons.mp unique
    rcases List.mem_cons.mp here with rfl | later
    · have clear : ∀ c ∈ rest, ¬ (key c == key a) = true := by
        intro c other same
        exact absent (List.mem_map.mpr ⟨c, other, beq_iff_eq.mp same⟩)
      simp [List.filter_eq_nil_iff.mpr clear]
    · have other : key b ≠ key a := fun same => absent (same ▸ List.mem_map_of_mem later)
      simp [other, ih unique later]

theorem Sound.tracked_or_listed (sound : Sound n since m f) (here : r ∈ f.exchange.resting) :
    (∃ e ∈ m.tracker.entries, r.order.clientId = some e.id ∧ e.order = r.order.asSent) ∨
      r.order ∈ f.listed := by
  rcases sound.covered r here with ⟨e, tracked, same, -⟩ | ⟨-, listed⟩
  · exact .inl ⟨e, tracked, sound.known.clientId_of_entry tracked same, same⟩
  · exact .inr listed

theorem Merged.once {existing : List Order} (merged : Merged existing m f)
    (here : r ∈ f.exchange.resting) :
    ∃ o, existing.filter (·.clientId == r.order.clientId) = [o] ∧ o.asSent = r.order.asSent := by
  obtain ⟨o, believed, same⟩ := merged.shown r here
  have own := Order.clientId_of_asSent same
  exact ⟨o, own ▸ filter_key merged.clientIds believed, same⟩

namespace Desk

def AllInSight (d : Desk τ) : Prop :=
  ∀ r ∈ d.floor.exchange.resting,
    (∃ e ∈ d.maker.tracker.entries, r.order.clientId = some e.id ∧ e.order = r.order.asSent) ∨
      r.order ∈ d.floor.listed

-- If a fetch succeeds now, the merged view has each order in it that rests then, and has it once.
def ShowsEachOnce (w : Surroundings τ) (d : Desk τ) : Prop :=
  ∀ listing g, (d.maker.fetch w.venue).from d.floor = (some (.ok listing), g) →
    (g.exchange.resting.map (·.order.clientId)).Nodup ∧
      ∀ r ∈ g.exchange.resting, ∃ o,
        (d.maker.tracker.existing listing).1.filter (·.clientId == r.order.clientId) = [o] ∧
          o.asSent = r.order.asSent

theorem no_orphans {d : Desk τ} (w : Surroundings τ) {steps : List Step} (opening : d.Opening n)
    (fits : ∀ s ∈ steps, s.Fits n) :
    (d.run w steps).AllInSight ∧ (d.run w steps).ShowsEachOnce w := by
  have sound : (d.run w steps).Sound n := sound_run opening.sound fits
  refine ⟨fun r here => sound.tracked_or_listed here, fun listing g fetched => ?_⟩
  obtain ⟨h, before, lists, merged⟩ := MarketMaking.Sound.fetched sound w fetched
  have keyed := (sound.drifts before).keyed.age lists.resting lists.issued
  exact ⟨keyed.clientIds, fun r here => merged.once here⟩

theorem no_orphans_of_fill_and_failure :
    let steps := [.pulse (.ok (.live (spread 99 101))) .zero, .disturb (.failSubmissions 9),
      .pulse (.ok (.live (spread 98 102))) .zero, .disturb (.fill ⟨0⟩)]
    let now := (small []).run .scripted steps
    (small []).Opening 2 ∧ (∀ s ∈ steps, s.Fits 2) ∧ now.floor.exchange.resting.length = 1 ∧
      now.maker.tracker.length = 4 ∧ now.AllInSight ∧ now.ShowsEachOnce .scripted := by
  intro steps now
  have fits : ∀ s ∈ steps, s.Fits 2 := by
    simp [steps, Step.Fits, quoted_spread]
  exact ⟨small_opening [], fits, by cbv, by cbv, no_orphans .scripted (small_opening []) fits⟩

end Desk
end MarketMaking
