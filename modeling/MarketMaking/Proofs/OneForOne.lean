import Mathlib
import MarketMaking.Proofs.Assignment
import MarketMaking.Proofs.Desk

/-! A desk never quotes too much: after a completed pulse no two resting orders stand for the same
desired order, whatever happened before. -/

namespace MarketMaking
open Reconciliation

def OneForOne (tolerance : Decimal) (live desired : List Order) : Prop :=
  ∃ place : Fin live.length → Fin desired.length, Function.Injective place ∧
    ∀ i, StandsFor tolerance (live.get i) (desired.get (place i))

theorem Turn.oneForOne {m : Maker} {f : Floor τ} {fade : Fade}
    (turn : Turn fade m f desired incentives receipt listing plan h g k m' f')
    (sound : Sound n 1 m f) (fits : Fits n desired)
    (reconciler : m.reconciler = .tolerance ratio) :
    OneForOne ratio.abs f'.exchange.orders desired := by
  have observed := turn.observed sound
  have merged := turn.merged sound
  have unique : (f'.exchange.orders.map (·.clientId)).Nodup := by
    simpa [Exchange.orders, Function.comp_def] using (turn.sound sound fits).keyed.clientIds
  obtain ⟨kept, keeps⟩ := Reconciler.plan_keeps (reconciler ▸ turn.planned)
  have serves : ∀ i : Fin f'.exchange.orders.length, ∃ (j : Fin desired.length) (id : ClientId),
      (f'.exchange.orders.get i).clientId = some id ∧
        Serves m.draws (m.tracker.existing listing).1 desired kept id j ∧
        StandsFor ratio.abs (f'.exchange.orders.get i) (desired.get j) := by
    intro i
    obtain ⟨r, here, same⟩ := List.mem_map.mp (List.get_mem f'.exchange.orders i)
    obtain ⟨id, j, d, own, atJ, serves, stands⟩ := turn.serves observed merged keeps r here
    obtain ⟨short, rfl⟩ := List.getElem?_eq_some_iff.mp atJ
    exact ⟨⟨j, short⟩, id, same ▸ own, serves, same ▸ stands⟩
  choose place id own serves stands using serves
  refine ⟨place, fun a b same => ?_, stands⟩
  have ids : id a = id b := Serves.id_eq keeps.pairs (same ▸ serves a) (serves b)
  have atA : (f'.exchange.orders.map (·.clientId))[a.val]? = some (some (id a)) := by
    simpa using own a
  have atB : (f'.exchange.orders.map (·.clientId))[b.val]? = some (some (id a)) := by
    simpa [ids] using own b
  exact Fin.ext (position_unique unique atA atB)

namespace Desk

theorem one_for_one_of_completed {d : Desk τ} (w : Surroundings τ) {steps : List Step}
    {quote : Except ProducerError Quote} {incentives : Decimal} {receipt : Option Receipt}
    (opening : d.Opening n) (fits : ∀ s ∈ steps, s.Fits n) (quoted : Quoted n quote)
    (reconciler : d.maker.reconciler = .tolerance ratio)
    (completed : ((d.run w steps).maker.pulse w.venue quote incentives (d.run w steps).floor).1 =
      .ok (.completed receipt)) :
    ∃ desired, quote = .ok (.live desired) ∧
      OneForOne ratio.abs
        ((d.run w steps).step w (.pulse quote incentives)).floor.exchange.orders desired := by
  have sound : (d.run w steps).Sound n := sound_run opening.sound fits
  obtain ⟨desired, rfl, listing, plan, h, g, k, log, turn, -⟩ :=
    MarketMaking.Sound.completed sound quoted w.fades_thinning completed
  have same := (setup_run w d steps).reconciler.trans reconciler
  exact ⟨desired, rfl, turn.oneForOne sound (quoted _ rfl) same⟩

-- A failed submission leaves two entries without orders, and the quote moves on twice.
theorem one_for_one_after_failed_submission :
    let steps := [.disturb (.failSubmissions 2), .pulse (.ok (.live (spread 99 101))) .zero,
      .pulse (.ok (.live (spread 98 102))) .zero]
    let now := (small []).run .scripted steps
    let quote := .ok (.live (spread 98 103))
    (small []).Opening 2 ∧ (∀ s ∈ steps, s.Fits 2) ∧ Quoted 2 quote ∧
      (now.maker.pulse Surroundings.scripted.venue quote .zero now.floor).1 =
        .ok (.completed (some ⟨"paper-tx-4", 1, 1, 1, 1⟩)) ∧
      ∃ desired, quote = .ok (.live desired) ∧
        OneForOne (Decimal.ofWord 1 3).abs
          (now.step .scripted (.pulse quote .zero)).floor.exchange.orders desired := by
  intro steps now quote
  have fits : ∀ s ∈ steps, s.Fits 2 := by simp [steps, Step.Fits, quoted_spread]
  have quoted : Quoted 2 quote := quoted_spread 98 103
  have completed : (now.maker.pulse Surroundings.scripted.venue quote .zero now.floor).1 =
      .ok (.completed (some ⟨"paper-tx-4", 1, 1, 1, 1⟩)) := by cbv
  exact ⟨small_opening [], fits, quoted, completed,
    one_for_one_of_completed .scripted (small_opening []) fits quoted rfl completed⟩

end Desk
end MarketMaking
