import MarketMaking.Proofs.Turn

/-! A desk: a maker and the floor on which it alone trades. Whatever happens there, one thing after
the other, what was sound on an empty exchange stays sound (`sound_run`). -/

namespace MarketMaking

structure Desk (τ : Type) where
  maker : Maker
  floor : Floor τ

namespace Desk

inductive Step where
  | pulse (quote : Except ProducerError Quote) (incentives : Decimal)
  | sweep
  | disturb (d : Disturbance)

def Step.Fits (n : Nat) : Step → Prop
  | .pulse quote _ => Quoted n quote
  | .sweep | .disturb _ => True

def step (w : Surroundings τ) (d : Desk τ) : Step → Desk τ
  | .pulse quote incentives =>
    let (_, maker, floor) := d.maker.pulse w.venue quote incentives d.floor
    ⟨maker, floor⟩
  | .sweep =>
    let (_, maker, floor) := d.maker.cancelAll w.venue d.floor
    ⟨maker, floor⟩
  | .disturb e => { d with floor := d.floor.disturb [e] }

def run (w : Surroundings τ) (d : Desk τ) (steps : List Step) : Desk τ := steps.foldl (step w) d

-- An exchange without orders, and a tracker with room for all that is sent while an order can be
-- missing from the listings.
structure Opening (n : Nat) (d : Desk τ) : Prop where
  empty : d.floor.exchange.resting = []
  untracked : d.maker.tracker.entries = []
  lag_le : d.floor.exchange.lag ≤ d.maker.tracker.config.maxUnconfirmed.toNat
  room : n * (d.maker.tracker.config.maxUnconfirmed.toNat + 1) ≤
    d.maker.tracker.config.maxTracked.toNat
  draws : d.maker.draws.Nodup

def Sound (n : Nat) (d : Desk τ) : Prop :=
  MarketMaking.Sound n 1 d.maker d.floor

variable {n : Nat} {w : Surroundings τ} {d : Desk τ} {steps : List Step}

theorem Opening.sound (opening : d.Opening n) : d.Sound n where
  lag_le := opening.lag_le
  room := opening.room
  draws := opening.draws
  untracked := by simp [Tracker.ids, opening.untracked]
  unused := by simp [opening.empty]
  ids := by simp [Tracker.ids, opening.untracked]
  entry := by simp [opening.untracked]
  young := by simp [opening.untracked]
  crowd := by simp [Tracker.Crowd, opening.untracked]
  keyed := by constructor <;> simp [opening.empty]
  covered := by simp [opening.empty]

theorem sound_step (sound : d.Sound n) {s : Step} (fits : s.Fits n) : (d.step w s).Sound n := by
  cases s with
  | pulse quote incentives => exact MarketMaking.Sound.pulse sound w fits incentives
  | sweep => exact MarketMaking.Sound.cancelAll sound w
  | disturb e =>
    have drifts : d.floor.Drifts .thinning (d.floor.disturb [e]) :=
      Floor.disturb_drifts (fun _ _ x => x.resting_disturb_sublist _) d.floor
    exact MarketMaking.Sound.drifts sound drifts

theorem sound_run (sound : d.Sound n) (fits : ∀ s ∈ steps, s.Fits n) : (d.run w steps).Sound n := by
  induction steps generalizing d with
  | nil => exact sound
  | cons s rest ih =>
    exact ih (sound_step sound (fits s List.mem_cons_self))
      fun t later => fits t (List.mem_cons_of_mem s later)

theorem setup_step (w : Surroundings τ) (d : Desk τ) (s : Step) :
    d.maker.SameSetup (d.step w s).maker := by
  cases s with
  | pulse quote incentives => exact d.maker.pulse_setup w quote incentives d.floor
  | sweep => exact d.maker.cancelAll_setup w.venue d.floor
  | disturb e => exact .refl d.maker

theorem setup_run (w : Surroundings τ) (d : Desk τ) (steps : List Step) :
    d.maker.SameSetup (d.run w steps).maker := by
  induction steps generalizing d with
  | nil => exact .refl d.maker
  | cons s rest ih => exact (setup_step w d s).trans (ih (d.step w s))

end Desk

def Surroundings.scripted : Surroundings (List Spell) where
  request spells := (spells.headD {}, spells.tail)
  pause _ spells := (spells.headD {}, spells.tail)
  now _ := .ok .epoch

namespace Desk

def small (spells : List Spell) : Desk (List Spell) where
  maker := {
    market := "SOL/USDC"
    config := {}
    reconciler := .standard
    tracker := {}
    fetchPolicy := ⟨"fetch", .ofMillis 100, [.ofMillis 200]⟩
    submitPolicy := ⟨"submit", .ofMillis 100, [.ofMillis 200]⟩
    draws := (List.range 20).map fun i => ⟨i.toUInt64⟩ }
  floor := { exchange := { lag := 1 }, rest := spells }

theorem small_opening (spells : List Spell) : (small spells).Opening 2 := by
  have lag : 1 ≤ ({} : TrackerConfig).maxUnconfirmed.toNat := by decide
  have room : 2 * (({} : TrackerConfig).maxUnconfirmed.toNat + 1) ≤
    ({} : TrackerConfig).maxTracked.toNat := by decide
  have draws : ((List.range 20).map fun i => ClientId.mk i.toUInt64).Nodup := by decide
  exact ⟨rfl, rfl, lag, room, draws⟩

def spread (bid ask : UInt64) : List Order :=
  [⟨.buy, .ofWord bid 0, .one, .postOnly, none, none⟩,
    ⟨.sell, .ofWord ask 0, .one, .postOnly, none, none⟩]

theorem quoted_spread (bid ask : UInt64) : Quoted 2 (.ok (.live (spread bid ask))) := by
  rintro _ ⟨⟩
  exact ⟨Nat.le_refl 2, by simp [spread]⟩

end Desk
end MarketMaking
