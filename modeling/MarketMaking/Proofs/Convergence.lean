import Mathlib
import MarketMaking.Proofs.Calm
import MarketMaking.Proofs.Settled

/-! Once nothing goes wrong any more, the book settles. An entry whose order is not on the book can
only grow older, and is given up after so many listings (`Fading`); from then on the merged view is
the book itself, one more pulse settles it for the quote, and later pulses leave it alone. -/

namespace MarketMaking
open Reconciliation

def Fading (age : Nat) (m : Maker) (f : Floor τ) : Prop :=
  ∀ e ∈ m.tracker.entries,
    (∃ r ∈ f.exchange.resting, r.order.asSent = e.order) ∨ age ≤ e.missed

variable {n age : Nat} {m m' : Maker} {f f' g h k : Floor τ} {desired listing : List Order}
  {incentives : Decimal} {receipt : Option Receipt} {plan : Plan} {ratio : Decimal}

theorem Fading.drifts (fading : Fading age m f) (drifts : f.Drifts .still g) : Fading age m g := by
  unfold Fading
  rw [← drifts.resting]
  exact fading

theorem Fading.observe (fading : Fading age m h) (lists : h.Lists listing g) :
    Fading (age + 1) (m.observe listing) g := by
  intro e left
  obtain ⟨before, tracked, -, -, rfl⟩ := Tracker.mem_existing.mp left
  rcases fading before tracked with ⟨r, here, same⟩ | old
  · exact .inl ⟨r.age, lists.resting ▸ List.mem_map_of_mem here, same⟩
  · exact .inr (Nat.succ_le_succ old)

-- What is not on the book is given up at last, so that the merged view is just the book.
theorem Sound.backed (sound : Sound n since m h) (fading : Fading age m h)
    (lists : h.Lists listing g) (old : m.tracker.config.maxUnconfirmed.toNat ≤ age) :
    ∀ o ∈ (m.tracker.existing listing).1, ∃ r ∈ g.exchange.resting, r.order.asSent = o.asSent := by
  obtain rfl := lists.visible
  intro o believed
  rcases sound.known.mem_existing.mp believed with ⟨r, here, -, rfl⟩ | ⟨e, left, rfl⟩
  · exact ⟨r.age, lists.resting ▸ List.mem_map_of_mem here, rfl⟩
  · rcases fading.observe lists e left with ⟨r, here, same⟩ | missed
    · exact ⟨r, here, by rw [← same, Order.asSent_asSent]⟩
    · obtain ⟨before, -, -, young, rfl⟩ := Tracker.mem_existing.mp left
      simp only at missed
      omega

theorem Floor.Lists.orders (lists : h.Lists listing g) : g.exchange.orders = h.exchange.orders := by
  simp [Exchange.orders, lists.resting, Function.comp_def]

theorem Sound.plan_empty (sound : Sound n 1 m h) (fading : Fading age m h)
    (lists : h.Lists listing g) (old : m.tracker.config.maxUnconfirmed.toNat ≤ age)
    (reconciler : m.reconciler = .tolerance ratio) (sides : (desired.map (·.side)).Nodup)
    (settled : Settled ratio.abs h.exchange.orders desired)
    (planned : m.reconciler.plan (m.tracker.existing listing).1 desired = .ok plan) :
    plan.toCancel = [] ∧ plan.toPlace = [] ∧ OneToOne ratio.abs h.exchange.orders desired := by
  have merged := sound.merged lists
  have shown : ∀ r ∈ h.exchange.orders, ∃ o ∈ (m.tracker.existing listing).1,
      o.asSent = r.asSent := by
    rw [← lists.orders]
    intro o here
    obtain ⟨r, rests, rfl⟩ := List.mem_map.mp here
    exact merged.shown r rests
  have view : Settled ratio.abs (m.tracker.existing listing).1 desired := by
    refine settled.merged merged.clientIds (fun o believed => ?_) shown
    obtain ⟨r, rests, same⟩ := sound.backed fading lists old o believed
    exact ⟨r.order, lists.orders ▸ List.mem_map_of_mem rests, same⟩
  obtain ⟨kept, keeps⟩ := Reconciler.plan_keeps (reconciler ▸ planned)
  obtain ⟨noCancels, noPlaces⟩ := keeps.settled view sides ratio.abs_nonneg
  refine ⟨noCancels, noPlaces, settled.one_to_one sides ratio.abs_nonneg ?_⟩
  intro r here d wanted
  obtain ⟨o, believed, same⟩ := shown r here
  rw [← equivalent_asSent, ← same, equivalent_asSent]
  exact keeps.pairs.decided o believed d wanted

theorem Turn.fading (turn : Turn .still m f desired incentives receipt listing plan h g k m' f')
    (sound : Sound n 1 m f) (fits : Fits n desired) (fading : Fading age m f) :
    Fading (age + 1) m' f' := by
  have kept := turn.sound sound fits
  have observed := turn.observed sound
  have merged := turn.merged sound
  have older := ((fading.drifts turn.before).observe turn.lists).drifts turn.meanwhile
  intro e left
  have plain := (kept.entry e left).2
  rw [turn.maker, Maker.foldl_untrack] at left
  obtain ⟨tracked, spared⟩ := List.mem_filter.mp left
  rw [turn.resting observed merged]
  rcases List.mem_append.mp tracked with before | new
  · rcases older e before with ⟨r, here, same⟩ | missed
    · refine .inl ⟨r, List.mem_append_left _ (List.mem_filter.mpr ⟨here, ?_⟩), same⟩
      have own := observed.known.clientId_of_entry before same.symm
      simpa [own, List.mem_filterMap, List.mem_map] using spared
    · exact .inr missed
  · have sent : e.order ∈ Maker.tagged m.draws plan.toPlace := by
      rw [Maker.tagged_eq]
      exact List.mem_map_of_mem new
    obtain ⟨r, here, same⟩ := Exchange.exists_newly_of_mem sent k.exchange.lag k.exchange.issued
    exact .inl ⟨r, List.mem_append_right _ here, same.trans (Order.asSent_of_exchangeId plain)⟩

theorem Turn.settled (turn : Turn .still m f desired incentives receipt listing plan h g k m' f')
    (sound : Sound n 1 m f) (fits : Fits n desired)
    (reconciler : m.reconciler = .tolerance ratio) (sides : (desired.map (·.side)).Nodup)
    (fading : Fading age m f) (old : m.tracker.config.maxUnconfirmed.toNat ≤ age) :
    Settled ratio.abs f'.exchange.orders desired := by
  have observed := turn.observed sound
  have merged := turn.merged sound
  have backed := (sound.drifts turn.before).backed (fading.drifts turn.before) turn.lists old
  rw [turn.meanwhile.resting] at backed
  obtain ⟨kept, keeps⟩ := Reconciler.plan_keeps (reconciler ▸ turn.planned)
  refine (turn.oneForOne sound fits reconciler).settled sides fun d wanted => ?_
  obtain ⟨r, here, stands⟩ := turn.served observed merged keeps backed d wanted
  exact ⟨r.order, List.mem_map_of_mem here, stands⟩

theorem Turn.still (turn : Turn .still m f desired incentives receipt listing plan h g k m' f')
    (sound : Sound n 1 m f) (noCancels : plan.toCancel = []) (noPlaces : plan.toPlace = []) :
    f'.exchange.orders = f.exchange.orders ∧
      ∀ r, receipt = some r → r.cancelled = 0 ∧ r.placed = 0 := by
  have none : Maker.tagged m.draws plan.toPlace = [] := by simp [noPlaces, Maker.tagged]
  constructor
  · have resting := turn.resting (turn.observed sound) (turn.merged sound)
    simp only [noCancels, none, Exchange.newly, List.map_nil, List.not_mem_nil, not_false_eq_true,
      decide_true, List.filter_true, List.append_nil] at resting
    have same : f'.exchange.orders = k.exchange.orders := by
      unfold Exchange.orders
      rw [resting]
    rw [same, turn.meanwhile.orders, turn.lists.orders, turn.before.orders]
  · intro r given
    obtain ⟨signature, rfl⟩ := turn.counted r given
    rw [noCancels, none]
    simp only [Maker.instructions, Maker.upkeep, List.map_nil, List.nil_append]
    cases m.config.crankEachPulse <;> cases m.config.settleEachPulse <;>
      cases m.redeems incentives <;> exact ⟨rfl, rfl⟩

def Comparable (tolerance : Decimal) (desired : List Order) (o : Order) : Prop :=
  ∀ d ∈ desired, InRange tolerance o d

instance (tolerance : Decimal) (desired : List Order) (o : Order) :
    Decidable (Comparable tolerance desired o) :=
  inferInstanceAs (Decidable (∀ d ∈ desired, InRange tolerance o d))

theorem comparable_of_asSent {tolerance : Decimal} {o p : Order} (same : o.asSent = p.asSent)
    (comparable : Comparable tolerance desired o) : Comparable tolerance desired p := by
  have terms : ∀ q : Order,
      Comparable tolerance desired q = Comparable tolerance desired q.asSent := fun _ => rfl
  rw [terms, ← same, ← terms]
  exact comparable

structure AllComparable (tolerance : Decimal) (desired : List Order) (m : Maker) (f : Floor τ) :
    Prop where
  resting : ∀ r ∈ f.exchange.resting, Comparable tolerance desired r.order
  entries : ∀ e ∈ m.tracker.entries, Comparable tolerance desired e.order

theorem AllComparable.existing {tolerance : Decimal}
    (comparable : AllComparable tolerance desired m h) (sound : Sound n since m h)
    (lists : h.Lists listing g) :
    ∀ o ∈ (m.tracker.existing listing).1, Comparable tolerance desired o := by
  obtain rfl := lists.visible
  intro o believed
  rcases sound.known.mem_existing.mp believed with ⟨r, here, -, rfl⟩ | ⟨e, left, rfl⟩
  · exact comparable.resting r here
  · obtain ⟨before, tracked, -, -, rfl⟩ := Tracker.mem_existing.mp left
    exact comparable.entries before tracked

theorem Turn.comparable {tolerance : Decimal}
    (turn : Turn .still m f desired incentives receipt listing plan h g k m' f')
    (sound : Sound n 1 m f) (before : AllComparable tolerance desired m f)
    (wanted : ∀ o ∈ desired, Comparable tolerance desired o) :
    AllComparable tolerance desired m' f' := by
  have places := (Reconciler.plan_sublists turn.planned).2
  have tagged : ∀ o ∈ Maker.tagged m.draws plan.toPlace, Comparable tolerance desired o := by
    intro o here
    obtain ⟨p, id, q, -, placed, rfl⟩ := Maker.mem_tagged here
    exact wanted q (places.subset (List.mem_of_getElem? placed))
  constructor
  · rw [turn.resting (turn.observed sound) (turn.merged sound)]
    intro r here
    rcases List.mem_append.mp here with old | new
    · have aged := List.mem_of_mem_filter old
      rw [← turn.meanwhile.resting, turn.lists.resting, ← turn.before.resting] at aged
      obtain ⟨s, rests, rfl⟩ := List.mem_map.mp aged
      exact before.resting s rests
    · obtain ⟨o, here, same⟩ := Exchange.sent_of_mem_newly new
      exact comparable_of_asSent same (tagged o here)
  · rw [turn.maker, Maker.foldl_untrack]
    intro e left
    rcases List.mem_append.mp (List.mem_of_mem_filter left) with old | new
    · obtain ⟨tracked, here, -, -, rfl⟩ := Tracker.mem_existing.mp old
      exact before.entries tracked here
    · refine tagged e.order ?_
      rw [Maker.tagged_eq]
      exact List.mem_map_of_mem new

structure Plain (n : Nat) (desired : List Order) : Prop where
  fits : Fits n desired
  sides : (desired.map (·.side)).Nodup
  placeable : Placeable desired

structure Settling (n age : Nat) (ratio : Decimal) (desired : List Order) (m : Maker)
    (f : Floor τ) : Prop where
  sound : Sound n 1 m f
  healthy : f.exchange.Healthy
  reconciler : m.reconciler = .tolerance ratio
  fading : Fading age m f
  comparable : AllComparable ratio.abs desired m f
  draws : (m.tracker.config.maxUnconfirmed.toNat + 1 - age) * desired.length ≤ m.draws.length
  settled : m.tracker.config.maxUnconfirmed.toNat < age →
    Settled ratio.abs f.exchange.orders desired

namespace Settling
variable {w : Surroundings τ}

theorem enough (settling : Settling n age ratio desired m f) (before : f.Drifts .still h)
    (lists : h.Lists listing g) (plain : Plain n desired)
    (planned : m.reconciler.plan (m.tracker.existing listing).1 desired = .ok plan) :
    plan.toPlace.length ≤ m.draws.length := by
  by_cases young : age ≤ m.tracker.config.maxUnconfirmed.toNat
  · have places := (Reconciler.plan_sublists planned).2.length_le
    have draws := settling.draws
    rw [Nat.succ_sub young, Nat.succ_mul] at draws
    omega
  · have settled := settling.settled (Nat.lt_of_not_le young)
    obtain ⟨-, noPlaces, -⟩ := (settling.sound.drifts before).plan_empty
      (settling.fading.drifts before) lists (Nat.le_of_not_le young) settling.reconciler
      plain.sides (before.orders ▸ settled) planned
    rw [noPlaces]
    exact Nat.zero_le _

theorem completed (settling : Settling n age ratio desired m f) (calm : w.Calm)
    (plain : Plain n desired) (incentives : Decimal) :
    (∃ receipt, (m.pulse w.venue (.ok (.live desired)) incentives f).1 =
        .ok (.completed receipt)) ∧
      (m.pulse w.venue (.ok (.live desired)) incentives f).2.2.exchange.Healthy := by
  obtain ⟨g, fetched, -⟩ := m.fetch_calm calm settling.healthy
  have ends := m.fetch_ends calm.noFills.fades f
  rw [fetched] at ends
  obtain ⟨h, before, lists⟩ := ends
  have same : AllComparable ratio.abs desired m h :=
    ⟨before.resting ▸ settling.comparable.resting, settling.comparable.entries⟩
  obtain ⟨plan, planned⟩ := Reconciler.plan_of_inRange
    (same.existing (settling.sound.drifts before) lists)
  rw [← settling.reconciler] at planned
  obtain ⟨⟨receipt, through⟩, healthy⟩ := settling.sound.tryPulse_calm calm settling.healthy
    plain.fits plain.placeable planned (settling.enough before lists plain planned) incentives
  rw [(m.pulse_published w.venue (.ok (.live desired)) incentives f).2]
  exact ⟨⟨receipt, Maker.pulse_of_completed (fun s => calm.now s.rest) through⟩, healthy⟩

theorem pulse (settling : Settling n age ratio desired m f) (calm : w.Calm)
    (plain : Plain n desired) (wanted : ∀ o ∈ desired, Comparable ratio.abs desired o)
    (incentives : Decimal) :
    let pulsed := m.pulse w.venue (.ok (.live desired)) incentives f
    ∃ receipt, pulsed.1 = .ok (.completed receipt) ∧
      Settling n (age + 1) ratio desired pulsed.2.1 pulsed.2.2 ∧
      (m.tracker.config.maxUnconfirmed.toNat < age →
        OneToOne ratio.abs f.exchange.orders desired ∧
        pulsed.2.2.exchange.orders = f.exchange.orders ∧
        ∀ r, receipt = some r → r.cancelled = 0 ∧ r.placed = 0) := by
  intro pulsed
  have quoted : Quoted n (.ok (.live desired)) := by
    rintro _ ⟨⟩
    exact plain.fits
  have setup := m.pulse_setup w (.ok (.live desired)) incentives f
  obtain ⟨⟨receipt, done⟩, healthy⟩ := settling.completed calm plain incentives
  obtain ⟨_, ⟨⟩, listing, plan, h, g, k, log, turn, maker⟩ :=
    settling.sound.completed quoted calm.noFills.fades done
  have draws : pulsed.2.1.draws = m.draws.drop plan.toPlace.length := by
    rw [maker, turn.maker, Maker.foldl_untrack]
    rfl
  have places := (Reconciler.plan_sublists turn.planned).2.length_le
  refine ⟨receipt, done, ?_, fun late => ?_⟩
  · refine ⟨settling.sound.pulse w quoted incentives, healthy,
      setup.reconciler.trans settling.reconciler, ?_, ?_, ?_, fun old => ?_⟩
    · have fading := turn.fading settling.sound plain.fits settling.fading
      rw [maker]
      exact fading
    · have comparable := turn.comparable settling.sound settling.comparable wanted
      rw [maker]
      exact ⟨comparable.resting, comparable.entries⟩
    · have before := settling.draws
      rw [draws, setup.config, List.length_drop, Nat.add_sub_add_right]
      by_cases young : age ≤ m.tracker.config.maxUnconfirmed.toNat
      · rw [Nat.succ_sub young, Nat.succ_mul] at before
        omega
      · simp [Nat.sub_eq_zero_of_le (Nat.le_of_not_le young)]
    · rw [setup.config] at old
      exact turn.settled settling.sound plain.fits settling.reconciler plain.sides
        settling.fading (Nat.le_of_lt_succ old)
  · have settled := settling.settled late
    obtain ⟨noCancels, noPlaces, pairs⟩ :=
      (settling.sound.drifts turn.before).plan_empty
        (settling.fading.drifts turn.before) turn.lists (Nat.le_of_lt late) settling.reconciler
        plain.sides (turn.before.orders ▸ settled) turn.planned
    exact ⟨turn.before.orders ▸ pairs, turn.still settling.sound noCancels noPlaces⟩

end Settling

namespace Desk

def pulses (w : Surroundings τ) (desired : List Order) (incentives : Nat → Decimal) (d : Desk τ) :
    Nat → Desk τ
  | 0 => d
  | k + 1 => (pulses w desired incentives d k).step w (.pulse (.ok (.live desired)) (incentives k))

def answer (w : Surroundings τ) (desired : List Order) (incentives : Nat → Decimal) (d : Desk τ)
    (k : Nat) : Except Halt PulseOutcome :=
  ((d.pulses w desired incentives k).maker.pulse w.venue (.ok (.live desired)) (incentives k)
    (d.pulses w desired incentives k).floor).1

variable {w : Surroundings τ} {d : Desk τ}

theorem setup_pulses (w : Surroundings τ) (desired : List Order) (incentives : Nat → Decimal)
    (d : Desk τ) (k : Nat) : d.maker.SameSetup (d.pulses w desired incentives k).maker := by
  induction k with
  | zero => exact .refl d.maker
  | succ k ih => exact ih.trans (setup_step w _ _)

theorem settling_pulses (settling : Settling n age ratio desired d.maker d.floor) (calm : w.Calm)
    (plain : Plain n desired) (wanted : ∀ o ∈ desired, Comparable ratio.abs desired o)
    (incentives : Nat → Decimal) (k : Nat) :
    Settling n (age + k) ratio desired (d.pulses w desired incentives k).maker
      (d.pulses w desired incentives k).floor := by
  induction k with
  | zero => exact settling
  | succ k ih =>
    obtain ⟨receipt, -, next, -⟩ := ih.pulse calm plain wanted (incentives k)
    exact next

theorem Sound.settling {d : Desk τ} (sound : d.Sound n) (healthy : d.floor.exchange.Healthy)
    (reconciler : d.maker.reconciler = .tolerance ratio)
    (comparable : AllComparable ratio.abs desired d.maker d.floor)
    (draws : (d.maker.tracker.config.maxUnconfirmed.toNat + 1) * desired.length ≤
      d.maker.draws.length) : Settling n 0 ratio desired d.maker d.floor :=
  ⟨sound, healthy, reconciler, fun _ _ => .inr (Nat.zero_le _), comparable, draws,
    fun none => absurd none (Nat.not_lt_zero _)⟩

-- What a desk comes to that keeps quoting the same: every pulse is completed, and after one more
-- pulse than there are listings that may miss an order, each live order is the only one for its
-- desired order, none is missing, and nothing is cancelled or placed any more.
structure SettlesFor (w : Surroundings τ) (ratio : Decimal) (desired : List Order)
    (incentives : Nat → Decimal) (d : Desk τ) : Prop where
  completed : ∀ k, ∃ receipt, d.answer w desired incentives k = .ok (.completed receipt)
  oneToOne : ∀ k, d.maker.tracker.config.maxUnconfirmed.toNat < k →
    OneToOne ratio.abs (d.pulses w desired incentives k).floor.exchange.orders desired
  still : ∀ k, d.maker.tracker.config.maxUnconfirmed.toNat < k →
    (d.pulses w desired incentives (k + 1)).floor.exchange.orders =
        (d.pulses w desired incentives k).floor.exchange.orders ∧
      ∀ r, d.answer w desired incentives k = .ok (.completed (some r)) →
        r.cancelled = 0 ∧ r.placed = 0

theorem settlesFor {d : Desk τ} (settling : Settling n 0 ratio desired d.maker d.floor)
    (calm : w.Calm) (plain : Plain n desired)
    (wanted : ∀ o ∈ desired, Comparable ratio.abs desired o) (incentives : Nat → Decimal) :
    d.SettlesFor w ratio desired incentives := by
  have each : ∀ k, ∃ receipt, d.answer w desired incentives k = .ok (.completed receipt) ∧
      (d.maker.tracker.config.maxUnconfirmed.toNat < k →
        OneToOne ratio.abs (d.pulses w desired incentives k).floor.exchange.orders desired ∧
        (d.pulses w desired incentives (k + 1)).floor.exchange.orders =
          (d.pulses w desired incentives k).floor.exchange.orders ∧
        ∀ r, receipt = some r → r.cancelled = 0 ∧ r.placed = 0) := by
    intro k
    have now := settling_pulses settling calm plain wanted incentives k
    obtain ⟨receipt, done, -, late⟩ := now.pulse calm plain wanted (incentives k)
    refine ⟨receipt, done, fun old => late ?_⟩
    rw [(setup_pulses w desired incentives d k).config, Nat.zero_add]
    exact old
  refine ⟨fun k => ?_, fun k old => ?_, fun k old => ?_⟩
  · obtain ⟨receipt, done, -⟩ := each k
    exact ⟨receipt, done⟩
  · obtain ⟨receipt, -, late⟩ := each k
    exact (late old).1
  · obtain ⟨receipt, done, late⟩ := each k
    refine ⟨(late old).2.1, fun r given => (late old).2.2 r ?_⟩
    cases done.symm.trans given
    rfl

theorem converges {d : Desk τ} (w w' : Surroundings τ) {steps : List Step}
    (opening : d.Opening n) (fits : ∀ s ∈ steps, s.Fits n)
    (reconciler : d.maker.reconciler = .tolerance ratio) (calm : w'.Calm)
    (healthy : (d.run w steps).floor.exchange.Healthy) (plain : Plain n desired)
    (wanted : ∀ o ∈ desired, Comparable ratio.abs desired o)
    (comparable : AllComparable ratio.abs desired (d.run w steps).maker (d.run w steps).floor)
    (draws : (d.maker.tracker.config.maxUnconfirmed.toNat + 1) * desired.length ≤
      (d.run w steps).maker.draws.length)
    (incentives : Nat → Decimal) :
    (d.run w steps).SettlesFor w' ratio desired incentives := by
  have sound : (d.run w steps).Sound n := sound_run opening.sound fits
  have setup := setup_run w d steps
  rw [← setup.config] at draws
  have settling : Settling n 0 ratio desired (d.run w steps).maker (d.run w steps).floor :=
    sound.settling healthy (setup.reconciler.trans reconciler) comparable draws
  exact settlesFor settling calm plain wanted incentives

end Desk

def Surroundings.still : Surroundings τ where
  request t := ({}, t)
  pause _ t := ({}, t)
  now _ := .ok .epoch

theorem Surroundings.still_calm : (Surroundings.still : Surroundings τ).Calm :=
  ⟨fun _ => rfl, fun _ _ => rfl, fun _ => ⟨_, rfl⟩⟩

namespace Desk

-- Two entries whose orders were never placed are just what is wanted, and those that rest are not:
-- the book gets worse before it settles.
theorem converges_from_unplaced_orders :
    let steps := [.pulse (.ok (.live (spread 99 101))) .zero, .disturb (.failSubmissions 2),
      .pulse (.ok (.live (spread 98 102))) .zero]
    let now := (small []).run .scripted steps
    (small []).Opening 2 ∧ (∀ s ∈ steps, s.Fits 2) ∧ now.floor.exchange.Healthy ∧
      Plain 2 (spread 98 102) ∧
      (∀ o ∈ spread 98 102, Comparable (Decimal.ofWord 1 3).abs (spread 98 102) o) ∧
      AllComparable (Decimal.ofWord 1 3).abs (spread 98 102) now.maker now.floor ∧
      (3 + 1) * 2 ≤ now.maker.draws.length ∧
      now.SettlesFor .still (.ofWord 1 3) (spread 98 102) fun _ => .zero := by
  intro steps now
  have fits : ∀ s ∈ steps, s.Fits 2 := by simp [steps, Step.Fits, quoted_spread]
  have healthy : now.floor.exchange.Healthy := ⟨by cbv, by cbv, by cbv⟩
  have placeable : Placeable (spread 98 102) := by
    have all : ∀ o ∈ spread 98 102, .zero < o.price ∧ .zero < o.quantity := by decide
    exact all
  have plain : Plain 2 (spread 98 102) := ⟨quoted_spread 98 102 _ rfl, by decide, placeable⟩
  have wanted : ∀ o ∈ spread 98 102,
      Comparable (Decimal.ofWord 1 3).abs (spread 98 102) o := by
    have all : ((spread 98 102).all fun o =>
      decide (Comparable (Decimal.ofWord 1 3).abs (spread 98 102) o)) = true := by cbv
    simpa using all
  have resting : ∀ r ∈ now.floor.exchange.resting,
      Comparable (Decimal.ofWord 1 3).abs (spread 98 102) r.order := by
    have all : (now.floor.exchange.resting.all fun r =>
      decide (Comparable (Decimal.ofWord 1 3).abs (spread 98 102) r.order)) = true := by cbv
    simpa using all
  have entries : ∀ e ∈ now.maker.tracker.entries,
      Comparable (Decimal.ofWord 1 3).abs (spread 98 102) e.order := by
    have all : (now.maker.tracker.entries.all fun e =>
      decide (Comparable (Decimal.ofWord 1 3).abs (spread 98 102) e.order)) = true := by cbv
    simpa using all
  have draws : (3 + 1) * 2 ≤ now.maker.draws.length := by
    have left : now.maker.draws.length = 16 := by cbv
    rw [left]
    decide
  exact ⟨small_opening [], fits, healthy, plain, wanted, ⟨resting, entries⟩, draws,
    converges .scripted .still (small_opening []) fits rfl Surroundings.still_calm healthy plain
      wanted ⟨resting, entries⟩ draws fun _ => .zero⟩

end Desk
end MarketMaking
