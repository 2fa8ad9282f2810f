import Mathlib
import MarketMaking.Proofs.Desk
import MarketMaking.Scheduler

/-! A sweep empties the book. If it gets through, no order rests, hidden or listed, and none is
tracked; if it cannot fetch, it changes nothing. So a scheduler that ends with a sweep that gets
through ends with an empty book (`Scheduler.run_eq` splits a run at its last sweep). -/

namespace MarketMaking
open Process

variable {n : Nat} {m m' : Maker} {f g : Floor τ} {w : Surroundings τ}

theorem Sound.swept (sound : Sound n 1 m f)
    (ends : Maker.SweepEnds w .thinning m f (.ok count) m' g) :
    g.exchange.resting = [] ∧ m'.tracker.entries = [] ∧
      count = (m.tracker.existing g.listed).1.length := by
  cases ends with
  | unfetched before failed => exact absurd rfl (failed count)
  | swept before lists each =>
    have still := sound.drifts before
    have observed := still.observe lists
    have merged := still.merged lists
    have cleared := (sound.observedEach before lists w).2
    rw [each] at cleared
    obtain ⟨resting, entries, listed⟩ := cleared rfl
    refine ⟨List.eq_nil_iff_forall_not_mem.mpr ?_, List.eq_nil_iff_forall_not_mem.mpr ?_, ?_⟩
    · intro r here
      obtain ⟨rested, spared⟩ := resting r here
      obtain ⟨o, believed, same⟩ := merged.shown r rested
      exact spared (List.mem_map.mpr ⟨o, believed, Order.clientId_of_asSent same⟩)
    · intro e left
      obtain ⟨tracked, spared⟩ := entries e left
      have believed := merged.entries e tracked
      exact spared (List.mem_map.mpr ⟨e.order, believed, (observed.entry e tracked).1⟩)
    · rw [listed, lists.listed]

theorem Maker.cancelAll_of_unfetched {v : Venue σ} {s s' : σ}
    (failed : (m.fetch v).from s = (some (.error e), s')) :
    m.cancelAll v s = (.error (.failed (.remote e)), m, s') := by
  unfold cancelAll
  rw [failed]

namespace Desk

structure SweepsClean (w : Surroundings τ) (d : Desk τ) : Prop where
  swept : ∀ count, (d.maker.cancelAll w.venue d.floor).1 = .ok count →
    (d.step w .sweep).floor.exchange.resting = [] ∧
      (d.step w .sweep).maker.tracker.entries = [] ∧
      count = (d.maker.tracker.existing (d.step w .sweep).floor.listed).1.length
  unfetched : ∀ e g, (d.maker.fetch w.venue).from d.floor = (some (.error e), g) →
    d.maker.cancelAll w.venue d.floor = (.error (.failed (.remote e)), d.maker, g) ∧
      g.exchange.resting.Sublist d.floor.exchange.resting ∧
      (w.NoFills → g.exchange.resting = d.floor.exchange.resting)

theorem Sound.sweepsClean {d : Desk τ} (sound : d.Sound n) (w : Surroundings τ) :
    d.SweepsClean w := by
  refine ⟨fun count through => ?_, fun e g failed => ?_⟩
  · have ends := Maker.cancelAll_ends w.fades_thinning d.maker d.floor
    rw [through] at ends
    exact MarketMaking.Sound.swept sound ends
  · refine ⟨Maker.cancelAll_of_unfetched failed, ?_, fun none => ?_⟩
    · have before := d.maker.fetch_ends w.fades_thinning d.floor
      rw [failed] at before
      exact before.resting
    · have before := d.maker.fetch_ends none.fades d.floor
      rw [failed] at before
      exact before.resting.symm

end Desk

namespace Scheduler

def untilShutdown (e : Environment σ) (ticks : Nat) (r : Scheduler) (s : σ) :
    Except Halt Unit × Scheduler × σ :=
  let (cancelled, r, s) := r.sweep e s
  let r := { r with stats := { r.stats with cancelledAtStartup := cancelled } }
  if r.config.interval.nanos = 0 then (.error (.overflow .emptyInterval), r, s)
  else r.ticking e ticks (e.elapsed s) s

theorem run_eq (e : Environment σ) (ticks : Nat) (r : Scheduler) (s : σ) :
    r.run e ticks s = match r.untilShutdown e ticks s with
      | (.ok (), r, s) =>
        let (cancelled, r, s) := r.sweep e s
        (.ok (), { r with stats := { r.stats with cancelledAtShutdown := cancelled } }, s)
      | halted => halted := by
  unfold run untilShutdown
  simp only
  split
  · rfl
  · rfl

end Scheduler

-- An environment on a floor: all it does to the exchange besides serving the maker is to take
-- orders off the book, and what it quotes fits.
structure Environment.On (e : Environment (Floor τ)) (w : Surroundings τ) (n : Nat) : Prop where
  venue : e.toVenue = w.venue
  observe : ∀ f state g, e.observe f = .ok (state, g) → f.Drifts .thinning g
  quote : ∀ state f quote g, e.quote state f = .ok (quote, g) →
    Quoted n quote ∧ f.Drifts .thinning g
  limit : ∀ span (f : Floor τ), f.Drifts .thinning (e.limit span f)
  awaitTick : ∀ due (f : Floor τ), f.Drifts .thinning (e.awaitTick due f).2

namespace Scheduler
variable {e : Environment (Floor τ)} {r : Scheduler}

def Sound (n : Nat) (r : Scheduler) (f : Floor τ) : Prop :=
  MarketMaking.Sound n 1 r.maker f

theorem sweep_sound (on : e.On w n) (sound : r.Sound n f) :
    (r.sweep e f).2.1.Sound n (r.sweep e f).2.2 := by
  have swept := (sound.drifts (on.limit (some r.config.timeout) f)).cancelAll w
  rw [← on.venue] at swept
  exact swept.drifts (on.limit none _)

theorem fail_sound (e : Environment (Floor τ)) (error : CycleError) (sound : r.Sound n f) :
    (r.fail e error f).2.1.Sound n (r.fail e error f).2.2 := by
  unfold fail
  simp only
  cases e.now f with
  | error o => exact sound
  | ok now => exact sound.published _

theorem runPulse_sound (on : e.On w n) (sound : r.Sound n f) :
    (r.runPulse e f).2.1.Sound n (r.runPulse e f).2.2 := by
  unfold runPulse
  simp only
  cases observed : e.observe f with
  | error o => exact sound
  | ok seen =>
    obtain ⟨state, g⟩ := seen
    have still := sound.drifts (on.observe f state g observed)
    cases state with
    | error error => exact fail_sound (r := { r with stats := _ }) e _ still
    | ok state =>
      simp only
      cases answered : e.quote state g with
      | error o => exact still
      | ok answer =>
        obtain ⟨quote, h⟩ := answer
        obtain ⟨quoted, drifts⟩ := on.quote state g quote h answered
        have ready := (still.drifts drifts).drifts (on.limit (some r.config.timeout) h)
        have pulsed := ready.pulse w quoted state.inventory.incentives
        rw [← on.venue] at pulsed
        simp only
        revert pulsed
        rcases r.maker.pulse e.toVenue quote state.inventory.incentives
          (e.limit (some r.config.timeout) h) with ⟨halt | outcome, maker, k⟩
        · intro pulsed
          cases halt with
          | cutOff => exact fail_sound (r := ⟨_, maker, _⟩) e _ (pulsed.drifts (on.limit none k))
          | overflow o => exact pulsed.drifts (on.limit none k)
          | outOfDraws => exact pulsed.drifts (on.limit none k)
        · exact fun pulsed => pulsed.drifts (on.limit none k)

theorem ticking_sound (on : e.On w n) (sound : r.Sound n f) (ticks due : Nat) :
    (r.ticking e ticks due f).2.1.Sound n (r.ticking e ticks due f).2.2 := by
  induction ticks generalizing r f due with
  | zero => exact sound
  | succ ticks ih =>
    unfold ticking
    have waited := sound.drifts (on.awaitTick due f)
    revert waited
    rcases e.awaitTick due f with ⟨wake, g⟩
    intro waited
    cases wake with
    | shutdown => exact waited
    | tick =>
      have pulsed := runPulse_sound on waited
      simp only
      revert pulsed
      rcases r.runPulse e g with ⟨_ | _, s, h⟩
      · exact fun pulsed => pulsed
      · exact fun pulsed => ih pulsed _

theorem untilShutdown_sound (on : e.On w n) (sound : r.Sound n f) (ticks : Nat) :
    (r.untilShutdown e ticks f).2.1.Sound n (r.untilShutdown e ticks f).2.2 := by
  unfold untilShutdown
  have swept := sweep_sound on sound
  simp only
  split
  · exact swept
  · refine ticking_sound on ?_ ticks _
    exact swept

theorem run_clean (on : e.On w n) (sound : r.Sound n f) {ticks : Nat} {last : Scheduler}
    (ended : r.untilShutdown e ticks f = (.ok (), last, g)) {count : Nat}
    (through : (last.maker.cancelAll w.venue (e.limit (some last.config.timeout) g)).1 =
      .ok count) :
    (r.run e ticks f).1 = .ok () ∧ (r.run e ticks f).2.1.stats.cancelledAtShutdown = count ∧
      (r.run e ticks f).2.2.exchange.resting = [] ∧
      (r.run e ticks f).2.1.maker.tracker.entries = [] := by
  have atLast := untilShutdown_sound on sound ticks
  rw [ended] at atLast
  have ready := atLast.drifts (on.limit (some last.config.timeout) g)
  have ends := Maker.cancelAll_ends w.fades_thinning last.maker
    (e.limit (some last.config.timeout) g)
  rw [through] at ends
  obtain ⟨empty, untracked, -⟩ := ready.swept ends
  rw [run_eq, ended]
  simp only [sweep, on.venue, through]
  refine ⟨trivial, trivial, ?_, untracked⟩
  have lifted := (on.limit none (last.maker.cancelAll w.venue
    (e.limit (some last.config.timeout) g)).2.2).resting
  rw [empty] at lifted
  exact List.sublist_nil.mp lifted

end Scheduler

namespace Desk

-- A scheduler that takes over here leaves an empty book if it comes to its last sweep and that one
-- gets through.
def ShutsDownClean (n : Nat) (w : Surroundings τ) (d : Desk τ) : Prop :=
  ∀ (e : Environment (Floor τ)), e.On w n → ∀ (ticks : Nat) (r : Scheduler), r.maker = d.maker →
    ∀ last g, r.untilShutdown e ticks d.floor = (.ok (), last, g) →
    ∀ count, (last.maker.cancelAll w.venue (e.limit (some last.config.timeout) g)).1 =
        .ok count →
      (r.run e ticks d.floor).1 = .ok () ∧
        (r.run e ticks d.floor).2.1.stats.cancelledAtShutdown = count ∧
        (r.run e ticks d.floor).2.2.exchange.resting = [] ∧
        (r.run e ticks d.floor).2.1.maker.tracker.entries = []

theorem sweep_empties_book {d : Desk τ} (w : Surroundings τ) {steps : List Step}
    (opening : d.Opening n) (fits : ∀ s ∈ steps, s.Fits n) :
    (d.run w steps).SweepsClean w ∧ (d.run w steps).ShutsDownClean n w := by
  have sound : (d.run w steps).Sound n := sound_run opening.sound fits
  refine ⟨sound.sweepsClean w, fun e on ticks r takesOver last g ended count through => ?_⟩
  have same : r.Sound n (d.run w steps).floor := by
    unfold Scheduler.Sound
    rw [takesOver]
    exact sound
  exact Scheduler.run_clean on same ended through

end Desk

def Surroundings.steady (w : Surroundings τ) (state : ModelState) (quote : Quote) :
    Environment (Floor τ) where
  toVenue := w.venue
  observe f := .ok (.ok state, f)
  quote _ f := .ok (.ok quote, f)
  limit _ f := f
  elapsed _ := 0
  awaitTick _ f := (.tick, f)

theorem Surroundings.steady_on (w : Surroundings τ) (state : ModelState) {quote : Quote}
    (quoted : Quoted n (.ok quote)) : (w.steady state quote).On w n := by
  refine ⟨rfl, ?_, ?_, fun _ f => Floor.Drifts.refl f, fun _ f => Floor.Drifts.refl f⟩
  · rintro f _ _ ⟨⟩
    exact Floor.Drifts.refl f
  · rintro _ f _ _ ⟨⟩
    exact ⟨quoted, Floor.Drifts.refl f⟩

namespace Desk

-- Two orders rest hidden, and a time limit cut off the pause in which two more were not placed yet,
-- when the sweep comes, by itself or at the start of a run of one pulse.
theorem sweep_empties_small_desk :
    let desk := small [{}, {}, {}, {}, { cutOff := true }]
    let steps := [.pulse (.ok (.live (spread 99 101))) .zero, .disturb (.failSubmissions 1),
      .pulse (.ok (.live (spread 98 102))) .zero]
    let now := desk.run .scripted steps
    let state : ModelState := ⟨"SOL/USDC", none, ⟨.zero, .zero, .zero⟩, .epoch⟩
    let e := Surroundings.scripted.steady state (.live (spread 97 103))
    let r : Scheduler := ⟨{}, now.maker, {}⟩
    desk.Opening 2 ∧ (∀ s ∈ steps, s.Fits 2) ∧
      (now.maker.cancelAll Surroundings.scripted.venue now.floor).1 = .ok 4 ∧
      (r.untilShutdown e 1 now.floor).1 = .ok () ∧ now.SweepsClean .scripted ∧
      (r.run e 1 now.floor).2.2.exchange.resting = [] := by
  intro desk steps now state e r
  have opening : desk.Opening 2 := small_opening _
  have fits : ∀ s ∈ steps, s.Fits 2 := by simp [steps, Step.Fits, quoted_spread]
  have clean : now.SweepsClean .scripted ∧ now.ShutsDownClean 2 .scripted :=
    sweep_empties_book .scripted opening fits
  have on : e.On .scripted 2 := Surroundings.steady_on _ _ (quoted_spread 97 103)
  have takesOver : r.maker = now.maker := rfl
  have counted : (now.maker.cancelAll Surroundings.scripted.venue now.floor).1 = .ok 4 := by cbv
  have answer : (r.untilShutdown e 1 now.floor).1 = .ok () := by cbv
  have swept : ((r.untilShutdown e 1 now.floor).2.1.maker.cancelAll Surroundings.scripted.venue
      (e.limit (some (r.untilShutdown e 1 now.floor).2.1.config.timeout)
        (r.untilShutdown e 1 now.floor).2.2)).1 = .ok 2 := by cbv
  -- what is left to do needs no evaluation
  clear_value r e now
  have ended : r.untilShutdown e 1 now.floor = (.ok (), (r.untilShutdown e 1 now.floor).2) :=
    Prod.ext answer rfl
  have empty := clean.2 e on 1 r takesOver _ _ ended 2 swept
  exact ⟨opening, fits, counted, answer, clean.1, empty.2.2.1⟩

end Desk
end MarketMaking
