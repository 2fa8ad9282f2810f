import MarketMaking.Proofs.Coverage

/-! Pulses and sweeps of a maker that alone trades on a floor. A completed pulse is told in full
(`Turn`): what is cancelled and what is placed are just what the plan says, and nothing else leaves
the book or comes onto it. However they end, pulses and sweeps keep `Sound`. -/

namespace MarketMaking
open Process

-- The account of a completed pulse: `h` is the floor when it was listed, `g` the floor after that,
-- `k` the floor when the batch arrived.
structure Turn (fade : Fade) (m : Maker) (f : Floor τ) (desired : List Order) (incentives : Decimal)
    (receipt : Option Receipt) (listing : List Order) (plan : Plan) (h g k : Floor τ) (m' : Maker)
    (f' : Floor τ) : Prop where
  before : f.Drifts fade h
  lists : h.Lists listing g
  meanwhile : g.Drifts fade k
  planned : m.reconciler.plan (m.tracker.existing listing).1 desired = .ok plan
  enough : plan.toPlace.length ≤ m.draws.length
  maker : m' = (plan.toCancel.filterMap (·.clientId)).foldl Maker.untrack
    ((m.observe listing).issue plan.toPlace)
  book : ((Maker.tagged m.draws plan.toPlace).foldl Exchange.rest
    (plan.toCancel.foldl Exchange.remove k.exchange)).Unchanged f'.exchange
  listed : f'.listed = k.listed
  counted : ∀ r, receipt = some r → ∃ signature,
    r = (m.instructions incentives plan.toCancel (Maker.tagged m.draws plan.toPlace)).foldl
      Exchange.count ⟨signature, 0, 0, 0, 0⟩

def Quoted (n : Nat) (quote : Except ProducerError Quote) : Prop :=
  ∀ desired, quote = .ok (.live desired) → Fits n desired

variable {n since : Nat} {m m' : Maker} {f f' g h k : Floor τ}
  {desired listing : List Order} {plan : Plan} {w : Surroundings τ}
  {fade : Fade}

theorem Sound.ready_eq (sound : Sound n 1 m f) (before : f.Drifts fade h)
    (lists : h.Lists listing g) (few : desired.length ≤ n)
    (prepared : m.prepare desired incentives listing = (.ok ready, m')) :
    ∃ plan, m.reconciler.plan (m.tracker.existing listing).1 desired = .ok plan ∧
      plan.toPlace.length ≤ m.draws.length ∧
      ready = ⟨m.assemble incentives plan.toCancel (Maker.tagged m.draws plan.toPlace),
        plan.toCancel.filterMap (·.clientId)⟩ ∧
      m' = (m.observe listing).issue plan.toPlace := by
  rw [(sound.drifts before).prepare_eq lists few] at prepared
  cases planned : m.reconciler.plan (m.tracker.existing listing).1 desired with
  | error o => simp [planned] at prepared
  | ok plan =>
    by_cases enough : plan.toPlace.length ≤ m.draws.length
    · simp only [planned, enough, if_true, Prod.mk.injEq, Except.ok.injEq] at prepared
      exact ⟨plan, rfl, enough, prepared.1.symm, prepared.2.symm⟩
    · simp [planned, enough] at prepared

theorem Maker.assemble_isEmpty {targets orders : List Order} (incentives : Decimal)
    (enough : orders.length ≤ m.draws.length)
    (empty : (m.assemble incentives targets (tagged m.draws orders)).isEmpty = true) :
    targets = [] ∧ orders = [] := by
  obtain ⟨cancels, places⟩ := trades_of_isEmpty empty
  have short := congrArg List.length places
  simp only [tagged, List.length_zipWith, List.length_nil] at short
  exact ⟨cancels, List.length_eq_zero_iff.mp (by omega)⟩

theorem Sound.turn (sound : Sound n 1 m f) (few : desired.length ≤ n)
    (ends : Maker.PulseEnds w fade m f incentives (.ok (.live desired)) (.ok (.completed receipt))
      m' f') :
    ∃ listing plan h g k, Turn fade m f desired incentives receipt listing plan h g k m' f' := by
  cases ends with
  | unfetched before failed => exact absurd rfl (failed _)
  | unsubmitted before lists prepared meanwhile failed => exact absurd rfl (failed _)
  | settled before lists prepared empty =>
    obtain ⟨plan, planned, enough, rfl, rfl⟩ := sound.ready_eq before lists few prepared
    obtain ⟨noCancels, noPlaces⟩ := Maker.assemble_isEmpty _ enough empty
    refine ⟨_, plan, _, _, _, before, lists, Floor.Drifts.refl _, planned, enough, ?_, ?_, rfl, ?_⟩
    · rw [noCancels]; rfl
    · simp [noCancels, noPlaces, Maker.tagged, Exchange.Unchanged]
    · rintro _ ⟨⟩
  | applied before lists prepared meanwhile applies =>
    obtain ⟨plan, planned, enough, rfl, rfl⟩ := sound.ready_eq before lists few prepared
    obtain ⟨count, exchange⟩ := applies.exchange
    rw [Maker.toList_assemble, Maker.foldl_apply_instructions] at exchange
    refine ⟨_, plan, _, _, _, before, lists, meanwhile, planned, enough, rfl, ?_, applies.listed,
      ?_⟩
    · rw [exchange]
      exact ⟨rfl, rfl, rfl⟩
    · rintro _ ⟨⟩
      simpa only [Maker.toList_assemble] using applies.receipt

namespace Turn

theorem observed (turn : Turn fade m f desired incentives receipt listing plan h g k m' f')
    (sound : Sound n 1 m f) : Sound n 0 (m.observe listing) k :=
  ((sound.drifts turn.before).observe turn.lists).drifts turn.meanwhile

theorem merged (turn : Turn fade m f desired incentives receipt listing plan h g k m' f')
    (sound : Sound n 1 m f) :
    Merged (m.tracker.existing listing).1 (m.observe listing) k :=
  ((sound.drifts turn.before).merged turn.lists).drifts turn.meanwhile

theorem aims (turn : Turn fade m f desired incentives receipt listing plan h g k m' f')
    (merged : Merged (m.tracker.existing listing).1 (m.observe listing) k) :
    ∀ t ∈ plan.toCancel, t.Aims k.exchange.resting :=
  fun t here => merged.aims t ((Reconciler.plan_sublists turn.planned).1.subset here)

theorem resting (turn : Turn fade m f desired incentives receipt listing plan h g k m' f')
    (observed : Sound n since (m.observe listing) k)
    (merged : Merged (m.tracker.existing listing).1 (m.observe listing) k) :
    f'.exchange.resting =
      k.exchange.resting.filter
          (fun r => decide (r.order.clientId ∉ plan.toCancel.map (·.clientId))) ++
        Exchange.newly k.exchange.lag k.exchange.issued (Maker.tagged m.draws plan.toPlace) :=
  Exchange.resting_replaced observed.keyed.clientIds (turn.aims merged) turn.book

-- What is placed is tracked from before it is sent, and no cancel of the same batch undoes that.
theorem sent (turn : Turn fade m f desired incentives receipt listing plan h g k m' f')
    (merged : Merged (m.tracker.existing listing).1 (m.observe listing) k) :
    ∀ e ∈ Tracker.sent m.draws plan.toPlace, e ∈ m'.tracker.entries := by
  intro e new
  have spared : e.id ∉ plan.toCancel.filterMap (·.clientId) := by
    intro cancelled
    obtain ⟨o, here, own⟩ := List.mem_filterMap.mp cancelled
    obtain ⟨id, owned, notDrawn⟩ :=
      merged.clientId o ((Reconciler.plan_sublists turn.planned).1.subset here)
    cases own.symm.trans owned
    exact notDrawn (Tracker.mem_sent new).1
  rw [turn.maker, Maker.foldl_untrack]
  exact List.mem_filter.mpr ⟨List.mem_append_right _ new, decide_eq_true spared⟩

theorem sound (turn : Turn fade m f desired incentives receipt listing plan h g k m' f')
    (sound : Sound n 1 m f) (fits : Fits n desired) : Sound n 1 m' f' := by
  have observed := turn.observed sound
  have merged := turn.merged sound
  have issued := observed.issue (fits.sublist (Reconciler.plan_sublists turn.planned).2)
  have cancelled := issued.cancelled (turn.aims merged)
  rw [← turn.maker] at cancelled
  have tracked : ∀ o ∈ Maker.tagged m.draws plan.toPlace,
      ∃ e ∈ m'.tracker.entries, e.order = o ∧ e.missed = 0 := by
    intro o here
    obtain ⟨e, new, same, fresh, -⟩ := Maker.sent_of_mem_tagged here
    exact ⟨e, turn.sent merged e new, same, fresh⟩
  have distinct := Maker.nodup_tagged sound.draws plan.toPlace
  refine (cancelled.placed tracked distinct fun o here r rests own => ?_).drifts
    (Floor.drifts_of_unchanged turn.book turn.listed)
  obtain ⟨e, -, -, -, drawn, owned⟩ := Maker.sent_of_mem_tagged here
  rw [Exchange.resting_foldl_remove observed.keyed.clientIds (turn.aims merged)] at rests
  exact observed.unused e.id drawn r (List.mem_of_mem_filter rests) (own.trans owned)

end Turn

theorem Sound.pulseEnds {quote : Except ProducerError Quote} {answer : Except Stop PulseOutcome}
    (sound : Sound n 1 m f) (quoted : Quoted n quote)
    (ends : Maker.PulseEnds w .thinning m f incentives quote answer m' f') :
    Sound n 1 m' f' := by
  cases ends with
  | unquoted | suppressed => exact sound
  | unfetched before _ => exact sound.drifts before
  | unprepared before lists stopped =>
    have prepared := (sound.drifts before).prepared lists (quoted _ rfl) incentives
    rwa [stopped] at prepared
  | unsubmitted before lists ready meanwhile _ =>
    have prepared := (sound.drifts before).prepared lists (quoted _ rfl) incentives
    rw [ready] at prepared
    exact prepared.drifts meanwhile
  | settled before lists ready empty =>
    obtain ⟨_, _, _, _, _, turn⟩ :=
      sound.turn (quoted _ rfl).few (.settled (w := w) before lists ready empty)
    exact turn.sound sound (quoted _ rfl)
  | applied before lists ready meanwhile applies =>
    obtain ⟨_, _, _, _, _, turn⟩ :=
      sound.turn (quoted _ rfl).few (.applied (w := w) before lists ready meanwhile applies)
    exact turn.sound sound (quoted _ rfl)

theorem Sound.pulse {quote : Except ProducerError Quote}
    (sound : Sound n 1 m f) (w : Surroundings τ) (quoted : Quoted n quote)
    (incentives : Decimal) :
    Sound n 1 (m.pulse w.venue quote incentives f).2.1
      (m.pulse w.venue quote incentives f).2.2 := by
  have tried := sound.pulseEnds quoted (Maker.tryPulse_ends w.fades_thinning m f quote incentives)
  obtain ⟨⟨log, maker⟩, floor⟩ := Maker.pulse_published m w.venue quote incentives f
  rw [maker, floor]
  exact tried.published log

theorem Maker.PulseEnds.live {quote : Except ProducerError Quote}
    (ends : PulseEnds w fade m f incentives quote (.ok (.completed receipt)) m' f') :
    ∃ desired, quote = .ok (.live desired) := by
  cases ends with
  | unfetched | unsubmitted | settled | applied => exact ⟨_, rfl⟩

theorem Sound.completed {quote : Except ProducerError Quote} {incentives : Decimal}
    (sound : Sound n 1 m f) (quoted : Quoted n quote) (fades : w.Fades fade)
    (completed : (m.pulse w.venue quote incentives f).1 = .ok (.completed receipt)) :
    ∃ desired, quote = .ok (.live desired) ∧ ∃ listing plan h g k log,
      Turn fade m f desired incentives receipt listing plan h g k
        (m.tryPulse w.venue quote incentives f).2.1
        (m.pulse w.venue quote incentives f).2.2 ∧
      (m.pulse w.venue quote incentives f).2.1 =
        { (m.tryPulse w.venue quote incentives f).2.1 with log } := by
  have ends := m.tryPulse_ends fades f quote incentives
  rw [m.pulse_completed w.venue quote incentives f completed] at ends
  obtain ⟨desired, rfl⟩ := ends.live
  obtain ⟨listing, plan, h, g, k, turn⟩ := sound.turn (quoted _ rfl).few ends
  obtain ⟨⟨log, maker⟩, floor⟩ := m.pulse_published w.venue (.ok (.live desired)) incentives f
  exact ⟨desired, rfl, listing, plan, h, g, k, log, floor ▸ turn, maker⟩

structure Cleared (targets : List Order) (m : Maker) (f : Floor τ) (m' : Maker) (f' : Floor τ) :
    Prop where
  resting : ∀ r ∈ f'.exchange.resting,
    r ∈ f.exchange.resting ∧ r.order.clientId ∉ targets.map (·.clientId)
  entries : ∀ e ∈ m'.tracker.entries,
    e ∈ m.tracker.entries ∧ some e.id ∉ targets.map (·.clientId)
  listed : f'.listed = f.listed

theorem Sound.cancelledOne (sound : Sound n since m f) {target : Order} {id : ClientId}
    (own : target.clientId = some id) (aims : target.Aims f.exchange.resting)
    (before : f.Drifts .thinning h) (removed : g.exchange = h.exchange.remove target)
    (listed : g.listed = h.listed) :
    Sound n since (m.untrack id) g ∧ Cleared [target] m f (m.untrack id) g := by
  have still := sound.drifts before
  have aims : ∀ t ∈ [target], t.Aims h.exchange.resting := by
    intro t here
    rw [List.mem_singleton.mp here]
    exact aims.sublist before.resting
  have cancelled := still.cancelled aims
  simp only [List.filterMap_cons, own, List.filterMap_nil, List.foldl_cons, List.foldl_nil]
    at cancelled
  have book := Exchange.resting_remove still.keyed.clientIds (aims target List.mem_cons_self)
  have same : (h.exchange.remove target).Unchanged g.exchange := removed ▸ ⟨rfl, rfl, rfl⟩
  refine ⟨cancelled.drifts (Floor.drifts_of_unchanged same listed), ?_, ?_,
    listed.trans before.listed⟩
  · intro r here
    rw [removed, book] at here
    obtain ⟨here, spared⟩ := List.mem_filter.mp here
    exact ⟨before.resting.subset here, by simpa using spared⟩
  · intro e left
    obtain ⟨tracked, spared⟩ := List.mem_filter.mp left
    exact ⟨tracked, by simpa [own] using spared⟩

theorem Sound.cancelEach (w : Surroundings τ) {targets : List Order}
    (sound : Sound n since m f) (tagged : ∀ t ∈ targets, ∃ id, t.clientId = some id)
    (aims : ∀ t ∈ targets, t.Aims f.exchange.resting) :
    Sound n since (m.cancelEach w.venue f targets).2.1 (m.cancelEach w.venue f targets).2.2 ∧
      ((m.cancelEach w.venue f targets).1 = .ok () →
        Cleared targets m f (m.cancelEach w.venue f targets).2.1
          (m.cancelEach w.venue f targets).2.2) := by
  induction targets generalizing m f with
  | nil => exact ⟨sound, fun _ => ⟨fun r here => ⟨here, List.not_mem_nil⟩,
      fun e left => ⟨left, List.not_mem_nil⟩, rfl⟩⟩
  | cons t rest ih =>
    obtain ⟨id, own⟩ := tagged t List.mem_cons_self
    have ends := m.cancel_ends w.fades_thinning t f
    unfold Maker.cancelEach
    revert ends
    rcases (m.cancel w.venue t).from f with ⟨_ | e | _, g⟩
    · exact fun before => ⟨sound.drifts before, fun through => by cases through⟩
    · exact False.elim
    · rintro ⟨h, before, removed, listed⟩
      obtain ⟨kept, first⟩ :=
        sound.cancelledOne own (aims t List.mem_cons_self) before removed listed
      have others : ∀ u ∈ rest, u.Aims g.exchange.resting := fun u later r here =>
        aims u (List.mem_cons_of_mem t later) r (first.resting r here).1
      obtain ⟨kept, later⟩ :=
        ih kept (fun u here => tagged u (List.mem_cons_of_mem t here)) others
      simp only [own]
      refine ⟨kept, fun through => ?_⟩
      have later := later through
      refine ⟨?_, ?_, later.listed.trans first.listed⟩
      · intro r here
        obtain ⟨here, spared⟩ := later.resting r here
        obtain ⟨here, sparedFirst⟩ := first.resting r here
        exact ⟨here, by simpa using ⟨by simpa using sparedFirst, by simpa using spared⟩⟩
      · intro e left
        obtain ⟨left, spared⟩ := later.entries e left
        obtain ⟨left, sparedFirst⟩ := first.entries e left
        exact ⟨left, by simpa using ⟨by simpa using sparedFirst, by simpa using spared⟩⟩

theorem Sound.observedEach (sound : Sound n 1 m f)
    (before : f.Drifts .thinning h) (lists : h.Lists listing g) (w : Surroundings τ) :
    let each := (m.observe listing).cancelEach w.venue g (m.tracker.existing listing).1
    Sound n 1 each.2.1 each.2.2 ∧
      (each.1 = .ok () →
        Cleared (m.tracker.existing listing).1 (m.observe listing) g each.2.1 each.2.2) := by
  have still := sound.drifts before
  have merged := still.merged lists
  obtain ⟨kept, cleared⟩ := (still.observe lists).cancelEach w
    (fun o here => (merged.clientId o here).imp fun _ own => own.1) merged.aims
  exact ⟨kept.grown, cleared⟩

theorem Sound.cancelAll (sound : Sound n 1 m f) (w : Surroundings τ) :
    Sound n 1 (m.cancelAll w.venue f).2.1 (m.cancelAll w.venue f).2.2 := by
  have ends := Maker.cancelAll_ends w.fades_thinning m f
  revert ends
  rcases m.cancelAll w.venue f with ⟨answer, m', f'⟩
  intro ends
  cases ends with
  | unfetched before _ => exact sound.drifts before
  | stopped before lists partly =>
    have each := (sound.observedEach before lists w).1
    rwa [partly] at each
  | swept before lists each =>
    have kept := (sound.observedEach before lists w).1
    rwa [each] at kept

end MarketMaking
