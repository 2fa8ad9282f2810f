import MarketMaking.Proofs.Resubmission

/-! Client ids are drawn one by one, and a draw that is in use at that moment is passed over. So no
pulse fails for an id, and no two entries ever share one (`Maker.ids_never_clash`). -/

namespace MarketMaking
open Process

namespace Tracker
variable {t : Tracker} {first : List ClientId}

theorem free_of_many (many : t.length < first.dedup.length) : ∃ id ∈ first, id ∉ t.ids := by
  by_contra none
  push Not at none
  have within : first.dedup ⊆ t.ids := fun id here => none id (List.mem_dedup.mp here)
  have few := (List.subperm_of_subset (List.nodup_dedup first) within).length_le
  rw [ids, List.length_map] at few
  exact absurd many (Nat.not_lt.mpr few)

-- The search for the next id ends with the first draws exactly if they hold one that is not in use,
-- as more draws than there are entries do.
structure FindsFree (t : Tracker) (first later : List ClientId) : Prop where
  found : (∃ id left, t.nextId (first ++ later) = some (id, left ++ later) ∧ id ∈ first) ↔
    ∃ id ∈ first, id ∉ t.ids
  many : t.length < first.dedup.length → ∃ id ∈ first, id ∉ t.ids

theorem findsFree (t : Tracker) (first later : List ClientId) : t.FindsFree first later := by
  refine ⟨⟨?_, fun free => nextId_of_free free later⟩, free_of_many⟩
  rintro ⟨id, left, drawn, here⟩
  obtain ⟨-, -, -, free⟩ := nextId_eq_some.mp drawn
  exact ⟨id, here, free⟩

end Tracker

namespace Maker

theorem places_upkeep (m : Maker) (incentives : Decimal) (b : Batch) :
    ((m.upkeep incentives).foldl Batch.add b).places = b.places := by
  simp only [upkeep]
  cases m.config.crankEachPulse <;> cases m.config.settleEachPulse <;>
    cases m.redeems incentives <;> rfl

-- What the planning for a listing comes to: the plan overflows, or all draws that are left are in
-- use with an order still to be placed, or every order of the plan is placed.
inductive Prepares (m : Maker) (desired listing : List Order) :
    Except Stop Ready → Maker → Prop where
  | overflow (failed : m.reconciler.plan (m.tracker.existing listing).1 desired = .error o) :
      Prepares m desired listing (.error (.halted (.overflow o))) (m.observe listing)
  | spent (planned : m.reconciler.plan (m.tracker.existing listing).1 desired = .ok plan)
      (split : plan.toPlace = first ++ o :: rest)
      (places : (m.tracker.existing listing).2.Places m.draws first placed n.tracker n.draws)
      (used : ∀ id ∈ n.draws, id ∈ n.tracker.ids) :
      Prepares m desired listing (.error (.halted .outOfDraws)) n
  | ready (planned : m.reconciler.plan (m.tracker.existing listing).1 desired = .ok plan)
      (places : (m.tracker.existing listing).2.Places m.draws plan.toPlace placed n.tracker n.draws)
      (batch : ready.batch.places = placed.map .place) :
      Prepares m desired listing (.ok ready) n

theorem prepare_prepares (m : Maker) (desired : List Order) (incentives : Decimal)
    (listing : List Order) :
    m.Prepares desired listing (m.prepare desired incentives listing).1
      (m.prepare desired incentives listing).2 := by
  cases planned : m.reconciler.plan (m.tracker.existing listing).1 desired with
  | error o =>
    unfold prepare
    simp only [planned]
    exact .overflow planned
  | ok plan =>
    rcases (m.observe listing).placeAll_draws
        (Batch.ofList (plan.toCancel.map (.cancel · true))) plan.toPlace with
      ⟨n, placed, all, places⟩ | ⟨n, first, o, rest, placed, spent, split, places, used⟩
    · rw [prepare_of_placed planned all]
      refine .ready planned places ?_
      simp only [places_upkeep, Batch.add_places, Batch.ofList, Batch.add_cancels]
      rfl
    · rw [prepare_of_placed planned spent]
      exact .spent planned split places used

theorem prepares_of_eq {m n : Maker} {desired listing : List Order} {incentives : Decimal}
    {answer : Except Stop Ready}
    (prepared : m.prepare desired incentives listing = (answer, n)) :
    m.Prepares desired listing answer n := by
  have prepares := m.prepare_prepares desired incentives listing
  rwa [prepared] at prepares

theorem Prepares.nodup {m n : Maker} {desired listing : List Order}
    {answer : Except Stop Ready} (prepares : m.Prepares desired listing answer n)
    (distinct : m.tracker.ids.Nodup) : n.tracker.ids.Nodup := by
  have observed := (m.tracker.ids_existing_sublist listing).nodup distinct
  cases prepares with
  | overflow => exact observed
  | spent _ _ places => exact places.nodup observed
  | ready _ places => exact places.nodup observed

def Carries (b : Batch) (s : σ × List Submission) : Prop := ∀ sent ∈ s.2, sent.batch = b

theorem submitted_same {m : Maker} {v : Venue σ} {b : Batch} {t u : σ × List Submission}
    {answer : Option (Except RemoteError Receipt)} (unsent : t.2 = [])
    (submitted : (m.submit v.recorded b).from t = (answer, u)) :
    ∀ sent ∈ u.2, sent.batch = b := by
  have asked : Ensures (Carries b) (v.submit b).beside fun _ => Carries b := fun _ kept => kept
  have noted (answer : Except RemoteError Receipt) :
      Ensures (Carries b) (Submission.note (σ := σ) ⟨b, answer⟩) fun _ => Carries b := by
    intro s kept
    exact List.forall_mem_append.mpr ⟨kept, List.forall_mem_singleton.mpr rfl⟩
  have once : Ensures (Carries b) (v.recorded.submit b) fun _ => Carries b := by
    refine asked.bind (fun _ cut => cut) fun answer => ?_
    exact (noted answer).bind (fun _ cut => cut) fun _ _ kept => kept
  have waits (d : Duration) : Ensures (Carries b) (v.recorded.pause d) fun _ => Carries b :=
    fun _ kept => kept
  have none : Carries b t := fun sent here => absurd (unsent ▸ here) List.not_mem_nil
  have all : Ensures (Carries b) (m.submit v.recorded b) fun _ => Carries b :=
    m.submitPolicy.runTransient_keeps waits once
  have kept := all t none
  rwa [submitted] at kept

structure DrawsFreely (m : Maker) (v : Venue σ) (quote : Except ProducerError Quote)
    (incentives : Decimal) (s : σ) : Prop where
  tracked : ∀ e, (m.tryPulse v quote incentives s).1 ≠ .error (.failed (.tracking e))
  distinct : m.tracker.ids.Nodup → (m.tryPulse v quote incentives s).2.1.tracker.ids.Nodup
  sent : ∀ sent ∈ (m.tryPulse v.recorded quote incentives (s, [])).2.2.2,
    ∃ desired listing ready n, quote = .ok (.live desired) ∧
      ((m.fetch v).from s).1 = some (.ok listing) ∧
      m.prepare desired incentives listing = (.ok ready, n) ∧ sent.batch = ready.batch

theorem untracked_nodup {m : Maker} (distinct : m.tracker.ids.Nodup) (cancelled : List ClientId) :
    (cancelled.foldl untrack m).tracker.ids.Nodup := by
  rw [foldl_untrack]
  exact distinct.sublist (List.filter_sublist.map _)

theorem tryPulse_distinct (m : Maker) (v : Venue σ) (quote : Except ProducerError Quote)
    (incentives : Decimal) (s : σ) :
    (∀ e, (m.tryPulse v quote incentives s).1 ≠ .error (.failed (.tracking e))) ∧
      (m.tracker.ids.Nodup → (m.tryPulse v quote incentives s).2.1.tracker.ids.Nodup) := by
  have tries := m.tryPulse_tries v quote incentives s
  revert tries
  rcases m.tryPulse v quote incentives s with ⟨answer, n, t⟩
  intro tries
  cases tries with
  | unquoted | suppressed | unlisted | unfetched => exact ⟨nofun, id⟩
  | unprepared _ stopped =>
    have prepares := prepares_of_eq stopped
    refine ⟨?_, prepares.nodup⟩
    cases prepares <;> nofun
  | settled _ prepared _ => exact ⟨nofun, (prepares_of_eq prepared).nodup⟩
  | unanswered _ prepared _ | refused _ prepared _ =>
    exact ⟨nofun, (prepares_of_eq prepared).nodup⟩
  | accepted _ prepared _ =>
    exact ⟨nofun, fun distinct => untracked_nodup ((prepares_of_eq prepared).nodup distinct) _⟩

theorem tryPulse_sent (m : Maker) (v : Venue σ) (quote : Except ProducerError Quote)
    (incentives : Decimal) (s : σ) :
    ∀ sent ∈ (m.tryPulse v.recorded quote incentives (s, [])).2.2.2,
      ∃ desired listing ready n, quote = .ok (.live desired) ∧
        ((m.fetch v).from s).1 = some (.ok listing) ∧
        m.prepare desired incentives listing = (.ok ready, n) ∧ sent.batch = ready.batch := by
  have tries := m.tryPulse_tries v.recorded quote incentives (s, [])
  revert tries
  rcases m.tryPulse v.recorded quote incentives (s, []) with ⟨answer, n, t, log⟩
  intro tries sent here
  cases tries with
  | unquoted | suppressed => cases here
  | unlisted fetched | unfetched fetched | unprepared fetched | settled fetched =>
    obtain ⟨-, rfl⟩ := fetched_recorded fetched
    cases here
  | unanswered fetched prepared submitted | refused fetched prepared submitted
  | accepted fetched prepared submitted =>
    obtain ⟨listed, unsent⟩ := fetched_recorded fetched
    exact ⟨_, _, _, _, rfl, by rw [listed], prepared, submitted_same unsent submitted sent here⟩

end Maker

theorem Maker.ids_never_clash (m : Maker) :
    (∀ (σ : Type) (v : Venue σ) (quote : Except ProducerError Quote) (incentives : Decimal) (s : σ),
      m.DrawsFreely v quote incentives s) ∧
    (∀ (desired listing : List Order) (incentives : Decimal),
      m.Prepares desired listing (m.prepare desired incentives listing).1
        (m.prepare desired incentives listing).2) ∧
    ∀ first later : List ClientId, m.tracker.FindsFree first later := by
  refine ⟨fun σ v quote incentives s => ?_, fun desired listing incentives =>
    m.prepare_prepares desired incentives listing, m.tracker.findsFree⟩
  obtain ⟨tracked, distinct⟩ := m.tryPulse_distinct v quote incentives s
  exact ⟨tracked, distinct, m.tryPulse_sent v quote incentives s⟩

end MarketMaking
