import MarketMaking.Proofs.Floor
import MarketMaking.Proofs.Placing

/-! What one pulse does: the ways its requests can go at any venue (`tryPulse_tries`), what it has
done by its end on a trading floor (`tryPulse_ends`), and what is planned between fetch and
submission. -/

namespace MarketMaking

namespace Batch

theorem add_cancels (b : Batch) (targets : List Order) :
    (targets.map (.cancel · true)).foldl add b =
      { b with cancels := b.cancels ++ targets.map (.cancel · true) } := by
  induction targets generalizing b with
  | nil => simp
  | cons t rest ih => simp [ih, add]

theorem add_places (b : Batch) (orders : List Order) :
    (orders.map .place).foldl add b = { b with places := b.places ++ orders.map .place } := by
  induction orders generalizing b with
  | nil => simp
  | cons o rest ih => simp [ih, add]

end Batch

namespace Maker

def instructions (m : Maker) (incentives : Decimal) (targets orders : List Order) :
    List Operation :=
  targets.map (.cancel · true) ++ orders.map .place ++ m.upkeep incentives

def assemble (m : Maker) (incentives : Decimal) (targets orders : List Order) : Batch :=
  (m.upkeep incentives).foldl Batch.add
    ((orders.map .place).foldl Batch.add (Batch.ofList (targets.map (.cancel · true))))

theorem toList_assemble (m : Maker) (incentives : Decimal) (targets orders : List Order) :
    (m.assemble incentives targets orders).toList = m.instructions incentives targets orders := by
  have cancels : Batch.ofList (targets.map (.cancel · true)) =
      { Batch.empty with cancels := targets.map (.cancel · true) } :=
    Batch.add_cancels Batch.empty targets
  simp only [assemble, instructions, cancels, Batch.add_places, upkeep, Batch.empty]
  cases m.config.crankEachPulse <;> cases m.config.settleEachPulse <;>
    cases m.redeems incentives <;> simp [Batch.add, Batch.toList]

theorem trades_of_isEmpty {m : Maker} {incentives : Decimal} {targets orders : List Order}
    (empty : (m.assemble incentives targets orders).isEmpty = true) :
    targets = [] ∧ orders = [] := by
  have none : m.instructions incentives targets orders = [] := by
    rw [← toList_assemble, ← List.length_eq_zero_iff, Batch.length_toList]
    simpa [Batch.isEmpty] using empty
  simp only [instructions, List.append_eq_nil_iff, List.map_eq_nil_iff] at none
  exact none.1

theorem foldl_apply_instructions (m : Maker) (incentives : Decimal) (targets orders : List Order)
    (x : Exchange) :
    (m.instructions incentives targets orders).foldl Exchange.apply x =
      orders.foldl Exchange.rest (targets.foldl Exchange.remove x) := by
  have upkept : ∀ y : Exchange, (m.upkeep incentives).foldl Exchange.apply y = y := by
    intro y
    simp only [upkeep]
    cases m.config.crankEachPulse <;> cases m.config.settleEachPulse <;>
      cases m.redeems incentives <;> rfl
  simp only [instructions, List.foldl_append, List.foldl_map, upkept]
  rfl

def tagged (ids : List ClientId) (orders : List Order) : List Order :=
  List.zipWith (fun id o => o.withClientId id) ids orders

theorem tagged_eq (ids : List ClientId) (orders : List Order) :
    tagged ids orders = (Tracker.sent ids orders).map (·.order) := by
  simp [tagged, Tracker.sent, List.map_zipWith]

theorem clientIds_tagged (ids : List ClientId) (orders : List Order) :
    (tagged ids orders).map (·.clientId) = (ids.take orders.length).map some := by
  rw [tagged_eq, ← Tracker.ids_sent, List.map_map, List.map_map]
  refine List.map_congr_left fun e new => ?_
  obtain ⟨-, o, -, same⟩ := Tracker.mem_sent new
  rw [same]
  rfl

theorem nodup_tagged {ids : List ClientId} (distinct : ids.Nodup) (orders : List Order) :
    ((tagged ids orders).map (·.clientId)).Nodup := by
  rw [clientIds_tagged]
  exact (distinct.sublist (List.take_sublist _ _)).map fun _ _ => Option.some.inj

theorem drawn_of_mem_tagged {ids : List ClientId} {orders : List Order} {o : Order}
    (distinct : ids.Nodup) (here : o ∈ tagged ids orders) :
    ∃ id ∈ ids, o.clientId = some id ∧ id ∉ ids.drop orders.length := by
  have own : o.clientId ∈ (ids.take orders.length).map some :=
    clientIds_tagged _ _ ▸ List.mem_map_of_mem here
  obtain ⟨id, taken, owned⟩ := List.mem_map.mp own
  refine ⟨id, List.mem_of_mem_take taken, owned.symm, fun left => ?_⟩
  have split := (List.take_append_drop orders.length ids).symm ▸ distinct
  exact (List.nodup_append.mp split).2.2 id taken id left rfl

theorem sides_tagged (ids : List ClientId) (orders : List Order) :
    ((tagged ids orders).map (·.side)).Sublist (orders.map (·.side)) := by
  induction orders generalizing ids with
  | nil => simp [tagged]
  | cons o rest ih =>
    cases ids with
    | nil => exact List.nil_sublist _
    | cons id others => exact (ih others).cons_cons o.side

theorem sent_of_mem_tagged {ids : List ClientId} {orders : List Order} {o : Order}
    (here : o ∈ tagged ids orders) :
    ∃ e ∈ Tracker.sent ids orders, e.order = o ∧ e.missed = 0 ∧ e.id ∈ ids ∧
      o.clientId = some e.id := by
  rw [tagged_eq] at here
  obtain ⟨e, new, rfl⟩ := List.mem_map.mp here
  obtain ⟨drawn, p, -, same⟩ := Tracker.mem_sent new
  exact ⟨e, new, rfl, by rw [same], drawn, by rw [same]; rfl⟩

theorem withClientId_mem_tagged {ids : List ClientId} {orders : List Order} {id : ClientId}
    {o : Order} {p : Nat} (drawn : ids[p]? = some id) (wanted : orders[p]? = some o) :
    o.withClientId id ∈ tagged ids orders := by
  refine List.mem_of_getElem? (i := p) ?_
  simp [tagged, List.getElem?_zipWith, drawn, wanted]

theorem mem_tagged {ids : List ClientId} {orders : List Order} {o : Order}
    (sent : o ∈ tagged ids orders) :
    ∃ (p : Nat) (id : ClientId) (q : Order), ids[p]? = some id ∧ orders[p]? = some q ∧
      o = q.withClientId id := by
  obtain ⟨p, here⟩ := List.getElem?_of_mem sent
  simp only [tagged, List.getElem?_zipWith] at here
  cases drawn : ids[p]? with
  | none => simp [drawn] at here
  | some id =>
    cases wanted : orders[p]? with
    | none => simp [drawn, wanted] at here
    | some q => exact ⟨p, id, q, drawn, wanted, by simpa [drawn, wanted] using here.symm⟩

def issue (m : Maker) (orders : List Order) : Maker :=
  { m with
    draws := m.draws.drop orders.length
    tracker := { m.tracker with
      entries := m.tracker.entries ++ Tracker.sent m.draws orders } }

def squeeze (m : Maker) (orders : List Order) : Maker :=
  { m with
    draws := m.draws.drop orders.length
    tracker := m.tracker.squeeze (Tracker.sent m.draws orders) }

theorem squeeze_nil {m : Maker} (fits : m.tracker.length ≤ m.tracker.capacity) :
    m.squeeze [] = m := by
  simp [squeeze, Tracker.sent, Tracker.squeeze_nil fits]

theorem squeeze_eq_issue {m : Maker} {orders : List Order}
    (room : m.tracker.length + orders.length ≤ m.tracker.capacity) :
    m.squeeze orders = m.issue orders := by
  have sent := Tracker.length_sent_le m.draws orders
  rw [squeeze, Tracker.squeeze_of_room (by omega)]
  rfl

theorem placeAll_eq {m : Maker} (distinct : m.draws.Nodup)
    (free : ∀ id ∈ m.draws, id ∉ m.tracker.ids) (fits : m.tracker.length ≤ m.tracker.capacity)
    (orders : List Order) (b : Batch) :
    m.placeAll b orders =
      (if orders.length ≤ m.draws.length then
          .ok (((tagged m.draws orders).map .place).foldl Batch.add b)
        else .error (.halted .outOfDraws),
        m.squeeze orders) := by
  induction orders generalizing m b with
  | nil => simp [placeAll, tagged, squeeze_nil fits]
  | cons o rest ih =>
    cases drawn : m.draws with
    | nil =>
      have idle : m.squeeze (o :: rest) = m := by
        simp only [squeeze, Tracker.sent, drawn, List.drop_nil, List.zipWith_nil_left,
          Tracker.squeeze_nil fits]
        rw [← drawn]
      simp [placeAll, drawn, Tracker.nextId, idle]
    | cons id draws =>
      obtain ⟨new, distinct⟩ := List.nodup_cons.mp (drawn ▸ distinct)
      have unused : id ∉ m.tracker.ids := free id (drawn ▸ List.mem_cons_self)
      have tracked := Tracker.track_eq (o := o.withClientId id) rfl unused
      simp only [placeAll, drawn, Tracker.nextId_cons unused, tracked]
      rw [ih]
      · simp [tagged, squeeze, drawn, Tracker.sent, Tracker.squeeze_squeeze]
      · exact distinct
      · intro other later held
        rcases List.mem_append.mp ((m.tracker.ids_squeeze_sublist _).subset held) with old | last
        · exact free other (drawn ▸ List.mem_cons_of_mem id later) old
        · obtain rfl : other = id := List.mem_singleton.mp last
          exact new later
      · exact m.tracker.length_squeeze_le _

theorem tagged_of_places {t t' : Tracker} {ids left : List ClientId} {orders placed : List Order}
    (places : t.Places ids orders placed t' left) :
    ∃ ids, ids.length = orders.length ∧ placed = tagged ids orders := by
  induction places with
  | done => exact ⟨[], rfl, rfl⟩
  | next used free tracked known others ih =>
    obtain ⟨ids, all, rfl⟩ := ih
    exact ⟨_ :: ids, congrArg (· + 1) all, rfl⟩

theorem placeAll_batch {m n : Maker} {b ready : Batch} {orders : List Order}
    (placed : m.placeAll b orders = (.ok ready, n)) :
    ∃ ids, ids.length = orders.length ∧
      ready = ((tagged ids orders).map .place).foldl Batch.add b := by
  rcases m.placeAll_draws b orders with ⟨_, _, done, places⟩ | ⟨_, _, _, _, _, spent, -⟩
  · cases done.symm.trans placed
    obtain ⟨ids, all, rfl⟩ := tagged_of_places places
    exact ⟨ids, all, rfl⟩
  · cases spent.symm.trans placed

-- While it trades, a maker changes nothing but its tracker and the draws that are left.
def Moved (m m' : Maker) : Prop := ∃ tracker draws, m' = { m with tracker, draws }

theorem Moved.refl (m : Maker) : Moved m m := ⟨m.tracker, m.draws, rfl⟩

theorem Moved.trans {one two three : Maker} (first : Moved one two) (second : Moved two three) :
    Moved one three := by
  obtain ⟨_, _, rfl⟩ := first
  obtain ⟨tracker, draws, rfl⟩ := second
  exact ⟨tracker, draws, rfl⟩

theorem placeAll_moved (m : Maker) (b : Batch) (orders : List Order) :
    Moved m (m.placeAll b orders).2 := by
  induction orders generalizing m b with
  | nil => exact .refl m
  | cons o rest ih =>
    unfold placeAll
    cases m.tracker.nextId m.draws with
    | none => exact .refl m
    | some found =>
      simp only
      cases m.tracker.track (o.withClientId found.1) with
      | error e => exact ⟨_, _, rfl⟩
      | ok tracker =>
        have first : Moved m { m with draws := found.2, tracker } := ⟨_, _, rfl⟩
        exact first.trans (ih _ _)

def observe (m : Maker) (listing : List Order) : Maker :=
  { m with tracker := (m.tracker.existing listing).2 }

theorem prepare_eq {m : Maker} {listing desired : List Order} (distinct : m.draws.Nodup)
    (free : ∀ id ∈ m.draws, id ∉ (m.observe listing).tracker.ids)
    (fits : (m.observe listing).tracker.length ≤ m.tracker.capacity) (incentives : Decimal) :
    m.prepare desired incentives listing =
      match m.reconciler.plan (m.tracker.existing listing).1 desired with
      | .error o => (.error (.halted (.overflow o)), m.observe listing)
      | .ok plan =>
        (if plan.toPlace.length ≤ m.draws.length then
            .ok ⟨m.assemble incentives plan.toCancel (tagged m.draws plan.toPlace),
              plan.toCancel.filterMap (·.clientId)⟩
          else .error (.halted .outOfDraws),
          (m.observe listing).squeeze plan.toPlace) := by
  unfold prepare
  simp only
  cases planned : m.reconciler.plan (m.tracker.existing listing).1 desired with
  | error o => rfl
  | ok plan =>
    have placed := placeAll_eq (m := m.observe listing) distinct free fits plan.toPlace
      (Batch.ofList (plan.toCancel.map (.cancel · true)))
    simp only [observe] at placed
    simp only [placed]
    by_cases enough : plan.toPlace.length ≤ m.draws.length
    · simp only [enough, if_true]; rfl
    · simp only [enough, if_false]; rfl

theorem prepare_of_placed {m n : Maker} {desired listing : List Order} {plan : Plan}
    (planned : m.reconciler.plan (m.tracker.existing listing).1 desired = .ok plan)
    (placed : (m.observe listing).placeAll (Batch.ofList (plan.toCancel.map (.cancel · true)))
      plan.toPlace = (answer, n)) (incentives : Decimal) :
    m.prepare desired incentives listing =
      (answer.map fun b =>
        ⟨(m.upkeep incentives).foldl Batch.add b, plan.toCancel.filterMap (·.clientId)⟩, n) := by
  have upkept : n.upkeep = m.upkeep := by
    obtain ⟨_, _, moved⟩ := (m.observe listing).placeAll_moved
      (Batch.ofList (plan.toCancel.map (.cancel · true))) plan.toPlace
    rw [placed] at moved
    rw [show n = _ from moved]
    rfl
  simp only [observe] at placed
  unfold prepare
  simp only [planned, placed]
  cases answer with
  | error stop => rfl
  | ok b => simp only [upkept, Except.map]

theorem foldl_untrack (m : Maker) (ids : List ClientId) :
    ids.foldl untrack m = { m with tracker := { m.tracker with
      entries := m.tracker.entries.filter fun e => decide (e.id ∉ ids) } } := by
  induction ids generalizing m with
  | nil => simp
  | cons id rest ih =>
    simp only [List.foldl_cons, ih, untrack, Tracker.untrack, List.filter_filter, List.mem_cons,
      not_or, Bool.decide_and]
    congr 2
    refine List.filter_congr fun e _ => ?_
    by_cases hit : e.id = id <;> simp [hit]

inductive Tries (m : Maker) (v : Venue σ) (incentives : Decimal) (s : σ) :
    Except ProducerError Quote → Except Stop PulseOutcome → Maker → σ → Prop where
  | unquoted : Tries m v incentives s (.error e) (.error (.failed (.producer e))) m s
  | suppressed : Tries m v incentives s (.ok .suppressed) (.ok .skipped) m s
  | unlisted (fetched : (m.fetch v).from s = (none, t)) :
      Tries m v incentives s (.ok (.live desired)) (.error (.halted .cutOff)) m t
  | unfetched (fetched : (m.fetch v).from s = (some (.error e), t)) :
      Tries m v incentives s (.ok (.live desired)) (.error (.failed (.remote e))) m t
  | unprepared (fetched : (m.fetch v).from s = (some (.ok listing), t))
      (stopped : m.prepare desired incentives listing = (.error stop, n)) :
      Tries m v incentives s (.ok (.live desired)) (.error stop) n t
  | settled (fetched : (m.fetch v).from s = (some (.ok listing), t))
      (prepared : m.prepare desired incentives listing = (.ok ready, n))
      (empty : ready.batch.isEmpty = true) :
      Tries m v incentives s (.ok (.live desired)) (.ok (.completed none)) n t
  | unanswered (fetched : (m.fetch v).from s = (some (.ok listing), t))
      (prepared : m.prepare desired incentives listing = (.ok ready, n))
      (submitted : (n.submit v ready.batch).from t = (none, u)) :
      Tries m v incentives s (.ok (.live desired)) (.error (.halted .cutOff)) n u
  | refused (fetched : (m.fetch v).from s = (some (.ok listing), t))
      (prepared : m.prepare desired incentives listing = (.ok ready, n))
      (submitted : (n.submit v ready.batch).from t = (some (.error e), u)) :
      Tries m v incentives s (.ok (.live desired)) (.error (.failed (.remote e))) n u
  | accepted (fetched : (m.fetch v).from s = (some (.ok listing), t))
      (prepared : m.prepare desired incentives listing = (.ok ready, n))
      (submitted : (n.submit v ready.batch).from t = (some (.ok receipt), u)) :
      Tries m v incentives s (.ok (.live desired)) (.ok (.completed (some receipt)))
        (ready.cancelled.foldl untrack n) u

theorem tryPulse_tries (m : Maker) (v : Venue σ) (quote : Except ProducerError Quote)
    (incentives : Decimal) (s : σ) :
    m.Tries v incentives s quote (m.tryPulse v quote incentives s).1
      (m.tryPulse v quote incentives s).2.1 (m.tryPulse v quote incentives s).2.2 := by
  rcases quote with e | ⟨desired⟩ | _
  · exact .unquoted
  · unfold tryPulse
    simp only
    rcases fetched : (m.fetch v).from s with ⟨_ | e | listing, t⟩
    · exact .unlisted fetched
    · exact .unfetched fetched
    · simp only
      rcases prepared : m.prepare desired incentives listing with ⟨stop | ready, n⟩
      · exact .unprepared fetched prepared
      · simp only
        split
        · exact .settled fetched prepared ‹_›
        · rcases submitted : (n.submit v ready.batch).from t with ⟨_ | e | receipt, u⟩
          · exact .unanswered fetched prepared submitted
          · exact .refused fetched prepared submitted
          · exact .accepted fetched prepared submitted
  · exact .suppressed

-- The ways a pulse can end, with the maker and the floor it leaves behind. `h` is the floor when
-- the fetch got through, `g` the floor after it.
inductive PulseEnds (w : Surroundings τ) (fade : Fade) (m : Maker) (f : Floor τ)
    (incentives : Decimal) :
    Except ProducerError Quote → Except Stop PulseOutcome → Maker → Floor τ → Prop where
  | unquoted : PulseEnds w fade m f incentives (.error e) (.error (.failed (.producer e))) m f
  | suppressed : PulseEnds w fade m f incentives (.ok .suppressed) (.ok .skipped) m f
  | unfetched (before : f.Drifts fade g) (failed : ∀ outcome, answer ≠ .ok outcome) :
      PulseEnds w fade m f incentives (.ok (.live desired)) answer m g
  | unprepared (before : f.Drifts fade h) (lists : h.Lists listing g)
      (stopped : m.prepare desired incentives listing = (.error stop, n)) :
      PulseEnds w fade m f incentives (.ok (.live desired)) (.error stop) n g
  | unsubmitted (before : f.Drifts fade h) (lists : h.Lists listing g)
      (prepared : m.prepare desired incentives listing = (.ok ready, n))
      (meanwhile : g.Drifts fade k) (failed : ∀ outcome, answer ≠ .ok outcome) :
      PulseEnds w fade m f incentives (.ok (.live desired)) answer n k
  | settled (before : f.Drifts fade h) (lists : h.Lists listing g)
      (prepared : m.prepare desired incentives listing = (.ok ready, n))
      (empty : ready.batch.isEmpty = true) :
      PulseEnds w fade m f incentives (.ok (.live desired)) (.ok (.completed none)) n g
  | applied (before : f.Drifts fade h) (lists : h.Lists listing g)
      (prepared : m.prepare desired incentives listing = (.ok ready, n))
      (meanwhile : g.Drifts fade k) (applies : k.Applies ready.batch receipt after) :
      PulseEnds w fade m f incentives (.ok (.live desired)) (.ok (.completed (some receipt)))
        (ready.cancelled.foldl untrack n) after

theorem tryPulse_ends {w : Surroundings τ} (fades : w.Fades fade) (m : Maker) (f : Floor τ)
    (quote : Except ProducerError Quote) (incentives : Decimal) :
    PulseEnds w fade m f incentives quote (m.tryPulse w.venue quote incentives f).1
      (m.tryPulse w.venue quote incentives f).2.1 (m.tryPulse w.venue quote incentives f).2.2 := by
  have tries := m.tryPulse_tries w.venue quote incentives f
  have fetched := m.fetch_ends fades f
  have submitted {n : Maker} {b : Batch} {g h : Floor τ}
      {answer : Option (Except RemoteError Receipt)}
      (sent : (n.submit w.venue b).from g = (answer, h)) := sent ▸ n.submit_ends fades b g
  revert tries
  rcases m.tryPulse w.venue quote incentives f with ⟨answer, n, k⟩
  intro tries
  cases tries with
  | unquoted => exact .unquoted
  | suppressed => exact .suppressed
  | unlisted same | unfetched same =>
    rw [same] at fetched
    exact .unfetched fetched nofun
  | unprepared same stopped =>
    rw [same] at fetched
    obtain ⟨h, before, lists⟩ := fetched
    exact .unprepared before lists stopped
  | settled same prepared empty =>
    rw [same] at fetched
    obtain ⟨h, before, lists⟩ := fetched
    exact .settled before lists prepared empty
  | unanswered same prepared sent =>
    rw [same] at fetched
    obtain ⟨h, before, lists⟩ := fetched
    exact .unsubmitted before lists prepared (submitted sent) nofun
  | refused same prepared sent =>
    rw [same] at fetched
    obtain ⟨h, before, lists⟩ := fetched
    exact .unsubmitted before lists prepared (submitted sent) nofun
  | accepted same prepared sent =>
    rw [same] at fetched
    obtain ⟨h, before, lists⟩ := fetched
    obtain ⟨k, meanwhile, applies⟩ := submitted sent
    exact .applied before lists prepared meanwhile applies

theorem prepare_moved (m : Maker) (desired : List Order) (incentives : Decimal)
    (listing : List Order) : Moved m (m.prepare desired incentives listing).2 := by
  have observed : Moved m (m.observe listing) := ⟨_, m.draws, rfl⟩
  cases planned : m.reconciler.plan (m.tracker.existing listing).1 desired with
  | error o =>
    unfold prepare
    simp only [planned]
    exact observed
  | ok plan =>
    rw [prepare_of_placed planned rfl]
    exact observed.trans (placeAll_moved _ _ _)

theorem moved_of_prepared {m n : Maker} {desired listing : List Order}
    (prepared : m.prepare desired incentives listing = (answer, n)) : Moved m n := by
  have moved := m.prepare_moved desired incentives listing
  rwa [prepared] at moved

theorem tryPulse_moved (m : Maker) (v : Venue σ) (quote : Except ProducerError Quote)
    (incentives : Decimal) (s : σ) : Moved m (m.tryPulse v quote incentives s).2.1 := by
  have tries := m.tryPulse_tries v quote incentives s
  revert tries
  rcases m.tryPulse v quote incentives s with ⟨answer, n, t⟩
  intro tries
  cases tries with
  | unquoted | suppressed | unlisted | unfetched => exact .refl _
  | unprepared _ prepared | settled _ prepared _ => exact moved_of_prepared prepared
  | unanswered _ prepared _ | refused _ prepared _ => exact moved_of_prepared prepared
  | accepted _ prepared _ =>
    rw [foldl_untrack]
    exact (moved_of_prepared prepared).trans ⟨_, _, rfl⟩

theorem cancelEach_moved (m : Maker) (v : Venue σ) (s : σ) (targets : List Order) :
    Moved m (m.cancelEach v s targets).2.1 := by
  induction targets generalizing m s with
  | nil => exact .refl m
  | cons t rest ih =>
    unfold cancelEach
    rcases (m.cancel v t).from s with ⟨_ | e | _, s⟩
    · exact .refl m
    · exact .refl m
    · refine Moved.trans ?_ (ih _ s)
      cases t.clientId with
      | none => exact .refl m
      | some id => exact ⟨_, m.draws, rfl⟩

theorem cancelAll_moved (m : Maker) (v : Venue σ) (s : σ) : Moved m (m.cancelAll v s).2.1 := by
  unfold cancelAll
  rcases (m.fetch v).from s with ⟨_ | e | listing, s⟩
  · exact .refl m
  · exact .refl m
  · have each := (m.observe listing).cancelEach_moved v s (m.tracker.existing listing).1
    have observed : Moved m (m.observe listing) := ⟨_, m.draws, rfl⟩
    simp only [observe] at each
    revert each
    simp only
    rcases cancelEach _ v s (m.tracker.existing listing).1 with ⟨_ | _, n, s⟩ <;>
      exact observed.trans

theorem conclude_published (m : Maker) (v : Venue σ) (event : Timestamp → PulseEvent)
    (outcome : PulseOutcome) (s : σ) :
    (∃ log, (m.conclude v event outcome s).2.1 = { m with log }) ∧
      (m.conclude v event outcome s).2.2 = s := by
  unfold conclude
  cases v.now s with
  | error o => exact ⟨⟨m.log, rfl⟩, rfl⟩
  | ok now => exact ⟨⟨_, rfl⟩, rfl⟩

theorem pulse_published (m : Maker) (v : Venue σ) (quote : Except ProducerError Quote)
    (incentives : Decimal) (s : σ) :
    (∃ log, (m.pulse v quote incentives s).2.1 =
        { (m.tryPulse v quote incentives s).2.1 with log }) ∧
      (m.pulse v quote incentives s).2.2 = (m.tryPulse v quote incentives s).2.2 := by
  unfold pulse
  rcases m.tryPulse v quote incentives s with ⟨answer, n, t⟩
  cases answer with
  | error stop =>
    cases stop with
    | failed e => exact conclude_published n v _ _ t
    | halted h => exact ⟨⟨n.log, rfl⟩, rfl⟩
  | ok outcome =>
    cases outcome with
    | completed receipt => exact conclude_published n v _ _ t
    | skipped | failed _ => exact ⟨⟨n.log, rfl⟩, rfl⟩

theorem pulse_completed (m : Maker) (v : Venue σ) (quote : Except ProducerError Quote)
    (incentives : Decimal) (s : σ)
    (completed : (m.pulse v quote incentives s).1 = .ok (.completed receipt)) :
    (m.tryPulse v quote incentives s).1 = .ok (.completed receipt) := by
  unfold pulse at completed
  revert completed
  rcases m.tryPulse v quote incentives s with ⟨answer, n, t⟩
  cases answer with
  | error stop =>
    cases stop with
    | failed e => simp only [conclude]; split <;> nofun
    | halted h => nofun
  | ok outcome =>
    cases outcome with
    | completed other =>
      simp only [conclude]
      split
      · nofun
      · intro same; cases same; rfl
    | skipped | failed _ => nofun

theorem pulse_of_halted {m : Maker} {v : Venue σ} {quote : Except ProducerError Quote}
    {incentives : Decimal} {s : σ}
    (stopped : (m.tryPulse v quote incentives s).1 = .error (.halted halt)) :
    (m.pulse v quote incentives s).1 = .error halt := by
  unfold pulse
  revert stopped
  rcases m.tryPulse v quote incentives s with ⟨answer, n, t⟩
  rintro rfl
  rfl

-- While the clock stays in range, a pulse is completed if what it tries is.
theorem pulse_of_completed {m : Maker} {v : Venue σ} {quote : Except ProducerError Quote}
    {incentives : Decimal} {s : σ} (clock : ∀ s, ∃ now, v.now s = .ok now)
    (completed : (m.tryPulse v quote incentives s).1 = .ok (.completed receipt)) :
    (m.pulse v quote incentives s).1 = .ok (.completed receipt) := by
  unfold pulse
  revert completed
  rcases m.tryPulse v quote incentives s with ⟨answer, n, t⟩
  rintro rfl
  obtain ⟨now, reading⟩ := clock t
  simp only [conclude, reading]

inductive SweepEnds (w : Surroundings τ) (fade : Fade) (m : Maker) (f : Floor τ) :
    Except Stop Nat → Maker → Floor τ → Prop where
  | unfetched (before : f.Drifts fade g) (failed : ∀ count, answer ≠ .ok count) :
      SweepEnds w fade m f answer m g
  | stopped (before : f.Drifts fade h) (lists : h.Lists listing g)
      (partly : (m.observe listing).cancelEach w.venue g (m.tracker.existing listing).1 =
        (.error stop, n, k)) :
      SweepEnds w fade m f (.error stop) n k
  | swept (before : f.Drifts fade h) (lists : h.Lists listing g)
      (each : (m.observe listing).cancelEach w.venue g (m.tracker.existing listing).1 =
        (.ok (), n, k)) :
      SweepEnds w fade m f (.ok (m.tracker.existing listing).1.length) n k

theorem cancelAll_ends {w : Surroundings τ} (fades : w.Fades fade) (m : Maker) (f : Floor τ) :
    SweepEnds w fade m f (m.cancelAll w.venue f).1 (m.cancelAll w.venue f).2.1
      (m.cancelAll w.venue f).2.2 := by
  have fetched := m.fetch_ends fades f
  unfold cancelAll
  revert fetched
  rcases (m.fetch w.venue).from f with ⟨_ | _ | listing, g⟩
  · exact fun before => .unfetched before nofun
  · exact fun before => .unfetched before nofun
  · rintro ⟨h, before, lists⟩
    simp only
    rcases each : (m.observe listing).cancelEach w.venue g (m.tracker.existing listing).1 with
      ⟨_ | _, n, k⟩
    · simp only [observe] at each
      simp only [each]
      exact .stopped before lists each
    · simp only [observe] at each
      simp only [each]
      exact .swept before lists each

structure SameSetup (m m' : Maker) : Prop where
  reconciler : m'.reconciler = m.reconciler
  config : m'.tracker.config = m.tracker.config

theorem SameSetup.refl (m : Maker) : SameSetup m m := ⟨rfl, rfl⟩

theorem SameSetup.trans {one two three : Maker} (first : SameSetup one two)
    (second : SameSetup two three) : SameSetup one three :=
  ⟨second.reconciler.trans first.reconciler, second.config.trans first.config⟩

theorem placeAll_setup (m : Maker) (b : Batch) (orders : List Order) :
    SameSetup m (m.placeAll b orders).2 := by
  induction orders generalizing m b with
  | nil => exact .refl m
  | cons o rest ih =>
    unfold placeAll
    cases m.tracker.nextId m.draws with
    | none => exact .refl m
    | some drawn =>
      simp only
      cases tracked : m.tracker.track (o.withClientId drawn.1) with
      | error e => exact ⟨rfl, rfl⟩
      | ok tracker =>
        have config : tracker.config = m.tracker.config := by
          simp only [Tracker.track, Order.withClientId] at tracked
          split at tracked
          · cases tracked
          · cases tracked; rfl
        have first : SameSetup m { m with draws := drawn.2, tracker } := ⟨rfl, config⟩
        exact first.trans (ih _ _)

theorem prepare_setup {m n : Maker} {desired listing : List Order}
    (prepared : m.prepare desired incentives listing = (answer, n)) : SameSetup m n := by
  have observed : SameSetup m (m.observe listing) := ⟨rfl, rfl⟩
  unfold prepare at prepared
  simp only at prepared
  cases planned : m.reconciler.plan (m.tracker.existing listing).1 desired with
  | error o =>
    simp only [planned] at prepared
    cases prepared
    exact observed
  | ok plan =>
    have placed := (m.observe listing).placeAll_setup
      (Batch.ofList (plan.toCancel.map (.cancel · true))) plan.toPlace
    simp only [observe] at placed
    simp only [planned] at prepared
    revert placed prepared
    rcases placeAll _ _ plan.toPlace with ⟨_ | _, last⟩ <;>
    · intro placed prepared
      cases prepared
      exact observed.trans placed

theorem PulseEnds.setup {w : Surroundings τ} {quote : Except ProducerError Quote}
    {answer : Except Stop PulseOutcome} {m m' : Maker}
    (ends : PulseEnds w fade m f incentives quote answer m' f') : SameSetup m m' := by
  cases ends with
  | unquoted | suppressed | unfetched => exact .refl m
  | unprepared _ _ prepared | unsubmitted _ _ prepared _ _ | settled _ _ prepared _ =>
    exact prepare_setup prepared
  | applied _ _ prepared _ _ =>
    rw [foldl_untrack]
    exact (prepare_setup prepared).trans ⟨rfl, rfl⟩

theorem pulse_setup (m : Maker) (w : Surroundings τ) (quote : Except ProducerError Quote)
    (incentives : Decimal) (f : Floor τ) :
    SameSetup m (m.pulse w.venue quote incentives f).2.1 := by
  obtain ⟨⟨log, maker⟩, -⟩ := m.pulse_published w.venue quote incentives f
  rw [maker]
  exact (m.tryPulse_ends w.fades_thinning f quote incentives).setup.trans ⟨rfl, rfl⟩

theorem cancelEach_setup (m : Maker) (v : Venue σ) (s : σ) (targets : List Order) :
    SameSetup m (m.cancelEach v s targets).2.1 := by
  induction targets generalizing m s with
  | nil => exact .refl m
  | cons t rest ih =>
    unfold cancelEach
    rcases (m.cancel v t).from s with ⟨_ | e | _, s⟩
    · exact .refl m
    · exact .refl m
    · refine SameSetup.trans ?_ (ih _ s)
      cases t.clientId <;> exact ⟨rfl, rfl⟩

theorem cancelAll_setup (m : Maker) (v : Venue σ) (s : σ) :
    SameSetup m (m.cancelAll v s).2.1 := by
  unfold cancelAll
  rcases (m.fetch v).from s with ⟨_ | e | listing, s⟩
  · exact .refl m
  · exact .refl m
  · have each := (m.observe listing).cancelEach_setup v s (m.tracker.existing listing).1
    have observed : SameSetup m (m.observe listing) := ⟨rfl, rfl⟩
    simp only [observe] at each
    revert each
    simp only
    rcases cancelEach _ v s (m.tracker.existing listing).1 with ⟨_ | _, n, s⟩ <;>
      exact observed.trans

end Maker
end MarketMaking
