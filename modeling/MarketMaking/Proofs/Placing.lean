import MarketMaking.Maker
import MarketMaking.Proofs.InFlight

/-! The placing loop. The next id is the first draw that is not in use (`Tracker.nextId_eq_some`),
so what is drawn for can be tracked, and all that can happen on the way is that the draws run out
(`Maker.placeAll_draws`). -/

namespace MarketMaking

namespace Tracker

-- Orders placed one after the other, each under the first draw that is not in use by then. It is
-- tracked when it counts as placed.
inductive Places : Tracker → List ClientId → List Order → List Order → Tracker →
    List ClientId → Prop where
  | done : Places t draws [] [] t draws
  | next {id : ClientId} (used : ∀ d ∈ skipped, d ∈ t.ids) (free : id ∉ t.ids)
      (tracked : t.track (o.withClientId id) = .ok t')
      (known : ⟨id, o.withClientId id, 0⟩ ∈ t'.entries)
      (others : Places t' left rest placed t'' later) :
      Places t (skipped ++ id :: left) (o :: rest) (o.withClientId id :: placed) t'' later

variable {t t' : Tracker} {id : ClientId} {draws left later first : List ClientId}
  {orders placed : List Order}

theorem contains_eq_true : t.contains id = true ↔ id ∈ t.ids := by
  simp [contains, ids]

theorem nextId_eq_none : t.nextId draws = none ↔ ∀ id ∈ draws, id ∈ t.ids := by
  induction draws with
  | nil => simp [nextId]
  | cons d draws ih =>
    rw [nextId, List.forall_mem_cons]
    cases held : t.contains d with
    | true => simp [contains_eq_true.mp held, ih]
    | false => simp [contains_eq_false.mp held]

theorem nextId_eq_some : t.nextId draws = some (id, left) ↔
    ∃ skipped, draws = skipped ++ id :: left ∧ (∀ d ∈ skipped, d ∈ t.ids) ∧ id ∉ t.ids := by
  induction draws with
  | nil => simp [nextId]
  | cons d draws ih =>
    rw [nextId]
    cases held : t.contains d with
    | true =>
      simp only [if_true, ih]
      constructor
      · rintro ⟨skipped, rfl, used, free⟩
        exact ⟨d :: skipped, rfl, List.forall_mem_cons.mpr ⟨contains_eq_true.mp held, used⟩, free⟩
      · rintro ⟨skipped, split, used, free⟩
        cases skipped with
        | nil =>
          cases split
          exact absurd (contains_eq_true.mp held) free
        | cons d' skipped =>
          cases split
          exact ⟨skipped, rfl, (List.forall_mem_cons.mp used).2, free⟩
    | false =>
      simp only [Bool.false_eq_true, if_false, Option.some.injEq, Prod.mk.injEq]
      constructor
      · rintro ⟨rfl, rfl⟩
        exact ⟨[], rfl, List.forall_mem_nil _, contains_eq_false.mp held⟩
      · rintro ⟨skipped, split, used, free⟩
        cases skipped with
        | nil =>
          cases split
          exact ⟨rfl, rfl⟩
        | cons d' skipped =>
          cases split
          exact absurd (used d List.mem_cons_self) (contains_eq_false.mp held)

theorem nextId_of_free (free : ∃ id ∈ first, id ∉ t.ids) (later : List ClientId) :
    ∃ id left, t.nextId (first ++ later) = some (id, left ++ later) ∧ id ∈ first := by
  cases drawn : t.nextId first with
  | none =>
    obtain ⟨id, here, free⟩ := free
    exact absurd (nextId_eq_none.mp drawn id here) free
  | some found =>
    obtain ⟨id, left⟩ := found
    obtain ⟨skipped, rfl, used, free⟩ := nextId_eq_some.mp drawn
    refine ⟨id, left, nextId_eq_some.mpr ⟨skipped, ?_, used, free⟩, by simp⟩
    rw [List.append_assoc, List.cons_append]

theorem track_drawn (free : id ∉ t.ids) (o : Order) :
    ∃ t', t.track (o.withClientId id) = .ok t' ∧ ⟨id, o.withClientId id, 0⟩ ∈ t'.entries ∧
      t'.ids.Sublist (t.ids ++ [id]) := by
  have tracked := track_eq (o := o.withClientId id) rfl free
  exact ⟨_, tracked, mem_squeeze_of_new t.capacity_pos (List.mem_singleton.mpr rfl),
    t.ids_squeeze_sublist _⟩

theorem track_nodup {o : Order} (distinct : t.ids.Nodup) (free : id ∉ t.ids)
    (tracked : t.track (o.withClientId id) = .ok t') : t'.ids.Nodup := by
  obtain ⟨after, same, -, part⟩ := track_drawn free o
  cases tracked.symm.trans same
  refine part.nodup (List.nodup_append.mpr ⟨distinct, List.nodup_singleton id, ?_⟩)
  rintro old here new last rfl
  exact free (List.mem_singleton.mp last ▸ here)

theorem Places.nodup (places : Places t draws orders placed t' later) (distinct : t.ids.Nodup) :
    t'.ids.Nodup := by
  induction places with
  | done => exact distinct
  | next used free tracked known others ih => exact ih (track_nodup distinct free tracked)

end Tracker

namespace Maker

theorem placeAll_draws (m : Maker) (b : Batch) (orders : List Order) :
    (∃ n placed, m.placeAll b orders = (.ok ((placed.map .place).foldl Batch.add b), n) ∧
        Tracker.Places m.tracker m.draws orders placed n.tracker n.draws) ∨
      ∃ n first o rest placed, m.placeAll b orders = (.error (.halted .outOfDraws), n) ∧
        orders = first ++ o :: rest ∧
        Tracker.Places m.tracker m.draws first placed n.tracker n.draws ∧
        ∀ id ∈ n.draws, id ∈ n.tracker.ids := by
  induction orders generalizing m b with
  | nil => exact .inl ⟨m, [], rfl, .done⟩
  | cons o rest ih =>
    unfold placeAll
    cases drawn : m.tracker.nextId m.draws with
    | none => exact .inr ⟨m, [], o, rest, [], rfl, rfl, .done, Tracker.nextId_eq_none.mp drawn⟩
    | some found =>
      obtain ⟨id, left⟩ := found
      obtain ⟨skipped, split, used, free⟩ := Tracker.nextId_eq_some.mp drawn
      obtain ⟨t, tracked, known, -⟩ := Tracker.track_drawn free o
      simp only [tracked]
      rw [split]
      rcases ih { m with draws := left, tracker := t } (b.add (.place (o.withClientId id))) with
        ⟨n, placed, all, places⟩ | ⟨n, first, o', later, placed, spent, rfl, places, none⟩
      · exact .inl ⟨n, o.withClientId id :: placed, all, .next used free tracked known places⟩
      · exact .inr ⟨n, o :: first, o', later, o.withClientId id :: placed, spent, rfl,
          .next used free tracked known places, none⟩

end Maker
end MarketMaking
