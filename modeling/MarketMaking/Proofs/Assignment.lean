import MarketMaking.Proofs.Turn

/-! Which desired order a resting order stands for after a pulse: the one it was kept for, or the
one it was placed for. No two resting orders serve the same one (`Serves.id_eq`), and if all that
was merged is really on the book, every desired order has one that stands for it (`Turn.served`). -/

namespace MarketMaking

theorem nodup_sides_of_backed {existing live : List Order}
    (clientIds : (existing.map (·.clientId)).Nodup)
    (sides : (live.map (·.side)).Nodup)
    (backed : ∀ o ∈ existing, ∃ r ∈ live, r.asSent = o.asSent) :
    (existing.map (·.side)).Nodup := by
  refine (List.nodup_map_iff_inj_on (clientIds.of_map _)).mpr fun o here p there same => ?_
  obtain ⟨r, liveR, sameR⟩ := backed o here
  obtain ⟨s, liveS, sameS⟩ := backed p there
  have side : r.side = s.side := by
    rw [← r.side_asSent, ← s.side_asSent, sameR, sameS]
    exact same
  cases List.inj_on_of_nodup_map sides liveR liveS side
  refine List.inj_on_of_nodup_map clientIds here there ?_
  rw [← o.clientId_asSent, ← p.clientId_asSent, ← sameR, sameS]

namespace Reconciliation

theorem equivalent_asSent (tolerance : Decimal) (e d : Order) :
    equivalent tolerance e.asSent d = equivalent tolerance e d := rfl

theorem side_of_equivalent {tolerance : Decimal} {e d : Order}
    (close : equivalent tolerance e d = .ok true) : e.side = d.side := by
  by_contra apart
  simp [equivalent, apart, pure, Except.pure] at close

-- The order under an id stands for the desired order at a position: it was kept for it, or it was
-- placed for it under one of the ids drawn for this pulse.
inductive Serves (draws : List ClientId) (existing desired : List Order)
    (kept : List Candidate) : ClientId → Nat → Prop where
  | kept {id : ClientId} (c : Candidate) (o : Order) (standing : c ∈ kept)
      (here : existing[c.existing]? = some o) (own : o.clientId = some id) :
      Serves draws existing desired kept id c.desired
  | placed {id : ClientId} {j : Nat} (p : Nat) (o : Order) (drawn : draws[p]? = some id)
      (wanted : (vacant desired kept)[p]? = some (o, j)) :
      Serves draws existing desired kept id j

namespace Serves
variable {draws : List ClientId} {existing desired : List Order} {kept : List Candidate}
  {tolerance : Decimal} {id id' : ClientId} {o : Order} {j j' p : Nat}

theorem not_kept_of_vacant (wanted : (vacant desired kept)[p]? = some (o, j)) :
    ∀ c ∈ kept, c.desired ≠ j :=
  (mem_vacant.mp (List.mem_of_getElem? wanted)).2

theorem id_eq (pairs : Matches tolerance existing desired kept)
    (one : Serves draws existing desired kept id j)
    (other : Serves draws existing desired kept id' j) : id = id' := by
  generalize same : j = j' at other
  cases one with
  | kept c o standing here own =>
    cases other with
    | kept c' o' standing' here' own' =>
      have overlap : c.overlaps c' = true := by simp [Candidate.overlaps, same]
      cases pairs.apart c standing c' standing' overlap
      cases here.symm.trans here'
      exact Option.some.inj (own.symm.trans own')
    | placed p o' drawn wanted => exact absurd same (not_kept_of_vacant wanted c standing)
  | placed p o drawn wanted =>
    cases other with
    | kept c o' standing here own => exact absurd same.symm (not_kept_of_vacant wanted c standing)
    | placed p' o' drawn' wanted' =>
      subst same
      have positions := positions_spare desired fun j => kept.any (·.desired == j)
      have atP : ((vacant desired kept).map (·.2))[p]? = some j := by simp [wanted]
      have atP' : ((vacant desired kept).map (·.2))[p']? = some j := by simp [wanted']
      cases position_unique positions atP atP'
      exact Option.some.inj (drawn.symm.trans drawn')

end Serves
end Reconciliation

open Reconciliation

-- A resting order may stand for a desired one that it equals in price and quantity, and for one
-- that it is equivalent to.
def StandsFor (tolerance : Decimal) (o d : Order) : Prop :=
  o.side = d.side ∧
    (o.price = d.price ∧ o.quantity = d.quantity ∨ equivalent tolerance o d = .ok true)

theorem standsFor_asSent {tolerance : Decimal} {o p d : Order} (same : o.asSent = p.asSent)
    (stands : StandsFor tolerance o d) : StandsFor tolerance p d := by
  unfold StandsFor at *
  rw [← equivalent_asSent, ← p.side_asSent, ← p.price_asSent, ← p.quantity_asSent, ← same]
  exact stands

namespace Turn
variable {n since : Nat} {m m' : Maker} {f f' g h k : Floor τ}
  {desired listing : List Order} {plan : Plan} {fade : Fade}
  {tolerance : Decimal} {kept : List Candidate}

theorem serves (turn : Turn fade m f desired incentives receipt listing plan h g k m' f')
    (observed : Sound n since (m.observe listing) k)
    (merged : Merged (m.tracker.existing listing).1 (m.observe listing) k)
    (keeps : Keeps tolerance (m.tracker.existing listing).1 desired kept plan) :
    ∀ r ∈ f'.exchange.resting, ∃ id j d, r.order.clientId = some id ∧ desired[j]? = some d ∧
      Serves m.draws (m.tracker.existing listing).1 desired kept id j ∧
      StandsFor tolerance r.order d := by
  intro r here
  rw [turn.resting observed merged] at here
  rcases List.mem_append.mp here with old | new
  · obtain ⟨here, spared⟩ := List.mem_filter.mp old
    obtain ⟨o, believed, same⟩ := merged.shown r here
    have own := Order.clientId_of_asSent same
    obtain ⟨i, atI⟩ := List.getElem?_of_mem believed
    have covered := keeps.covered atI (by simpa [own] using spared)
    obtain ⟨c, standing, rfl⟩ := covered
    obtain ⟨e, d, atE, atD, close⟩ := keeps.pairs.close c standing
    cases atE.symm.trans atI
    obtain ⟨id, owned, -⟩ := merged.clientId o believed
    refine ⟨id, c.desired, d, own ▸ owned, atD, .kept c o standing atI owned, ?_⟩
    exact standsFor_asSent same ⟨side_of_equivalent close, .inr close⟩
  · obtain ⟨o, tagged, same⟩ := Exchange.sent_of_mem_newly new
    obtain ⟨p, id, q, drawn, wanted, rfl⟩ := Maker.mem_tagged tagged
    rw [keeps.places, List.getElem?_map, Option.map_eq_some_iff] at wanted
    obtain ⟨⟨q, j⟩, wanted, rfl⟩ := wanted
    have atJ := (mem_vacant.mp (List.mem_of_getElem? wanted)).1
    have own : r.order.clientId = some id := (Order.clientId_of_asSent same).symm
    refine ⟨id, j, q, own, atJ, .placed p q drawn wanted, ?_⟩
    exact standsFor_asSent same ⟨rfl, .inl ⟨rfl, rfl⟩⟩

theorem served (turn : Turn fade m f desired incentives receipt listing plan h g k m' f')
    (observed : Sound n since (m.observe listing) k)
    (merged : Merged (m.tracker.existing listing).1 (m.observe listing) k)
    (keeps : Keeps tolerance (m.tracker.existing listing).1 desired kept plan)
    (backed : ∀ o ∈ (m.tracker.existing listing).1, ∃ r ∈ k.exchange.resting,
      r.order.asSent = o.asSent) :
    ∀ d ∈ desired, ∃ r ∈ f'.exchange.resting, StandsFor tolerance r.order d := by
  intro d wanted
  obtain ⟨j, atJ⟩ := List.getElem?_of_mem wanted
  rw [turn.resting observed merged]
  by_cases covered : ∃ c ∈ kept, c.desired = j
  · obtain ⟨c, standing, rfl⟩ := covered
    obtain ⟨o, d', atO, atD, close⟩ := keeps.pairs.close c standing
    cases atD.symm.trans atJ
    obtain ⟨r, here, same⟩ := backed o (List.mem_of_getElem? atO)
    have own := Order.clientId_of_asSent same
    have spared := keeps.spared merged.clientIds standing atO
    refine ⟨r, List.mem_append_left _ (List.mem_filter.mpr ⟨here, ?_⟩), ?_⟩
    · exact decide_eq_true (own ▸ spared)
    · exact standsFor_asSent same.symm ⟨side_of_equivalent close, .inr close⟩
  · have free : (d, j) ∈ vacant desired kept :=
      mem_vacant.mpr ⟨atJ, fun c standing same => covered ⟨c, standing, same⟩⟩
    have toPlace : d ∈ plan.toPlace := keeps.places ▸ List.mem_map_of_mem free
    obtain ⟨p, placed⟩ := List.getElem?_of_mem toPlace
    obtain ⟨short, -⟩ := List.getElem?_eq_some_iff.mp placed
    obtain ⟨id, drawn⟩ : ∃ id, m.draws[p]? = some id :=
      ⟨_, List.getElem?_eq_getElem (Nat.lt_of_lt_of_le short turn.enough)⟩
    obtain ⟨r, new, same⟩ := Exchange.exists_newly_of_mem
      (Maker.withClientId_mem_tagged drawn placed) k.exchange.lag k.exchange.issued
    refine ⟨r, List.mem_append_right _ new, ?_⟩
    exact standsFor_asSent same.symm ⟨rfl, .inl ⟨rfl, rfl⟩⟩

end Turn
end MarketMaking
