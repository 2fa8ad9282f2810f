import MarketMaking.Maker
import MarketMaking.Proofs.Book
import MarketMaking.Proofs.Process

/-! A trading floor: a paper exchange on which one maker trades. Between its requests orders are
filled, failures are injected and time limits strike, as the surroundings have it; nobody else
submits or fetches. -/

namespace MarketMaking

inductive Disturbance where
  | fill (id : ClientId)
  | failSubmissions (n : Nat)
  | rejectSubmissions (n : Nat)
  | failFetches (n : Nat)
  deriving DecidableEq

def Exchange.disturb (x : Exchange) : Disturbance → Exchange
  | .fill id => (Exchange.fill id x).2
  | .failSubmissions n => x.failSubmissions n
  | .rejectSubmissions n => x.rejectSubmissions n
  | .failFetches n => x.failFetches n

structure Spell where
  disturbances : List Disturbance := []
  cutOff : Bool := false

structure Floor (τ : Type) where
  exchange : Exchange
  -- the listing of the last fetch that succeeded
  listed : List Order := []
  rest : τ

-- The rest of the world decides what a request meets on its way to the exchange, what a pause
-- brings, and what the clock reads.
structure Surroundings (τ : Type) where
  request : τ → Spell × τ
  pause : Duration → τ → Spell × τ
  now : τ → Checked Timestamp

namespace Floor

def disturb (f : Floor τ) (ds : List Disturbance) : Floor τ :=
  { f with exchange := ds.foldl Exchange.disturb f.exchange }

def wait (spell : τ → Spell × τ) : Process (Floor τ) Unit := OptionT.mk fun f =>
  let (spell, rest) := spell f.rest
  (if spell.cutOff then none else some (), { f.disturb spell.disturbances with rest })

def ask (op : StateM Exchange α) : Process (Floor τ) α := OptionT.mk fun f =>
  let (answer, exchange) := op f.exchange
  (some answer, { f with exchange })

def note (listing : Except RemoteError (List Order)) : Process (Floor τ) Unit := OptionT.mk fun f =>
  (some (), match listing with | .ok listed => { f with listed } | .error _ => f)

end Floor

def Surroundings.venue (w : Surroundings τ) : Venue (Floor τ) where
  fetch := do
    Floor.wait w.request
    let listing ← Floor.ask Exchange.fetch
    Floor.note listing
    return listing
  submit b := do
    Floor.wait w.request
    Floor.ask (Exchange.submit b)
  cancel target okIfMissing := do
    Floor.wait w.request
    Floor.ask (Exchange.cancel target okIfMissing)
  pause d := Floor.wait (w.pause d)
  now f := w.now f.rest

-- How the book may change while the maker asks nothing of the exchange. Whatever else a fade says,
-- orders are only ever taken off the book.
structure Fade where
  allows : List Resting → List Resting → Prop
  refl : ∀ book, allows book book
  trans : ∀ {one two three}, allows one two → allows two three → allows one three
  thins : ∀ {before after}, allows before after → after.Sublist before

def Fade.thinning : Fade where
  allows before after := after.Sublist before
  refl := List.Sublist.refl
  trans one two := two.trans one
  thins part := part

def Fade.still : Fade where
  allows := Eq
  refl _ := rfl
  trans := Eq.trans
  thins same := same ▸ List.Sublist.refl _

structure Floor.Drifts (fade : Fade) (f g : Floor τ) : Prop where
  lag : g.exchange.lag = f.exchange.lag
  issued : g.exchange.issued = f.exchange.issued
  resting : fade.allows f.exchange.resting g.exchange.resting
  listed : g.listed = f.listed

structure Surroundings.Fades (w : Surroundings τ) (fade : Fade) : Prop where
  request : ∀ t, ∀ d ∈ (w.request t).1.disturbances, ∀ x : Exchange,
    fade.allows x.resting (x.disturb d).resting
  pause : ∀ span t, ∀ d ∈ (w.pause span t).1.disturbances, ∀ x : Exchange,
    fade.allows x.resting (x.disturb d).resting

def Surroundings.NoFills (w : Surroundings τ) : Prop :=
  (∀ t id, .fill id ∉ (w.request t).1.disturbances) ∧
    ∀ span t id, .fill id ∉ (w.pause span t).1.disturbances

section Disturbances
variable {x : Exchange} {d : Disturbance}

@[simp] theorem Exchange.lag_disturb (x : Exchange) (d : Disturbance) :
    (x.disturb d).lag = x.lag := by
  cases d with
  | fill id => simp only [disturb, fill]; split <;> rfl
  | _ => rfl

@[simp] theorem Exchange.issued_disturb (x : Exchange) (d : Disturbance) :
    (x.disturb d).issued = x.issued := by
  cases d with
  | fill id => simp only [disturb, fill]; split <;> rfl
  | _ => rfl

theorem Exchange.resting_disturb_sublist (x : Exchange) (d : Disturbance) :
    (x.disturb d).resting.Sublist x.resting := by
  cases d with
  | fill id =>
    simp only [disturb, fill]
    split
    · exact List.Sublist.refl _
    · exact List.eraseP_sublist
  | _ => exact List.Sublist.refl _

theorem Exchange.resting_disturb (noFill : ∀ id, d ≠ .fill id) :
    (x.disturb d).resting = x.resting := by
  cases d with
  | fill id => exact absurd rfl (noFill id)
  | _ => rfl

end Disturbances

theorem Surroundings.fades_thinning (w : Surroundings τ) : w.Fades .thinning where
  request _ _ _ x := x.resting_disturb_sublist _
  pause _ _ _ _ x := x.resting_disturb_sublist _

theorem Surroundings.NoFills.fades {w : Surroundings τ} (none : w.NoFills) : w.Fades .still where
  request t _ brought _ :=
    (Exchange.resting_disturb fun id same => none.1 t id (same ▸ brought)).symm
  pause span t _ brought _ :=
    (Exchange.resting_disturb fun id same => none.2 span t id (same ▸ brought)).symm

namespace Floor
variable {w : Surroundings τ} {fade : Fade} {f g h : Floor τ}

theorem Drifts.refl (f : Floor τ) : Drifts fade f f := ⟨rfl, rfl, fade.refl _, rfl⟩

theorem Drifts.trans (one : Drifts fade f g) (two : Drifts fade g h) : Drifts fade f h :=
  ⟨two.lag.trans one.lag, two.issued.trans one.issued, fade.trans one.resting two.resting,
    two.listed.trans one.listed⟩

theorem Drifts.orders (drifts : Drifts .still f g) : g.exchange.orders = f.exchange.orders := by
  unfold Exchange.orders
  rw [drifts.resting]

theorem drifts_of_unchanged (same : f.exchange.Unchanged g.exchange)
    (listed : g.listed = f.listed) : Drifts .still f g :=
  ⟨same.1, same.2.1, same.2.2.symm, listed⟩

theorem disturb_drifts {ds : List Disturbance}
    (each : ∀ d ∈ ds, ∀ x : Exchange, fade.allows x.resting (x.disturb d).resting) (f : Floor τ) :
    Drifts fade f (f.disturb ds) := by
  induction ds generalizing f with
  | nil => exact Drifts.refl f
  | cons d rest ih =>
    have first : Drifts fade f (f.disturb [d]) :=
      ⟨Exchange.lag_disturb _ d, Exchange.issued_disturb _ d, each d List.mem_cons_self _, rfl⟩
    exact first.trans (ih (fun e later => each e (List.mem_cons_of_mem d later)) (f.disturb [d]))

end Floor

structure Floor.Lists (f : Floor τ) (listing : List Order) (g : Floor τ) : Prop where
  visible : listing = f.exchange.visible
  lag : g.exchange.lag = f.exchange.lag
  issued : g.exchange.issued = f.exchange.issued
  resting : g.exchange.resting = f.exchange.resting.map Resting.age
  listed : g.listed = listing

structure Floor.Applies (f : Floor τ) (b : Batch) (receipt : Receipt) (g : Floor τ) : Prop where
  exchange : ∃ n, g.exchange = { b.toList.foldl Exchange.apply f.exchange with submissions := n }
  receipt : ∃ signature, receipt = b.toList.foldl Exchange.count ⟨signature, 0, 0, 0, 0⟩
  listed : g.listed = f.listed

namespace Surroundings
open Process Floor
variable {w : Surroundings τ} {fade : Fade} {f : Floor τ}

theorem request_drifts (fades : w.Fades fade) :
    Ensures (Drifts fade f) (wait w.request) fun _ => Drifts fade f := by
  intro g reached
  have later := reached.trans (disturb_drifts (fades.request g.rest) g)
  exact ⟨later.lag, later.issued, later.resting, later.listed⟩

theorem pause_drifts (fades : w.Fades fade) (span : Duration) :
    Ensures (Drifts fade f) (w.venue.pause span) fun _ => Drifts fade f := by
  intro g reached
  have later := reached.trans (disturb_drifts (fades.pause span g.rest) g)
  exact ⟨later.lag, later.issued, later.resting, later.listed⟩

theorem fetch_once (fades : w.Fades fade) :
    Ensures (Drifts fade f) w.venue.fetch
      (Ending (Drifts fade f) (fun _ => Drifts fade f)
        fun listing g => ∃ h, Drifts fade f h ∧ h.Lists listing g) := by
  refine Ensures.bind (request_drifts fades) (fun _ cut => cut) ?_
  intro _ h reached
  by_cases failing : 0 < h.exchange.failingFetches
  · simp only [from_bind, ask, note, Exchange.fetch, from_mk, from_pure, failing, if_true]
    exact ⟨reached.lag, reached.issued, reached.resting, reached.listed⟩
  · simp only [from_bind, ask, note, Exchange.fetch, from_mk, from_pure, failing, if_false]
    exact ⟨h, reached, rfl, rfl, rfl, rfl, rfl⟩

theorem submit_once (fades : w.Fades fade) (b : Batch) :
    Ensures (Drifts fade f) (w.venue.submit b)
      (Ending (Drifts fade f) (fun _ => Drifts fade f)
        fun receipt g => ∃ h, Drifts fade f h ∧ h.Applies b receipt g) := by
  refine Ensures.bind (request_drifts fades) (fun _ cut => cut) ?_
  intro _ h reached
  simp only [ask, from_mk]
  rcases Exchange.submit_cases b h.exchange with
    ⟨e, y, refused, lag, issued, resting⟩ | ⟨n, applied⟩
  · rw [refused]
    exact ⟨lag.trans reached.lag, issued.trans reached.issued, resting ▸ reached.resting,
      reached.listed⟩
  · rw [applied]
    exact ⟨h, reached, ⟨n, rfl⟩, ⟨_, rfl⟩, rfl⟩

theorem cancel_once (fades : w.Fades fade) (target : Order) :
    Ensures (Drifts fade f) (w.venue.cancel target true)
      (Ending (Drifts fade f) (fun _ _ => False)
        fun _ g => ∃ h, Drifts fade f h ∧ g.exchange = h.exchange.remove target ∧
          g.listed = h.listed) := by
  refine Ensures.bind (request_drifts fades) (fun _ cut => cut) ?_
  intro _ h reached
  simp only [ask, Exchange.cancel_true, from_mk]
  exact ⟨h, reached, rfl, rfl⟩

end Surroundings

namespace Maker
open Process Floor
variable {w : Surroundings τ} {fade : Fade}

theorem fetch_ends (m : Maker) (fades : w.Fades fade) (f : Floor τ) :
    Ending (Drifts fade f) (fun _ => Drifts fade f)
      (fun listing g => ∃ h, Drifts fade f h ∧ h.Lists listing g)
      ((m.fetch w.venue).from f).1 ((m.fetch w.venue).from f).2 := by
  have ends : Ensures (Drifts fade f) (m.fetch w.venue) _ :=
    m.fetchPolicy.run_ensures (fun _ _ failed => failed) (Surroundings.pause_drifts fades)
      (Surroundings.fetch_once fades)
  exact ends f (Drifts.refl f)

theorem submit_ends (m : Maker) (fades : w.Fades fade) (b : Batch) (f : Floor τ) :
    Ending (Drifts fade f) (fun _ => Drifts fade f)
      (fun receipt g => ∃ h, Drifts fade f h ∧ h.Applies b receipt g)
      ((m.submit w.venue b).from f).1 ((m.submit w.venue b).from f).2 := by
  have ends : Ensures (Drifts fade f) (m.submit w.venue b) _ :=
    m.submitPolicy.runTransient_ensures (fun _ _ _ failed => failed)
      (Surroundings.pause_drifts fades) (Surroundings.submit_once fades b)
  exact ends f (Drifts.refl f)

theorem cancel_ends (m : Maker) (fades : w.Fades fade) (target : Order) (f : Floor τ) :
    Ending (Drifts fade f) (fun _ _ => False)
      (fun _ g => ∃ h, Drifts fade f h ∧ g.exchange = h.exchange.remove target ∧
        g.listed = h.listed)
      ((m.cancel w.venue target).from f).1 ((m.cancel w.venue target).from f).2 := by
  have ends : Ensures (Drifts fade f) (m.cancel w.venue target) _ :=
    m.submitPolicy.runTransient_ensures (fun _ _ _ failed => failed.elim)
      (Surroundings.pause_drifts fades) (Surroundings.cancel_once fades target)
  exact ends f (Drifts.refl f)

end Maker
end MarketMaking
