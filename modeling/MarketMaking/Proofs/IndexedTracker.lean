import Mathlib.Data.List.Perm.Basic
import MarketMaking.Proofs.Bookkeeping

/-! Orders in flight as an index by client id beside a queue of the ids in the order of their
arrival. That no operation forgets one of the two is shown by holding them against the list of
entries (`Mirrors`). -/

namespace MarketMaking

structure InFlight where
  order : Order
  missed : Nat
  deriving DecidableEq

instance : Hashable ClientId := ⟨fun id => hash id.value⟩

structure IndexedTracker where
  config : TrackerConfig := {}
  index : Std.HashMap ClientId InFlight := ∅
  queue : List ClientId := []

namespace IndexedTracker

def capacity (i : IndexedTracker) : Nat := max i.config.maxTracked.toNat 1

def orders (i : IndexedTracker) : List Order :=
  i.queue.filterMap fun id => i.index[id]?.map (·.order)

def makeRoom (i : IndexedTracker) : List ClientId → IndexedTracker
  | [] => i
  | oldest :: younger =>
    if i.index.size < i.capacity then i
    else makeRoom { i with index := i.index.erase oldest, queue := younger } younger

def store (i : IndexedTracker) (id : ClientId) (o : Order) : IndexedTracker :=
  { i with index := i.index.insert id ⟨o, 0⟩, queue := i.queue ++ [id] }

def track (i : IndexedTracker) (o : Order) : Except TrackingError Unit × IndexedTracker :=
  match o.clientId with
  | none => (.error .missingClientId, i)
  | some id =>
    if i.index.contains id then (.error (.duplicateClientId id), i)
    else (.ok (), (i.makeRoom i.queue).store id o)

def observe (i : IndexedTracker) (remote : List Order) (id : ClientId) (f : InFlight) :
    Option InFlight :=
  if Tracker.lists remote id then none
  else if i.config.maxUnconfirmed.toNat < f.missed + 1 then none
  else some { f with missed := f.missed + 1 }

-- The index is gone through first, and then the queue keeps what is left in it.
def existing (i : IndexedTracker) (remote : List Order) : List Order × IndexedTracker :=
  let index := i.index.filterMap (i.observe remote)
  let i := { i with index, queue := i.queue.filter index.contains }
  (Tracker.distinct [] [] remote ++ i.orders, i)

def untrack (i : IndexedTracker) (id : ClientId) : Option Order × IndexedTracker :=
  match i.index[id]? with
  | none => (none, i)
  | some f =>
    (some f.order, { i with index := i.index.erase id, queue := i.queue.filter (· != id) })

def nextId (i : IndexedTracker) : List ClientId → Option (ClientId × List ClientId)
  | [] => none
  | id :: draws => if i.index.contains id then i.nextId draws else some (id, draws)

def perform (i : IndexedTracker) : TrackerCall → TrackerReply × IndexedTracker
  | .track o => (.tracked (i.track o).1, (i.track o).2)
  | .existing remote => (.believed (i.existing remote).1, (i.existing remote).2)
  | .untrack id => (.forgotten (i.untrack id).1, (i.untrack id).2)
  | .nextId draws => (.drawn (i.nextId draws), i)

variable {i : IndexedTracker} {t : Tracker} {id : ClientId} {o : Order} {remote : List Order}

structure Mirrors (i : IndexedTracker) (t : Tracker) : Prop where
  config : i.config = t.config
  queue : i.queue = t.ids
  unique : t.ids.Nodup
  index : ∀ id f, i.index[id]? = some f ↔ ⟨id, f.order, f.missed⟩ ∈ t.entries

theorem mem_index_iff {index : Std.HashMap ClientId InFlight} {entries : List Tracked}
    (holds : ∀ id f, index[id]? = some f ↔ ⟨id, f.order, f.missed⟩ ∈ entries) :
    id ∈ index ↔ id ∈ entries.map (·.id) := by
  rw [Std.HashMap.mem_iff_isSome_getElem?, Option.isSome_iff_exists, List.mem_map]
  constructor
  · rintro ⟨f, found⟩
    exact ⟨_, (holds id f).mp found, rfl⟩
  · rintro ⟨e, here, rfl⟩
    exact ⟨⟨e.order, e.missed⟩, (holds e.id _).mpr here⟩

namespace Mirrors

theorem new (config : TrackerConfig) : Mirrors { config } { config } :=
  ⟨rfl, rfl, List.nodup_nil, by simp⟩

theorem capacity (same : Mirrors i t) : i.capacity = t.capacity := by
  simp only [IndexedTracker.capacity, Tracker.capacity, same.config]

theorem mem_index (same : Mirrors i t) : id ∈ i.index ↔ id ∈ t.ids := mem_index_iff same.index

theorem contains (same : Mirrors i t) (id : ClientId) : i.index.contains id = t.contains id := by
  rw [Bool.eq_iff_iff, Std.HashMap.contains_iff_mem, same.mem_index]
  simp [Tracker.contains, Tracker.ids]

theorem size (same : Mirrors i t) : i.index.size = t.length := by
  have keys : i.index.keys.Perm t.ids :=
    (List.perm_ext_iff_of_nodup Std.HashMap.nodup_keys same.unique).mpr fun id =>
      Std.HashMap.mem_keys.trans same.mem_index
  rw [← Std.HashMap.length_keys, keys.length_eq]
  exact List.length_map _

theorem orders (same : Mirrors i t) : i.orders = t.orders := by
  rw [IndexedTracker.orders, same.queue, Tracker.ids, List.filterMap_map, Tracker.orders,
    ← List.filterMap_eq_map]
  refine List.filterMap_congr fun e here => ?_
  simp [(same.index e.id ⟨e.order, e.missed⟩).mpr here]

theorem oldest {e : Tracked} {younger : List Tracked} {config : TrackerConfig}
    (same : Mirrors i ⟨config, e :: younger⟩) :
    Mirrors { i with index := i.index.erase e.id, queue := younger.map (·.id) }
      ⟨config, younger⟩ := by
  obtain ⟨absent, unique⟩ := List.nodup_cons.mp same.unique
  refine ⟨same.config, rfl, unique, fun id f => ?_⟩
  rw [Std.HashMap.getElem?_erase]
  by_cases given : e.id = id
  · subst given
    simpa using fun here => absent (List.mem_map_of_mem (f := (·.id)) here)
  · have other : (⟨id, f.order, f.missed⟩ : Tracked) ≠ e := fun eq => given (eq ▸ rfl)
    rw [if_neg (by simpa using given), same.index]
    simp [other]

theorem makeRoom (same : Mirrors i t) : Mirrors (i.makeRoom i.queue) t.thinned := by
  obtain ⟨config, entries⟩ := t
  induction entries generalizing i with
  | nil =>
    have queue : i.queue = [] := same.queue
    simpa [queue, IndexedTracker.makeRoom, Tracker.thinned, Tracker.evict] using same
  | cons e younger ih =>
    have queue : i.queue = e.id :: younger.map (·.id) := same.queue
    have size : i.index.size = younger.length + 1 := same.size
    have capacity := same.capacity
    simp only [queue, IndexedTracker.makeRoom]
    by_cases room : i.index.size < i.capacity
    · rw [if_pos room]
      have none : younger.length + 1 + 1 - i.capacity = 0 := by omega
      simpa [Tracker.thinned, Tracker.evict, Tracker.length, ← capacity, none] using same
    · rw [if_neg room]
      have later : younger.length + 1 + 1 - i.capacity = younger.length + 1 - i.capacity + 1 := by
        omega
      have thinned :
          Tracker.thinned ⟨config, e :: younger⟩ = Tracker.thinned ⟨config, younger⟩ := by
        simp only [Tracker.thinned, Tracker.evict, Tracker.length, List.length_cons, ← capacity,
          later, List.drop_succ_cons]
        rw [capacity]
        rfl
      rw [thinned]
      exact ih same.oldest

theorem store (same : Mirrors i t) (free : id ∉ t.ids) :
    Mirrors (i.store id o) (t.push id o) := by
  refine ⟨same.config, ?_, ?_, fun other f => ?_⟩
  · rw [Tracker.ids_push, ← same.queue]
    rfl
  · rw [Tracker.ids_push]
    exact List.nodup_append.mpr ⟨same.unique, List.nodup_singleton id, by
      rintro held old _ new rfl
      exact free (List.mem_singleton.mp new ▸ old)⟩
  · rw [IndexedTracker.store, Std.HashMap.getElem?_insert, Tracker.mem_push]
    by_cases own : id = other
    · subst own
      have absent : (⟨id, f.order, f.missed⟩ : Tracked) ∉ t.entries := fun here =>
        free (List.mem_map_of_mem (f := (·.id)) here)
      obtain ⟨order, missed⟩ := f
      simp [absent, eq_comm]
    · rw [if_neg (by simpa using own), same.index]
      simp [Ne.symm own]

theorem track (same : Mirrors i t) (o : Order) :
    (i.perform (.track o)).1 = (t.perform (.track o)).1 ∧
      Mirrors (i.perform (.track o)).2 (t.perform (.track o)).2 := by
  simp only [perform, Tracker.perform, IndexedTracker.track, Tracker.track]
  cases o.clientId with
  | none => exact ⟨rfl, same⟩
  | some id =>
    simp only [same.contains]
    by_cases held : t.contains id
    · simpa [held] using same
    · have free : id ∉ t.thinned.ids := fun left =>
        Tracker.contains_eq_false.mp (by simpa using held) ((t.evict_sublist.map _).subset left)
      simp only [held]
      exact ⟨rfl, same.makeRoom.store free⟩

theorem index_existing (same : Mirrors i t) (remote : List Order) (id : ClientId) (f : InFlight) :
    (i.existing remote).2.index[id]? = some f ↔
      ⟨id, f.order, f.missed⟩ ∈ (t.existing remote).2.entries := by
  simp only [IndexedTracker.existing, Std.HashMap.getElem?_filterMap', Option.bind_eq_some_iff,
    Tracker.mem_existing, same.index, IndexedTracker.observe, same.config]
  constructor
  · rintro ⟨before, here, left⟩
    refine ⟨_, here, ?_⟩
    split at left
    · cases left
    · rename_i unseen
      split at left
      · cases left
      · rename_i young
        cases left
        exact ⟨by simpa using unseen, Nat.not_lt.mp young, rfl⟩
  · rintro ⟨⟨other, order, missed⟩, here, unseen, young, eq⟩
    obtain ⟨rfl, rfl, later⟩ := Tracked.mk.inj eq
    refine ⟨⟨f.order, missed⟩, here, ?_⟩
    rw [if_neg (by simpa using unseen), if_neg (Nat.not_lt.mpr young), ← later]

theorem existing (same : Mirrors i t) (remote : List Order) :
    (i.existing remote).1 = (t.existing remote).1 ∧
      Mirrors (i.existing remote).2 (t.existing remote).2 := by
  have index := same.index_existing remote
  have part := t.ids_existing_sublist remote
  have queue : (i.existing remote).2.queue = (t.existing remote).2.ids := by
    have whole : (t.existing remote).2.ids =
        t.ids.filter fun id => decide (id ∈ (t.existing remote).2.ids) := by
      have unique : (t.ids.map fun id => id).Nodup := by simpa using same.unique
      simpa using eq_filter_of_sublist part unique
    have held : ∀ id, (i.existing remote).2.index.contains id =
        decide (id ∈ (t.existing remote).2.ids) := by
      intro id
      rw [Bool.eq_iff_iff, Std.HashMap.contains_iff_mem, mem_index_iff index, decide_eq_true_iff]
      rfl
    rw [whole, ← same.queue]
    exact List.filter_congr fun id _ => held id
  have left : Mirrors (i.existing remote).2 (t.existing remote).2 :=
    ⟨same.config, queue, part.nodup same.unique, index⟩
  exact ⟨congrArg (_ ++ ·) left.orders, left⟩

theorem untrack (same : Mirrors i t) (id : ClientId) :
    (i.untrack id).1 = (t.untrack id).1 ∧ Mirrors (i.untrack id).2 (t.untrack id).2 := by
  have ids : (t.untrack id).2.ids = t.ids.filter (· != id) := by
    simp [Tracker.untrack, Tracker.ids, List.filter_map, Function.comp_def]
  have unique : (t.untrack id).2.ids.Nodup := ids ▸ same.unique.filter _
  have stays : ∀ other f, (⟨other, f.order, f.missed⟩ : Tracked) ∈ (t.untrack id).2.entries ↔
      i.index[other]? = some f ∧ other ≠ id := by
    intro other f
    simp [Tracker.untrack, same.index]
  unfold IndexedTracker.untrack
  cases found : i.index[id]? with
  | none =>
    have absent : id ∉ t.ids := by
      rw [← same.mem_index, Std.HashMap.mem_iff_isSome_getElem?, found]
      exact Bool.false_ne_true
    have unfound : t.entries.find? (·.id == id) = none := by
      simpa [Tracker.ids] using absent
    refine ⟨by simp [Tracker.untrack, unfound], same.config, ?_, unique, fun other f => ?_⟩
    · rw [ids, same.queue, List.filter_eq_self.mpr]
      intro other here
      exact bne_iff_ne.mpr fun eq => absent (eq ▸ here)
    · rw [stays]
      refine ⟨fun here => ⟨here, ?_⟩, And.left⟩
      rintro rfl
      rw [found] at here
      cases here
  | some f =>
    have first : (t.entries.find? (·.id == id)).map (·.order) = some f.order := by
      have somewhere : (t.entries.find? (·.id == id)).isSome :=
        List.find?_isSome.mpr ⟨_, (same.index id f).mp found, beq_iff_eq.mpr rfl⟩
      obtain ⟨e, first⟩ := Option.isSome_iff_exists.mp somewhere
      have own : e.id = id := by simpa using List.find?_some first
      have kept := (same.index e.id ⟨e.order, e.missed⟩).mpr (List.mem_of_find?_eq_some first)
      rw [own, found] at kept
      cases kept
      rw [first]
      rfl
    refine ⟨first.symm, same.config, ?_, unique, fun other g => ?_⟩
    · rw [ids, same.queue]
    · rw [stays, Std.HashMap.getElem?_erase]
      by_cases own : id = other
      · simp [own]
      · simp [own, Ne.symm own]

theorem nextId (same : Mirrors i t) (draws : List ClientId) : i.nextId draws = t.nextId draws := by
  induction draws with
  | nil => rfl
  | cons id draws ih => simp only [IndexedTracker.nextId, Tracker.nextId, same.contains, ih]

theorem perform (same : Mirrors i t) (call : TrackerCall) :
    (i.perform call).1 = (t.perform call).1 ∧ Mirrors (i.perform call).2 (t.perform call).2 := by
  cases call with
  | track o => exact same.track o
  | existing remote =>
    exact ⟨congrArg TrackerReply.believed (same.existing remote).1, (same.existing remote).2⟩
  | untrack id => exact ⟨congrArg TrackerReply.forgotten (same.untrack id).1, (same.untrack id).2⟩
  | nextId draws => exact ⟨congrArg TrackerReply.drawn (same.nextId draws), same⟩

theorem converse (same : Mirrors i t) (calls : List TrackerCall) :
    (converse IndexedTracker.perform i calls).1 = (converse Tracker.perform t calls).1 ∧
      Mirrors (converse IndexedTracker.perform i calls).2 (converse Tracker.perform t calls).2 := by
  induction calls generalizing i t with
  | nil => exact ⟨rfl, same⟩
  | cons call rest ih =>
    obtain ⟨reply, next⟩ := same.perform call
    obtain ⟨talk, left⟩ := ih next
    refine ⟨?_, left⟩
    simp only [MarketMaking.converse, reply, talk]

end Mirrors
structure Consistent (config : TrackerConfig) (history : List Order) (i : IndexedTracker) :
    Prop where
  setup : i.config = config
  unique : i.queue.Nodup
  keys : ∀ id, id ∈ i.queue ↔ id ∈ i.index
  own : ∀ (id : ClientId) (f : InFlight), i.index[id]? = some f → f.order.clientId = some id
  missed : ∀ (id : ClientId) (f : InFlight), i.index[id]? = some f →
    f.missed ≤ config.maxUnconfirmed.toNat
  fits : i.index.size ≤ max 1 config.maxTracked.toNat
  all : i.orders.length = i.index.size
  inOrder : i.orders = (latest history).filter fun o => o.clientId.any i.index.contains

theorem Mirrors.consistent {config : TrackerConfig} {history : List Order} (same : Mirrors i t)
    (kept : t.WellKept config history) : Consistent config history i := by
  refine ⟨same.config.trans kept.setup, same.queue ▸ same.unique, ?_, ?_, ?_, ?_, ?_, ?_⟩
  · intro id
    rw [same.queue, same.mem_index]
  · intro id f found
    exact kept.own _ ((same.index id f).mp found)
  · intro id f found
    exact kept.missed _ ((same.index id f).mp found)
  · have fits := kept.fits
    rwa [Tracker.capacity, kept.setup, Nat.max_comm, ← same.size] at fits
  · rw [same.orders, same.size]
    exact List.length_map _
  · rw [same.orders, kept.inOrder]
    exact List.filter_congr fun o _ => by simp only [funext same.contains]

-- An order that is refused leaves everything as it is. One that is taken is stored under its own
-- id and stands last; where there was no room the oldest gives way, and no other.
def Tracks (i : IndexedTracker) (o : Order) : Prop :=
  match i.track o with
  | (.error _, after) => after = i
  | (.ok _, after) => ∃ id, o.clientId = some id ∧ id ∉ i.index ∧
      after.config = i.config ∧
      after.queue = (if i.index.size < i.capacity then i.queue else i.queue.tail) ++ [id] ∧
      after.index[id]? = some ⟨o, 0⟩ ∧
      ∀ other, other ≠ id → after.index[other]? =
        if i.index.size < i.capacity ∨ i.queue.head? ≠ some other then i.index[other]? else none

theorem makeRoom_of_lt (room : i.index.size < i.capacity) (queue : List ClientId) :
    i.makeRoom queue = i := by
  cases queue with
  | nil => rfl
  | cons oldest younger => exact if_pos room

theorem makeRoom_of_full {oldest : ClientId} {younger : List ClientId} (held : oldest ∈ i.index)
    (full : i.index.size = i.capacity) : i.makeRoom (oldest :: younger) =
      { i with index := i.index.erase oldest, queue := younger } := by
  have one : 1 ≤ i.capacity := Nat.le_max_right _ _
  have room : (i.index.erase oldest).size < i.capacity := by
    rw [Std.HashMap.size_erase, if_pos held]
    omega
  rw [makeRoom, if_neg (Nat.not_lt.mpr (Nat.le_of_eq full.symm))]
  exact makeRoom_of_lt room younger

theorem Consistent.fits_capacity {config : TrackerConfig} {history : List Order}
    (kept : Consistent config history i) : i.index.size ≤ i.capacity := by
  have fits := kept.fits
  rwa [← kept.setup, Nat.max_comm] at fits

theorem Consistent.tracks {config : TrackerConfig} {history : List Order}
    (kept : Consistent config history i) (o : Order) : i.Tracks o := by
  unfold Tracks track
  cases own : o.clientId with
  | none => exact rfl
  | some id =>
    by_cases held : id ∈ i.index
    · simp [held]
    simp only [Std.HashMap.contains_iff_mem, if_neg held]
    by_cases room : i.index.size < i.capacity
    · rw [makeRoom_of_lt room]
      refine ⟨id, rfl, held, rfl, by rw [if_pos room]; rfl, by simp [store], fun other apart => ?_⟩
      simp [store, Std.HashMap.getElem?_insert, Ne.symm apart, room]
    -- A full tracker holds at least one order, so there is an oldest one to give up.
    · have full : i.index.size = i.capacity :=
        Nat.le_antisymm kept.fits_capacity (Nat.not_lt.mp room)
      cases queue : i.queue with
      | nil =>
        have all : 0 = i.index.size := by simpa [orders, queue] using kept.all
        have one : 1 ≤ i.capacity := Nat.le_max_right _ _
        omega
      | cons oldest younger =>
        have first : oldest ∈ i.index := (kept.keys oldest).mp (queue ▸ List.mem_cons_self)
        rw [makeRoom_of_full first full]
        refine ⟨id, rfl, held, rfl, by rw [if_neg room]; rfl, by simp [store],
          fun other apart => ?_⟩
        by_cases given : oldest = other <;>
          simp [store, Std.HashMap.getElem?_insert, Std.HashMap.getElem?_erase, Ne.symm apart, room,
            given]

theorem consistent_after_calls (config : TrackerConfig) (calls : List TrackerCall) :
    let (talk, i) := converse perform { config } calls
    Consistent config (trackedOrders talk) i ∧ (∀ o, i.Tracks o) ∧
      ∃ t, converse Tracker.perform { config } calls = (talk, t) ∧ Mirrors i t := by
  obtain ⟨talk, same⟩ := (Mirrors.new config).converse calls
  have kept := (Tracker.WellKept.new config).converse calls
  rw [List.nil_append, ← talk] at kept
  have consistent := same.consistent kept
  exact ⟨consistent, consistent.tracks, _, Prod.ext talk.symm rfl, same⟩

end IndexedTracker
end MarketMaking
