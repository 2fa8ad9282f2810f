import Mathlib
import MarketMaking.Proofs.Atomicity

/-! The order in which a batch is submitted is the stable sort of its operations by group, however
they were added, so two ways of adding the same operations to each group make the same batch
(`Batch.submission_order`). -/

namespace MarketMaking

section Sorting
variable {α : Type} {key : α → Nat} {source : List α}

-- Sorted by a key, with the elements of one key in the order in which the source has them.
structure StablySorted (key : α → Nat) (source sorted : List α) : Prop where
  ordered : sorted.Pairwise fun a b => key a ≤ key b
  kept : ∀ k, sorted.filter (key · = k) = source.filter (key · = k)

theorem mem_of_kept {l l' : List α} {a : α}
    (same : ∀ k, l.filter (key · = k) = l'.filter (key · = k)) (here : a ∈ l) : a ∈ l' := by
  have own : a ∈ l.filter (key · = key a) := List.mem_filter.mpr ⟨here, by simp⟩
  rw [same] at own
  exact List.mem_of_mem_filter own

theorem key_le_of_ordered {l : List α} {a b : α}
    (ordered : (a :: l).Pairwise fun a b => key a ≤ key b) (here : b ∈ a :: l) : key a ≤ key b := by
  rcases List.mem_cons.mp here with rfl | later
  · exact Nat.le_refl _
  · exact List.rel_of_pairwise_cons ordered later

-- By induction on one of the lists: both begin with the first element of the least key.
theorem eq_of_kept {l l' : List α} (ordered : l.Pairwise fun a b => key a ≤ key b)
    (ordered' : l'.Pairwise fun a b => key a ≤ key b)
    (same : ∀ k, l.filter (key · = k) = l'.filter (key · = k)) : l = l' := by
  induction l generalizing l' with
  | nil =>
    refine (List.eq_nil_iff_forall_not_mem.mpr fun a here => ?_).symm
    cases mem_of_kept (fun k => (same k).symm) here
  | cons a l ih =>
    cases l' with
    | nil => cases mem_of_kept same List.mem_cons_self
    | cons b l' =>
      have back : b ∈ a :: l := mem_of_kept (fun k => (same k).symm) List.mem_cons_self
      have low := key_le_of_ordered ordered back
      have high := key_le_of_ordered ordered' (mem_of_kept same List.mem_cons_self)
      have equal : key b = key a := Nat.le_antisymm high low
      have first := same (key a)
      simp only [List.filter_cons, equal, decide_true, if_true, List.cons.injEq] at first
      obtain ⟨rfl, -⟩ := first
      refine congrArg (a :: ·) (ih ordered.tail ordered'.tail fun k => ?_)
      have rest := same k
      simp only [List.filter_cons] at rest
      split at rest
      · exact List.tail_eq_of_cons_eq rest
      · exact rest

theorem StablySorted.unique {l l' : List α} (one : StablySorted key source l)
    (other : StablySorted key source l') : l = l' :=
  eq_of_kept one.ordered other.ordered fun k => (one.kept k).trans (other.kept k).symm

theorem stablySorted_mergeSort (key : α → Nat) (source : List α) :
    StablySorted key source (source.mergeSort (key · ≤ key ·)) := by
  have trans (a b c : α) (first : decide (key a ≤ key b)) (second : decide (key b ≤ key c)) :
      decide (key a ≤ key c) := by
    simp only [decide_eq_true_eq] at first second ⊢
    exact Nat.le_trans first second
  have total (a b : α) : (decide (key a ≤ key b) || decide (key b ≤ key a)) = true := by
    simp only [Bool.or_eq_true, decide_eq_true_eq]
    exact Nat.le_total _ _
  refine ⟨?_, fun k => ?_⟩
  · exact (List.pairwise_mergeSort trans total source).imp of_decide_eq_true
  -- The elements of one key are in order as they stand, so sorting keeps them that way.
  · have level : (source.filter (key · = k)).Pairwise fun a b => decide (key a ≤ key b) := by
      refine List.pairwise_of_forall_mem_list fun a here b there => ?_
      have first : key a = k := by simpa using (List.mem_filter.mp here).2
      have second : key b = k := by simpa using (List.mem_filter.mp there).2
      simp [first, second]
    have inside := (List.sublist_mergeSort trans total level List.filter_sublist).filter (key · = k)
    rw [List.filter_filter] at inside
    simp only [Bool.and_self] at inside
    exact (inside.eq_of_length ((List.mergeSort_perm _ _).filter _).length_eq.symm).symm

end Sorting

namespace Group

def rank : Group → Nat
  | .cancels => 0
  | .places => 1
  | .cranks => 2
  | .settlements => 3

theorem eq_of_rank {g g' : Group} (same : g.rank = g'.rank) : g = g' := by
  cases g <;> cases g' <;> first | rfl | cases same

def all : List Group := [.cancels, .places, .cranks, .settlements]

end Group

namespace Batch

theorem toList_eq_flatMap (b : Batch) : b.toList = Group.all.flatMap b.group := by
  simp [Group.all, toList, group]

theorem length_eq_sum (b : Batch) : (Group.all.map fun g => (b.group g).length).sum = b.length := by
  rw [← length_toList, toList_eq_flatMap, List.length_flatMap]

theorem length_ofList (ops : List Operation) : (ofList ops).length = ops.length := by
  have added : ∀ b : Batch, (ops.foldl add b).length = b.length + ops.length := by
    induction ops with
    | nil => simp
    | cons op rest ih =>
      intro b
      have one : (b.add op).length = b.length + 1 := by
        cases op <;> simp only [add, length, List.length_append, List.length_singleton] <;> omega
      rw [List.foldl_cons, ih, one, List.length_cons]
      omega
  rw [ofList, added]
  exact Nat.zero_add _

theorem ordered_toList (ops : List Operation) :
    (ofList ops).toList.Pairwise fun p q => p.group.rank ≤ q.group.rank := by
  rw [toList_eq_flatMap, List.pairwise_flatMap]
  constructor
  · intro g _
    refine List.pairwise_of_forall_mem_list fun p here q there => ?_
    rw [group_of_mem here, group_of_mem there]
  · have ranks : Group.all.Pairwise fun g g' => g.rank ≤ g'.rank := by decide
    refine ranks.imp fun {g g'} before p here q there => ?_
    rw [group_of_mem here, group_of_mem there]
    exact before

theorem stablySorted_toList (ops : List Operation) :
    StablySorted (·.group.rank) ops (ofList ops).toList := by
  refine ⟨ordered_toList ops, fun k => ?_⟩
  by_cases ranked : ∃ g : Group, g.rank = k
  · obtain ⟨g, rfl⟩ := ranked
    have same (op : Operation) : decide (op.group.rank = g.rank) = decide (op.group = g) :=
      decide_eq_decide.mpr ⟨Group.eq_of_rank, congrArg Group.rank⟩
    simp only [same]
    rw [filter_toList, group_ofList]
  · have none (op : Operation) : decide (op.group.rank = k) = false :=
      decide_eq_false fun here => ranked ⟨op.group, here⟩
    simp only [none, List.filter_false]

theorem ofList_eq_iff (ops ops' : List Operation) :
    ofList ops' = ofList ops ↔
      ∀ g : Group, ops'.filter (·.group = g) = ops.filter (·.group = g) := by
  constructor
  · intro same g
    rw [← group_ofList, ← group_ofList, same]
  · intro same
    have groups (g : Group) : (ofList ops').group g = (ofList ops).group g := by
      rw [group_ofList, group_ofList, same]
    exact Batch.mk.injEq .. ▸ ⟨groups .cancels, groups .places, groups .cranks, groups .settlements⟩

theorem submission_order (ops : List Operation) :
    let b := ofList ops
    b.toList = ops.mergeSort (·.group.rank ≤ ·.group.rank) ∧
    b.groups.flatten = ops.mergeSort (·.group.rank ≤ ·.group.rank) ∧
    b.length = ops.length ∧
    (∀ g, (b.group g).length = ops.countP (·.group = g)) ∧
    (Group.all.map fun g => (b.group g).length).sum = b.length ∧
    ∀ ops', ofList ops' = b ↔
      ∀ g : Group, ops'.filter (·.group = g) = ops.filter (·.group = g) := by
  intro b
  have sorted : b.toList = ops.mergeSort (·.group.rank ≤ ·.group.rank) :=
    (stablySorted_toList ops).unique (stablySorted_mergeSort _ ops)
  refine ⟨sorted, b.flatten_groups.trans sorted, length_ofList ops, fun g => ?_, b.length_eq_sum,
    ofList_eq_iff ops⟩
  rw [group_ofList, ← List.countP_eq_length_filter]

end Batch
end MarketMaking
