import Mathlib
import MarketMaking.Json.Reader
import MarketMaking.Proofs.JsonText

/-! Records that are read from objects which were edited: members may be left out, put into another
order, and joined by members that nobody asked for. Each member that is left is read as it was
written, each one left out has its default (`Source.readRecord_slots`). -/

namespace MarketMaking.Json

-- Some of the members of an object, each once and in any order, among others whose names it does
-- not have.
def Edits (whole edited : List (String × Json)) : Prop :=
  (edited.filter fun m => decide (m.1 ∈ whole.map (·.1))).Subperm whole

def keep (edited : List (String × Json)) (name : String) (value default : α) : α :=
  if name ∈ edited.map (·.1) then value else default

namespace Edits
variable {whole edited : List (String × Json)} {m : String × Json}

theorem refl (whole : List (String × Json)) : Edits whole whole := by
  have all : (whole.filter fun m => decide (m.1 ∈ whole.map (·.1))) = whole := by
    rw [List.filter_eq_self]
    exact fun m here => decide_eq_true (List.mem_map_of_mem here)
  unfold Edits
  rw [all]

theorem mem (edits : Edits whole edited) (here : m ∈ edited) (known : m.1 ∈ whole.map (·.1)) :
    m ∈ whole :=
  edits.subset (List.mem_filter.mpr ⟨here, decide_eq_true known⟩)

theorem distinct (edits : Edits whole edited) (names : (whole.map (·.1)).Nodup) :
    ((edited.filter fun m => decide (m.1 ∈ whole.map (·.1))).map (·.1)).Nodup := by
  obtain ⟨part, same, sub⟩ := edits
  exact (same.map _).nodup_iff.mp (names.sublist (sub.map _))

end Edits

namespace Source

variable {fields : List Field} {edited : List (String × Json)}

theorem acceptMembers_eq (known : String → Bool) {seen : List (String × Source)}
    (names : ∀ name, (fields.find? (·.name == name)).isSome = known name)
    (checks : ∀ m ∈ edited, ∀ f, fields.find? (·.name == m.1) = some f →
      f.check (ofJson m.2) = .ok ())
    (distinct : ((edited.filter fun m => known m.1).map (·.1)).Nodup)
    (fresh : ∀ m ∈ edited, known m.1 = true → m.1 ∉ seen.map (·.1)) :
    acceptMembers fields seen (ofMembers edited) =
      .ok (seen.reverse ++
        (edited.filter fun m => known m.1).map fun m => (m.1, ofJson m.2)) := by
  induction edited generalizing seen with
  | nil => simp [ofMembers, acceptMembers]
  | cons m rest ih =>
    obtain ⟨name, value⟩ := m
    obtain ⟨check, checks⟩ := List.forall_mem_cons.mp checks
    obtain ⟨new, fresh⟩ := List.forall_mem_cons.mp fresh
    have asked := names name
    rw [ofMembers, acceptMembers]
    cases found : fields.find? (·.name == name) with
    | none =>
      rw [found] at asked
      have unknown : known name = false := asked.symm
      simp only [List.filter_cons, unknown, Bool.false_eq_true, if_false] at distinct ⊢
      rw [passable_ofJson, if_pos rfl]
      exact ih checks distinct fresh
    | some f =>
      rw [found] at asked
      have wanted : known name = true := asked.symm
      have unseen : seen.any (·.1 == name) = false := by
        apply List.any_eq_false.mpr
        exact fun e here same => new wanted (List.mem_map.mpr ⟨e, here, eq_of_beq same⟩)
      simp only [List.filter_cons, wanted, if_true, List.map_cons, List.nodup_cons] at distinct ⊢
      simp only [unseen, Bool.false_eq_true, if_false, check f found, bind, Except.bind]
      rw [ih checks distinct.2]
      · simp
      · intro m here also
        rw [List.map_cons, List.mem_cons, not_or]
        refine ⟨fun same => ?_, fresh m here also⟩
        apply distinct.1
        rw [← show m.1 = name from same]
        exact List.mem_map_of_mem (List.mem_filter.mpr ⟨here, also⟩)

structure Slot where
  type : Type
  name : String
  read : Reader type
  value : type
  json : Json
  reads : read (ofJson json) = .ok value

namespace Slot

def field (s : Slot) : Field := Source.field s.name s.read

def member (s : Slot) : String × Json := (s.name, s.json)

end Slot

variable {slots : List Slot}

theorem member_eq (distinct : (slots.map (·.name)).Nodup)
    (edits : Edits (slots.map Slot.member) edited) {s : Slot} (here : s ∈ slots)
    {m : String × Json} (left : m ∈ edited) (named : m.1 = s.name) : m = s.member := by
  have known : m.1 ∈ (slots.map Slot.member).map (·.1) := by
    rw [named, List.map_map]
    exact List.mem_map_of_mem here
  obtain ⟨t, other, rfl⟩ := List.mem_map.mp (edits.mem left known)
  exact congrArg Slot.member (List.inj_on_of_nodup_map distinct other here named)

theorem get?_edited (distinct : (slots.map (·.name)).Nodup)
    (edits : Edits (slots.map Slot.member) edited) {s : Slot} (here : s ∈ slots) :
    (⟨(edited.filter fun m => decide (m.1 ∈ slots.map (·.name))).map
      fun m => (m.1, ofJson m.2)⟩ : Members).get? s.name =
      keep edited s.name (some (ofJson s.json)) none := by
  unfold Members.get? keep
  rw [List.find?_map]
  cases found : (edited.filter fun m => decide (m.1 ∈ slots.map (·.name))).find?
      ((fun e : String × Source => e.1 == s.name) ∘ fun m => (m.1, ofJson m.2)) with
  | none =>
    have gone : s.name ∉ edited.map (·.1) := by
      intro left
      obtain ⟨m, left, named⟩ := List.mem_map.mp left
      have asked : m ∈ edited.filter fun m => decide (m.1 ∈ slots.map (·.name)) :=
        List.mem_filter.mpr ⟨left, decide_eq_true (named ▸ List.mem_map_of_mem here)⟩
      exact List.find?_eq_none.mp found m asked (beq_iff_eq.mpr named)
    rw [if_neg gone]
    rfl
  | some m =>
    have left := List.mem_of_mem_filter (List.mem_of_find?_eq_some found)
    have hit := List.find?_some found
    have named : m.1 = s.name := eq_of_beq hit
    rw [if_pos (named ▸ List.mem_map_of_mem left), member_eq distinct edits here left named]
    rfl

theorem readRecord_get? (shape : Shape) (fields : shape.fields = slots.map Slot.field)
    (once : (shape.fields.map (·.name)).Nodup) (edits : Edits (slots.map Slot.member) edited) :
    ∃ m, readRecord shape (ofJson (.object edited)) = .ok m ∧ ∀ s ∈ slots,
      m.get? s.name = keep edited s.name (some (ofJson s.json)) none := by
  have distinct : (slots.map (·.name)).Nodup := by
    rw [fields, List.map_map] at once
    exact once
  have names : (slots.map Slot.member).map (·.1) = slots.map (·.name) := by
    rw [List.map_map]
    rfl
  have apart := edits.distinct (names ▸ distinct)
  rw [names] at apart
  have accepted : acceptMembers shape.fields [] (ofMembers edited) = .ok
      ((edited.filter fun m => decide (m.1 ∈ slots.map (·.name))).map
        fun m => (m.1, ofJson m.2)) := by
    rw [fields]
    apply acceptMembers_eq (fun name => decide (name ∈ slots.map (·.name))) _ _ apart
    · exact fun m here known => List.not_mem_nil
    · intro name
      rw [Bool.eq_iff_iff, List.find?_isSome, decide_eq_true_eq, List.mem_map]
      simp [Slot.field, Source.field]
    · intro m left f found
      obtain ⟨s, here, rfl⟩ := List.mem_map.mp (List.mem_of_find?_eq_some found)
      have hit := List.find?_some found
      have named : s.name = m.1 := eq_of_beq hit
      rw [member_eq distinct edits here left named.symm]
      simp [Slot.field, Source.field, Slot.member, s.reads, Except.map]
  exact ⟨_, by rw [ofJson, readRecord, accepted]; rfl,
    fun s here => get?_edited distinct edits here⟩

theorem readRecord_slots (shape : Shape) (fields : shape.fields = slots.map Slot.field)
    (once : (shape.fields.map (·.name)).Nodup) (edits : Edits (slots.map Slot.member) edited) :
    ∃ m, readRecord shape (ofJson (.object edited)) = .ok m ∧ ∀ s ∈ slots, ∀ default,
      m.withDefault s.name default s.read = .ok (keep edited s.name s.value default) := by
  obtain ⟨m, accepted, found⟩ := readRecord_get? shape fields once edits
  refine ⟨m, accepted, fun s here default => ?_⟩
  rw [Members.withDefault, found s here]
  unfold keep
  by_cases left : s.name ∈ edited.map (·.1)
  · simp only [left, if_true]
    exact s.reads
  · simp only [left, if_false]

theorem readRecord_whole (shape : Shape) (slots : List Slot)
    (fields : shape.fields = slots.map Slot.field)
    (once : (shape.fields.map (·.name)).Nodup) :
    ∃ m, readRecord shape (ofJson (.object (slots.map Slot.member))) = .ok m ∧ ∀ s ∈ slots,
      m.required s.name s.read = .ok s.value := by
  obtain ⟨m, accepted, found⟩ := readRecord_get? shape fields once (.refl _)
  refine ⟨m, accepted, fun s here => ?_⟩
  have present : s.name ∈ (slots.map Slot.member).map (·.1) :=
    List.mem_map_of_mem (List.mem_map_of_mem here)
  rw [Members.required, found s here, keep, if_pos present]
  exact s.reads

theorem Members.optional_eq {m : Members} {name : String} {read : Reader α} {a : Option α}
    (found : m.required name (readOption read) = .ok a) : m.optional name read = .ok a := by
  unfold Members.required at found
  unfold Members.optional
  cases here : m.get? name with
  | none => rw [here] at found; cases found
  | some s => rw [here] at found; exact found

end Source
end MarketMaking.Json
