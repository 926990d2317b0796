import Evacuation.Proofs.Race.Course

/-!
# Races in order

`Orderly` puts together what is known of a race at any moment: its claims, its slots, how far each
thread has come, and what the regions have been told.  Every step keeps it.  `Leads` says what one
moment of a race fixes for all later ones: a won claim stays with its thread, and a slot that was
stored is never stored again.
-/

namespace Evacuation.Race

variable {τ : Type} [Layout τ]

/-! ## What a move does to one thread -/

section Thread

variable {w w' : Writer} {r r' : Recorder} {table table' : Table τ}

theorem Move.won_prefix (moved : Move (w, r, table) (w', r', table')) : w.won <+: w'.won := by
  obtain ⟨same, _⟩ | ⟨index, _, _, more, _⟩ := moved.won_cases
  · exact same.symm ▸ List.prefix_rfl
  · rw [more]
    exact List.prefix_append w.won [index]

/-- Either nobody is told and no call is answered `true`, or both happen for one index. -/
theorem Move.told (moved : Move (w, r, table) (w', r', table')) :
    (table' = table ∧ w'.winners = w.winners) ∨
      ∃ index, table' = (table.note index).2 ∧ w'.winners = w.winners ++ [index] := by
  cases moved with
  | rest finished => exact Or.inl ⟨rfl, rfl⟩
  | refuse running stage ahead beyond => exact Or.inl ⟨rfl, rfl⟩
  | lose running stage ahead taken => exact Or.inl ⟨rfl, Writer.winners_answer_false ..⟩
  | win running stage ahead inside free => exact Or.inl ⟨rfl, rfl⟩
  | reserve running stage => exact Or.inl ⟨rfl, rfl⟩
  | store running stage inside => exact Or.inl ⟨rfl, rfl⟩
  | note running stage told => exact Or.inr ⟨_, rfl, Writer.winners_answer_true ..⟩
  | strand running stage lost => exact Or.inl ⟨rfl, rfl⟩

end Thread

namespace Recording

/-! ## The invariant -/

/-- A race that began with the given table and lists, and in which slots were taken in an order. -/
structure Orderly (first : Table τ) (records : List (List UInt32)) (order : List UInt32)
    (race : Recording τ) : Prop extends race.Claims where
  slots : race.Slots order
  follows : List.Forall₂
    (fun indices (w : Writer) => w.Follows first race.recorder.failed.capacity indices)
    records race.writers
  told : ∃ told : List UInt32, race.table = first.tell told ∧ told.Perm race.winners

theorem orderly_start {r : Recorder} (opened : r.Opened) (first : Table τ)
    (records : List (List UInt32)) : Orderly first records [] (start r first records) := by
  have nothing {f : Writer → List UInt32} (none : ∀ indices, f (.start indices) = []) :
      (start r first records).writers.flatMap f = [] := by
    rw [List.flatMap_eq_nil_iff]
    intro w member
    obtain ⟨indices, _, rfl⟩ := List.mem_map.mp member
    exact none indices
  have each {P : Writer → Prop} (holds : ∀ indices, P (.start indices)) :
      ∀ w ∈ (start r first records).writers, P w := by
    intro w member
    obtain ⟨indices, _, rfl⟩ := List.mem_map.mp member
    exact holds indices
  refine ⟨⟨opened.toSized, opened.recording, ?_, ?_⟩, ⟨?_, ?_, ?_, ?_, ?_⟩, ?_, ⟨[], rfl, ?_⟩⟩
  · rw [won, nothing fun _ => rfl]
    exact .of_clear opened.free
  · exact each fun _ _ member => by cases member
  · rw [listed, nothing fun _ => rfl]
  · change 0 = r.journal.cursor.toNat
    rw [opened.unlisted]
    rfl
  · exact each fun _ _ _ stage => by cases stage
  · intro position index found
    cases found
  · exact each fun _ => List.Sublist.refl []
  · exact List.forall₂_map_right_iff.mpr
      (List.forall₂_same.mpr fun indices _ => Writer.follows_start first _ indices)
  · rw [winners, nothing fun _ => rfl]

namespace Orderly

variable {first : Table τ} {records : List (List UInt32)} {order : List UInt32}
  {race race' : Recording τ}

/-- A note comes to the same at every moment. -/
theorem note_fst (h : Orderly first records order race) (index : UInt32) :
    (race.table.note index).1 = (first.note index).1 := by
  obtain ⟨told, same, _⟩ := h.told
  rw [same]
  exact first.note_fst_tell told index

theorem step_move (h : Orderly first records order race) (profile : Profile) {w : Writer}
    (member : w ∈ race.writers) :
    Move (w, race.recorder, race.table) (w.step profile race.recorder race.table) :=
  Writer.step_move profile h.recording h.wellFormed
    fun _ _ stage => h.slots.lt_size h.toClaims member stage

theorem step_advance (h : Orderly first records order race) (profile : Profile) (thread : Nat) :
    Advance race (race.step profile thread) :=
  Recording.step_advance (fun _ member => h.step_move profile member) thread

theorem advance (h : Orderly first records order race) (advanced : Advance race race') :
    ∃ order', order <+: order' ∧ Orderly first records order' race' := by
  cases advanced with
  | idle => exact ⟨order, List.prefix_rfl, h⟩
  | @move w w' r r' table table' before after moved =>
      obtain ⟨order', grown, slots⟩ := h.slots.move h.toClaims moved
      refine ⟨order', grown, h.toClaims.move moved, slots, ?_, ?_⟩
      · rw [moved.capacity]
        exact forall₂_replace h.follows fun _ follows => follows.move h.wellFormed h.note_fst moved
      · obtain ⟨told, same, perm⟩ := h.told
        obtain ⟨still, none⟩ | ⟨index, more, one⟩ := moved.told
        · refine ⟨told, still.trans same, ?_⟩
          rw [winners, flatMap_replace none]
          exact perm
        · refine ⟨told ++ [index], ?_, ?_⟩
          · rw [Table.tell_append_singleton, ← same]
            exact more
          · exact (perm.append_right [index]).trans (perm_flatMap_replace one)

end Orderly

/-! ## One moment and a later one -/

structure Settled (position : Nat) (index : UInt32) (race : Recording τ) : Prop where
  reserved : position < race.recorder.journal.length
  stored : race.recorder.journal.slots[position]? = some index
  free : ∀ w ∈ race.writers, ∀ index' slot, w.stage = .storing index' slot → slot.toNat ≠ position

/-- What one moment of a race fixes for a later one. -/
structure Leads (early late : Recording τ) : Prop where
  capacity : late.recorder.failed.capacity = early.recorder.failed.capacity
  pauseId : late.recorder.pauseId = early.recorder.pauseId
  won : List.Forall₂ (fun w w' : Writer => w.won <+: w'.won) early.writers late.writers
  settled : ∀ position index, early.Settled position index → late.Settled position index

theorem Settled.move {position : Nat} {index : UInt32} {w w' : Writer} {r r' : Recorder}
    {table table' : Table τ} {before after : List Writer}
    (h : Settled position index ⟨r, table, before ++ w :: after⟩)
    (bound : r.journal.length + 1 < UInt64.size)
    (moved : Move (w, r, table) (w', r', table')) :
    Settled position index ⟨r', table', before ++ w' :: after⟩ := by
  have others {w' : Writer} (free : ∀ index' slot, w'.stage = .storing index' slot →
      slot.toNat ≠ position) := forall_mem_replace h.free (fun _ kept => kept) free
  cases moved with
  | rest finished => exact h
  | refuse running stage ahead beyond => exact ⟨h.reserved, h.stored, others (h.free w mem_turn)⟩
  | lose running stage ahead taken => exact ⟨h.reserved, h.stored, others nofun⟩
  | win running stage ahead inside free => exact ⟨h.reserved, h.stored, others nofun⟩
  | reserve running stage =>
      have reserved : position < r.journal.length := h.reserved
      refine ⟨?_, h.stored, others ?_⟩
      · rw [Journal.length_reserve bound]
        exact Nat.lt_succ_of_lt reserved
      · intro index' slot storing
        obtain ⟨_, rfl⟩ := Stage.storing.inj storing
        exact (Nat.ne_of_lt reserved).symm
  | store running stage inside =>
      refine ⟨h.reserved, ?_, others nofun⟩
      rw [← h.stored]
      exact Array.getElem?_setIfInBounds_ne (h.free w mem_turn _ _ stage)
  | note running stage told => exact ⟨h.reserved, h.stored, others nofun⟩
  | strand running stage lost => exact ⟨h.reserved, h.stored, others (h.free w mem_turn)⟩

namespace Leads

omit [Layout τ] in
theorem refl (race : Recording τ) : race.Leads race where
  capacity := rfl
  pauseId := rfl
  won := List.forall₂_same.mpr fun _ _ => List.prefix_rfl
  settled := fun _ _ settled => settled

omit [Layout τ] in
theorem trans {early middle late : Recording τ} (first : early.Leads middle)
    (second : middle.Leads late) : early.Leads late where
  capacity := second.capacity.trans first.capacity
  pauseId := second.pauseId.trans first.pauseId
  won := by
    refine List.forall₂_iff_get.mpr ⟨first.won.length_eq.trans second.won.length_eq, ?_⟩
    intro i inside inside'
    have inside'' := first.won.length_eq ▸ inside
    exact (first.won.get inside inside'').trans (second.won.get inside'' inside')
  settled := fun position index settled =>
    second.settled position index (first.settled position index settled)

theorem of_advance {race race' : Recording τ} {order : List UInt32} (claims : race.Claims)
    (slots : race.Slots order) (advanced : Advance race race') : race.Leads race' := by
  cases advanced with
  | idle => exact refl race
  | @move w w' r r' table table' before after moved =>
      refine ⟨moved.capacity, moved.pauseId, ?_,
        fun _ _ settled => settled.move (slots.length_lt claims) moved⟩
      refine forall₂_replace (List.forall₂_same.mpr fun _ _ => List.prefix_rfl) ?_
      intro v grown
      exact grown.trans moved.won_prefix

end Leads

/-! ## Runs -/

theorem Orderly.run {first : Table τ} {records : List (List UInt32)} {order : List UInt32}
    {race : Recording τ} (h : Orderly first records order race) (profile : Profile)
    (schedule : List Nat) :
    ∃ order', order <+: order' ∧ Orderly first records order' (race.run profile schedule) ∧
      race.Leads (race.run profile schedule) := by
  induction schedule generalizing race order with
  | nil => exact ⟨order, List.prefix_rfl, h, .refl race⟩
  | cons thread rest ih =>
      have advanced := h.step_advance profile thread
      obtain ⟨middle, grown, kept⟩ := h.advance advanced
      obtain ⟨last, more, still, leads⟩ := ih kept
      exact ⟨last, grown.trans more, still, (Leads.of_advance h.toClaims h.slots advanced).trans leads⟩

end Recording

end Evacuation.Race
