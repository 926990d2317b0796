import Evacuation.Proofs.Race.Move

/-!
# Claims and slots during a race of recording threads

Two invariants hold at every moment of a race, whatever the interleaving.  `Claims` ties the region
set to the threads: the indices whose claims were won enumerate the set, and nobody has tried an index
that is not in it.  `Slots` ties the journal to the threads through the order in which the winners
have reserved their slots: a reserved slot has its index already, or exactly one thread is about to
store it there.  Since nobody reserves without having won, the cursor stays within the slots.
-/

namespace Evacuation.Race

/-! ## What a thread has done -/

namespace Stage

/-- The index whose claim the recording at hand has won. -/
def won : Stage → List UInt32
  | .ready => []
  | .reserving index | .storing index _ | .noting index => [index]

/-- The index for which the recording at hand has reserved a slot. -/
def listed : Stage → List UInt32
  | .ready | .reserving _ => []
  | .storing index _ | .noting index => [index]

theorem listed_sublist_won (s : Stage) : s.listed.Sublist s.won := by
  cases s <;> simp [listed, won]

end Stage

namespace Writer

def winners (w : Writer) : List UInt32 :=
  (w.answers.filter (·.2)).map (·.1)

def won (w : Writer) : List UInt32 :=
  w.winners ++ w.stage.won

def listed (w : Writer) : List UInt32 :=
  w.winners ++ w.stage.listed

def tried (w : Writer) : List UInt32 :=
  w.answers.map (·.1) ++ w.stage.won

theorem winners_answer_true (w : Writer) (index : UInt32) :
    (w.answer index true).winners = w.winners ++ [index] := by
  simp [winners, answers_answer]

theorem winners_answer_false (w : Writer) (index : UInt32) :
    (w.answer index false).winners = w.winners := by
  simp [winners, answers_answer]

theorem won_answer_true (w : Writer) (index : UInt32) :
    (w.answer index true).won = w.winners ++ [index] := by
  rw [won, winners_answer_true]
  exact List.append_nil _

theorem won_answer_false (w : Writer) (index : UInt32) :
    (w.answer index false).won = w.winners := by
  rw [won, winners_answer_false]
  exact List.append_nil _

theorem listed_answer_true (w : Writer) (index : UInt32) :
    (w.answer index true).listed = w.winners ++ [index] := by
  rw [listed, winners_answer_true]
  exact List.append_nil _

theorem listed_answer_false (w : Writer) (index : UInt32) :
    (w.answer index false).listed = w.winners := by
  rw [listed, winners_answer_false]
  exact List.append_nil _

theorem tried_answer (w : Writer) (index : UInt32) (won : Bool) :
    (w.answer index won).tried = w.answers.map (·.1) ++ [index] := by
  rw [tried, answers_answer, List.map_append]
  exact List.append_nil _

theorem won_of_ready {w : Writer} (ready : w.stage = .ready) : w.won = w.winners := by
  rw [won, ready, Stage.won, List.append_nil]

theorem listed_of_ready {w : Writer} (ready : w.stage = .ready) : w.listed = w.winners := by
  rw [listed, ready, Stage.listed, List.append_nil]

theorem tried_of_ready {w : Writer} (ready : w.stage = .ready) :
    w.tried = w.answers.map (·.1) := by
  rw [tried, ready, Stage.won, List.append_nil]

theorem listed_sublist_won (w : Writer) : w.listed.Sublist w.won :=
  (List.Sublist.refl w.winners).append w.stage.listed_sublist_won

end Writer

variable {τ : Type}

namespace Recording

/-- The indices whose claims any thread has won. -/
def won (race : Recording τ) : List UInt32 :=
  race.writers.flatMap Writer.won

def listed (race : Recording τ) : List UInt32 :=
  race.writers.flatMap Writer.listed

def winners (race : Recording τ) : List UInt32 :=
  race.writers.flatMap Writer.winners

theorem listed_sublist_won (race : Recording τ) : race.listed.Sublist race.won := by
  unfold listed won
  induction race.writers with
  | nil => exact List.Sublist.refl []
  | cons w rest ih =>
      rw [List.flatMap_cons, List.flatMap_cons]
      exact w.listed_sublist_won.append ih

end Recording

/-! ## What a move leaves alone -/

section Frame

variable [Layout τ] {w w' : Writer} {r r' : Recorder} {table table' : Table τ}

theorem Move.phase (moved : Move (w, r, table) (w', r', table')) : r'.phase = r.phase := by
  cases moved <;> rfl

theorem Move.pauseId (moved : Move (w, r, table) (w', r', table')) : r'.pauseId = r.pauseId := by
  cases moved <;> rfl

theorem Move.capacity (moved : Move (w, r, table) (w', r', table')) :
    r'.failed.capacity = r.failed.capacity := by
  cases moved <;> rfl

theorem Move.sized (moved : Move (w, r, table) (w', r', table')) (h : r.Sized) : r'.Sized := by
  cases moved with
  | rest finished => exact h
  | refuse running stage ahead beyond => exact h
  | lose running stage ahead taken => exact h
  | win running stage ahead inside free => exact ⟨h.wellFormed.insert inside, h.narrow, h.room⟩
  | reserve running stage => exact ⟨h.wellFormed, h.narrow, h.room⟩
  | store running stage inside =>
      refine ⟨h.wellFormed, h.narrow, ?_⟩
      simpa [Journal.capacity] using h.room
  | note running stage told => exact h
  | strand running stage lost => exact h

/-- A move wins one free index, or it changes neither the claims nor what the thread has won. -/
theorem Move.won_cases (moved : Move (w, r, table) (w', r', table')) :
    (w'.won = w.won ∧ r'.failed = r.failed) ∨
      ∃ index : UInt32, index.toNat < r.failed.capacity ∧ r.failed.bit index.toNat = false ∧
        w'.won = w.won ++ [index] ∧ r'.failed = r.failed.insert index.toNat := by
  cases moved with
  | rest finished => exact Or.inl ⟨rfl, rfl⟩
  | refuse running stage ahead beyond => exact Or.inl ⟨rfl, rfl⟩
  | lose running stage ahead taken =>
      refine Or.inl ⟨?_, rfl⟩
      rw [Writer.won_answer_false, Writer.won_of_ready stage]
      rfl
  | win running stage ahead inside free =>
      refine Or.inr ⟨_, inside, free, ?_, rfl⟩
      rw [Writer.won_of_ready stage]
      rfl
  | reserve running stage =>
      refine Or.inl ⟨?_, rfl⟩
      rw [Writer.won, Writer.won, stage]
      rfl
  | store running stage inside =>
      refine Or.inl ⟨?_, rfl⟩
      rw [Writer.won, Writer.won, stage]
      rfl
  | note running stage told =>
      refine Or.inl ⟨?_, rfl⟩
      rw [Writer.won_answer_true, Writer.won, stage]
      rfl
  | strand running stage lost => exact Or.inl ⟨rfl, rfl⟩

theorem Move.bit_mono (moved : Move (w, r, table) (w', r', table')) (h : r.Sized) {i : Nat}
    (set : r.failed.bit i = true) : r'.failed.bit i = true := by
  obtain ⟨_, same⟩ | ⟨index, inside, _, _, claimed⟩ := moved.won_cases
  · rw [same]
    exact set
  · rw [claimed, RegionSet.bit_insert h.wellFormed inside, set, Bool.true_or]

/-- A move tries the next index, which is claimed from then on, or it leaves the course alone. -/
theorem Move.tried_cases (moved : Move (w, r, table) (w', r', table'))
    (wellFormed : r.failed.WellFormed) :
    (w'.tried = w.tried ∧ w'.ahead = w.ahead) ∨
      ∃ index : UInt32, w'.tried = w.tried ++ [index] ∧ w.ahead = index :: w'.ahead ∧
        index.toNat < r.failed.capacity ∧ r'.failed.bit index.toNat = true := by
  cases moved with
  | rest finished => exact Or.inl ⟨rfl, rfl⟩
  | refuse running stage ahead beyond => exact Or.inl ⟨rfl, rfl⟩
  | lose running stage ahead taken =>
      refine Or.inr ⟨_, ?_, ahead, wellFormed.lt_capacity taken, taken⟩
      rw [Writer.tried_answer, Writer.tried_of_ready stage]
      rfl
  | win running stage ahead inside free =>
      refine Or.inr ⟨_, ?_, ahead, inside, ?_⟩
      · rw [Writer.tried_of_ready stage]
        rfl
      · rw [RegionSet.bit_insert wellFormed inside, decide_eq_true rfl, Bool.or_true]
  | reserve running stage =>
      refine Or.inl ⟨?_, rfl⟩
      rw [Writer.tried, Writer.tried, stage]
      rfl
  | store running stage inside =>
      refine Or.inl ⟨?_, rfl⟩
      rw [Writer.tried, Writer.tried, stage]
      rfl
  | note running stage told =>
      refine Or.inl ⟨?_, rfl⟩
      rw [Writer.tried_answer, Writer.tried, stage]
      rfl
  | strand running stage lost => exact Or.inl ⟨rfl, rfl⟩

end Frame

/-! ## Claims -/

namespace Recording

/-- The region set knows exactly the claims that were won, each won once, and all that were tried. -/
structure Claims (race : Recording τ) : Prop extends race.recorder.Sized where
  recording : race.recorder.phase = .recording
  won : race.recorder.failed.Enumerates race.won
  tried : ∀ w ∈ race.writers, ∀ index ∈ w.tried, race.recorder.failed.bit index.toNat = true

theorem Claims.move [Layout τ] {w w' : Writer} {r r' : Recorder} {table table' : Table τ}
    {before after : List Writer} (h : Claims ⟨r, table, before ++ w :: after⟩)
    (moved : Move (w, r, table) (w', r', table')) :
    Claims ⟨r', table', before ++ w' :: after⟩ where
  toSized := moved.sized h.toSized
  recording := moved.phase.trans h.recording
  won := by
    obtain ⟨same, untouched⟩ | ⟨index, inside, free, more, claimed⟩ := moved.won_cases
    · rw [Recording.won, flatMap_replace same, untouched]
      exact h.won
    · have enumerated := h.won.insert h.wellFormed inside free
      rw [claimed]
      exact enumerated.of_perm
        ((List.perm_append_singleton index _).symm.trans (perm_flatMap_replace more))
  tried := by
    refine forall_mem_replace h.tried
      (fun _ tried index member => moved.bit_mono h.toSized (tried index member)) ?_
    have mine : ∀ index ∈ w.tried, r'.failed.bit index.toNat = true :=
      fun index member => moved.bit_mono h.toSized (h.tried w mem_turn index member)
    obtain ⟨same, _⟩ | ⟨next, more, _, _, set⟩ := moved.tried_cases h.wellFormed
    · rw [same]
      exact mine
    · rw [more]
      intro index member
      rcases List.mem_append.mp member with early | last
      · exact mine index early
      · rw [List.mem_singleton.mp last]
        exact set

theorem Claims.length_won_le {race : Recording τ} (h : race.Claims) :
    race.won.length ≤ race.recorder.failed.capacity :=
  h.won.length_le h.wellFormed (Nat.le_of_lt h.narrow)

/-! ## Slots -/

/-- The slots of the journal are taken in an order, each by one winner. -/
structure Slots (order : List UInt32) (race : Recording τ) : Prop where
  perm : order.Perm race.listed
  length : order.length = race.recorder.journal.length
  held : ∀ w ∈ race.writers, ∀ index slot, w.stage = .storing index slot →
    order[slot.toNat]? = some index
  stored : ∀ (position : Nat) (index : UInt32), order[position]? = some index →
    race.recorder.journal.slots[position]? = some index ∨
      ∃ w ∈ race.writers, ∃ slot, w.stage = .storing index slot ∧ slot.toNat = position
  program : ∀ w ∈ race.writers, w.listed.Sublist order

theorem Slots.length_le {order : List UInt32} {race : Recording τ} (h : race.Slots order) :
    order.length ≤ race.won.length :=
  h.perm.length_eq ▸ race.listed_sublist_won.length_le

/-- The cursor is nowhere near the end of its word. -/
theorem Slots.length_lt {order : List UInt32} {race : Recording τ} (h : race.Slots order)
    (claims : race.Claims) : race.recorder.journal.length + 1 < UInt64.size := by
  have wide : UInt32.size < UInt64.size := by decide
  have listed := h.length
  have won := h.length_le
  have most := claims.length_won_le
  have narrow := claims.narrow
  omega

/-- The slot that a thread holds exists. -/
theorem Slots.lt_size {order : List UInt32} {race : Recording τ} (h : race.Slots order)
    (claims : race.Claims) {w : Writer} (member : w ∈ race.writers) {index : UInt32} {slot : UInt64}
    (stage : w.stage = .storing index slot) : slot.toNat < race.recorder.journal.slots.size := by
  obtain ⟨inside, _⟩ := List.getElem?_eq_some_iff.mp (h.held w member index slot stage)
  have room : race.recorder.journal.slots.size = race.recorder.failed.capacity := claims.room
  have listed := h.length_le
  have won := claims.length_won_le
  omega

section Step

variable {order : List UInt32} {w w' : Writer} {r r' : Recorder} {table table' : Table τ}
  {before after : List Writer}

/-- A move that has to do with no slot. -/
theorem Slots.keep (h : Slots order ⟨r, table, before ++ w :: after⟩)
    (listed : w'.listed = w.listed) (journal : r'.journal = r.journal)
    (free : ∀ index slot, w.stage ≠ .storing index slot)
    (free' : ∀ index slot, w'.stage ≠ .storing index slot) :
    Slots order ⟨r', table', before ++ w' :: after⟩ where
  perm := by
    rw [Recording.listed, flatMap_replace listed]
    exact h.perm
  length := by
    rw [journal]
    exact h.length
  held := forall_mem_replace h.held (fun _ kept => kept)
    fun index slot stage => absurd stage (free' index slot)
  stored := by
    intro position index found
    rw [journal]
    obtain done | ⟨v, member, slot, stage, place⟩ := h.stored position index found
    · exact Or.inl done
    · have other : v ≠ w := by
        rintro rfl
        exact free index slot stage
      exact Or.inr ⟨v, mem_replace_of_ne other member, slot, stage, place⟩
  program := by
    refine forall_mem_replace h.program (fun _ kept => kept) ?_
    rw [listed]
    exact h.program w mem_turn

/-- A reservation appends to the order. -/
theorem Slots.reserve {index : UInt32} (h : Slots order ⟨r, table, before ++ w :: after⟩)
    (bound : r.journal.length + 1 < UInt64.size) (stage : w.stage = .reserving index) :
    Slots (order ++ [index])
      ⟨{ r with journal := r.journal.reserve.2 }, table,
        before ++ { w with stage := .storing index r.journal.cursor } :: after⟩ where
  perm := by
    have more : (Writer.mk w.ahead (.storing index r.journal.cursor) w.calls w.stop).listed =
        w.listed ++ [index] := by
      rw [Writer.listed, Writer.listed, stage, Stage.listed, Stage.listed, List.append_nil]
      rfl
    exact (h.perm.append_right [index]).trans (perm_flatMap_replace more)
  length := by
    rw [List.length_append, List.length_singleton, h.length]
    exact (Journal.length_reserve bound).symm
  held := by
    refine forall_mem_replace h.held ?_ ?_
    · intro v kept j slot storing
      have found := kept j slot storing
      obtain ⟨inside, _⟩ := List.getElem?_eq_some_iff.mp found
      rw [List.getElem?_append_left inside]
      exact found
    · intro j slot storing
      obtain ⟨rfl, rfl⟩ := Stage.storing.inj storing
      have last : r.journal.cursor.toNat = order.length := h.length.symm
      rw [last, List.getElem?_concat_length]
  stored := by
    intro position j found
    by_cases inside : position < order.length
    · rw [List.getElem?_append_left inside] at found
      obtain done | ⟨v, member, slot, storing, place⟩ := h.stored position j found
      · exact Or.inl done
      · have other : v ≠ w := by
          rintro rfl
          rw [stage] at storing
          cases storing
        exact Or.inr ⟨v, mem_replace_of_ne other member, slot, storing, place⟩
    · obtain ⟨bound, value⟩ := List.getElem?_eq_some_iff.mp found
      rw [List.length_append, List.length_singleton] at bound
      have last : position = order.length := by omega
      subst last
      rw [List.getElem_concat_length rfl] at value
      subst value
      refine Or.inr ⟨_, mem_turn, r.journal.cursor, rfl, ?_⟩
      exact h.length.symm
  program := by
    refine forall_mem_replace h.program
      (fun _ kept => kept.trans (List.sublist_append_left order [index])) ?_
    have mine := h.program w mem_turn
    rw [Writer.listed, stage, Stage.listed, List.append_nil] at mine
    exact mine.append (List.Sublist.refl [index])

/-- A store puts the index in its place. -/
theorem Slots.store {index : UInt32} {slot : UInt64}
    (h : Slots order ⟨r, table, before ++ w :: after⟩) (stage : w.stage = .storing index slot)
    (inside : slot.toNat < r.journal.slots.size) :
    Slots order
      ⟨{ r with
          journal := { r.journal with slots := r.journal.slots.setIfInBounds slot.toNat index } },
        table, before ++ { w with stage := .noting index } :: after⟩ where
  perm := by
    have same : ({ w with stage := .noting index } : Writer).listed = w.listed := by
      rw [Writer.listed, Writer.listed, stage]
      rfl
    rw [Recording.listed, flatMap_replace same]
    exact h.perm
  length := h.length
  held := forall_mem_replace h.held (fun _ kept => kept) fun _ _ storing => by cases storing
  stored := by
    intro position j found
    have mine : order[slot.toNat]? = some index :=
      h.held w mem_turn index slot stage
    by_cases here : slot.toNat = position
    · subst here
      rw [mine] at found
      rw [← Option.some.inj found]
      exact Or.inl (Array.getElem?_setIfInBounds_self_of_lt inside)
    · obtain done | ⟨v, member, slot', storing, place⟩ := h.stored position j found
      · refine Or.inl ?_
        rw [← done]
        exact Array.getElem?_setIfInBounds_ne here
      · have other : v ≠ w := by
          rintro rfl
          rw [stage] at storing
          obtain ⟨_, rfl⟩ := Stage.storing.inj storing
          exact here place
        exact Or.inr ⟨v, mem_replace_of_ne other member, slot', storing, place⟩
  program := by
    refine forall_mem_replace h.program (fun _ kept => kept) ?_
    have mine := h.program w mem_turn
    rw [Writer.listed, stage] at mine
    exact mine

/-- Every move keeps the slots in order, and reservations only ever append to it. -/
theorem Slots.move [Layout τ] (h : Slots order ⟨r, table, before ++ w :: after⟩)
    (claims : Claims ⟨r, table, before ++ w :: after⟩)
    (moved : Move (w, r, table) (w', r', table')) :
    ∃ order', order.IsPrefix order' ∧ Slots order' ⟨r', table', before ++ w' :: after⟩ := by
  cases moved with
  | rest finished => exact ⟨order, List.prefix_rfl, h⟩
  | refuse running stage ahead beyond =>
      refine ⟨order, List.prefix_rfl, h.keep rfl rfl ?_ ?_⟩
      · simp [stage]
      · simp [Writer.halt, stage]
  | lose running stage ahead taken =>
      refine ⟨order, List.prefix_rfl, h.keep ?_ rfl ?_ ?_⟩
      · rw [Writer.listed_answer_false, Writer.listed_of_ready stage]
        rfl
      · simp [stage]
      · simp [Writer.answer]
  | win running stage ahead inside free =>
      refine ⟨order, List.prefix_rfl, h.keep ?_ rfl ?_ ?_⟩
      · rw [Writer.listed, Writer.listed, stage]
        rfl
      · simp [stage]
      · simp
  | @reserve _ _ _ index running stage =>
      exact ⟨order ++ [index], List.prefix_append order [index],
        h.reserve (h.length_lt claims) stage⟩
  | store running stage inside => exact ⟨order, List.prefix_rfl, h.store stage inside⟩
  | note running stage told =>
      refine ⟨order, List.prefix_rfl, h.keep ?_ rfl ?_ ?_⟩
      · rw [Writer.listed_answer_true, Writer.listed, stage]
        rfl
      · simp [stage]
      · simp [Writer.answer]
  | strand running stage lost =>
      refine ⟨order, List.prefix_rfl, h.keep rfl rfl ?_ ?_⟩
      · simp [stage]
      · simp [Writer.halt, stage]

end Step

end Recording

end Evacuation.Race
