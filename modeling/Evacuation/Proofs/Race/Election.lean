import Evacuation.Proofs.Race.Order

/-!
# One winner for each region

However the threads of a race are interleaved, each region has one winner, who lists it in a slot of
its own and tells it once.  `Exclusive` says what holds at each moment, `Keeps` what holds between a
moment and a later one, and `Joined` what the race has come to once every thread is finished.
-/

namespace Evacuation.Race

variable {τ : Type} [Layout τ]

namespace Recording

def tried (race : Recording τ) : List UInt32 :=
  race.writers.flatMap Writer.tried

/-! ## At each moment -/

structure Exclusive (race : Recording τ) : Prop where
  count_won : ∀ index, race.won.count index = if index ∈ race.tried then 1 else 0
  bit_iff : ∀ i, race.recorder.failed.bit i = true ↔ ∃ index ∈ race.won, index.toNat = i
  cursor_le_bits : race.recorder.journal.length ≤ race.recorder.failed.count
  bits_le_capacity : race.recorder.failed.count ≤ race.recorder.failed.capacity
  held_inside : ∀ w ∈ race.writers, ∀ index slot, w.stage = .storing index slot →
    slot.toNat < race.recorder.journal.length ∧ slot.toNat < race.recorder.journal.capacity
  /-- A reserved slot has the index of a winner, unless the thread that holds it is yet to store. -/
  filled : ∀ position < race.recorder.journal.length,
    (∃ index ∈ race.won, race.Settled position index) ∨
      ∃ w ∈ race.writers, ∃ index slot, w.stage = .storing index slot ∧ slot.toNat = position
  /-- A thread stops nowhere but at an index of its own that is out of range. -/
  stop_beyond : ∀ w ∈ race.writers, ∀ fault, w.stop = some fault → ∃ index rest,
    w.ahead = index :: rest ∧ race.recorder.failed.capacity ≤ index.toNat ∧
      fault = .regionOutOfRange index.toNat race.recorder.failed.capacity

section Moment

variable {first : Table τ} {records : List (List UInt32)} {order : List UInt32} {race : Recording τ}

theorem Orderly.mem_won_iff (h : Orderly first records order race) {index : UInt32} :
    index ∈ race.won ↔ index ∈ race.tried := by
  constructor
  · intro member
    obtain ⟨w, found, won⟩ := List.mem_flatMap.mp member
    exact List.mem_flatMap.mpr ⟨w, found, w.won_subset_tried won⟩
  · intro member
    obtain ⟨w, found, tried⟩ := List.mem_flatMap.mp member
    exact (h.won.mem_iff index).mpr (h.tried w found index tried)

theorem Orderly.filled (h : Orderly first records order race) {position : Nat}
    (reserved : position < race.recorder.journal.length) :
    (∃ index ∈ race.won, race.Settled position index) ∨
      ∃ w ∈ race.writers, ∃ index slot, w.stage = .storing index slot ∧ slot.toNat = position := by
  by_cases held : ∃ w ∈ race.writers, ∃ index slot, w.stage = .storing index slot ∧
      slot.toNat = position
  · exact Or.inr held
  · have place := reserved
    rw [← h.slots.length] at place
    obtain stored | ⟨w, member, slot, storing, same⟩ :=
      h.slots.stored position _ (List.getElem?_eq_getElem place)
    · refine Or.inl ⟨order[position], ?_, reserved, stored, ?_⟩
      · exact race.listed_sublist_won.subset (h.slots.perm.mem_iff.mp (List.getElem_mem place))
      · intro w member index slot storing same
        exact held ⟨w, member, index, slot, storing, same⟩
    · exact absurd ⟨w, member, _, slot, storing, same⟩ held

theorem Orderly.exclusive (h : Orderly first records order race)
    (resolves : ∀ index : UInt32, index.toNat < race.recorder.failed.capacity →
      first.Resolves index) : race.Exclusive := by
  have narrow := Nat.le_of_lt h.narrow
  have bits := h.won.count_eq_length h.wellFormed narrow
  refine ⟨?_, h.won.bit_iff h.wellFormed narrow, ?_, ?_, ?_, fun _ => h.filled, ?_⟩
  · intro index
    rw [h.won.nodup.count]
    simp only [h.mem_won_iff]
  · rw [bits, ← h.slots.length]
    exact h.slots.length_le
  · rw [bits]
    exact h.length_won_le
  · intro w member index slot stage
    obtain ⟨inside, _⟩ := List.getElem?_eq_some_iff.mp (h.slots.held w member index slot stage)
    rw [h.slots.length] at inside
    exact ⟨inside, h.slots.lt_size h.toClaims member stage⟩
  · intro w member fault stopped
    obtain ⟨_, _, follows⟩ := exists_task h.follows member
    exact (follows.beyond_of_stopped resolves stopped).2

end Moment

/-! ## Between two moments -/

/-- What holds between a moment of a race and a later one. -/
structure Keeps (early late : Recording τ) : Prop where
  held_once : ∀ (thread thread' : Nat) (w w' : Writer) (index index' : UInt32) (slot : UInt64),
    early.writers[thread]? = some w → late.writers[thread']? = some w' →
    w.stage = .storing index slot → w'.stage = .storing index' slot →
    thread = thread' ∧ index = index'
  /-- A slot that was stored keeps its index, and nobody is to store there again. -/
  settled : ∀ position index, early.Settled position index → late.Settled position index

theorem keeps_of_prefix {first : Table τ} {records : List (List UInt32)}
    {order order' : List UInt32} {early late : Recording τ} (before : Orderly first records order early)
    (after : Orderly first records order' late) (grown : order <+: order')
    (leads : early.Leads late) : early.Keeps late where
  held_once := by
    intro thread thread' w w' index index' slot here there mine yours
    have place := before.slots.held w (List.mem_of_getElem? here) index slot mine
    have place' := after.slots.held w' (List.mem_of_getElem? there) index' slot yours
    have same : index = index' := by
      obtain ⟨inside, value⟩ := List.getElem?_eq_some_iff.mp place
      have later := List.prefix_iff_getElem?.mp grown slot.toNat inside
      rw [value, place'] at later
      exact (Option.some.inj later).symm
    refine ⟨?_, same⟩
    obtain ⟨inside, rfl⟩ := List.getElem?_eq_some_iff.mp here
    have inside' := leads.won.length_eq ▸ inside
    have kept : early.writers[thread].won <+: late.writers[thread].won := leads.won.get inside inside'
    refine thread_unique after.won.nodup (List.getElem?_eq_getElem inside') there index ?_ ?_
    · apply kept.subset
      rw [Writer.won, mine]
      exact List.mem_append_right _ (List.mem_singleton_self index)
    · rw [Writer.won, yours, same]
      exact List.mem_append_right _ (List.mem_singleton_self index')
  settled := leads.settled

/-! ## At the end -/

/-- What a race of threads that were to record the given lists has come to. -/
structure Joined (first : Table τ) (records : List (List UInt32)) (race : Recording τ) : Prop where
  entries_nodup : race.recorder.journal.entries.Nodup
  entries_perm : race.recorder.journal.entries.Perm race.winners
  mem_entries : ∀ index, index ∈ race.recorder.journal.entries ↔
    ∃ indices ∈ records, index ∈ courseWithin race.recorder.failed.capacity indices
  bit_iff : ∀ i, race.recorder.failed.bit i = true ↔
    ∃ index ∈ race.recorder.journal.entries, index.toNat = i
  /-- The regions that a thread has won are listed in the order in which it recorded them. -/
  program : ∀ w ∈ race.writers, w.winners.Sublist race.recorder.journal.entries
  courses : race.writers.map (fun w => w.answers.map (·.1)) =
    records.map (courseWithin race.recorder.failed.capacity)
  stops : race.writers.map Writer.stop = records.map (faultBeyond race.recorder.failed.capacity)
  layout : race.table.layout = first.layout
  told : ∀ position, race.table.heap.regions[position]? =
    (first.heap.regions[position]?).map
      (Region.noted · (race.recorder.journal.entries.countP (first.places position)))

omit [Layout τ] in
/-- Once nobody is about to store, the entries are the order in which the slots were taken. -/
theorem Slots.entries_eq {order : List UInt32} {race : Recording τ} (h : race.Slots order)
    (claims : race.Claims) (stored : ∀ w ∈ race.writers, ∀ index slot, w.stage ≠ .storing index slot) :
    race.recorder.journal.entries = order := by
  have room : race.recorder.journal.slots.size = race.recorder.failed.capacity := claims.room
  have within : order.length ≤ race.recorder.failed.capacity :=
    Nat.le_trans h.length_le claims.length_won_le
  apply List.ext_getElem?
  intro position
  unfold Journal.entries
  rw [List.getElem?_take, ← h.length]
  split
  · next inside =>
    rw [List.getElem?_eq_getElem inside, Array.getElem?_toList]
    obtain done | ⟨w, member, slot, storing, _⟩ :=
      h.stored position _ (List.getElem?_eq_getElem inside)
    · exact done
    · exact absurd storing (stored w member _ slot)
  · next beyond => exact (List.getElem?_eq_none (Nat.le_of_not_lt beyond)).symm

section End

variable {first : Table τ} {records : List (List UInt32)} {order : List UInt32} {race : Recording τ}

/-- At the end, every thread is between two recordings or has found no region to tell. -/
theorem Orderly.at_rest (h : Orderly first records order race) (finished : race.finished = true)
    {w : Writer} (member : w ∈ race.writers) :
    w.stage = .ready ∨ ∃ index fault, w.stage = .noting index ∧ w.stop = some fault ∧
      (first.note index).1 = .error fault := by
  obtain ⟨_, _, follows⟩ := exists_task h.follows member
  exact follows.stage_of_finished (List.all_eq_true.mp finished w member)

theorem Orderly.entries_eq (h : Orderly first records order race) (finished : race.finished = true) :
    race.recorder.journal.entries = order := by
  refine h.slots.entries_eq h.toClaims fun w member index slot storing => ?_
  obtain ready | ⟨_, _, noting, _⟩ := h.at_rest finished member
  · cases ready.symm.trans storing
  · cases noting.symm.trans storing

/-- At the end, a slot is reserved for every claim that was won. -/
theorem Orderly.won_eq (h : Orderly first records order race) (finished : race.finished = true) :
    race.won = race.listed := by
  refine List.flatMap_congr fun w member => ?_
  obtain ready | ⟨_, _, noting, _⟩ := h.at_rest finished member
  · rw [Writer.won_of_ready ready, Writer.listed_of_ready ready]
  · rw [Writer.won, Writer.listed, noting, Stage.won, Stage.listed]

/-- A race that has come to its end leaves claims and journal linked. -/
theorem Orderly.linked (h : Orderly first records order race) (finished : race.finished = true) :
    race.recorder.Linked where
  toSized := h.toSized
  reserved := by
    have room : race.recorder.journal.capacity = race.recorder.failed.capacity := h.room
    rw [room, ← h.slots.length]
    exact Nat.le_trans h.slots.length_le h.length_won_le
  listed := by
    refine h.won.of_perm ?_
    rw [h.won_eq finished, h.entries_eq finished]
    exact h.slots.perm.symm

section Resolves

variable (resolves : ∀ index : UInt32, index.toNat < race.recorder.failed.capacity →
  first.Resolves index)
include resolves

theorem Orderly.ready (h : Orderly first records order race) (finished : race.finished = true) :
    ∀ w ∈ race.writers, w.stage = .ready := by
  intro w member
  obtain ⟨_, _, follows⟩ := exists_task h.follows member
  exact follows.ready_of_finished resolves (List.all_eq_true.mp finished w member)

theorem Orderly.entries_perm (h : Orderly first records order race) (finished : race.finished = true) :
    race.recorder.journal.entries.Perm race.winners := by
  have listed : race.listed = race.winners := List.flatMap_congr fun w member =>
    Writer.listed_of_ready (h.ready resolves finished w member)
  rw [h.entries_eq finished, ← listed]
  exact h.slots.perm

theorem Orderly.joined (h : Orderly first records order race) (finished : race.finished = true) :
    race.Joined first records := by
  have each : ∀ w ∈ race.writers, w.finished = true := List.all_eq_true.mp finished
  have ready := h.ready resolves finished
  have perm := h.entries_perm resolves finished
  have enumerated := (h.linked finished).listed
  obtain ⟨told, same, telling⟩ := h.told
  refine ⟨enumerated.nodup, perm, ?_, enumerated.bit_iff h.wellFormed (Nat.le_of_lt h.narrow),
    ?_, ?_, ?_, ?_, ?_⟩
  · intro index
    rw [h.entries_eq finished, h.slots.perm.mem_iff, ← h.won_eq finished, h.mem_won_iff]
    constructor
    · intro member
      obtain ⟨w, found, tried⟩ := List.mem_flatMap.mp member
      obtain ⟨indices, task, follows⟩ := exists_task h.follows found
      rw [follows.tried_of_finished resolves (each w found)] at tried
      exact ⟨indices, task, tried⟩
    · rintro ⟨indices, task, member⟩
      obtain ⟨w, found, follows⟩ := exists_thread h.follows task
      rw [← follows.tried_of_finished resolves (each w found)] at member
      exact List.mem_flatMap.mpr ⟨w, found, member⟩
  · intro w member
    have program := h.slots.program w member
    rw [h.entries_eq finished, ← Writer.listed_of_ready (ready w member)]
    exact program
  · refine map_eq_of_forall₂ h.follows fun indices w member follows => ?_
    rw [← Writer.tried_of_ready (ready w member), follows.tried_of_finished resolves (each w member)]
  · exact map_eq_of_forall₂ h.follows fun indices w member follows =>
      follows.stop_of_finished resolves (each w member)
  · rw [same, Table.layout_tell]
  · intro position
    rw [same, Table.getElem?_tell, (telling.trans perm.symm).countP_eq]

end Resolves

end End

/-! ## Every interleaving -/

/-- What a race that has come to this moment grants. -/
structure Elects (profile : Profile) (first : Table τ) (records : List (List UInt32))
    (race : Recording τ) : Prop where
  exclusive : race.Exclusive
  keeps : ∀ later, race.Keeps (race.run profile later)
  joined : race.finished = true → race.Joined first records

/-- In every interleaving each region has one winner, who lists it once and tells it once. -/
theorem elects_run_start {r : Recorder} {table : Table τ} (opened : r.Opened)
    (resolves : ∀ index : UInt32, index.toNat < r.failed.capacity → table.Resolves index)
    (profile : Profile) (records : List (List UInt32)) (schedule : List Nat) :
    ((start r table records).run profile schedule).Elects profile table records := by
  obtain ⟨order, _, orderly, leads⟩ := (orderly_start opened table records).run profile schedule
  have found : ∀ index : UInt32, index.toNat <
      ((start r table records).run profile schedule).recorder.failed.capacity →
      table.Resolves index := by
    rw [leads.capacity]
    exact resolves
  refine ⟨orderly.exclusive found, ?_, orderly.joined found⟩
  intro later
  obtain ⟨order', grown, orderly', leads⟩ := orderly.run profile later
  exact keeps_of_prefix orderly orderly' grown leads

/-- Two threads race for region 1 in the first pause of a heap of three regions. -/
theorem elects_two_threads :
    let opened := ((Recorder.ofSize 3).beginPause .debug 3 3 .zero).state.1
    let race := (start opened (Table.ofSize 3) [[0, 1], [1, 7, 2]]).run .debug
      [1, 0, 0, 1, 1, 0, 1, 1, 0, 0]
    opened.Opened ∧ (∀ index : UInt32, index.toNat < 3 → (Table.ofSize 3).Resolves index) ∧
      race.Elects .debug (Table.ofSize 3) [[0, 1], [1, 7, 2]] ∧ race.finished = true := by
  have begun : ((Recorder.ofSize 3).beginPause .debug 3 3 .zero).result = .ok () := rfl
  have opened := (Recorder.blank_ofSize 3).linked.opened begun
  have resolves (index : UInt32) (inside : index.toNat < 3) : (Table.ofSize 3).Resolves index :=
    Table.resolves_ofSize inside
  exact ⟨opened, resolves, elects_run_start opened resolves .debug _ _, by decide +kernel⟩

end Recording

end Evacuation.Race
