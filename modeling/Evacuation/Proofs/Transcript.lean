import Mathlib.Data.List.Induction

/-!
# Transcripts

Whatever serves requests one at a time leaves a transcript: for each request the answer, and the
states before and after it.  What one request does to a history is lifted to all histories by
`Transcript.induction`; two services that agree until an answer stops them are compared by
`Transcript.takeWhile_prefix`.
-/

namespace Evacuation

structure Entry (σ ρ α : Type) where
  before : σ
  request : ρ
  answer : α
  after : σ

variable {σ ρ α : Type}

def Entry.of (serve : σ → ρ → α × σ) (s : σ) (request : ρ) : Entry σ ρ α :=
  ⟨s, request, (serve s request).1, (serve s request).2⟩

section EntryOf

variable (serve : σ → ρ → α × σ) (s : σ) (request : ρ)

@[simp] theorem Entry.before_of : (Entry.of serve s request).before = s := rfl

@[simp] theorem Entry.request_of : (Entry.of serve s request).request = request := rfl

@[simp] theorem Entry.answer_of : (Entry.of serve s request).answer = (serve s request).1 := rfl

@[simp] theorem Entry.after_of : (Entry.of serve s request).after = (serve s request).2 := rfl

end EntryOf

def Entry.mapAnswer (change : α → α) (entry : Entry σ ρ α) : Entry σ ρ α :=
  { entry with answer := change entry.answer }

/-- The entries of requests that are served one after another. -/
def transcript (serve : σ → ρ → α × σ) : σ → List ρ → List (Entry σ ρ α)
  | _, [] => []
  | s, request :: rest => Entry.of serve s request :: transcript serve (serve s request).2 rest

def finalState (serve : σ → ρ → α × σ) (s : σ) (requests : List ρ) : σ :=
  requests.foldl (fun s request => (serve s request).2) s

namespace Transcript

theorem finalState_concat (serve : σ → ρ → α × σ) (s : σ) (requests : List ρ) (request : ρ) :
    finalState serve s (requests ++ [request]) = (serve (finalState serve s requests) request).2 := by
  simp [finalState]

theorem transcript_append (serve : σ → ρ → α × σ) (s : σ) (first second : List ρ) :
    transcript serve s (first ++ second) =
      transcript serve s first ++ transcript serve (finalState serve s first) second := by
  induction first generalizing s with
  | nil => rfl
  | cons request rest ih => exact congrArg (_ :: ·) (ih (serve s request).2)

theorem transcript_concat (serve : σ → ρ → α × σ) (s : σ) (requests : List ρ) (request : ρ) :
    transcript serve s (requests ++ [request]) =
      transcript serve s requests ++ [Entry.of serve (finalState serve s requests) request] :=
  transcript_append serve s requests [request]

/-- What holds at the start and is kept by each further request holds of every transcript. -/
theorem induction (Holds : List (Entry σ ρ α) → σ → Prop) {serve : σ → ρ → α × σ} {s : σ}
    (start : Holds [] s)
    (step : ∀ log now request, Holds log now →
      Holds (log ++ [Entry.of serve now request]) (serve now request).2) (requests : List ρ) :
    Holds (transcript serve s requests) (finalState serve s requests) := by
  induction requests using List.reverseRecOn with
  | nil => exact start
  | append_singleton requests request ih =>
      rw [transcript_concat, finalState_concat]
      exact step _ _ request ih

/-- What holds at the start and is kept by each further request holds before every entry of a
transcript, of the entries before that one. -/
theorem holds_before (Holds : List (Entry σ ρ α) → σ → Prop) {serve : σ → ρ → α × σ} {s : σ}
    (start : Holds [] s)
    (step : ∀ log now request, Holds log now →
      Holds (log ++ [Entry.of serve now request]) (serve now request).2) {requests : List ρ}
    {earlier : List (Entry σ ρ α)} {entry : Entry σ ρ α}
    (reached : earlier ++ [entry] <+: transcript serve s requests) :
    ∃ now request, entry = Entry.of serve now request ∧ Holds earlier now := by
  induction requests using List.reverseRecOn with
  | nil => simp [transcript] at reached
  | append_singleton requests request ih =>
      rw [transcript_concat] at reached
      rcases List.prefix_concat_iff.mp reached with last | within
      · obtain ⟨rfl, rfl⟩ := List.append_singleton_inj.mp last
        exact ⟨_, request, rfl, induction Holds start step requests⟩
      · exact ih within

/-- What holds at the start and is kept by each further request holds before every entry of a
transcript, wherever it stands. -/
theorem holds_of_mem (Holds : List (Entry σ ρ α) → σ → Prop) {serve : σ → ρ → α × σ} {s : σ}
    (start : Holds [] s)
    (step : ∀ log now request, Holds log now →
      Holds (log ++ [Entry.of serve now request]) (serve now request).2) {requests : List ρ}
    {entry : Entry σ ρ α} (member : entry ∈ transcript serve s requests) :
    ∃ earlier now request, earlier ++ [entry] <+: transcript serve s requests ∧
      entry = Entry.of serve now request ∧ Holds earlier now := by
  obtain ⟨earlier, later, split⟩ := List.append_of_mem member
  have reached : earlier ++ [entry] <+: transcript serve s requests :=
    ⟨later, by rw [split, List.append_assoc, List.singleton_append]⟩
  obtain ⟨now, request, same, holds⟩ := holds_before Holds start step reached
  exact ⟨earlier, now, request, reached, same, holds⟩

/-- The sum of an amount over the entries that come after the last marked one. -/
def since {ε : Type} (marks : ε → Bool) (amount : ε → Nat) (log : List ε) : Nat :=
  log.foldl (fun total entry => if marks entry then 0 else total + amount entry) 0

theorem since_concat {ε : Type} (marks : ε → Bool) (amount : ε → Nat) (log : List ε) (entry : ε) :
    since marks amount (log ++ [entry]) =
      if marks entry then 0 else since marks amount log + amount entry := by
  simp [since]

/-- Services that agree on every request whose answer does not stop the first of them have the same
transcript up to the first answer that does. -/
theorem takeWhile_prefix (stops : α → Bool) {serve other : σ → ρ → α × σ}
    (agree : ∀ s request, stops (serve s request).1 = false → other s request = serve s request)
    (s : σ) (requests : List ρ) :
    (transcript serve s requests).takeWhile (fun entry => !stops entry.answer) <+:
      transcript other s requests := by
  induction requests generalizing s with
  | nil => exact List.nil_prefix
  | cons request rest ih =>
      cases stopped : stops (serve s request).1 with
      | true => simp [transcript, Entry.of, stopped]
      | false =>
          have same := agree s request stopped
          have first : Entry.of other s request = Entry.of serve s request := by
            rw [Entry.of, Entry.of, same]
          rw [transcript, transcript, first, same]
          simp only [Entry.of, List.takeWhile_cons, stopped, Bool.not_false, ↓reduceIte]
          exact List.cons_prefix_cons.mpr ⟨rfl, ih _⟩

/-- A transcript in which no answer stops the service is the transcript of every such other one. -/
theorem eq_of_unstopped (stops : α → Bool) {serve other : σ → ρ → α × σ}
    (agree : ∀ s request, stops (serve s request).1 = false → other s request = serve s request)
    {s : σ} {requests : List ρ}
    (unstopped : ∀ entry ∈ transcript serve s requests, stops entry.answer = false) :
    transcript other s requests = transcript serve s requests := by
  induction requests generalizing s with
  | nil => rfl
  | cons request rest ih =>
      have same := agree s request (unstopped _ List.mem_cons_self)
      have first : Entry.of other s request = Entry.of serve s request := by
        rw [Entry.of, Entry.of, same]
      have others := ih fun entry member => unstopped entry (List.mem_cons_of_mem _ member)
      rw [transcript, transcript, first, same, others]

/-- Services that differ only in how they word their answers have transcripts that differ only so. -/
theorem eq_map {serve other : σ → ρ → α × σ} {change : α → α}
    (agree : ∀ s request, other s request = (change (serve s request).1, (serve s request).2))
    (s : σ) (requests : List ρ) :
    transcript other s requests = (transcript serve s requests).map (Entry.mapAnswer change) := by
  induction requests generalizing s with
  | nil => rfl
  | cons request rest ih =>
      have first : Entry.of other s request = (Entry.of serve s request).mapAnswer change := by
        rw [Entry.of, agree]
        rfl
      rw [transcript, transcript, first, agree, ih, List.map_cons]

/-- An entry of a transcript is what the service makes of its request. -/
theorem eq_of_mem {serve : σ → ρ → α × σ} {s : σ} {requests : List ρ} {entry : Entry σ ρ α}
    (member : entry ∈ transcript serve s requests) :
    entry = Entry.of serve entry.before entry.request := by
  induction requests generalizing s with
  | nil => cases member
  | cons request rest ih =>
      rcases List.mem_cons.mp member with rfl | later
      · rfl
      · exact ih later

theorem request_mem {serve : σ → ρ → α × σ} {s : σ} {requests : List ρ} {entry : Entry σ ρ α}
    (member : entry ∈ transcript serve s requests) : entry.request ∈ requests := by
  induction requests generalizing s with
  | nil => cases member
  | cons request rest ih =>
      rcases List.mem_cons.mp member with rfl | later
      · exact List.mem_cons_self
      · exact List.mem_cons_of_mem _ (ih later)

end Transcript

end Evacuation
