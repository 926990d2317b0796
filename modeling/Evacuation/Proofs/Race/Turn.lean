import Mathlib.Data.List.Forall2
import Mathlib.Data.List.Nodup

/-!
# Turns

When one thread of many takes its turn, one element of the list of threads is replaced and the others
stay where they are.  These lemmas carry over what is known of all threads, and of what all of them
together have collected.
-/

namespace Evacuation.Race

variable {α β : Type} {before after : List α} {x y : α}

/-- The thread whose turn it is stands between those before it and those after it. -/
theorem exists_turn {threads : List α} {thread : Nat} (found : threads[thread]? = some x) :
    ∃ before after, threads = before ++ x :: after ∧
      ∀ y, threads.set thread y = before ++ y :: after := by
  obtain ⟨inside, here⟩ := List.getElem?_eq_some_iff.mp found
  refine ⟨threads.take thread, threads.drop (thread + 1), ?_, ?_⟩
  · rw [← here, List.getElem_cons_drop, List.take_append_drop]
  · intro y
    exact List.set_eq_take_append_cons_drop.trans (if_pos inside)

theorem mem_turn : x ∈ before ++ x :: after :=
  List.mem_append_right before (List.mem_cons_self ..)

/-- A statement about all threads survives if it does for each, and holds of the one that moved. -/
theorem forall_mem_replace {P Q : α → Prop} (all : ∀ z ∈ before ++ x :: after, P z)
    (keep : ∀ z, P z → Q z) (new : Q y) : ∀ z ∈ before ++ y :: after, Q z := by
  intro z member
  rcases List.mem_append.mp member with early | late
  · exact keep z (all z (List.mem_append_left _ early))
  · rcases List.mem_cons.mp late with rfl | last
    · exact new
    · exact keep z (all z (List.mem_append_right _ (List.mem_cons_of_mem _ last)))

/-- A thread other than the one that moved is still there. -/
theorem mem_replace_of_ne {z : α} (ne : z ≠ x) (member : z ∈ before ++ x :: after) :
    z ∈ before ++ y :: after := by
  rcases List.mem_append.mp member with early | late
  · exact List.mem_append_left _ early
  · rcases List.mem_cons.mp late with same | last
    · exact absurd same ne
    · exact List.mem_append_right _ (List.mem_cons_of_mem _ last)

/-- A statement about each thread and its task survives if it does for the thread that moved. -/
theorem forall₂_replace {P : β → α → Prop} {tasks : List β}
    (all : List.Forall₂ P tasks (before ++ x :: after)) (new : ∀ task, P task x → P task y) :
    List.Forall₂ P tasks (before ++ y :: after) := by
  induction before generalizing tasks with
  | nil =>
      cases all with
      | cons head tail => exact .cons (new _ head) tail
  | cons first rest ih =>
      cases all with
      | cons head tail => exact .cons head (ih tail)

theorem exists_thread {P : β → α → Prop} {tasks : List β} {threads : List α}
    (all : List.Forall₂ P tasks threads) {task : β} (member : task ∈ tasks) :
    ∃ thread ∈ threads, P task thread := by
  induction all with
  | nil => cases member
  | cons head _ ih =>
      rcases List.mem_cons.mp member with rfl | later
      · exact ⟨_, List.mem_cons_self .., head⟩
      · obtain ⟨thread, found, holds⟩ := ih later
        exact ⟨thread, List.mem_cons_of_mem _ found, holds⟩

theorem exists_task {P : β → α → Prop} {tasks : List β} {threads : List α}
    (all : List.Forall₂ P tasks threads) {thread : α} (member : thread ∈ threads) :
    ∃ task ∈ tasks, P task thread :=
  exists_thread all.flip member

/-- What each thread shows is fixed by its task. -/
theorem map_eq_of_forall₂ {γ : Type} {P : β → α → Prop} {tasks : List β} {threads : List α}
    (all : List.Forall₂ P tasks threads) {shown : α → γ} {expected : β → γ}
    (same : ∀ task, ∀ thread ∈ threads, P task thread → shown thread = expected task) :
    threads.map shown = tasks.map expected := by
  induction all with
  | nil => rfl
  | cons head _ ih =>
      rw [List.map_cons, List.map_cons, same _ _ (List.mem_cons_self ..) head,
        ih fun task thread member => same task thread (List.mem_cons_of_mem _ member)]

/-- A move that collects nothing leaves the collection of all threads as it was. -/
theorem flatMap_replace {f : α → List β} (same : f y = f x) :
    (before ++ y :: after).flatMap f = (before ++ x :: after).flatMap f := by
  simp only [List.flatMap_append, List.flatMap_cons, same]

/-- What one thread collects is collected by all threads together. -/
theorem perm_flatMap_replace {f : α → List β} {item : β} (more : f y = f x ++ [item]) :
    ((before ++ x :: after).flatMap f ++ [item]).Perm ((before ++ y :: after).flatMap f) := by
  simp only [List.flatMap_append, List.flatMap_cons, more, List.append_assoc]
  exact (List.perm_append_comm.append_left (f x)).append_left (before.flatMap f)

/-- If nothing is collected twice, an item tells which thread has collected it. -/
theorem thread_unique {f : α → List β} {threads : List α} (distinct : (threads.flatMap f).Nodup)
    {i j : Nat} (here : threads[i]? = some x) (there : threads[j]? = some y) (item : β)
    (mine : item ∈ f x) (yours : item ∈ f y) : i = j := by
  obtain ⟨inside, rfl⟩ := List.getElem?_eq_some_iff.mp here
  obtain ⟨inside', rfl⟩ := List.getElem?_eq_some_iff.mp there
  have apart := List.pairwise_iff_getElem.mp (List.nodup_flatMap.mp distinct).2
  rcases Nat.lt_trichotomy i j with less | same | more
  · exact absurd yours (apart i j inside inside' less mine)
  · exact same
  · exact absurd mine (apart j i inside' inside more yours)

end Evacuation.Race
