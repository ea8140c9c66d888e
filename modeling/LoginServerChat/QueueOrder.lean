import LoginServerChat.QueueRun

/-!
The order of `CLockFreeQueue`. The compare-exchange that links a node works on the `next` of a
node that was `_tail` when it was loaded. By the time it is made that node may have been taken,
freed and allocated again for another `Enqueue`, whose store of `_myCode` makes it succeed: the
value then waits behind a node that is not in the queue, while its `Enqueue` returns.
-/

namespace LoginServerChat.QueueOrder

open FifoHistory LockFreeQueue QueueInv QueueRun Runs

variable {α τ : Type*} [DecidableEq τ] [Fintype τ] {s : Queue τ α} {d : ℕ} {next : ℕ → Option ℕ}
  {data : ℕ → Item α}

/-- What is enqueued after another `Enqueue` has returned is dequeued after its value. -/
def Fifo (log : List (Event (Item α))) : Prop :=
  ∀ a b, [Event.ret a, Event.call b].Sublist log → .take b ∈ log →
    [Event.take a, Event.take b].Sublist log

/-- **First in, first out.** In every run in which no `Enqueue` links to a node that another has
allocated and not linked. -/
theorem queue_fifo (h : Reach qstep sane (construct d next data) s) : Fifo s.log := by
  obtain ⟨c, e, hI⟩ := reach_inv h
  intro a b hab hb
  exact run_fifo hI.run hab hb

/-! ### Runs of three threads -/

abbrev Trace := List (Fin 3 × Choice ℕ)

def ticks (t : Fin 3) (k : ℕ) : Trace := List.replicate k (t, .tick)

/-- The first steps of an `Enqueue` that is given node `n`. -/
def enqueue (t : Fin 3) (v n k : ℕ) : Trace := [(t, .enqueue v), (t, .node n)] ++ ticks t k

def dequeue (t : Fin 3) (k : ℕ) : Trace := (t, .dequeue) :: ticks t k

def empty : Queue (Fin 3) ℕ := construct 0 (fun _ => none) fun _ => (0, 0)

lemma reach_sane (l : Trace) {p : Queue (Fin 3) ℕ → Bool}
    (h : (run qstep (fun s a => decide (sane s a)) empty l).map p = some true) :
    ∃ s, Reach qstep sane empty s ∧ p s = true :=
  reach_of_run (fun _ _ h => of_decide_eq_true h) l h

lemma reach_timely (l : Trace) {p : Queue (Fin 3) ℕ → Bool}
    (h : (run qstep (fun s a => decide (timely s a)) empty l).map p = some true) :
    ∃ s, Reach qstep timely empty s ∧ p s = true :=
  reach_of_run (fun _ _ h => of_decide_eq_true h) l h

/-- Two values of one thread. -/
theorem queue_fifo_two : ∃ s, Reach qstep sane empty s ∧
    s.log = [.call (10, 0), .ret (10, 0), .call (11, 1), .ret (11, 1), .take (10, 0), .take (11, 1)] ∧
    Fifo s.log := by
  obtain ⟨s, hr, hp⟩ := reach_sane (enqueue 1 10 1 7 ++ enqueue 1 11 2 7 ++ dequeue 2 8 ++ dequeue 0 8)
    (p := fun s => decide (s.log = [.call (10, 0), .ret (10, 0), .call (11, 1), .ret (11, 1),
      .take (10, 0), .take (11, 1)])) (by decide +kernel)
  exact ⟨s, hr, of_decide_eq_true hp, queue_fifo hr⟩

/-- Thread 0 has loaded `_tail`, node 1, and read its `next`; thread 1 then takes that node, frees
it, is given it again for its next value and prepares it, and thread 0 links to it. -/
def misplaced : Trace :=
  enqueue 1 10 1 7 ++ dequeue 1 8 ++ enqueue 0 20 5 4 ++ enqueue 1 11 2 7 ++ dequeue 1 8 ++
    enqueue 1 30 1 2 ++ ticks 0 3

/-- The next value of thread 0 is dequeued, and the first is not. -/
theorem queue_overtaken : ¬∀ s, Reach qstep timely empty s → Fifo s.log := by
  intro h
  obtain ⟨s, hr, hp⟩ := reach_timely (misplaced ++ enqueue 0 40 3 7 ++ ticks 1 5 ++ dequeue 2 13)
    (p := fun s => decide ([Event.ret (20, 1), Event.call (40, 4)].Sublist s.log ∧
      Event.take (40, 4) ∈ s.log ∧ Event.take (20, 1) ∉ s.log)) (by decide +kernel)
  obtain ⟨h1, h2, h3⟩ := of_decide_eq_true hp
  exact h3 ((h s hr (20, 1) (40, 4) h1 h2).subset List.mem_cons_self)

end LoginServerChat.QueueOrder
