import LoginServerChat.QueuesRun

/-!
`CLockFreeQueue` loses no value and gives none out twice, whatever a read through a stale pointer returns.
A value may wait for a thread that has not linked its node; when nobody is in a call, the chain behind
`_head` has them all.
-/

namespace LoginServerChat.QueuesKeep

open FifoHistory LinkedChain Queues QueuesInv QueuesStep QueuesValues QueuesRun Runs

variable {ι α τ : Type*}

/-- Behind node `a` are the nodes of `l`, and then the mark of queue `q`. -/
def Leads (m : Mem ι α) (q : ι) : Node ι → List (Node ι) → Prop
  | a, [] => m.next a = .mark q
  | a, b :: l => m.next a = .node b ∧ Leads m q b l

/-- No `Enqueue` or `Dequeue` on queue `q` is in progress. -/
def Quiet (s : State τ ι α) (q : ι) : Prop := ∀ t, s.on t = some q → s.pc t = .idle

instance [Fintype τ] [DecidableEq ι] [DecidableEq α] (s : State τ ι α) (q : ι) : Decidable (Quiet s q) :=
  inferInstanceAs (Decidable (∀ t, s.on t = some q → s.pc t = .idle))

/-- What is said of a queue in every state. -/
structure Intact (s : State τ ι α) (q : ι) : Prop where
  /-- A `Dequeue` returns a value that was enqueued, -/
  enqueued : ∀ x ∈ takes (s.log q), .call x ∈ s.log q
  /-- and no two return the same. -/
  once : (takes (s.log q)).Nodup
  /-- Behind `_head` is a chain without a cycle, and `_tail` is in it. -/
  chain : ∃ a l, (s.mem.head q).word = .node a ∧ Leads s.mem q a l ∧ (a :: l).Nodup ∧
    (∃ b ∈ a :: l, (s.mem.tail q).word = .node b) ∧
    -- and it has the values that are not yet returned
    (Quiet s q → (l.map s.mem.data).Nodup ∧
      ∀ x, x ∈ l.map s.mem.data ↔ .call x ∈ s.log q ∧ x ∉ takes (s.log q))

variable {s : State τ ι α} {g : Layout τ ι} {q : ι} {a : Node ι} {l : List (Node ι)}

lemma leads_of_line (h : Line (word q) s.mem.next (a :: l)) : Leads s.mem q a l := by
  induction l generalizing a with
  | nil => exact h.1
  | cons b l ih => exact ⟨h.1, ih h.2⟩

variable [DecidableEq ι]

/-- A queue on which nobody is in a call has all of its values. -/
lemma pending_quiet (hS : Shape s g) (h : Quiet s q) (t : τ) : pending s g q t = [] := by
  unfold pending
  split
  next hon =>
    have hp := h t hon
    rw [side_nil hS (by rw [hp]; rfl), hp]
    rfl
  next => rfl

variable [DecidableEq α] [Fintype τ]

lemma intact_of_kept (hK : Kept s g) (q : ι) : Intact s q := by
  have hle : ∀ x, (takes (s.log q)).count x ≤ (s.log q).count (.call x) := by
    intro x
    have := hK.stock.count q x
    omega
  obtain ⟨a, l, hl, ha⟩ := hK.head q
  have hvalues : values s g q = l.map s.mem.data := by rw [values, hl, List.tail_cons]
  refine ⟨fun x hx => ?_, ?_, a, l, ha, ?_, ?_, ?_, fun hq => ?_⟩
  · have hpos := List.count_pos_iff.mpr hx
    exact List.count_pos_iff.mp (hpos.trans_le (hle x))
  · exact List.nodup_iff_count_le_one.mpr fun x => (hle x).trans (hK.stock.once q x)
  · exact leads_of_line (hl ▸ hK.line q)
  · exact hl ▸ hK.mains.nodup q
  · exact hl ▸ hK.tail q
  · have hcount : ∀ x, (s.log q).count (.call x) =
        (takes (s.log q)).count x + (l.map s.mem.data).count x := by
      intro x
      have hzero : ∑ t, (pending s g q t).count x = 0 :=
        Finset.sum_eq_zero fun t _ => by rw [pending_quiet hK.toShape hq t]; rfl
      rw [hK.stock.count q x, hzero, hvalues]
      omega
    refine ⟨List.nodup_iff_count_le_one.mpr fun x => ?_, fun x => ?_⟩
    · have := hK.stock.once q x
      have := hcount x
      omega
    · have hone := hK.stock.once q x
      have hc := hcount x
      rw [← List.count_pos_iff, ← List.count_pos_iff, ← List.count_eq_zero]
      omega

variable [DecidableEq τ] {next : Node ι → Word ι} {data : Node ι → Item α}

/-- **Nothing is lost, nothing is duplicated.** In every run in which fewer than `2 ^ 17` changes of
`_head` or `_tail` lie between a load and its compare-exchange. -/
theorem queue_intact (h : Reach qstep timely (construct next data) s) (q : ι) : Intact s q := by
  obtain ⟨g, hK⟩ := reach_kept (fun _ _ _ hK hon ho => noAlias_of_timely hK hon ho) h
  exact intact_of_kept hK q

/-! ### A run -/

abbrev Trace (n m : ℕ) := List (Action (Fin n) (Fin m) ℕ)

variable {n m : ℕ}

def ticks (t : Fin n) (q : Fin m) (k : ℕ) : Trace n m := List.replicate k (t, q, .tick)

/-- The first steps of an `Enqueue` that is given node `a`. -/
def enqueue (t : Fin n) (q : Fin m) (v a k : ℕ) : Trace n m :=
  [(t, q, .enqueue v), (t, q, .node a)] ++ ticks t q k

def dequeue (t : Fin n) (q : Fin m) (k : ℕ) : Trace n m := (t, q, .dequeue) :: ticks t q k

/-- Queues in memory that was never used. -/
def empty (n m : ℕ) : State (Fin n) (Fin m) ℕ := construct (fun _ => .other 0) fun _ => (0, 0)

lemma reach_timely (l : Trace n m) {p : State (Fin n) (Fin m) ℕ → Bool}
    (h : (run qstep (fun s e => decide (timely s e)) (empty n m) l).map p = some true) :
    ∃ s, Reach qstep timely (empty n m) s ∧ p s = true :=
  reach_of_run (fun _ _ => of_decide_eq_true) l h

/-- Thread 0 has loaded `_tail` when its node is taken, freed and allocated by thread 1, reads a word of
its own there, and links its node behind that of thread 1. -/
def astray : Trace 2 1 :=
  enqueue 1 0 10 1 7 ++ dequeue 1 0 8 ++ enqueue 0 0 20 5 3 ++ enqueue 1 0 11 2 7 ++ dequeue 1 0 8 ++
    enqueue 1 0 30 1 2 ++ [(0, 0, .staleWord (.mark 0))] ++ ticks 0 0 3 ++ enqueue 0 0 40 3 7 ++ ticks 1 0 5

theorem queue_intact_astray : ∃ s, Reach qstep timely (empty 2 1) s ∧ Quiet s 0 ∧
    takes (s.log 0) = [(10, 0), (11, 2)] ∧ s.mem.size 0 = 3 ∧ Intact s 0 := by
  obtain ⟨s, hr, hp⟩ := reach_timely astray
    (p := fun s => decide (Quiet s 0 ∧ takes (s.log 0) = [(10, 0), (11, 2)] ∧ s.mem.size 0 = 3)) (by decide +kernel)
  obtain ⟨h1, h2, h3⟩ := of_decide_eq_true hp
  exact ⟨s, hr, h1, h2, h3, queue_intact hr 0⟩

end LoginServerChat.QueuesKeep
