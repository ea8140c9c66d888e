import LoginServerChat.QueuesKeep

/-!
What `CLockFreeQueue` takes for the address of a node. A queue compares a `next` with its own mark only,
and a node that it has freed may have become the last of another queue: `Dequeue` then finds the mark of
that queue behind its `bkHead` and takes it for the next node.
-/

namespace LoginServerChat.QueuesMarks

open FifoHistory Queues QueuesInv QueuesStep QueuesRun QueuesKeep Runs

variable {ι α τ : Type*}

/-- The word that is dereferenced as a node in the step from a point. -/
def derefs : Pc ι α → Option (Word ι)
  | .loadNext _ _ b | .link _ _ b | .loadHeadNext b | .loadTailNext _ _ b => some b.word
  | .readData _ y => some y
  | _ => none

/-- Only the addresses of nodes are dereferenced. -/
def MarkerSafe (s : State τ ι α) : Prop := ∀ t w, derefs (s.pc t) = some w → ∃ n, w = .node n

/-- A read finds what the memory holds. -/
def actual : Choice ι α → Prop
  | .staleWord _ | .staleItem _ => False
  | _ => True

instance (c : Choice ι α) : Decidable (actual c) := by
  cases c <;> first | exact instDecidableTrue | exact instDecidableFalse

/-- The runs in which reads find what the memory holds. -/
def plain (_ : State τ ι α) (e : Action τ ι α) : Prop := actual e.2.2

instance (s : State τ ι α) (e : Action τ ι α) : Decidable (plain s e) := inferInstanceAs (Decidable (actual _))

/-- The mark of another queue. -/
def foreign (q : ι) : Word ι → Prop
  | .mark r => r ≠ q
  | _ => False

/-- The `next` of a node is one. -/
def strayed (m : Mem ι α) (q : ι) : Word ι → Prop
  | .node a => foreign q (m.next a)
  | _ => False

/-- `Dequeue` is about to read `bkRealHead->next`, and that is the mark of another queue. -/
def misled (m : Mem ι α) (q : ι) : Pc ι α → Prop
  | .loadHeadNext b => strayed m q b.word
  | _ => False

section

variable [DecidableEq ι]

instance (q : ι) (w : Word ι) : Decidable (foreign q w) := by
  cases w <;> first | exact inferInstanceAs (Decidable (_ ≠ _)) | exact instDecidableFalse

instance (m : Mem ι α) (q : ι) (w : Word ι) : Decidable (strayed m q w) := by
  cases w <;> first | exact inferInstanceAs (Decidable (foreign _ _)) | exact instDecidableFalse

instance (m : Mem ι α) (q : ι) : (p : Pc ι α) → Decidable (misled m q p)
  | .loadHeadNext b => inferInstanceAs (Decidable (strayed m q b.word))
  | .idle | .alloc _ | .setData .. | .setNext .. | .loadTail .. | .loadNext .. | .link .. | .help ..
  | .swing .. | .incSize _ | .decSize | .undo | .loadHead | .recheck _ | .loadDeqTail ..
  | .loadTailNext .. | .helpDeq .. | .readData .. | .takeHead .. | .freeHead _ => instDecidableFalse

/-- The runs, besides, in which no compare-exchange succeeds after a change, and `Dequeue` is not misled. -/
def guided (s : State τ ι α) (e : Action τ ι α) : Prop :=
  plain s e ∧ noAlias s.mem e.2.1 (s.pc e.1) ∧ ¬misled s.mem e.2.1 (s.pc e.1)

instance (s : State τ ι α) (e : Action τ ι α) : Decidable (guided s e) :=
  inferInstanceAs (Decidable (plain _ _ ∧ noAlias _ _ _ ∧ ¬misled _ _ _))

end

/-! ### The invariant -/

/-- What `Dequeue` has read behind `bkHead`. -/
def behindHead : Pc ι α → Option (Word ι)
  | .loadDeqTail _ y | .loadTailNext _ y _ | .readData _ y => some y
  | _ => none

/-- A thread in a call is on a queue, and what it has read behind `bkHead` is a node. -/
structure Guided (s : State τ ι α) : Prop where
  on : ∀ t, s.pc t ≠ .idle → ∃ q, s.on t = some q
  node : ∀ t w, behindHead (s.pc t) = some w → ∃ n, w = .node n

variable {s : State τ ι α} {g : Layout τ ι} {t : τ} {q : ι} {m' : Mem ι α} {p p' : Pc ι α}
  {ev : List (Event (Item α))} {c : Choice ι α} {b r : Ptr ι} {w : Word ι} {a : Node ι}

lemma readNext_actual {m : Mem ι α} (hc : actual c) (ha : b.word = .node a) (h : readNext m b r c = some w) :
    w = m.next a := by
  cases c with
  | tick =>
    rw [readNext, ha] at h
    exact (Option.some.inj h).symm
  | staleWord v => exact hc.elim
  | enqueue v => cases h
  | dequeue => cases h
  | node k => cases h
  | staleItem v => exact hc.elim

/-- The `next` of a node that is not misleading. -/
lemma node_of_sound (h : Sound s g a) (hown : s.mem.next a ≠ .mark q) (hnot : ¬foreign q (s.mem.next a)) :
    ∃ n, s.mem.next a = .node n := by
  unfold Sound at h
  cases hw : s.mem.next a with
  | node n => exact ⟨n, rfl⟩
  | mark r =>
    rw [hw] at hown hnot
    exact absurd (fun he : r = q => hown (by rw [he])) hnot
  | other v =>
    rw [hw] at h
    exact h.elim

variable [DecidableEq ι]

/-- What a step puts there. -/
lemma tstep_behind (hat : At s g q p) (hc : actual c) (hnot : ¬misled s.mem q p)
    (h : tstep s.mem q p c = some (m', p', ev)) (hw : behindHead p' = some w) :
    behindHead p = some w ∨ ∃ n, w = .node n := by
  revert h
  fun_cases tstep s.mem q p c
  all_goals intro h
  case case19 b =>
    obtain ⟨v, hread, h⟩ := Option.map_eq_some_iff.mp h
    obtain ⟨-, a, ha, hsound⟩ := hat
    obtain rfl := readNext_actual hc ha hread
    split at h
    · obtain ⟨rfl, rfl, rfl⟩ := h
      cases hw
    · next hne =>
      obtain ⟨rfl, rfl, rfl⟩ := h
      obtain rfl := Option.some.inj hw
      change ¬strayed s.mem q b.word at hnot
      rw [ha] at hnot
      exact .inr (node_of_sound hsound hne hnot)
  case case23 b y bt =>
    obtain ⟨v, -, h⟩ := Option.map_eq_some_iff.mp h
    split at h
    · obtain ⟨rfl, rfl, rfl⟩ := h
      exact .inl hw
    · obtain ⟨rfl, rfl, rfl⟩ := h
      cases hw
  case case8 n x b =>
    obtain ⟨v, -, h⟩ := Option.map_eq_some_iff.mp h
    split at h
    all_goals
      obtain ⟨rfl, rfl, rfl⟩ := h
      cases hw
  case case25 b y =>
    obtain ⟨x, -, h⟩ := Option.map_eq_some_iff.mp h
    obtain ⟨rfl, rfl, rfl⟩ := h
    cases hw
  case case28 v =>
    obtain ⟨m, -, h⟩ := Option.map_eq_some_iff.mp h
    obtain ⟨rfl, rfl, rfl⟩ := h
    cases hw
  all_goals simp only [Option.some.injEq, Prod.mk.injEq, reduceCtorEq] at h
  all_goals obtain ⟨rfl, rfl, rfl⟩ := h
  case case22 b y => exact .inl hw
  all_goals cases hw

variable [DecidableEq τ]

lemma guided_after (hG : Guided s) (hp' : ∀ w, behindHead p' = some w → ∃ n, w = .node n) :
    Guided (after s t q m' p' ev) := by
  refine ⟨fun u hu => ?_, fun u w hw => ?_⟩
  · by_cases hut : u = t
    · exact ⟨q, by rw [hut, on_self]⟩
    · rw [pc_other hut] at hu
      rw [on_other hut]
      exact hG.on u hu
  · by_cases hut : u = t
    · rw [hut, pc_self] at hw
      exact hp' w hw
    · rw [pc_other hut] at hw
      exact hG.node u w hw

variable [DecidableEq α] [Fintype τ] {next : Node ι → Word ι} {data : Node ι → Item α}

lemma reach_guided (h : Reach qstep guided (construct next data) s) : (∃ g, Kept s g) ∧ Guided s := by
  induction h with
  | init => exact ⟨⟨_, construct_kept next data⟩, fun t h => absurd rfl h, fun t w h => nomatch h⟩
  | @step s s' e _ ho hs ih =>
    obtain ⟨⟨g, hK⟩, hG⟩ := ih
    obtain ⟨hplain, halias, hnot⟩ := ho
    obtain ⟨hon, m', p', ev, ht, rfl⟩ := qstep_eq hs
    refine ⟨tstep_kept hK hon rfl halias ht, guided_after hG fun w hw => ?_⟩
    have hat : At s g e.2.1 (s.pc e.1) := by
      rcases hon with hp | hon
      · rw [hp]
        trivial
      · exact hK.at' e.1 e.2.1 hon
    exact (tstep_behind hat hplain hnot ht hw).elim (hG.node e.1 w) id

/-- **Only nodes are dereferenced** in the runs in which no compare-exchange succeeds after a change and
`Dequeue` does not find the mark of another queue behind its `bkHead`. -/
theorem marker_safe (h : Reach qstep guided (construct next data) s) : MarkerSafe s := by
  obtain ⟨⟨g, hK⟩, hG⟩ := reach_guided h
  intro t w hw
  obtain ⟨q, hq⟩ := hG.on t fun hp => nomatch (hp ▸ hw : derefs (.idle : Pc ι α) = some w)
  have hat := hK.at' t q hq
  cases hp : s.pc t
  case loadNext n x b =>
    rw [hp] at hat hw
    obtain ⟨-, -, a, ha, -⟩ := hat
    exact ⟨a, (Option.some.inj hw).symm.trans ha⟩
  case link n x b =>
    rw [hp] at hat hw
    obtain ⟨-, -, a, ha, -⟩ := hat
    exact ⟨a, (Option.some.inj hw).symm.trans ha⟩
  case loadHeadNext b =>
    rw [hp] at hat hw
    obtain ⟨-, a, ha, -⟩ := hat
    exact ⟨a, (Option.some.inj hw).symm.trans ha⟩
  case loadTailNext b y bt =>
    rw [hp] at hat hw
    obtain ⟨-, ⟨-, a, ha, -⟩, -⟩ := hat
    exact ⟨a, (Option.some.inj hw).symm.trans ha⟩
  case readData b y =>
    rw [hp] at hw
    exact hG.node t w (by rw [hp]; exact hw)
  all_goals
    rw [hp] at hw
    exact nomatch hw

/-! ### Two queues -/

variable {n m : ℕ}

/-- A run that can be evaluated. -/
lemma reach_allowed (ok : State (Fin n) (Fin m) ℕ → Action (Fin n) (Fin m) ℕ → Prop) [∀ s e, Decidable (ok s e)]
    (l : Trace n m) {p : State (Fin n) (Fin m) ℕ → Bool}
    (h : (run qstep (fun s e => decide (ok s e)) (empty n m) l).map p = some true) :
    ∃ s, Reach qstep ok (empty n m) s ∧ p s = true :=
  reach_of_run (fun _ _ => of_decide_eq_true) l h

/-- Thread 0 has loaded `_head` of queue 0, node 0. Thread 1 takes that node, frees it, and is given it for
queue 1, up to the step after `k` others. -/
def lured (k : ℕ) : Trace 2 2 :=
  enqueue 1 0 10 0 7 ++ enqueue 1 0 11 1 7 ++ enqueue 1 0 12 2 7 ++ dequeue 1 0 8 ++ dequeue 0 0 2 ++
    dequeue 1 0 8 ++ enqueue 1 1 20 0 k ++ ticks 0 0 3

/-- The node is given to queue 1, but its `next` is still what it was when queue 0 freed it. -/
theorem marker_safe_lured : ∃ s, Reach qstep guided (empty 2 2) s ∧
    s.pc 0 = .readData ⟨.node (.pool 0), 1⟩ (.node (.pool 1)) ∧ MarkerSafe s := by
  obtain ⟨s, hr, hp⟩ := reach_allowed guided (lured 1)
    (p := fun s => decide (s.pc 0 = .readData ⟨.node (.pool 0), 1⟩ (.node (.pool 1)))) (by decide +kernel)
  exact ⟨s, hr, of_decide_eq_true hp, marker_safe hr⟩

/-- Its `next` is the mark of queue 1, and thread 0 takes that for the next node of queue 0. -/
theorem marker_dereferenced : ¬∀ s, Reach qstep plain (empty 2 2) s → MarkerSafe s := by
  intro h
  obtain ⟨s, hr, hp⟩ := reach_allowed plain (lured 2)
    (p := fun s => decide (derefs (s.pc 0) = some (.mark 1))) (by decide +kernel)
  obtain ⟨k, hk⟩ := h s hr 0 (.mark 1) (of_decide_eq_true hp)
  exact nomatch hk

end LoginServerChat.QueuesMarks
