import LoginServerChat.QueueOrder

/-!
The count of `CLockFreeQueue`. A `Dequeue` takes its share of `_size` before it looks for a value,
and gives up without returning it when it finds the queue empty; that happens when a value has
been counted that is not in the queue.
-/

namespace LoginServerChat.QueueCount

open FifoHistory LinkedChain LockFreeQueue QueueInv QueueStep QueueRun QueueOrder Runs

variable {α τ : Type*}

/-- How many calls of `Dequeue` have returned false. -/
def misses (log : List (Event (Item α))) : ℕ := log.countP fun e => match e with
  | .miss => true
  | _ => false

/-- No `Enqueue` or `Dequeue` is in progress. -/
def Idle (s : Queue τ α) : Prop := ∀ t, s.pc t = .idle

instance [Fintype τ] [DecidableEq α] (s : Queue τ α) : Decidable (Idle s) :=
  inferInstanceAs (Decidable (∀ t, s.pc t = .idle))

variable [DecidableEq τ] {s s' : Queue τ α} {t : τ} {c e : List ℕ}

/-- Runs in which nobody calls `Enqueue`. -/
def noEnqueue (s : Queue τ α) (a : τ × Choice α) : Prop := timely s a ∧ ∀ v, a.2 ≠ .enqueue v

/-- Runs in which thread `t` makes one call of `Dequeue` and nobody else does anything. -/
def alone (t : τ) (_ : Queue τ α) (a : τ × Choice α) : Prop := a = (t, .dequeue) ∨ a = (t, .tick)

/-- What `_size` says when nothing is in progress. -/
structure Counted (s : Queue τ α) : Prop where
  size : Idle s → getUseSize s = (rets s.log).length - (takes s.log).length
  /-- That many further calls of `Dequeue` succeed. -/
  further : Idle s → ∀ s', Reach qstep noEnqueue s s' → Idle s' →
    (takes s'.log).length = (takes s.log).length +
      min ((takes s'.log).length + misses s'.log - ((takes s.log).length + misses s.log))
        (getUseSize s).toNat
  /-- And a call returns. -/
  returns : Idle s → ∀ t, ∃ s', Reach qstep (alone t) s s' ∧ Idle s' ∧
    if 0 < getUseSize s then ∃ x, s'.log = s.log ++ [.take x] else s'.log = s.log ++ [.miss]

/-! ### The count -/

section Size

variable [Fintype τ]

omit [DecidableEq τ] in
lemma share_idle (h : Idle s) : ∑ t, share (s.pc t) = 0 :=
  Finset.sum_eq_zero fun t _ => by rw [h t]; rfl

omit [DecidableEq τ] in
lemma undoing_idle (h : Idle s) : ∑ t, undoing (s.pc t) = 0 :=
  Finset.sum_eq_zero fun t _ => by rw [h t]; rfl

/-- The values in the queue, by the log. -/
lemma length_contents (hI : Inv s c e) (hp : ∀ t, placed (s.pc t) = none) :
    (takes s.log).length + c.length = (rets s.log).length + 1 := by
  have hcount := run_count hI.run
  obtain ⟨l, hc, -⟩ := chain_cons hI.toShape
  have hret : (hist s c).returning = 0 :=
    Finset.sum_eq_zero fun t _ => by simp [hist, hp t]
  rw [hret] at hcount
  simp only [hist, List.length_map, hc, List.tail_cons] at hcount
  rw [hc, List.length_cons]
  omega

lemma size_idle (hI : Inv s c e) (h : Idle s) :
    s.mem.size + 1 = c.length ∧ s.mem.size = (rets s.log).length - (takes s.log).length := by
  have htotal := hI.total
  rw [share_idle h] at htotal
  have hlen := length_contents hI fun t => by rw [h t]; rfl
  constructor <;> omega

end Size

/-! ### Further calls -/

/-- The points of `Dequeue`. -/
def inDequeue (p : Pc α) : Prop := waiting p = none ∧ placed p = none

/-- What a step of `Dequeue` does to the counts. -/
structure Deq (m m' : Mem α) (p p' : Pc α) (ev : List (Event (Item α))) : Prop where
  inDequeue : inDequeue p'
  rets : rets ev = []
  /-- `_size` with what will be given back. -/
  same : m'.size + undoing p' = m.size + undoing p ∨
    0 < m.size ∧ m'.size + undoing p' + 1 = m.size + undoing p ∧ undoing p' = undoing p ∧ misses ev = 0
  /-- A call that fails has found nothing left. -/
  fails : undoing p' + misses ev = undoing p ∨ undoing p = 0 ∧ misses ev = 0 ∧ m.size ≤ 0

lemma tstep_deq {m m' : Mem α} {p p' : Pc α} {ch : Choice α} {ev : List (Event (Item α))}
    (hp : inDequeue p) (hch : ∀ v, ch ≠ .enqueue v) (hre : ∀ b, p = .recheck b → b.same m.head = false)
    (h : tstep m p ch = some (m', p', ev)) : Deq m m' p p' ev := by
  revert h
  fun_cases tstep m p ch <;>
    simp only [Option.some.injEq, Prod.mk.injEq, reduceCtorEq, false_implies, and_imp]
  all_goals rintro rfl rfl rfl
  case case1 v => exact absurd rfl (hch v)
  case case15 h0 => exact ⟨⟨rfl, rfl⟩, rfl, .inl (by simp [undoing]), .inr ⟨rfl, rfl, by omega⟩⟩
  case case16 h0 =>
    exact ⟨⟨rfl, rfl⟩, rfl, .inr ⟨by omega, by simp [undoing], rfl, rfl⟩, .inl rfl⟩
  case case17 => exact ⟨⟨rfl, rfl⟩, rfl, .inl (by simp [undoing]), .inl rfl⟩
  case case21 b hb => exact absurd (hb.symm.trans (hre b rfl)) Bool.false_ne_true.symm
  case case2 | case18 | case19 | case20 | case22 | case23 | case24 | case25 | case26 | case27 | case28 |
      case29 | case30 =>
    exact ⟨⟨rfl, rfl⟩, rfl, .inl rfl, .inl rfl⟩
  all_goals
    first
      | exact absurd hp.1.symm (Option.some_ne_none _).symm
      | exact absurd hp.2.symm (Option.some_ne_none _).symm

lemma misses_append (l l' : List (Event (Item α))) : misses (l ++ l') = misses l + misses l' :=
  List.countP_append

lemma misses_le {l l' : List (Event (Item α))} (h : l.Sublist l') : misses l ≤ misses l' :=
  h.countP_le

variable [Fintype τ]

/-- What a run without further values has come to: who has failed has found all values taken. -/
structure Draining (s s' : Queue τ α) : Prop where
  inDequeue : ∀ t, inDequeue (s'.pc t)
  rets : rets s'.log = rets s.log
  log : s.log.Sublist s'.log
  failed : misses s.log < misses s'.log ∨ 0 < ∑ t, undoing (s'.pc t) →
    s'.mem.size + (∑ t, undoing (s'.pc t) : ℕ) = 0

lemma draining_step {s' : Queue τ α} {m' : Mem α} {p' : Pc α} {ev : List (Event (Item α))}
    (hI : Inv s' c e) (hD : Draining s s') (hd : Deq s'.mem m' (s'.pc t) p' ev) :
    Draining s (after s' t m' p' ev) := by
  obtain ⟨r, h1, h2⟩ := share_after undoing s' t m' p' ev
  have hlog : misses (after s' t m' p' ev).log = misses s'.log + misses ev := misses_append _ _
  have hfailed := hD.failed
  have hnonneg := hI.nonneg
  have hle := misses_le hD.log
  rw [h1] at hfailed hnonneg
  refine ⟨fun u => ?_, ?_, hD.log.trans (List.sublist_append_left _ _), fun h => ?_⟩
  · by_cases hu : u = t
    · rw [hu, pc_self]
      exact hd.inDequeue
    · rw [pc_other hu]
      exact hD.inDequeue u
  · change FifoHistory.rets (s'.log ++ ev) = _
    rw [rets_append, hd.rets, List.append_nil, hD.rets]
  · rw [h2, hlog] at h
    rw [h2]
    change m'.size + ((r + undoing p' : ℕ) : ℤ) = 0
    -- `h0` is that somebody had failed before
    by_cases h0 : misses s.log < misses s'.log ∨ 0 < r + undoing (s'.pc t)
    · have hzero := hfailed h0
      rcases hd.same with hsame | ⟨hpos, -, -, -⟩
      · omega
      · omega
    · rcases hd.fails with hf | ⟨hu, hm, hsize⟩
      · omega
      · rcases hd.same with hsame | ⟨hpos, -, -, -⟩
        · omega
        · omega

lemma reach_draining (hI : Inv s c e) (h0 : Idle s) (h : Reach qstep noEnqueue s s') :
    ∃ c' e', Inv s' c' e' ∧ Draining s s' := by
  induction h with
  | init =>
    refine ⟨c, e, hI, fun t => by rw [h0 t]; exact ⟨rfl, rfl⟩, rfl, List.Sublist.refl _, fun h => ?_⟩
    rw [undoing_idle h0] at h
    omega
  | @step s₁ s₂ a _ ho hs ih =>
    obtain ⟨c₁, e₁, hI₁, hD⟩ := ih
    simp only [qstep, Option.map_eq_some_iff] at hs
    obtain ⟨⟨m', p', ev⟩, hs, rfl⟩ := hs
    have hdeq := hD.inDequeue a.1
    have hlinks : linksQueue s₁ (s₁.pc a.1) := by
      cases hp : s₁.pc a.1
      case link n x b =>
        rw [hp] at hdeq
        exact absurd hdeq.1 (Option.some_ne_none x)
      all_goals trivial
    have hw := noAlias_of_noWrap (hI₁.at' a.1) ho.1
    obtain ⟨c₂, e₂, hI₂⟩ := tstep_inv hI₁ rfl hw hlinks hs
    refine ⟨c₂, e₂, hI₂, draining_step hI₁ hD (tstep_deq hdeq ho.2 (fun b hb => ?_) hs)⟩
    have hat := hI₁.at' a.1
    rw [hb] at hat hw
    exact recheck_differs hat hw

/-- **Further calls.** -/
lemma further_count (hI : Inv s c e) (h0 : Idle s) (h : Reach qstep noEnqueue s s') (h1 : Idle s') :
    (takes s'.log).length = (takes s.log).length +
      min ((takes s'.log).length + misses s'.log - ((takes s.log).length + misses s.log))
        (getUseSize s).toNat := by
  obtain ⟨c', e', hI', hD⟩ := reach_draining hI h0 h
  have hsize := (size_idle hI h0).2
  have hsize' := (size_idle hI' h1).2
  have hnonneg := hI.nonneg
  have hnonneg' := hI'.nonneg
  have hfailed := hD.failed
  have hle := misses_le hD.log
  have hle' : (takes s.log).length ≤ (takes s'.log).length := (hD.log.filterMap _).length_le
  rw [undoing_idle h0] at hnonneg
  rw [undoing_idle h1] at hnonneg' hfailed
  rw [hD.rets] at hsize'
  have hget : getUseSize s = s.mem.size := rfl
  rcases Nat.lt_or_ge (misses s.log) (misses s'.log) with hlt | hge
  · have := hfailed (.inl hlt)
    omega
  · omega

/-! ### A call alone -/

section Alone

omit [Fintype τ]

variable {m m' : Mem α} {p p' : Pc α} {l : List (Event (Item α))} {s₀ : Queue τ α}

/-- Thread `t` is at `p` and nobody else is in a call. -/
def solo (t : τ) (m : Mem α) (p : Pc α) (l : List (Event (Item α))) : Queue τ α :=
  ⟨m, Function.update (fun _ => .idle) t p, l⟩

lemma solo_idle (t : τ) : Idle (solo t m .idle l) := by
  intro u
  change Function.update (fun _ => Pc.idle) t .idle u = .idle
  rw [Function.update_eq_self_iff.mpr rfl]

lemma solo_step {ch : Choice α} {ev : List (Event (Item α))} (h : tstep m p ch = some (m', p', ev)) :
    qstep (solo t m p l) (t, ch) = some (solo t m' p' (l ++ ev)) := by
  simp [qstep, solo, h]

lemma solo_tick {ev : List (Event (Item α))} (hr : Reach qstep (alone t) s₀ (solo t m p l))
    (h : tstep m p .tick = some (m', p', ev)) : Reach qstep (alone t) s₀ (solo t m' p' (l ++ ev)) :=
  .step hr (.inr rfl) (solo_step h)

lemma solo_quiet (hr : Reach qstep (alone t) s₀ (solo t m p l))
    (h : tstep m p .tick = some (m', p', [])) : Reach qstep (alone t) s₀ (solo t m' p' l) := by
  have := solo_tick hr h
  rwa [List.append_nil] at this

lemma same_self (b : Ptr) : b.same b = true := by simp [Ptr.same]

/-- The loop of `Dequeue`, up to where it has read `_tail`. -/
lemma solo_read {y : ℕ} {rest : List ℕ} (hc : Chain m.next c) (hh : c = m.head.addr :: y :: rest)
    (hr : Reach qstep (alone t) s₀ (solo t m .loadHead l)) :
    Reach qstep (alone t) s₀ (solo t m (.loadTailNext m.head y m.tail) l) := by
  have hy : m.next m.head.addr = some y := by
    rw [hh] at hc
    exact hc.1
  have h1 : Reach qstep (alone t) s₀ (solo t m (.loadHeadNext m.head) l) := solo_quiet hr rfl
  have h2 : Reach qstep (alone t) s₀ (solo t m (.loadDeqTail m.head y) l) :=
    solo_quiet h1 (by simp only [tstep, hy])
  exact solo_quiet h2 rfl

/-- The loop of `Dequeue`, which first takes `_tail` to the end of the queue. -/
lemma solo_loop {y : ℕ} {rest a d : List ℕ} (hc : Chain m.next c)
    (hh : c = m.head.addr :: y :: rest) (ht : c = a ++ m.tail.addr :: d)
    (hr : Reach qstep (alone t) s₀ (solo t m .loadHead l)) :
    ∃ m' x, Reach qstep (alone t) s₀ (solo t m' .idle (l ++ [.take x])) := by
  have h1 := solo_read hc hh hr
  induction d generalizing m a with
  | nil =>
    have hn : m.next m.tail.addr = none := by
      rw [ht] at hc
      exact (Chain.drop hc).1
    have h2 : Reach qstep (alone t) s₀ (solo t m (.readData m.head y) l) :=
      solo_quiet h1 (by simp only [tstep, hn])
    have h3 : Reach qstep (alone t) s₀ (solo t m (.takeHead m.head y (m.data y)) l) :=
      solo_quiet h2 rfl
    have h4 := solo_tick h3 (by rw [tstep, if_pos (same_self _)])
    exact ⟨_, _, solo_quiet h4 rfl⟩
  | cons z d ih =>
    have hn : m.next m.tail.addr = some z := by
      rw [ht] at hc
      exact (Chain.drop hc).1
    have h2 : Reach qstep (alone t) s₀ (solo t m (.helpDeq m.tail z) l) :=
      solo_quiet h1 (by simp only [tstep, hn])
    have h3 : Reach qstep (alone t) s₀
        (solo t { m with tail := ⟨z, m.tail.idx + 1⟩ } .loadHead l) :=
      solo_quiet h2 (by simp only [tstep, cas, same_self, if_true])
    refine ih (m := { m with tail := ⟨z, m.tail.idx + 1⟩ }) (a := a ++ [m.tail.addr]) hc hh ?_ h3
      (solo_read hc hh h3)
    rw [ht, List.append_assoc]
    rfl

lemma call_returns (hS : Shape s c e) (hlen : s.mem.size + 1 = c.length) (h : Idle s) (t : τ) :
    ∃ s', Reach qstep (alone t) s s' ∧ Idle s' ∧
      if 0 < getUseSize s then ∃ x, s'.log = s.log ++ [.take x] else s'.log = s.log ++ [.miss] := by
  have hs : s = solo t s.mem .idle s.log := by
    have hpc : s.pc = fun _ => .idle := funext h
    unfold solo
    rw [Function.update_eq_self_iff.mpr rfl, ← hpc]
  have h0 : Reach qstep (alone t) s (solo t s.mem .decSize s.log) := by
    refine .step .init (.inl rfl) ?_
    nth_rewrite 1 [hs]
    exact (solo_step rfl).trans (by rw [List.append_nil])
  by_cases hpos : 0 < getUseSize s
  · have hsize : ¬s.mem.size - 1 < 0 := by
      unfold getUseSize at hpos
      omega
    have h1 := solo_quiet h0 (by rw [tstep, if_neg hsize])
    obtain ⟨l, hc, -⟩ := chain_cons hS
    obtain ⟨l₁, l₂, ht⟩ := List.append_of_mem hS.tail
    obtain ⟨y, rest, rfl⟩ : ∃ y rest, l = y :: rest := by
      rcases l with _ | ⟨y, rest⟩
      · rw [hc] at hlen
        simp only [List.length_singleton] at hlen
        omega
      · exact ⟨y, rest, rfl⟩
    obtain ⟨m', x, hr⟩ := solo_loop (m := { s.mem with size := s.mem.size - 1 }) hS.chain hc ht h1
    refine ⟨_, hr, solo_idle t, ?_⟩
    rw [if_pos hpos]
    exact ⟨x, rfl⟩
  · have hsize : s.mem.size - 1 < 0 := by
      unfold getUseSize at hpos
      omega
    have h1 := solo_quiet h0 (by rw [tstep, if_pos hsize])
    have h2 := solo_tick h1 (by rw [tstep])
    refine ⟨_, h2, solo_idle t, ?_⟩
    rw [if_neg hpos]
    rfl

end Alone

variable {d : ℕ} {next : ℕ → Option ℕ} {data : ℕ → Item α}

/-- **The count is exact.** In every run in which no `Enqueue` links to a node that another has
allocated and not linked. -/
theorem queue_counted (h : Reach qstep sane (construct d next data) s) : Counted s := by
  obtain ⟨c, e, hI⟩ := reach_inv h
  refine ⟨fun h0 => (size_idle hI h0).2, fun h0 s' hr h1 => further_count hI h0 hr h1, fun h0 t => ?_⟩
  exact call_returns hI.toShape (size_idle hI h0).1 h0 t

/-- Two values are in the queue. -/
theorem queue_counted_two : ∃ s, Reach qstep sane empty s ∧ Idle s ∧ getUseSize s = 2 ∧ Counted s := by
  obtain ⟨s, hr, hp⟩ := reach_sane
    (enqueue 1 10 1 7 ++ enqueue 1 11 2 7 ++ dequeue 2 8 ++ enqueue 0 12 3 7)
    (p := fun s => decide (Idle s ∧ getUseSize s = 2)) (by decide +kernel)
  obtain ⟨h1, h2⟩ := of_decide_eq_true hp
  exact ⟨s, hr, h1, h2, queue_counted hr⟩

/-- A `Dequeue` finds the queue empty while the value that thread 0 has counted is behind a node
that is not yet linked. -/
theorem queue_miscounted : ¬∀ s, Reach qstep timely empty s → Counted s := by
  intro h
  obtain ⟨s, hr, hp⟩ := reach_timely (misplaced ++ dequeue 2 4 ++ ticks 1 5)
    (p := fun s => decide (Idle s ∧ getUseSize s = 1 ∧ (rets s.log).length = 4 ∧
      (takes s.log).length = 2)) (by decide +kernel)
  obtain ⟨h1, h2, h3, h4⟩ := of_decide_eq_true hp
  have hsize := (h s hr).size h1
  rw [h2, h3, h4] at hsize
  exact absurd hsize (by decide)

end LoginServerChat.QueueCount
