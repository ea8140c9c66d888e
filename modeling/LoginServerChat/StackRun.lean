import LoginServerChat.StackInv

/-!
What `CLockFreeStack` is: the exchanges that succeed, in their order, are a run of a sequential stack.
-/

namespace LoginServerChat.StackRun

open LifoHistory LinkedChain LockFreeStack Runs StackInv StaleReads

variable {τ ι α : Type*} [DecidableEq τ] [DecidableEq ι] {b : Boot ι α} {s s' : Stacks τ ι α}
  {c : ι → List ℕ} {pl : ℕ → Place τ ι} {t : τ}

/-- **One step keeps the invariant.** -/
lemma tstep_inv (hI : Inv b s c pl) {p : Pc ι α} (hp : s.pc t = p) {ch : Choice ι α}
    (hok : fewPops s (t, ch)) {r : Mem ι α × Pc ι α × List (Event τ ι α)}
    (h : tstep t s.mem p ch = some r) : ∃ c' pl', Inv b (after s t r.1 r.2.1 r.2.2) c' pl' := by
  obtain ⟨m', p', ev⟩ := r
  have hat := hI.at' t
  rw [hp] at hat
  have hquiet : owns p' = owns p → At b s.mem c p' → (ev = [] ∨ ∃ i, ev = [.miss t i]) →
      pending s.mem p' = pending s.mem p → ∃ c' pl', Inv b (after s t s.mem p' ev) c' pl' :=
    fun h1 h2 h3 h4 => ⟨c, pl, inv_quiet hI (hp ▸ h1) h2 h3 (hp ▸ h4)⟩
  revert h
  fun_cases tstep t s.mem p ch <;>
    simp only [Option.some.injEq, Prod.mk.injEq, reduceCtorEq, false_implies, and_imp]
  all_goals rintro rfl rfl rfl
  case case1 i x => exact hquiet rfl trivial (.inl rfl) rfl
  case case2 i => exact hquiet rfl trivial (.inl rfl) rfl
  case case3 i x q hq => exact ⟨_, _, inv_alloc hI hp hq⟩
  case case5 i n x =>
    have hpn := (hI.held t n).mp (by rw [hp]; rfl)
    refine ⟨c, pl, inv_stay hI rfl rfl rfl (fun q hq => ⟨rfl, ?_⟩) (fun _ h => h) (by rw [hp]; rfl)
      (Function.update_self _ _ _) (.inl rfl) (by rw [hp]; rfl)⟩
    exact Function.update_of_ne (fun h : q = n => hq (by rw [h]; exact hpn)) _ _
  case case6 i n x => exact hquiet rfl hat (.inl rfl) rfl
  case case7 i n x y =>
    have hpn := (hI.held t n).mp (by rw [hp]; rfl)
    refine ⟨c, pl, inv_stay hI rfl rfl rfl (fun q hq => ⟨?_, rfl⟩) (fun q hq => ?_) (by rw [hp]; rfl)
      ⟨hat, Function.update_self _ _ _⟩ (.inl rfl) (by rw [hp]; rfl)⟩
    · exact Function.update_of_ne (fun h : q = n => hq (by rw [h]; exact hpn)) _ _
    · change Function.update s.mem.next n (some y) q ≠ none
      by_cases hqn : q = n
      · rw [hqn, Function.update_self]
        exact Option.some_ne_none y
      · rw [Function.update_of_ne hqn]
        exact hq
  case case8 i n x => exact ⟨_, _, inv_push hI hp rfl⟩
  case case9 i n x y _ => exact hquiet rfl hat.1 (.inl rfl) rfl
  case case10 i => exact hquiet rfl (le_refl _) (.inl rfl) rfl
  case case11 i v =>
    refine hquiet rfl ⟨⟨hat, fun _ => List.mem_of_mem_head? (hI.top i)⟩, fun htop hnone => htop ?_⟩ (.inl rfl) rfl
    -- only the last node of the stack leads nowhere
    obtain ⟨l, hl⟩ := (hI.chain i).last (List.mem_of_mem_head? (hI.top i)) hnone
    exact (List.append_inj_right' hl rfl |> List.singleton_inj.mp).symm
  case case12 i v a _ => exact hquiet rfl trivial (.inr ⟨i, rfl⟩) rfl
  case case13 i v a y hy => exact hquiet rfl ⟨hat.1, fun _ => hy⟩ (.inl rfl) rfl
  case case14 i v a y hcas =>
    have hlt : s.mem.uniqIdx i < v + 2 ^ 64 := by
      rw [fewPops] at hok
      dsimp only at hok
      rwa [hp] at hok
    have hle := hat.le
    obtain ⟨_, -, h⟩ := inv_pop hI hp hcas.1 (by omega)
    exact ⟨_, _, h⟩
  case case15 i v a y _ => exact hquiet rfl trivial (.inl rfl) rfl
  case case16 i a => exact hquiet rfl rfl (.inl rfl) rfl
  case case17 i a x => exact ⟨_, _, inv_free hI hp⟩

open Classical in
/-- Where the nodes are at the start. -/
noncomputable def startPlace (b : Boot ι α) (q : ℕ) : Place τ ι :=
  if b.pooled q = true then .pool else if ∃ i, b.dummy i = q then .dummy else .away

omit [DecidableEq ι] in
lemma construct_inv (b : Boot ι α) :
    StackInv.Inv b (construct b : Stacks τ ι α) (fun _ => []) (startPlace b) := by
  have hstack : ∀ i q, (startPlace b q : Place τ ι) ≠ .stack i := by
    intro i q
    unfold startPlace
    split_ifs <;> exact nofun
  have hheld : ∀ t q, (startPlace b q : Place τ ι) ≠ .held t := by
    intro t q
    unfold startPlace
    split_ifs <;> exact nofun
  refine ⟨fun i => ⟨b.dummy_next i, trivial⟩, fun _ => rfl, fun _ => List.nodup_nil,
    fun i q => ⟨fun h => absurd h List.not_mem_nil, fun h => absurd h (hstack i q)⟩, fun i => ?_, fun q => ?_,
    fun t q => ⟨fun h => (nomatch h), fun h => absurd h (hheld t q)⟩, fun _ => trivial, fun _ => .nil, fun _ => rfl⟩
  · rw [startPlace, if_neg (by rw [b.dummy_out i]; exact Bool.false_ne_true), if_pos ⟨i, rfl⟩]
  · change b.pooled q = true ↔ _
    unfold startPlace
    constructor
    · exact fun h => if_pos h
    · intro h
      by_contra hq
      rw [if_neg hq] at h
      split_ifs at h

/-- **Every state.** -/
lemma reach_inv (h : Reach sstep fewPops (construct b) s) : ∃ c pl, StackInv.Inv b s c pl := by
  refine Reach.inv (I := fun s => ∃ c pl, StackInv.Inv b s c pl) ⟨_, _, construct_inv b⟩ (fun s s' a _ hi ho hs => ?_) h
  obtain ⟨c, pl, hI⟩ := hi
  rw [sstep, Option.map_eq_some_iff] at hs
  obtain ⟨r, hr, rfl⟩ := hs
  exact tstep_inv hI rfl ho hr

/-! ### The stacks -/

/-- What the stacks are after a run: the exchanges so far are a run of a sequential stack, whose values
are on the list from `_top`; what was pushed was popped or is there; and a thread has returned what
it popped, but for what it has not returned yet. -/
structure Linear (b : Boot ι α) (s : Stacks τ ι α) : Prop where
  lifo : ∀ i, ∃ l, Lifo i s.log l ∧ Holds b s i l ∧ (pushes i s.log).Perm (pops i s.log ++ l)
  returns : ∀ t, popped t s.log = returned t s.log ++ pending s.mem (s.pc t)

/-- Thread is in a `Pop` of stack `i`, before its exchange. -/
def Popping (i : ι) : Pc ι α → Prop
  | .loadIdx j | .loadPopTop j _ | .loadNext j _ _ | .casBoth j _ _ _ => j = i
  | _ => False

/-- Stack `i` is empty: there is nothing on its list, and nothing on the sequential stack. -/
def Empty (b : Boot ι α) (i : ι) (s : Stacks τ ι α) : Prop := Holds b s i [] ∧ Lifo i s.log []

omit [DecidableEq ι] in
lemma holds_of_inv (hI : StackInv.Inv b s c pl) (i : ι) : Holds b s i ((c i).map s.mem.data) :=
  ⟨c i, hI.chain i, hI.top i, hI.nodup i, rfl⟩

lemma linear_of_inv (hI : StackInv.Inv b s c pl) : Linear b s :=
  ⟨fun i => ⟨_, hI.lifo i, holds_of_inv hI i, (hI.lifo i).perm⟩, hI.rets⟩

omit [DecidableEq ι] in
/-- With the dummy node at its top a stack is empty. -/
lemma empty_of_top (hI : StackInv.Inv b s c pl) {i : ι} (h : s.mem.top i = b.dummy i) : Empty b i s := by
  have hc : c i = [] := by
    have htop := hI.top i
    match hci : c i with
    | [] => rfl
    | x :: l =>
      rw [hci, List.cons_append, List.head?_cons, h, Option.some.injEq] at htop
      have hx := (hI.stack i x).mp (by rw [hci]; exact List.mem_cons_self)
      rw [htop, hI.dummy i] at hx
      exact nomatch hx
  have h1 := holds_of_inv hI i
  have h2 := hI.lifo i
  rw [hc, List.map_nil] at h1 h2
  exact ⟨h1, h2⟩

/-- `Pop` returns false at the test of what it read behind `_top`. -/
lemma miss_pc {a : τ × Choice ι α} {i : ι} (h : sstep s a = some s') (hl : s'.log = s.log ++ [.miss t i]) :
    ∃ v x, s.pc t = .loadNext i v x ∧ s.mem.next x = none := by
  obtain ⟨u, ch⟩ := a
  rw [sstep, Option.map_eq_some_iff] at h
  obtain ⟨⟨m', p', ev⟩, hr, rfl⟩ := h
  have hev : ev = [.miss t i] := List.append_cancel_left hl
  dsimp only at hr
  obtain ⟨p, hp⟩ : ∃ p, s.pc u = p := ⟨_, rfl⟩
  rw [hp, hev] at hr
  revert hr
  fun_cases tstep u s.mem p ch <;>
    simp only [Option.some.injEq, Prod.mk.injEq, reduceCtorEq, false_implies, and_imp, and_false, List.cons.injEq,
      Event.miss.injEq, and_true]
  case case12 j v x hx =>
    rintro - - rfl rfl
    exact ⟨v, x, hp, hx⟩

/-- A thread comes to the test with the dummy node only by loading it from `_top`. -/
lemma load_dummy {a : τ × Choice ι α} {i : ι} {v : ℕ} (h : sstep s a = some s')
    (hp' : s'.pc t = .loadNext i v (b.dummy i)) :
    s.pc t = .loadNext i v (b.dummy i) ∨ s'.mem = s.mem ∧ s'.log = s.log ∧ s.mem.top i = b.dummy i := by
  obtain ⟨u, ch⟩ := a
  rw [sstep, Option.map_eq_some_iff] at h
  obtain ⟨⟨m', p', ev⟩, hr, rfl⟩ := h
  dsimp only at hr hp' ⊢
  by_cases hut : t = u
  · rw [hut, Function.update_self] at hp'
    rw [hp'] at hr
    obtain ⟨p, hp⟩ : ∃ p, s.pc u = p := ⟨_, rfl⟩
    rw [hp] at hr
    revert hr
    fun_cases tstep u s.mem p ch <;>
      simp only [Option.some.injEq, Prod.mk.injEq, reduceCtorEq, and_imp, and_false, false_and,
        Pc.loadNext.injEq, IsEmpty.forall_iff]
    case case11 j w =>
      rintro rfl rfl - htop rfl
      exact .inr ⟨rfl, List.append_nil _, htop⟩
  · rw [Function.update_of_ne hut] at hp'
    exact .inl hp'

/-- **The stacks are linearizable.** After every run they are what a sequential stack is after the
exchanges of that run; and when `Pop` returns false, the stack was empty at some moment of the call. -/
theorem stacks_linear {S : ℕ → Stacks τ ι α} {n : ℕ} (h : Path sstep fewPops (construct b) S n) :
    Linear b (S n) ∧ ∀ k < n, ∀ t i, (S (k + 1)).log = (S k).log ++ [.miss t i] →
      ∃ j ≤ k, Empty b i (S j) ∧ ∀ l, j ≤ l → l ≤ k → Popping i ((S l).pc t) := by
  obtain ⟨c, pl, hI⟩ := reach_inv (h.reach (le_refl n))
  refine ⟨linear_of_inv hI, fun k hk t i hmiss => ?_⟩
  obtain ⟨a, -, hstep⟩ := h.step k hk
  obtain ⟨v, x, hp, hx⟩ := miss_pc hstep hmiss
  obtain ⟨c', pl', hI'⟩ := reach_inv (h.reach hk.le)
  -- what leads nowhere is the dummy node
  have hxd : x = b.dummy i := by
    have hat := hI'.at' t
    rw [hp] at hat
    by_contra hne
    exact hat.2 hne hx
  rw [hxd] at hp
  have hback : ∀ (s s' : Stacks τ ι α) (a : τ × Choice ι α), Reach sstep fewPops (construct b) s →
      fewPops s a → sstep s a = some s' → s'.pc t = .loadNext i v (b.dummy i) →
      s.pc t = .loadNext i v (b.dummy i) ∨ Empty b i s' := by
    intro s s' a hr _ hs hp'
    obtain ⟨c, pl, hI⟩ := reach_inv hr
    rcases load_dummy hs hp' with hold | ⟨hm, hlog, htop⟩
    · exact .inl hold
    · obtain ⟨⟨c, h1, h2, h3, h4⟩, h5⟩ := empty_of_top hI htop
      exact .inr ⟨⟨c, hm ▸ h1, hm ▸ h2, h3, hm ▸ h4⟩, hlog ▸ h5⟩
  obtain ⟨j, hj, hE, hP⟩ := h.since (fun h0 => nomatch h0) hback hk.le hp
  refine ⟨j, hj, hE, fun l hjl hl => ?_⟩
  rw [hP l hjl hl]
  rfl

/-- One stack, with dummy node 0 and all other nodes in the pool. -/
def oneStack : Boot (Fin 1) ℕ where
  dummy _ := 0
  next _ := none
  data _ := 0
  pooled q := q ≠ 0
  dummy_inj _ _ _ := Subsingleton.elim _ _
  dummy_next _ := rfl
  dummy_out _ := rfl

/-- A run that can be evaluated. -/
lemma reach_few (l : List (τ × Choice ι α)) {p : Stacks τ ι α → Bool}
    (h : (run sstep (fun s a => decide (fewPops s a)) (construct b) l).map p = some true) :
    ∃ s, Reach sstep fewPops (construct b) s ∧ p s = true :=
  reach_of_run (fun _ _ => of_decide_eq_true) l h

/-- `n` steps of thread `t`. -/
def ticks (t : τ) (n : ℕ) : List (τ × Choice ι α) := List.replicate n (t, .tick)

/-- The second thread has read node 1 when the first pops it and pushes it again: the exchange of the
second fails, and it pops the new value. Then the first finds nothing. -/
def reuse : List (Fin 2 × Choice (Fin 1) ℕ) :=
  [(0, .push 0 5), (0, .node 1)] ++ ticks 0 4 ++ [(1, .pop 0)] ++ ticks 1 3 ++ [(0, .pop 0)] ++ ticks 0 6 ++
    [(0, .push 0 7), (0, .node 1)] ++ ticks 0 4 ++ ticks 1 7 ++ [(0, .pop 0)] ++ ticks 0 3

theorem stacks_linear_reuse : ∃ S n, Path sstep fewPops (construct oneStack : Stacks (Fin 2) (Fin 1) ℕ) S n ∧
    (S n).log = [.push 0 0 5, .pop 0 0 5, .ret 0 0 5, .push 0 0 7, .pop 1 0 7, .ret 1 0 7, .miss 0 0] ∧
    Linear oneStack (S n) ∧ ∀ k < n, ∀ t i, (S (k + 1)).log = (S k).log ++ [.miss t i] →
      ∃ j ≤ k, Empty oneStack i (S j) ∧ ∀ l, j ≤ l → l ≤ k → Popping i ((S l).pc t) := by
  obtain ⟨s, hr, hlog⟩ := reach_few (b := oneStack) reuse
    (p := fun s => decide (s.log = [.push 0 0 5, .pop 0 0 5, .ret 0 0 5, .push 0 0 7, .pop 1 0 7, .ret 1 0 7,
      .miss 0 0])) (by decide +kernel)
  obtain ⟨S, n, hS, rfl⟩ := hr.path
  obtain ⟨h1, h2⟩ := stacks_linear hS
  exact ⟨S, n, hS, of_decide_eq_true hlog, h1, h2⟩

end LoginServerChat.StackRun
