import LoginServerChat.QueueStep

/-!
The invariant holds in every run in which no `Enqueue` links its node to one that is not in the
queue, and the queue is then one whose operations take effect at a point of their own.
-/

namespace LoginServerChat.QueueRun

open FifoHistory LinkedChain LockFreeQueue QueueInv QueueStep Runs

variable {α τ : Type*} [DecidableEq τ] {s : Queue τ α} {t : τ} {m' : Mem α} {p' : Pc α}
  {c c' e e' : List ℕ} {n y : ℕ} {b : Ptr} {x : Item α} {ev : List (Event (Item α))} {p : Pc α}

/-! ### The queue as a history -/

lemma hist_after : hist (after s t m' p' ev) c' =
    ⟨Function.update (fun u => waiting (s.pc u)) t (waiting p'),
      Function.update (fun u => placed (s.pc u)) t (placed p'), c'.tail.map m'.data, s.log ++ ev⟩ := by
  have hup : ∀ {β : Type _} (f : Pc α → β), (fun u => f (Function.update s.pc t p' u)) =
      Function.update (fun u => f (s.pc u)) t (f p') := by
    intro β f
    funext u
    by_cases hu : u = t
    · subst hu
      simp
    · simp [hu]
  unfold hist after
  rw [hup waiting, hup placed]

lemma update_same {β : Type*} (f : Pc α → β) (h : f p' = f (s.pc t)) :
    Function.update (fun u => f (s.pc u)) t (f p') = fun u => f (s.pc u) := by
  rw [h]
  exact Function.update_eq_self t _

lemma run_stutter (hpc : s.pc t = p) (hr : Run (hist s c)) (hw : waiting p' = waiting p)
    (hp : placed p' = placed p) (hd : c'.tail.map m'.data = c.tail.map s.mem.data) :
    Run (hist (after s t m' p' []) c') := by
  subst hpc
  rw [hist_after, update_same waiting hw, update_same placed hp, hd, List.append_nil]
  exact hr

/-- A removal that found nothing. -/
lemma run_miss (hpc : s.pc t = p) (hr : Run (hist s c)) (hw : waiting p' = waiting p)
    (hp : placed p' = placed p) (hd : m'.data = s.mem.data) :
    Run (hist (after s t m' p' [.miss]) c) := by
  subst hpc
  rw [hist_after, update_same waiting hw, update_same placed hp, hd]
  exact hr.tail .miss

lemma run_call (hpc : s.pc t = p) (hr : Run (hist s c)) (hx : .call x ∉ s.log) (hw : waiting p' = some x)
    (hp : placed p' = placed p) (hd : m'.data = s.mem.data) :
    Run (hist (after s t m' p' [.call x]) c) := by
  subst hpc
  rw [hist_after, hw, update_same placed hp, hd]
  exact hr.tail (.call t x hx)

lemma run_put (hpc : s.pc t = p) (hr : Run (hist s c)) (hw : waiting p = some x) (hw' : waiting p' = none)
    (hp : placed p = none) (hp' : placed p' = some x)
    (hd : c'.tail.map m'.data = c.tail.map s.mem.data ++ [x]) :
    Run (hist (after s t m' p' []) c') := by
  subst hpc
  rw [hist_after, hw', hp', hd, List.append_nil]
  exact hr.tail (.put t x hw hp)

lemma run_ret (hpc : s.pc t = p) (hr : Run (hist s c)) (hw : waiting p' = waiting p)
    (hp : placed p = some x) (hp' : placed p' = none) (hd : m'.data = s.mem.data) :
    Run (hist (after s t m' p' [.ret x]) c) := by
  subst hpc
  rw [hist_after, update_same waiting hw, hp', hd]
  exact hr.tail (.ret t x hp)

lemma run_take {l : List ℕ} (hpc : s.pc t = p) (hr : Run (hist s (n :: y :: l))) (hw : waiting p' = waiting p)
    (hp : placed p' = placed p) (hd : m'.data = s.mem.data) (hx : s.mem.data y = x) :
    Run (hist (after s t m' p' [.take x]) (y :: l)) := by
  subst hpc
  rw [hist_after, update_same waiting hw, update_same placed hp, hd, ← hx]
  exact hr.tail (.take _ _ rfl)

/-! ### The steps -/

variable [Fintype τ]

/-- What the threads together have of a share. -/
lemma share_after (f : Pc α → ℕ) (s : Queue τ α) (t : τ) (m' : Mem α) (p' : Pc α)
    (ev : List (Event (Item α))) : ∃ r, ∑ u, f (s.pc u) = r + f (s.pc t) ∧
    ∑ u, f ((after s t m' p' ev).pc u) = r + f p' := by
  obtain ⟨r, h1, h2⟩ := sum_split f s.pc t
  exact ⟨r, h1, h2 p'⟩

lemma sized_after (hS : Sized s c)
    (hcount : m'.size + share p' - c'.length = s.mem.size + share (s.pc t) - c.length)
    (hpos : s.mem.size + undoing (s.pc t) ≤ m'.size + undoing p' ∨ 0 ≤ m'.size) :
    Sized (after s t m' p' ev) c' := by
  obtain ⟨r, h1, h2⟩ := share_after share s t m' p' ev
  obtain ⟨u, h3, h4⟩ := share_after undoing s t m' p' ev
  have htotal := hS.total
  have hnonneg := hS.nonneg
  rw [h1] at htotal
  rw [h3] at hnonneg
  refine ⟨?_, ?_⟩
  · rw [h2]
    change m'.size + _ + 1 = _
    omega
  · rw [h4]
    change 0 ≤ m'.size + _
    omega

lemma inv_after (hpc : s.pc t = p) (hI : Inv s c e) (hS : Shape (after s t m' p' ev) c' e')
    (hC : ∀ u ≠ t, Carries s.mem m' e e' (s.pc u)) (hat : At m' e' p')
    (hcount : m'.size + share p' - c'.length = s.mem.size + share p - c.length)
    (hpos : s.mem.size + undoing p ≤ m'.size + undoing p' ∨ 0 ≤ m'.size)
    (hnum : ∀ x, .call x ∈ s.log ++ ev → x.2 < m'.calls)
    (hrun : Run (hist (after s t m' p' ev) c')) : Inv (after s t m' p' ev) c' e' := by
  subst hpc
  refine ⟨hS, sized_after hI.toSized hcount hpos, fun u => ?_, hnum, hrun⟩
  by_cases hu : u = t
  · rw [hu, pc_self]
    exact hat
  · rw [pc_other hu]
    exact (hI.at' u).carry (hC u hu)

omit [DecidableEq τ] [Fintype τ] in
/-- A step that others do not see. -/
lemma carries_same {p : Pc α} (hh : m'.head = s.mem.head) (ht : m'.tail = s.mem.tail)
    (hx : m'.next = s.mem.next) (hd : m'.data = s.mem.data) : Carries s.mem m' e e p := by
  refine ⟨fun n _ => ?_, ?_, fun _ => ⟨ht, fun y hy => ?_⟩, ?_, fun _ => ⟨hh, fun y hy => ?_, fun h => ?_⟩,
    fun _ h => h⟩
  · rw [hx, hd]
    exact ⟨rfl, rfl⟩
  · rw [ht]
  · rw [hx]
    exact hy
  · rw [hh]
  · rw [hx, hd]
    exact ⟨hy, rfl⟩
  · rw [ht]
    exact h

/-- A step that calls nothing. -/
lemma numbered_other (hI : Inv s c e) (hev : ∀ x, .call x ∉ ev) :
    ∀ x, .call x ∈ s.log ++ ev → x.2 < s.mem.calls := by
  intro x hx
  exact hI.numbered x ((List.mem_append.mp hx).resolve_right (hev x))

/-- A step of a thread that only goes from one point to another, or counts. -/
lemma inv_quiet (hpc : s.pc t = p) (hI : Inv s c e) (hh : m'.head = s.mem.head)
    (ht : m'.tail = s.mem.tail) (hx : m'.next = s.mem.next) (hd : m'.data = s.mem.data)
    (hp : m'.pooled = s.mem.pooled) (ho : owns p' = owns p) (hn : p'.newNode = p.newNode)
    (hat : At m' e p') (hcount : m'.size + share p' = s.mem.size + share p)
    (hpos : s.mem.size + undoing p ≤ m'.size + undoing p' ∨ 0 ≤ m'.size)
    (hnum : ∀ x, .call x ∈ s.log ++ ev → x.2 < m'.calls)
    (hrun : Run (hist (after s t m' p' ev) c)) : Inv (after s t m' p' ev) c e := by
  subst hpc
  refine inv_after rfl hI (shape_same hI.toShape hh hx hp (ht ▸ hI.tail) ho hn)
    (fun u _ => carries_same hh ht hx hd) hat ?_ hpos hnum hrun
  rw [hcount]

omit [DecidableEq τ] [Fintype τ] in
/-- The chain behind `_head` and its node. -/
lemma chain_cons (hS : Shape s c e) : ∃ l, c = s.mem.head.addr :: l ∧ s.mem.next s.mem.head.addr = l.head? := by
  have hh := hS.head
  have hc := hS.chain
  rcases c with _ | ⟨a, l⟩
  · exact absurd hh.symm (Option.some_ne_none _)
  · obtain rfl := Option.some.inj hh
    exact ⟨l, rfl, hc.1⟩

/-- The compare-exchange of `_tail`, when what was read behind it is right. -/
lemma inv_cas (hpc : s.pc t = p) (hI : Inv s c e) (hs : Seen s.mem.tail b)
    (hw : b.same s.mem.tail = true → b.idx = s.mem.tail.idx) (hy : b.idx = s.mem.tail.idx → s.mem.next b.addr = some y)
    (hm : m' = { s.mem with tail := cas s.mem.tail b ⟨y, b.idx + 1⟩ })
    (ho : owns p' = owns p) (hn : p'.newNode = p.newNode) (hat : At m' e p')
    (hcount : share p' = share p) (hpos : undoing p' = undoing p)
    (hwait : waiting p' = waiting p) (hplaced : placed p' = placed p) :
    Inv (after s t m' p' []) c e := by
  have hnum : ∀ x, .call x ∈ s.log ++ [] → x.2 < m'.calls := by
    rw [hm]
    exact numbered_other hI (by simp)
  have hrun : Run (hist (after s t m' p' []) c) := by
    refine run_stutter hpc hI.run hwait hplaced ?_
    rw [hm]
  subst hpc
  rcases cas_cases ⟨y, b.idx + 1⟩ hs hw with ⟨rfl, hcas⟩ | hcas
  · have hnext := hy rfl
    have hyt : y ∈ c.tail := hI.chain.next_mem hI.tail hnext
    have htail : m'.tail = ⟨y, s.mem.tail.idx + 1⟩ := by rw [hm]; exact hcas
    obtain ⟨l, hc, -⟩ := chain_cons hI.toShape
    have hyh : y ≠ s.mem.head.addr := by
      have hnd := hI.nodup
      rw [hc] at hyt hnd
      rintro rfl
      exact (List.nodup_cons.mp hnd).1 hyt
    refine inv_after rfl hI (shape_same hI.toShape (by rw [hm]) (by rw [hm]) (by rw [hm]) ?_ ho hn) (fun u _ => ?_)
      hat (by rw [hm, hcount]) (.inl (by rw [hm, hpos])) hnum hrun
    · rw [htail]
      exact List.mem_of_mem_tail hyt
    · refine ⟨fun n _ => by rw [hm]; exact ⟨rfl, rfl⟩, by rw [htail]; exact Nat.le_succ _, fun hidx => ?_,
        by rw [hm], fun _ => ⟨by rw [hm], fun z hz => by rw [hm]; exact ⟨hz, rfl⟩, fun _ => ?_⟩,
        fun _ h => h⟩
      · rw [htail] at hidx
        exact absurd hidx (Nat.succ_ne_self _)
      · rw [htail]
        exact hyh
  · exact inv_quiet rfl hI (by rw [hm]) (by rw [hm]; exact hcas) (by rw [hm]) (by rw [hm]) (by rw [hm]) ho hn hat
      (by rw [hm, hcount]) (.inl (by rw [hm, hpos])) hnum hrun

omit [DecidableEq τ] [Fintype τ] in
/-- A store to a node that the thread has to itself. -/
lemma carries_own {u : τ} (hS : Shape s c e) (hn : (s.pc t).newNode = some n) (hu : u ≠ t)
    (hh : m'.head = s.mem.head) (ht : m'.tail = s.mem.tail)
    (hx : ∀ z, z ≠ n → m'.next z = s.mem.next z ∧ m'.data z = s.mem.data z) :
    Carries s.mem m' e e (s.pc u) := by
  have hnc : ∀ z ∈ c, z ≠ n := by
    rintro z hz rfl
    exact (hS.used z hz).2 t (newNode_owns hn)
  have hhead : s.mem.head.addr ∈ c := by
    obtain ⟨l, hc, -⟩ := chain_cons hS
    rw [hc]
    exact List.mem_cons_self
  refine ⟨fun z hz => hx z ?_, by rw [ht], fun _ => ⟨ht, fun y hy => ?_⟩, by rw [hh],
    fun _ => ⟨hh, fun y hy => ?_, fun h => by rw [ht]; exact h⟩, fun _ h => h⟩
  · rintro rfl
    exact hu (hS.apart u t z (newNode_owns hz) (newNode_owns hn))
  · rw [(hx _ (hnc _ hS.tail)).1]
    exact hy
  · have hyc : y ∈ c := List.mem_of_mem_tail (hS.chain.next_mem hhead hy)
    rw [(hx _ (hnc _ hhead)).1, (hx y (hnc y hyc)).2]
    exact ⟨hy, rfl⟩

lemma inv_setData (hI : Inv s c e) (hp : s.pc t = .setData n x) :
    Inv (after s t { s.mem with data := Function.update s.mem.data n x } (.setNext n x) []) c e := by
  have hn : (s.pc t).newNode = some n := by rw [hp]; rfl
  have hnc : n ∉ c := fun hm => (hI.used n hm).2 t (newNode_owns hn)
  refine inv_after hp hI (shape_same hI.toShape rfl rfl rfl hI.tail (by rw [hp]; rfl) hn.symm)
    (fun u hu => carries_own hI.toShape hn hu rfl rfl fun z hz => ⟨rfl, Function.update_of_ne hz _ _⟩)
    (Function.update_self _ _ _) rfl (.inl (le_refl _)) (numbered_other hI (by simp)) ?_
  refine run_stutter hp hI.run rfl rfl (List.map_congr_left fun z hz => ?_)
  refine Function.update_of_ne ?_ _ _
  rintro rfl
  exact hnc (List.mem_of_mem_tail hz)

lemma inv_setNext (hI : Inv s c e) (hp : s.pc t = .setNext n x) :
    Inv (after s t { s.mem with next := Function.update s.mem.next n none } (.loadTail n x) []) c e := by
  have hn : (s.pc t).newNode = some n := by rw [hp]; rfl
  have hat := hI.at' t
  rw [hp] at hat
  exact inv_after hp hI (shape_setNext hI.toShape hn rfl rfl rfl rfl rfl)
    (fun u hu => carries_own hI.toShape hn hu rfl rfl fun z hz => ⟨Function.update_of_ne hz _ _, rfl⟩)
    ⟨Function.update_self _ _ _, hat⟩ rfl (.inl (le_refl _)) (numbered_other hI (by simp))
    (run_stutter hp hI.run rfl rfl rfl)

/-- The link, when the node it goes behind is nobody's new node. -/
lemma inv_link (hI : Inv s c e) (hp : s.pc t = .link n x b) (hnone : s.mem.next b.addr = none)
    (hq : ∀ u, (s.pc u).newNode ≠ some b.addr) :
    Inv (after s t { s.mem with next := Function.update s.mem.next b.addr (some n) } (.swing n x b) [])
      (c ++ [n]) (n :: e) := by
  have hn : (s.pc t).newNode = some n := by rw [hp]; rfl
  have hat := hI.at' t
  rw [hp] at hat
  obtain ⟨⟨hnn, hdata⟩, hs, hb⟩ := hat
  have hbc : b.addr ∈ c := (hI.ends _ hb hnone).resolve_right fun ⟨u, hu⟩ => hq u hu
  obtain ⟨l, hl⟩ := hI.chain.last hbc hnone
  -- who has read behind a node of the chain has not read the end of it
  have hkeep : ∀ z y, s.mem.next z = some y →
      Function.update s.mem.next b.addr (some n) z = some y := by
    intro z y hz
    have hzb : z ≠ b.addr := by
      rintro rfl
      exact absurd (hz.symm.trans hnone) (Option.some_ne_none y)
    rw [Function.update_of_ne hzb]
    exact hz
  refine inv_after hp hI (shape_link hI.toShape hl hn hnn rfl rfl rfl rfl rfl) (fun u hu => ?_)
    ⟨hs, fun _ => Function.update_self _ _ _⟩ ?_ (.inl (le_refl _)) (numbered_other hI (by simp)) ?_
  · refine ⟨fun z hz => ⟨?_, rfl⟩, le_refl _, fun _ => ⟨rfl, hkeep _⟩, le_refl _,
      fun _ => ⟨rfl, fun y hy => ⟨hkeep _ y hy, rfl⟩, id⟩, fun _ => List.mem_cons_of_mem _⟩
    refine Function.update_of_ne ?_ _ _
    rintro rfl
    exact hq u hz
  · rw [List.length_append]
    change s.mem.size + 1 - ((c.length + 1 : ℕ) : ℤ) = s.mem.size + 0 - c.length
    omega
  · refine run_put hp hI.run rfl rfl rfl rfl ?_
    obtain ⟨l', hc, -⟩ := chain_cons hI.toShape
    rw [hc]
    simp [hdata]

lemma inv_take (hI : Inv s c e) (hp : s.pc t = .takeHead s.mem.head y x) :
    ∃ c', Inv (after s t { s.mem with head := ⟨y, s.mem.head.idx + 1⟩ } (.freeHead s.mem.head.addr) [.take x])
      c' e := by
  have hat := hI.at' t
  rw [hp] at hat
  obtain ⟨hnext, htail, hdata⟩ := hat.2 rfl
  obtain ⟨l, hc, hl⟩ := chain_cons hI.toShape
  rw [hnext] at hl
  obtain ⟨l', rfl⟩ : ∃ l', l = y :: l' := by
    rcases l with _ | ⟨z, l'⟩
    · exact absurd hl (Option.some_ne_none y)
    · exact ⟨l', by rw [Option.some.inj hl]⟩
  refine ⟨y :: l', inv_after hp hI (shape_take hI.toShape hc htail (by rw [hp]; rfl) rfl rfl rfl rfl rfl)
    (fun u hu => ?_) trivial ?_ (.inl (le_refl _)) (numbered_other hI (by simp)) ?_⟩
  · refine ⟨fun _ _ => ⟨rfl, rfl⟩, le_refl _, fun _ => ⟨rfl, fun _ h => h⟩, Nat.le_succ _, fun h => ?_,
      fun _ h => h⟩
    exact absurd h (Nat.succ_ne_self _)
  · rw [hc]
    change s.mem.size + 0 - ((l'.length + 1 : ℕ) : ℤ) = s.mem.size + 1 - ((l'.length + 1 + 1 : ℕ) : ℤ)
    omega
  · have hr := hI.run
    rw [hc] at hr
    exact run_take hp hr rfl rfl rfl hdata

omit [DecidableEq τ] in
/-- While a share of `_size` is taken, the queue is not empty. -/
lemma nonempty_of_reserved (hS : Sized s c) (h : reserved (s.pc t) = 1) : 2 ≤ c.length := by
  have htotal := hS.total
  have hnonneg := hS.nonneg
  have hle : reserved (s.pc t) + ∑ u, undoing (s.pc u) ≤ ∑ u, share (s.pc u) := by
    have h1 : ∑ u, share (s.pc u) = ∑ u, reserved (s.pc u) + ∑ u, (undoing (s.pc u) + unsized (s.pc u)) := by
      rw [← Finset.sum_add_distrib]
      exact Finset.sum_congr rfl fun u _ => Nat.add_assoc _ _ _
    have h2 : ∑ u, undoing (s.pc u) ≤ ∑ u, (undoing (s.pc u) + unsized (s.pc u)) :=
      Finset.sum_le_sum fun u _ => Nat.le_add_right _ _
    have h3 := le_sum (fun u => reserved (s.pc u)) t
    omega
  omega

variable {ch : Choice α}

/-- Nothing is added to the log. -/
lemma inv_silent (hpc : s.pc t = p) (hI : Inv s c e) (ho : owns p' = owns p)
    (hn : p'.newNode = p.newNode) (hat : At s.mem e p') (hshare : share p' = share p)
    (hundo : undoing p' = undoing p) (hw : waiting p' = waiting p) (hp : placed p' = placed p) :
    Inv (after s t s.mem p' []) c e :=
  inv_quiet hpc hI rfl rfl rfl rfl rfl ho hn hat (by rw [hshare]) (.inl (by rw [hundo]))
    (numbered_other hI (by simp)) (run_stutter hpc hI.run hw hp rfl)

omit [DecidableEq τ] [Fintype τ] in
/-- `_head` has changed when `Dequeue` looks at it again. -/
lemma recheck_differs {m : Mem α} (hat : At m e (.recheck b : Pc α)) (hw : noAlias m (.recheck b)) :
    b.same m.head = false :=
  Bool.eq_false_iff.mpr fun h => Nat.ne_of_lt hat (hw h)

/-- **A step of a thread keeps the invariant.** -/
lemma tstep_inv (hI : Inv s c e) (hp : s.pc t = p) (hw : noAlias s.mem p) (hq : linksQueue s p)
    (h : tstep s.mem p ch = some (m', p', ev)) : ∃ c' e', Inv (after s t m' p' ev) c' e' := by
  have hat := hI.at' t
  rw [hp] at hat
  have hsilent : ∀ {p''}, owns p'' = owns p → p''.newNode = p.newNode → At s.mem e p'' →
      share p'' = share p → undoing p'' = undoing p → waiting p'' = waiting p → placed p'' = placed p →
      ∃ c' e', Inv (after s t s.mem p'' []) c' e' :=
    fun h1 h2 h3 h4 h5 h6 h7 => ⟨c, e, inv_silent hp hI h1 h2 h3 h4 h5 h6 h7⟩
  revert h
  fun_cases tstep s.mem p ch <;>
    simp only [Option.some.injEq, Prod.mk.injEq, reduceCtorEq, false_implies, and_imp]
  all_goals rintro rfl rfl rfl
  case case1 v =>
    refine ⟨c, e, inv_quiet hp hI rfl rfl rfl rfl rfl rfl rfl trivial rfl (.inl (le_refl _))
      (fun x hx => ?_) (run_call hp hI.run (fun hm => ?_) rfl rfl rfl)⟩
    · rcases List.mem_append.mp hx with hx | hx
      · exact Nat.lt_succ_of_lt (hI.numbered x hx)
      · obtain rfl := Event.call.inj (List.mem_singleton.mp hx)
        exact Nat.lt_succ_self _
    · exact absurd (hI.numbered _ hm) (Nat.lt_irrefl _)
  case case2 => exact hsilent rfl rfl trivial rfl rfl rfl rfl
  case case3 x q hfree =>
    refine ⟨c, e, inv_after hp hI ?_ (fun u _ => carries_same rfl rfl rfl rfl) trivial rfl
      (.inl (le_refl _)) (numbered_other hI (by simp)) (run_stutter hp hI.run rfl rfl rfl)⟩
    exact shape_alloc hI.toShape hfree (by rw [hp]; rfl) rfl (by rw [hp]; rfl) rfl rfl rfl rfl
  case case5 n x => exact ⟨c, e, inv_setData hI hp⟩
  case case6 n x => exact ⟨c, e, inv_setNext hI hp⟩
  case case7 n x => exact hsilent rfl rfl ⟨hat, seen_refl _, hI.ever hI.tail⟩ rfl rfl rfl rfl
  case case8 n x b _ => exact hsilent rfl rfl hat rfl rfl rfl rfl
  case case9 n x b y hy => exact hsilent rfl rfl ⟨hat.1, hat.2.1, fun _ => hy⟩ rfl rfl rfl rfl
  case case10 n x b hnone => exact ⟨_, _, inv_link hI hp hnone (hq hnone)⟩
  case case11 n x b _ => exact hsilent rfl rfl hat.1 rfl rfl rfl rfl
  case case12 n x b y =>
    exact ⟨c, e, inv_cas hp hI hat.2.1 hw hat.2.2 rfl rfl rfl hat.1 rfl rfl rfl rfl⟩
  case case13 n x b =>
    exact ⟨c, e, inv_cas hp hI hat.1 hw hat.2 rfl rfl rfl trivial rfl rfl rfl rfl⟩
  case case14 x =>
    refine ⟨c, e, inv_quiet hp hI rfl rfl rfl rfl rfl rfl rfl trivial ?_ (.inl ?_)
      (numbered_other hI (by simp)) (run_ret hp hI.run rfl rfl rfl rfl)⟩
    · change s.mem.size + 1 + 0 = s.mem.size + 1
      omega
    · change s.mem.size + 0 ≤ s.mem.size + 1 + 0
      omega
  case case15 _ =>
    refine ⟨c, e, inv_quiet hp hI rfl rfl rfl rfl rfl rfl rfl trivial ?_ (.inl ?_)
      (numbered_other hI (by simp)) (run_stutter hp hI.run rfl rfl rfl)⟩
    · change s.mem.size - 1 + 1 = s.mem.size + 0
      omega
    · change s.mem.size + 0 ≤ s.mem.size - 1 + 1
      omega
  case case16 hpos =>
    refine ⟨c, e, inv_quiet hp hI rfl rfl rfl rfl rfl rfl rfl trivial ?_ (.inr ?_)
      (numbered_other hI (by simp)) (run_stutter hp hI.run rfl rfl rfl)⟩
    · change s.mem.size - 1 + 1 = s.mem.size + 0
      omega
    · exact not_lt.mp hpos
  case case17 =>
    refine ⟨c, e, inv_quiet hp hI rfl rfl rfl rfl rfl rfl rfl trivial ?_ (.inl ?_)
      (numbered_other hI (by simp)) (run_miss hp hI.run rfl rfl rfl)⟩
    · change s.mem.size + 1 + 0 = s.mem.size + 1
      omega
    · change s.mem.size + 1 ≤ s.mem.size + 1 + 0
      omega
  case case18 => exact hsilent rfl rfl (seen_refl _) rfl rfl rfl rfl
  case case19 b hnone =>
    refine hsilent rfl rfl (lt_of_le_of_ne hat.1 fun hidx => ?_) rfl rfl rfl rfl
    -- the head itself leads on, since the queue is not empty
    obtain ⟨l, hc, hl⟩ := chain_cons hI.toShape
    have hlen := nonempty_of_reserved (t := t) hI.toSized (by rw [hp]; rfl)
    rw [hat.2 hidx, hl] at hnone
    rw [hc, List.head?_eq_none_iff.mp hnone] at hlen
    exact absurd hlen (Nat.not_succ_le_self 1)
  case case20 b y hy => exact hsilent rfl rfl ⟨hat, fun _ => hy⟩ rfl rfl rfl rfl
  case case21 b hb => exact absurd (hb.symm.trans (recheck_differs hat hw)) Bool.false_ne_true.symm
  case case22 b _ => exact hsilent rfl rfl trivial rfl rfl rfl rfl
  case case23 b y =>
    exact hsilent rfl rfl ⟨hat.1, seen_refl _, fun hidx => ⟨hat.2 hidx, em _⟩⟩ rfl rfl rfl rfl
  case case24 b y bt hnone =>
    refine hsilent rfl rfl ⟨hat.1, fun hidx => ?_⟩ rfl rfl rfl rfl
    obtain ⟨hy, hor⟩ := hat.2.2 hidx
    refine ⟨hy, hor.resolve_left fun hbt => ?_⟩
    rw [hat.1.2 hidx, ← hbt, hnone] at hy
    exact absurd hy.symm (Option.some_ne_none y)
  case case25 b y bt z hz => exact hsilent rfl rfl ⟨hat.2.1, fun _ => hz⟩ rfl rfl rfl rfl
  case case26 bt y =>
    exact ⟨c, e, inv_cas hp hI hat.1 hw hat.2 rfl rfl rfl trivial rfl rfl rfl rfl⟩
  case case27 b y =>
    refine hsilent rfl rfl ⟨hat.1, fun hidx => ?_⟩ rfl rfl rfl rfl
    exact ⟨(hat.2 hidx).1, (hat.2 hidx).2, rfl⟩
  case case28 b y x hb =>
    obtain rfl := hat.1.2 (hw hb)
    obtain ⟨c', hI'⟩ := inv_take hI hp
    exact ⟨c', e, hI'⟩
  case case29 b y x _ => exact hsilent rfl rfl trivial rfl rfl rfl rfl
  case case30 a =>
    refine ⟨c, e, inv_after hp hI ?_ (fun u _ => carries_same rfl rfl rfl rfl) trivial rfl
      (.inl (le_refl _)) (numbered_other hI (by simp)) (run_stutter hp hI.run rfl rfl rfl)⟩
    exact shape_free hI.toShape (by rw [hp]; rfl) (by rw [hp]; rfl) rfl rfl rfl rfl rfl

/-- The queue as it is constructed. -/
lemma construct_inv (d : ℕ) (next : ℕ → Option ℕ) (data : ℕ → Item α) :
    Inv (construct d next data : Queue τ α) [d] [d] := by
  have hown : ∀ t : τ, owns ((construct d next data : Queue τ α).pc t) = none := fun _ => rfl
  refine ⟨⟨rfl, List.nodup_singleton d, ⟨Function.update_self _ _ _, trivial⟩, List.mem_singleton_self d,
    fun x hx => ?_, fun t x hx => ?_, fun t u x hx => ?_, fun _ h => h, fun x hx _ => .inl hx⟩,
    ⟨?_, ?_⟩, fun _ => trivial, fun x hx => ?_, .refl⟩
  · obtain rfl := List.mem_singleton.mp hx
    refine ⟨decide_eq_false fun h => h rfl, fun t => ?_⟩
    rw [hown]
    exact (Option.some_ne_none x).symm
  · exact absurd ((hown t).symm.trans hx) (Option.some_ne_none x).symm
  · exact absurd ((hown t).symm.trans hx) (Option.some_ne_none x).symm
  · simp [construct, share, reserved, undoing, unsized, placed]
  · simp [construct, undoing]
  · exact absurd hx List.not_mem_nil

variable {d : ℕ} {next : ℕ → Option ℕ} {data : ℕ → Item α}

/-- **The invariant of every run.** -/
theorem reach_inv (h : Reach qstep sane (construct d next data) s) : ∃ c e, Inv s c e := by
  induction h with
  | init => exact ⟨_, _, construct_inv d next data⟩
  | @step s s' a _ ho hs ih =>
    obtain ⟨c, e, hI⟩ := ih
    simp only [qstep, Option.map_eq_some_iff] at hs
    obtain ⟨⟨m', p', ev⟩, hs, rfl⟩ := hs
    exact tstep_inv hI rfl (noAlias_of_noWrap (hI.at' a.1) ho.1) ho.2 hs

end LoginServerChat.QueueRun
