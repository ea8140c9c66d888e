import LoginServerChat.LockFreeStack
import LoginServerChat.Places

/-!
The invariant of `CLockFreeStack`. Each node is in one place: in the pool, on one of the stacks, or
in the hands of one thread. The nodes of a stack lead down to its dummy node, and what a thread has
read of a stack is right as long as the count of its removals has not gone on.
-/

namespace LoginServerChat.StackInv

open LifoHistory LinkedChain LockFreeStack Places Runs StaleReads

variable {τ ι α : Type*}

/-- Where a node is. -/
inductive Place (τ ι : Type*)
  | away
  | dummy
  | pool
  | stack (i : ι)
  | held (t : τ)

/-- The node that a thread has to itself. -/
def owns : Pc ι α → Option ℕ
  | .setData _ n _ | .loadTop _ n _ | .setNext _ n _ _ | .casTop _ n _ _ => some n
  | .readData _ a | .free _ a _ => some a
  | _ => none

/-- What a thread has popped and not returned. -/
def pending (m : Mem ι α) : Pc ι α → List (ι × α)
  | .readData i a => [(i, m.data a)]
  | .free i _ x => [(i, x)]
  | _ => []

/-- What holds of the memory when a thread is at a point. -/
def At (b : Boot ι α) (m : Mem ι α) (c : ι → List ℕ) : Pc ι α → Prop
  | .loadTop _ n x | .setNext _ n x _ => m.data n = x
  | .casTop _ n x a => m.data n = x ∧ m.next n = some a
  | .loadPopTop i v => v ≤ m.uniqIdx i
  | .loadNext i v a =>
    Seen (c i ++ [b.dummy i]) (m.uniqIdx i) v a ∧ (a ≠ b.dummy i → m.next a ≠ none)
  | .casBoth i v a y => Read m.next (c i ++ [b.dummy i]) (m.uniqIdx i) v a (some y)
  | .free _ a x => m.data a = x
  | _ => True

variable [DecidableEq τ]

/-- The nodes of the stacks, `c`, and where the nodes are. -/
structure Inv (b : Boot ι α) (s : Stacks τ ι α) (c : ι → List ℕ) (pl : ℕ → Place τ ι) : Prop where
  chain : ∀ i, Chain s.mem.next (c i ++ [b.dummy i])
  top : ∀ i, (c i ++ [b.dummy i]).head? = some (s.mem.top i)
  nodup : ∀ i, (c i).Nodup
  stack : ∀ i q, q ∈ c i ↔ pl q = .stack i
  dummy : ∀ i, pl (b.dummy i) = .dummy
  pool : ∀ q, s.mem.pooled q = true ↔ pl q = .pool
  held : ∀ t q, owns (s.pc t) = some q ↔ pl q = .held t
  at' : ∀ t, At b s.mem c (s.pc t)
  lifo : ∀ i, Lifo i s.log ((c i).map s.mem.data)
  rets : ∀ t, popped t s.log = returned t s.log ++ pending s.mem (s.pc t)

/-! ### What another thread has read -/

/-- What a step of a thread leaves to thread `u`. -/
structure Carries (b : Boot ι α) (m m' : Mem ι α) (c c' : ι → List ℕ) (p : Pc ι α) : Prop where
  own : ∀ q, owns p = some q → m'.next q = m.next q ∧ m'.data q = m.data q
  grows : ∀ i, Grows m.next m'.next (c i ++ [b.dummy i]) (c' i ++ [b.dummy i]) (m.uniqIdx i) (m'.uniqIdx i)
  leads : ∀ q, m.next q ≠ none → m'.next q ≠ none

variable {b : Boot ι α} {m m' : Mem ι α} {c c' : ι → List ℕ} {p p' : Pc ι α}

lemma At.carry (h : At b m c p) (hC : Carries b m m' c c' p) : At b m' c' p := by
  cases p
  case loadTop i n x => exact (hC.own n rfl).2.trans h
  case setNext i n x a => exact (hC.own n rfl).2.trans h
  case casTop i n x a =>
    obtain ⟨h1, h2⟩ := hC.own n rfl
    exact ⟨h2.trans h.1, h1.trans h.2⟩
  case loadPopTop i v => exact Nat.le_trans h (hC.grows i).le
  case loadNext i v a => exact ⟨h.1.grow (hC.grows i), fun ha => hC.leads a (h.2 ha)⟩
  case casBoth i v a y => exact Read.grow h (hC.grows i)
  case free i a x => exact (hC.own a rfl).2.trans h
  all_goals trivial

lemma Carries.pending (hC : Carries b m m' c c' p) : pending m' p = pending m p := by
  cases p
  case readData i a => rw [StackInv.pending, StackInv.pending, (hC.own a rfl).2]
  all_goals rfl

/-! ### The state after a step -/

variable {s : Stacks τ ι α} {t : τ} {pl pl' : ℕ → Place τ ι} {ev : List (Event τ ι α)} {i : ι} {n a y v : ℕ}
  {x : α}

/-- The stacks after a step of thread `t`. -/
def after (s : Stacks τ ι α) (t : τ) (m' : Mem ι α) (p' : Pc ι α) (ev : List (Event τ ι α)) :
    Stacks τ ι α := ⟨m', Function.update s.pc t p', s.log ++ ev⟩

lemma pc_self : (after s t m' p' ev).pc t = p' := Function.update_self _ _ _

lemma pc_other {u : τ} (hu : u ≠ t) : (after s t m' p' ev).pc u = s.pc u :=
  Function.update_of_ne hu _ _

/-- What a step writes of the nodes, and what it does to the stacks. -/
structure Writes (b : Boot ι α) (m m' : Mem ι α) (c c' : ι → List ℕ) (pl : ℕ → Place τ ι) (t : τ) : Prop where
  outside : ∀ q, pl q ≠ .held t → m'.next q = m.next q ∧ m'.data q = m.data q
  grows : ∀ i, Grows m.next m'.next (c i ++ [b.dummy i]) (c' i ++ [b.dummy i]) (m.uniqIdx i) (m'.uniqIdx i)
  leads : ∀ q, m.next q ≠ none → m'.next q ≠ none

omit [DecidableEq τ] in
lemma not_held {p : Place τ ι} {u : τ} (h : p = .held u) (hu : u ≠ t) : p ≠ .held t := by
  rintro rfl
  exact hu (Place.held.inj h).symm

/-- The other threads have what they had, and know what they knew. -/
lemma others (hI : Inv b s c pl) (hw : Writes b s.mem m' c c' pl t)
    (hpl : ∀ u ≠ t, ∀ q, pl' q = .held u ↔ pl q = .held u) {u : τ} (hu : u ≠ t)
    (hev : popped u ev = [] ∧ returned u ev = []) :
    (∀ q, owns ((after s t m' p' ev).pc u) = some q ↔ pl' q = .held u) ∧
    At b m' c' ((after s t m' p' ev).pc u) ∧
    popped u (s.log ++ ev) = returned u (s.log ++ ev) ++ pending m' ((after s t m' p' ev).pc u) := by
  have hC : Carries b s.mem m' c c' (s.pc u) :=
    ⟨fun q hq => hw.outside q (not_held ((hI.held u q).mp hq) hu), hw.grows, hw.leads⟩
  rw [pc_other hu]
  refine ⟨fun q => (hI.held u q).trans (hpl u hu q).symm, (hI.at' u).carry hC, ?_⟩
  rw [popped_append, returned_append, hev.1, hev.2, List.append_nil, List.append_nil, hC.pending]
  exact hI.rets u

/-- The invariant after a step of thread `t`, from what it does to the stacks and to that thread. -/
lemma inv_after (hI : Inv b s c pl) (hw : Writes b s.mem m' c c' pl t)
    (hpl : ∀ u ≠ t, ∀ q, pl' q = .held u ↔ pl q = .held u)
    (hev : ∀ u ≠ t, popped u ev = [] ∧ returned u ev = [])
    (hchain : ∀ i, Chain m'.next (c' i ++ [b.dummy i]))
    (htop : ∀ i, (c' i ++ [b.dummy i]).head? = some (m'.top i)) (hnodup : ∀ i, (c' i).Nodup)
    (hstack : ∀ i q, q ∈ c' i ↔ pl' q = .stack i) (hdummy : ∀ i, pl' (b.dummy i) = .dummy)
    (hpool : ∀ q, m'.pooled q = true ↔ pl' q = .pool) (hheld : ∀ q, owns p' = some q ↔ pl' q = .held t)
    (hat : At b m' c' p') (hlifo : ∀ i, Lifo i (s.log ++ ev) ((c' i).map m'.data))
    (hrets : popped t (s.log ++ ev) = returned t (s.log ++ ev) ++ pending m' p') :
    Inv b (after s t m' p' ev) c' pl' := by
  refine ⟨hchain, htop, hnodup, hstack, hdummy, hpool, fun u q => ?_, fun u => ?_, hlifo, fun u => ?_⟩
  · by_cases hu : u = t
    · rw [hu, pc_self]
      exact hheld q
    · exact (others hI hw hpl hu (hev u hu)).1 q
  · by_cases hu : u = t
    · rw [hu, pc_self]
      exact hat
    · exact (others hI hw hpl hu (hev u hu)).2.1
  · by_cases hu : u = t
    · rw [hu, pc_self]
      exact hrets
    · exact (others hI hw hpl hu (hev u hu)).2.2

/-! ### The steps -/

/-- The nodes stay where they are. -/
lemma inv_stay (hI : Inv b s c pl) (htop : m'.top = s.mem.top) (hidx : m'.uniqIdx = s.mem.uniqIdx)
    (hpool : m'.pooled = s.mem.pooled)
    (hout : ∀ q, pl q ≠ .held t → m'.next q = s.mem.next q ∧ m'.data q = s.mem.data q)
    (hleads : ∀ q, s.mem.next q ≠ none → m'.next q ≠ none) (hown : owns p' = owns (s.pc t))
    (hat : At b m' c p') (hev : ev = [] ∨ ∃ i, ev = [.miss t i])
    (hpend : pending m' p' = pending s.mem (s.pc t)) : Inv b (after s t m' p' ev) c pl := by
  have hquiet : (∀ u, popped u ev = []) ∧ (∀ u, returned u ev = []) ∧
      ∀ i l, Lifo i s.log l → Lifo i (s.log ++ ev) l := by
    rcases hev with rfl | ⟨j, rfl⟩
    · exact ⟨fun _ => rfl, fun _ => rfl, fun i l h => by rwa [List.append_nil]⟩
    · exact ⟨fun _ => rfl, fun _ => rfl, fun i l h => .other (fun h => h) h⟩
  have hin : ∀ i, ∀ q ∈ c i ++ [b.dummy i], pl q ≠ .held t := by
    intro i q hq h
    rcases List.mem_append.mp hq with hq | hq
    · rw [(hI.stack i q).mp hq] at h
      exact nomatch h
    · rw [List.mem_singleton.mp hq, hI.dummy i] at h
      exact nomatch h
  refine inv_after hI ⟨hout, fun i => ?_, hleads⟩ (fun _ _ _ => Iff.rfl)
    (fun u _ => ⟨hquiet.1 u, hquiet.2.1 u⟩) (fun i => ?_) (fun i => htop ▸ hI.top i) hI.nodup hI.stack hI.dummy
    (fun q => hpool ▸ hI.pool q) (fun q => hown ▸ hI.held t q) hat (fun i => ?_) ?_
  · rw [hidx]
    exact .rest fun q hq => (hout q (hin i q hq)).1
  · exact (hI.chain i).congr fun q hq => (hout q (hin i q hq)).1
  · have hmap : (c i).map m'.data = (c i).map s.mem.data :=
      List.map_congr_left fun q hq => (hout q (hin i q (List.mem_append_left _ hq))).2
    rw [hmap]
    exact hquiet.2.2 i _ (hI.lifo i)
  · rw [popped_append, returned_append, hquiet.1 t, hquiet.2.1 t, List.append_nil, List.append_nil, hpend]
    exact hI.rets t

/-- A step that changes nothing but the point the thread is at. -/
lemma inv_quiet (hI : Inv b s c pl) (hown : owns p' = owns (s.pc t)) (hat : At b s.mem c p')
    (hev : ev = [] ∨ ∃ i, ev = [.miss t i]) (hpend : pending s.mem p' = pending s.mem (s.pc t)) :
    Inv b (after s t s.mem p' ev) c pl :=
  inv_stay hI rfl rfl rfl (fun _ _ => ⟨rfl, rfl⟩) (fun _ h => h) hown hat hev hpend

/-- What a thread that has nothing has, once node `n` is its own. -/
lemma held_own (hI : Inv b s c pl) (h0 : owns (s.pc t) = none) (h1 : owns p' = some n) (q : ℕ) :
    owns p' = some q ↔ Function.update pl n (.held t) q = .held t := by
  have hno : pl q ≠ .held t := by
    rw [ne_eq, ← hI.held, h0]
    exact nofun
  rw [arrived, h1, Option.some.injEq, eq_comm]
  exact (or_iff_left hno).symm

/-- What a thread has, once it has given its node away. -/
lemma held_none (hI : Inv b s c pl) (h0 : owns (s.pc t) = some n) (h1 : owns p' = none) {P : Place τ ι}
    (hP : P ≠ .held t) (q : ℕ) : owns p' = some q ↔ Function.update pl n P q = .held t := by
  rw [departed hP, h1, ← hI.held, h0, Option.some.injEq]
  exact ⟨fun h => (nomatch h), fun h => absurd h.2.symm h.1⟩

/-- `Alloc`. -/
lemma inv_alloc (hI : Inv b s c pl) (hpc : s.pc t = .alloc i x) (hn : s.mem.pooled n = true) :
    Inv b (after s t { s.mem with pooled := Function.update s.mem.pooled n false } (.setData i n x) [])
      c (Function.update pl n (.held t)) := by
  have hpn := (hI.pool n).mp hn
  have h0 : owns (s.pc t) = none := by
    rw [hpc]
    rfl
  refine inv_after hI ⟨fun _ _ => ⟨rfl, rfl⟩, fun i => .rest fun _ _ => rfl, fun _ h => h⟩
    (fun u hu q => moved hpn (by nofun) (fun h => hu (Place.held.inj h).symm) q)
    (fun _ _ => ⟨rfl, rfl⟩) hI.chain hI.top hI.nodup (fun j q => ?_) (fun j => ?_) (fun q => ?_)
    (held_own hI h0 rfl) trivial (fun j => by rw [List.append_nil]; exact hI.lifo j) ?_
  · exact (hI.stack j q).trans (moved hpn (by nofun) (by nofun) q).symm
  · exact (moved hpn (by nofun) (by nofun) _).mpr (hI.dummy j)
  · refine Iff.trans ?_ (departed (by nofun) q).symm
    change Function.update s.mem.pooled n false q = true ↔ _
    by_cases hq : q = n
    · simp [hq]
    · rw [Function.update_of_ne hq, hI.pool q]
      exact ⟨fun h => ⟨hq, h⟩, fun h => h.2⟩
  · have := hI.rets t
    rw [hpc] at this
    rw [List.append_nil]
    exact this

/-- The exchange of `Push`. -/
lemma inv_push [DecidableEq ι] (hI : Inv b s c pl) (hpc : s.pc t = .casTop i n x a) (ha : s.mem.top i = a) :
    Inv b (after s t { s.mem with top := Function.update s.mem.top i n } .idle [.push t i x])
      (Function.update c i (n :: c i)) (Function.update pl n (.stack i)) := by
  have h0 : owns (s.pc t) = some n := by
    rw [hpc]
    rfl
  have hpn := (hI.held t n).mp h0
  have hat := hI.at' t
  rw [hpc] at hat
  obtain ⟨hdata, hnext⟩ := hat
  have hnc : ∀ j, n ∉ c j := by
    intro j hj
    rw [(hI.stack j n).mp hj] at hpn
    exact nomatch hpn
  refine inv_after hI ⟨fun _ _ => ⟨rfl, rfl⟩, fun j => ?_, fun _ h => h⟩
    (fun u hu q => moved hpn (fun h => hu (Place.held.inj h).symm) (by nofun) q)
    (fun u hu => ⟨rfl, rfl⟩) (fun j => ?_) (fun j => ?_) (fun j => ?_) (fun j q => ?_)
    (fun j => ?_) (fun q => ?_) (held_none hI h0 rfl (by nofun)) trivial (fun j => ?_) ?_
  · by_cases hj : j = i
    · rw [hj, Function.update_self]
      exact .push fun _ _ => rfl
    · rw [Function.update_of_ne hj]
      exact .rest fun _ _ => rfl
  · by_cases hj : j = i
    · rw [hj, Function.update_self, List.cons_append]
      refine ⟨?_, hI.chain i⟩
      rw [hI.top i, ha]
      exact hnext
    · rw [Function.update_of_ne hj]
      exact hI.chain j
  · by_cases hj : j = i
    · rw [hj, Function.update_self, List.cons_append]
      change _ = some (Function.update s.mem.top i n i)
      rw [Function.update_self]
      rfl
    · rw [Function.update_of_ne hj]
      change _ = some (Function.update s.mem.top i n j)
      rw [Function.update_of_ne hj]
      exact hI.top j
  · by_cases hj : j = i
    · rw [hj, Function.update_self]
      exact List.nodup_cons.mpr ⟨hnc i, hI.nodup i⟩
    · rw [Function.update_of_ne hj]
      exact hI.nodup j
  · by_cases hj : j = i
    · rw [hj, Function.update_self, arrived, List.mem_cons, hI.stack]
    · rw [Function.update_of_ne hj]
      exact (hI.stack j q).trans
        (moved hpn (by nofun) (fun h => hj (Place.stack.inj h).symm) q).symm
  · exact (moved hpn (by nofun) (by nofun) _).mpr (hI.dummy j)
  · exact (hI.pool q).trans (moved hpn (by nofun) (by nofun) q).symm
  · by_cases hj : j = i
    · rw [hj, Function.update_self, List.map_cons, hdata]
      exact .push t x (hI.lifo i)
    · rw [Function.update_of_ne hj]
      exact .other (fun h => hj (show i = j from h).symm) (hI.lifo j)
  · have := hI.rets t
    rw [hpc] at this
    rw [popped_append, returned_append]
    exact (List.append_nil _).trans (this.trans (by rw [List.append_assoc]; rfl))

/-- The exchange of `Pop`. -/
lemma inv_pop [DecidableEq ι] (hI : Inv b s c pl) (hpc : s.pc t = .casBoth i v a y) (ha : s.mem.top i = a)
    (hv : v = s.mem.uniqIdx i) : ∃ r, c i = a :: r ∧
    Inv b (after s t { s.mem with
        top := Function.update s.mem.top i y
        uniqIdx := Function.update s.mem.uniqIdx i (v + 1) } (.readData i a) [.pop t i (s.mem.data a)])
      (Function.update c i r) (Function.update pl a (.held t)) := by
  have h0 : owns (s.pc t) = none := by
    rw [hpc]
    rfl
  have hat := hI.at' t
  rw [hpc] at hat
  obtain ⟨l, hl, hy⟩ := Read.exchange hat (hI.chain i) hv (ha ▸ hI.top i)
  -- the node leads on, so it is not the dummy node
  obtain ⟨r, hr, rfl⟩ : ∃ r, c i = a :: r ∧ l = r ++ [b.dummy i] := by
    match hc : c i with
    | [] =>
      rw [hc, List.nil_append] at hl
      rw [← (List.cons.inj hl).2] at hy
      exact absurd hy.symm (Option.some_ne_none y)
    | z :: r =>
      rw [hc, List.cons_append] at hl
      obtain ⟨rfl, rfl⟩ := List.cons.inj hl
      exact ⟨r, rfl, rfl⟩
  have hpa : pl a = .stack i := (hI.stack i a).mp (by rw [hr]; exact List.mem_cons_self)
  have hnd := hI.nodup i
  rw [hr, List.nodup_cons] at hnd
  have hch := hI.chain i
  rw [hr, List.cons_append] at hch
  refine ⟨r, hr, inv_after hI ⟨fun _ _ => ⟨rfl, rfl⟩, fun j => ?_, fun _ h => h⟩
    (fun u hu q => moved hpa (by nofun) (fun h => hu (Place.held.inj h).symm) q)
    (fun u hu => ?_) (fun j => ?_) (fun j => ?_) (fun j => ?_) (fun j q => ?_) (fun j => ?_) (fun q => ?_)
    (held_own hI h0 rfl) trivial (fun j => ?_) ?_⟩
  · by_cases hj : j = i
    · rw [hj, Function.update_self]
      change Grows _ _ _ _ _ (Function.update s.mem.uniqIdx i (v + 1) i)
      rw [Function.update_self, hv]
      exact .pop
    · rw [Function.update_of_ne hj]
      change Grows _ _ _ _ _ (Function.update s.mem.uniqIdx i (v + 1) j)
      rw [Function.update_of_ne hj]
      exact .rest fun _ _ => rfl
  · exact ⟨by simp [popped, Ne.symm hu], rfl⟩
  · by_cases hj : j = i
    · rw [hj, Function.update_self]
      exact hch.2
    · rw [Function.update_of_ne hj]
      exact hI.chain j
  · by_cases hj : j = i
    · rw [hj, Function.update_self]
      change _ = some (Function.update s.mem.top i y i)
      rw [Function.update_self]
      exact hy
    · rw [Function.update_of_ne hj]
      change _ = some (Function.update s.mem.top i y j)
      rw [Function.update_of_ne hj]
      exact hI.top j
  · by_cases hj : j = i
    · rw [hj, Function.update_self]
      exact hnd.2
    · rw [Function.update_of_ne hj]
      exact hI.nodup j
  · by_cases hj : j = i
    · rw [hj, Function.update_self]
      refine Iff.trans ?_ (departed (by nofun) q).symm
      rw [← hI.stack, hr, List.mem_cons]
      exact ⟨fun h => ⟨fun hq => hnd.1 (hq ▸ h), .inr h⟩, fun h => h.2.resolve_left h.1⟩
    · rw [Function.update_of_ne hj]
      exact (hI.stack j q).trans
        (moved hpa (fun h => hj (Place.stack.inj h).symm) (by nofun) q).symm
  · exact (moved hpa (by nofun) (by nofun) _).mpr (hI.dummy j)
  · exact (hI.pool q).trans (moved hpa (by nofun) (by nofun) q).symm
  · by_cases hj : j = i
    · rw [hj, Function.update_self]
      have := hI.lifo i
      rw [hr, List.map_cons] at this
      exact .pop t this
    · rw [Function.update_of_ne hj]
      exact .other (fun h => hj (show i = j from h).symm) (hI.lifo j)
  · have := hI.rets t
    rw [hpc] at this
    rw [popped_append, returned_append, this]
    simp [popped, returned, pending]

/-- `Free`. -/
lemma inv_free (hI : Inv b s c pl) (hpc : s.pc t = .free i a x) :
    Inv b (after s t { s.mem with pooled := Function.update s.mem.pooled a true } .idle [.ret t i x])
      c (Function.update pl a .pool) := by
  have h0 : owns (s.pc t) = some a := by
    rw [hpc]
    rfl
  have hpa := (hI.held t a).mp h0
  refine inv_after hI ⟨fun _ _ => ⟨rfl, rfl⟩, fun i => .rest fun _ _ => rfl, fun _ h => h⟩
    (fun u hu q => moved hpa (fun h => hu (Place.held.inj h).symm) (by nofun) q)
    (fun u hu => ⟨rfl, ?_⟩) hI.chain hI.top hI.nodup (fun j q => ?_) (fun j => ?_) (fun q => ?_)
    (held_none hI h0 rfl (by nofun)) trivial (fun j => .other (fun h => h) (hI.lifo j)) ?_
  · simp [returned, Ne.symm hu]
  · exact (hI.stack j q).trans (moved hpa (by nofun) (by nofun) q).symm
  · exact (moved hpa (by nofun) (by nofun) _).mpr (hI.dummy j)
  · refine Iff.trans ?_ (arrived q).symm
    change Function.update s.mem.pooled a true q = true ↔ _
    by_cases hq : q = a
    · simp [hq]
    · rw [Function.update_of_ne hq, hI.pool q]
      exact ⟨.inr, fun h => h.resolve_left hq⟩
  · have := hI.rets t
    rw [hpc] at this
    rw [popped_append, returned_append, this]
    simp [popped, returned, pending]

end LoginServerChat.StackInv
