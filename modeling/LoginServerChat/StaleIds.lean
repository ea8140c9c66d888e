import LoginServerChat.FreeStack
import LoginServerChat.SlotLive
import LoginServerChat.SendPath

/-!
Session ids. An id is the number of its accept, which comes round after `2 ^ 48 - 1` accepts,
above the index of its slot. `EnterSession` is to refuse an id whose session is gone, and a
session that it lets in is to stay until `LeaveSession`, or until the job that `SendPacket`
posts is handled.
-/

namespace LoginServerChat.StaleIds

open NetPacket NetState NetStep SlotStep SlotView SlotRun SlotRefs SlotPhase SlotLive SlotRelease
  SendPath AcceptBooks FreeStack Runs

/-! ### Numbers and ids -/

/-- After how many accepts `_sessionCnt` comes round. -/
def period : ℕ := 2 ^ 48 - 1

/-- `_sessionCnt` after the `n`-th accept. -/
def cntAt (n : ℕ) : BitVec 64 := nextCnt^[n] 0

lemma cntAt_succ (n : ℕ) : cntAt (n + 1) = nextCnt (cntAt n) := Function.iterate_succ_apply' _ _ _

lemma nextCnt_toNat {x : BitVec 64} (h : x.toNat ≤ period) :
    (nextCnt x).toNat = if x.toNat = period then 1 else x.toNat + 1 := by
  have hadd : (x + 1).toNat = x.toNat + 1 := by
    rw [BitVec.toNat_add, show (1 : BitVec 64).toNat = 1 from rfl, Nat.mod_eq_of_lt]
    rw [period] at h
    omega
  have hgt : x + 1 > 0xFFFFFFFFFFFF#64 ↔ x.toNat = period := by
    rw [gt_iff_lt, BitVec.lt_def, hadd]
    simp only [period, BitVec.toNat_ofNat] at h ⊢
    omega
  unfold nextCnt
  by_cases hx : x.toNat = period
  · rw [if_pos (hgt.mpr hx), if_pos hx]
    rfl
  · rw [if_neg (mt hgt.mp hx), if_neg hx, hadd]

/-- The first number is 1, and 1 follows the largest. -/
lemma cntAt_toNat (n : ℕ) : (cntAt (n + 1)).toNat = n % period + 1 := by
  have hpos : 0 < period := by decide
  induction n with
  | zero => decide
  | succ n ih =>
    have hlt := Nat.mod_lt n hpos
    rw [cntAt_succ, nextCnt_toNat (by omega), ih]
    rw [Nat.add_mod, Nat.mod_eq_of_lt (a := 1) (by decide)]
    by_cases hn : n % period + 1 = period
    · rw [if_pos hn, hn, Nat.mod_self]
    · rw [if_neg hn, Nat.mod_eq_of_lt (by omega : n % period + 1 < period)]

/-- **Numbers do not repeat** within a period. -/
lemma cntAt_inj {n m : ℕ} (hn : 0 < n) (hle : n ≤ m) (hm : m < n + period)
    (h : cntAt n = cntAt m) : n = m := by
  obtain ⟨n, rfl⟩ := Nat.exists_eq_add_of_lt hn
  obtain ⟨m, rfl⟩ := Nat.exists_eq_add_of_lt (hn.trans_le hle)
  have h' := congrArg BitVec.toNat h
  simp only [Nat.zero_add, cntAt_toNat, Nat.add_right_cancel_iff] at h'
  have hdvd : period ∣ m - n := (Nat.modEq_iff_dvd' (by omega)).mp h'
  have := Nat.eq_zero_of_dvd_of_lt hdvd (by omega)
  omega

lemma cntAt_le (n : ℕ) : (cntAt n).toNat ≤ period := by
  cases n with
  | zero => decide
  | succ n =>
    have := Nat.mod_lt n (by decide : 0 < period)
    rw [cntAt_toNat]
    omega

lemma makeID_toNat {x : BitVec 64} {i : ℕ} (hx : x.toNat ≤ period) (hi : i < 65536) :
    (makeID x i).toNat = 2 ^ 16 * x.toNat + i := by
  have h1 : x.toNat <<< 16 % 2 ^ 64 = 2 ^ 16 * x.toNat := by
    rw [Nat.shiftLeft_eq, Nat.mul_comm, Nat.mod_eq_of_lt]
    rw [period] at hx
    omega
  rw [makeID, BitVec.toNat_or, BitVec.toNat_shiftLeft, BitVec.toNat_ofNat, h1,
    Nat.mod_eq_of_lt (by omega : i < 2 ^ 64), ← Nat.two_pow_add_eq_or_of_lt (by omega)]

/-- Two accepts less than a period apart never give the same id. -/
lemma makeID_inj {n m i j : ℕ} (hi : i < 65536) (hj : j < 65536)
    (h : makeID (cntAt n) i = makeID (cntAt m) j) : cntAt n = cntAt m ∧ i = j := by
  have h' := congrArg BitVec.toNat h
  rw [makeID_toNat (cntAt_le n) hi, makeID_toNat (cntAt_le m) hj] at h'
  refine ⟨BitVec.eq_of_toNat_eq ?_, ?_⟩ <;> omega

/-! ### Which accept issued an id -/

/-- The slot that the accept thread has popped and not yet announced. -/
def Stand.unannounced : Stand → ℕ
  | .naming _ | .named _ | .stopped => 1
  | _ => 0

/-- The ids as the books of thread `a` have them: the `n`-th id that was issued has the number
of the `n`-th accept, and each slot has the id of its last accept as soon as that is stored. -/
structure Numbered (a : ℕ → Prop) (B : Books) (s : Stand) : Prop where
  cnt : B.sessionCnt = cntAt (B.serial + if s = .numbered then 1 else 0)
  ids : ∀ k, s ≠ .naming k → B.sers k ≠ 0 → B.ids k = makeID (cntAt (B.sers k)) k
  prep : ∀ k, s = .naming k ∨ s = .named k → a k ∧ B.sers k = B.serial ∧ 0 < B.serial
  sers : ∀ k, B.sers k ≤ B.serial
  length : B.issued.length + Stand.unannounced s = B.serial
  issued : ∀ n id, B.issued.reverse[n]? = some id →
    ∃ k, a k ∧ id = makeID (cntAt (n + 1)) k ∧ n + 1 ≤ B.sers k

variable {B B' : Books} {s s' : Stand} {p : ℕ → Prop}

/-- The stack and the count have nothing to do with it. -/
lemma Numbered.other (hn : Numbered p B s) (st : List ℕ) (x : ℤ) :
    Numbered p { B with freeStack := st, nowSession := x } s :=
  ⟨hn.cnt, hn.ids, hn.prep, hn.sers, hn.length, hn.issued⟩

/-- Nor has a move of the thread between points at which it has no slot in hand. -/
lemma Numbered.move (hn : Numbered p B s) (h0 : Stand.unannounced s = 0) (h1 : s ≠ .numbered)
    (h0' : Stand.unannounced s' = 0) (h1' : s' ≠ .numbered) : Numbered p B s' := by
  have hs : ∀ k, s ≠ .naming k := by
    rintro k rfl
    exact absurd h0 Nat.one_ne_zero
  refine ⟨?_, fun k _ => hn.ids k (hs k), fun k hk => ?_, hn.sers, ?_, hn.issued⟩
  · have := hn.cnt
    rw [if_neg h1] at this
    rwa [if_neg h1']
  · rcases hk with rfl | rfl <;> exact absurd h0' Nat.one_ne_zero
  · have := hn.length
    omega

lemma unannounced_away (x : Bool) : Stand.unannounced (away x) = 0 ∧ away x ≠ .numbered := by
  cases x <;> exact ⟨rfl, nofun⟩

lemma numbered_pop {i : ℕ} {st : List ℕ} (hi : p i) (hn : Numbered p B .numbered) :
    Numbered p { B with freeStack := st, serial := B.serial + 1
                        sers := Function.update B.sers i (B.serial + 1) } (.naming i) := by
  refine ⟨hn.cnt, fun k hk h0 => ?_, fun k hk => ?_, fun k => ?_, ?_, fun n id h => ?_⟩
  · have hki : k ≠ i := fun h => hk (h ▸ rfl)
    simp only [Function.update_of_ne hki] at h0 ⊢
    exact hn.ids k nofun h0
  · obtain rfl : i = k := by simpa using hk
    exact ⟨hi, by simp, Nat.succ_pos _⟩
  · by_cases hki : k = i
    · subst hki
      simp
    · simp only [Function.update_of_ne hki]
      exact (hn.sers k).trans (Nat.le_succ _)
  · exact congrArg (· + 1) hn.length
  · obtain ⟨k, hk, rfl, hle⟩ := hn.issued n id h
    refine ⟨k, hk, rfl, ?_⟩
    by_cases hki : k = i
    · subst hki
      have := hn.sers k
      simp only [Function.update_self]
      omega
    · simpa only [Function.update_of_ne hki] using hle

lemma numbered_name {i : ℕ} (hn : Numbered p B (.naming i)) :
    Numbered p { B with ids := Function.update B.ids i (makeID B.sessionCnt i) } (.named i) := by
  obtain ⟨hi, hs, h0⟩ := hn.prep i (.inl rfl)
  refine ⟨hn.cnt, fun k _ hk => ?_, fun k hk => ?_, hn.sers, hn.length, hn.issued⟩
  · by_cases hki : k = i
    · subst hki
      have hc := hn.cnt
      simp only [reduceCtorEq, if_false, Nat.add_zero] at hc
      simp only [Function.update_self, hs, hc]
    · simp only [Function.update_of_ne hki]
      exact hn.ids k (fun h => hki (Stand.naming.inj h).symm) hk
  · obtain rfl : i = k := by simpa using hk
    exact ⟨hi, hs, h0⟩

lemma numbered_join {i : ℕ} (hn : Numbered p B (.named i)) :
    Numbered p { B with issued := B.ids i :: B.issued } .idle := by
  obtain ⟨hi, hs, h0⟩ := hn.prep i (.inr rfl)
  have hlen : B.issued.length + 1 = B.serial := hn.length
  refine ⟨hn.cnt, fun k _ => hn.ids k nofun, fun k hk => ?_, hn.sers, hlen, fun n id h => ?_⟩
  · exact hk.elim nofun nofun
  · simp only [List.reverse_cons] at h
    rcases Nat.lt_or_ge n B.issued.length with hlt | hge
    · rw [List.getElem?_append_left (by simpa using hlt)] at h
      exact hn.issued n id h
    · rw [List.getElem?_append_right (by simpa using hge), List.length_reverse,
        List.getElem?_singleton] at h
      split at h
      · obtain rfl := Option.some.inj h
        have hn' : n + 1 = B.sers i := by omega
        exact ⟨i, hi, by rw [hn', hn.ids i nofun (by omega)], hn'.le⟩
      · exact absurd h.symm (Option.some_ne_none _)

/-- **A step of the accept thread keeps the numbers.** -/
lemma astep_numbered (h : AStep B s B' s') (hp : ∀ k ∈ B.freeStack, p k) (hn : Numbered p B s) :
    Numbered p B' s' := by
  cases h
  case stay => exact hn
  case count =>
    refine ⟨?_, fun k _ => hn.ids k nofun, fun k hk => hk.elim nofun nofun, hn.sers, hn.length,
      hn.issued⟩
    have hc := hn.cnt
    simp only [reduceCtorEq, if_false, Nat.add_zero] at hc
    rw [if_pos rfl, cntAt_succ, hc]
  case pop i st hst => exact numbered_pop (hp i (hst ▸ List.mem_cons_self)) hn
  case name => exact numbered_name hn
  case stop =>
    exact ⟨hn.cnt, fun k _ => hn.ids k nofun, fun k hk => hk.elim nofun nofun, hn.sers, hn.length,
      hn.issued⟩
  case join => exact numbered_join hn
  case push x i =>
    exact (hn.other _ B.nowSession).move (unannounced_away x).1 (unannounced_away x).2 rfl nofun
  case decNow x =>
    exact (hn.other B.freeStack _).move rfl nofun (unannounced_away x).1 (unannounced_away x).2
  case incNow => exact (hn.other B.freeStack _).move rfl nofun rfl nofun
  all_goals exact hn.move rfl nofun rfl nofun

/-- The steps of other threads have nothing to do with them. -/
lemma astep_other (h : AStep B s B' s') (hs : Stand.outside s) :
    ∃ st x, B' = { B with freeStack := st, nowSession := x } := by
  cases h
  case stay => exact ⟨_, _, rfl⟩
  case push => exact ⟨_, _, rfl⟩
  case decNow => exact ⟨_, _, rfl⟩
  all_goals simp [Stand.outside] at hs

variable {τ : Type*} [DecidableEq τ] [Fintype τ] {b : Boot} {a : τ} {w : τ → Bool} {c : Config τ}
  {ok : Config τ → Act τ → Prop}

theorem reach_numbered (h : Reach step ok (boot b a w) c) :
    Numbered (· < b.maxUser) (books c.mem) (stands c a) := by
  refine Reach.inv (I := fun c => Numbered (· < b.maxUser) (books c.mem) (stands c a)) ?_
    (fun c c' x hr hi _ hs => ?_) h
  · have hst : stands (boot b a w) a = .idle := by simp [stands, stand, boot]
    rw [hst]
    refine ⟨rfl, fun k _ hk => absurd rfl hk, fun k hk => ?_, fun k => le_refl _,
      rfl, fun n id h => ?_⟩
    · rcases hk with hk | hk <;> cases hk
    · simp [books, boot, bootMem] at h
  · obtain ⟨t, s, hA, hS⟩ := step_books a hs
    rw [hS]
    by_cases hta : t = a
    · subst hta
      rw [Function.update_self]
      exact astep_numbered hA (fun k hk => (stack_mem hr hk).2) hi
    · rw [Function.update_of_ne (Ne.symm hta)]
      obtain ⟨st, x, hB⟩ := astep_other hA ((reach_balanced hr).outside t hta)
      rw [hB]
      exact hi.other st x

/-! ### Stale ids -/

/-- The `n`-th accept gave `OnClientJoin` the id. -/
def IssuedBy (c : Config τ) (n : ℕ) (id : SessionID) : Prop :=
  0 < n ∧ c.mem.issued.reverse[n - 1]? = some id

/-- The `n`-th accept has slot `i`, and it is not released. -/
structure Occupied (c : Config τ) (i n : ℕ) : Prop where
  ser : (c.mem.hist i).ser = n
  live : (c.mem.hist i).phase = .live
  flag : (c.mem.sess i).releaseFlag = 0

/-- `EnterSession` on slot `i` returns true to thread `t`, which goes on with the call. -/
def Enters (c : Config τ) (t : τ) (i : ℕ) (id : SessionID) (c' : Config τ) : Prop :=
  ∃ k, (c.loc t).api = .on i id (.chkID k) ∧ (c'.loc t).api = .on i id (Call.body k) ∧
    step c (.run t .tick) = some c'

/-- The call of thread `t` has not done its `LeaveSession`, or a `SENDPOST` job for slot `i` is
not yet handled. -/
def Held (c : Config τ) (t : τ) (i : ℕ) : Prop :=
  (∃ id p, (c.loc t).api = .on i id p ∧ 0 < ApiPc.refs p) ∨ (i, .sendPost) ∈ c.mem.queue ∨
    ∃ u, (c.loc u).pc = .work i (.entry .sendPost)

omit [DecidableEq τ] in
lemma held_refs {t : τ} {i : ℕ} (h : Held c t i) : 0 < refs (slot c i) := by
  have hle : ∀ u, LV.refs (lview (c.loc u) i) ≤ ∑ v, LV.refs ((slot c i).L v) :=
    fun u => le_sum (fun v => LV.refs ((slot c i).L v)) u
  rcases h with ⟨id, p, hp, h0⟩ | hq | ⟨u, hu⟩
  · have h1 : ApiPc.refs p ≤ LV.refs (lview (c.loc t) i) := by
      simp [LV.refs, lview, hp, apiRole]
    have := hle t
    simp only [refs]
    omega
  · have hj : Job.sendPost ∈ (slot c i).V.jobs := mem_jobs.mpr hq
    have := List.single_le_sum (l := (slot c i).V.jobs.map Job.refs) (by simp) _
      (List.mem_map_of_mem hj)
    simp only [refs, View.refs, Job.refs] at this ⊢
    omega
  · have h1 : 1 ≤ LV.refs (lview (c.loc u) i) := by
      simp [LV.refs, lview, hu, pcRole, Role.refs, WorkPc.refs, Job.refs]
    have := hle u
    simp only [refs]
    omega

variable {k : ℕ} {e : Ev} {V V' : View} {l l' : LV}

/-- A live slot that is counted stays with its accept. -/
lemma sstep_occupied (h : SStep k e V l V' l') (hp : V.h.phase = .live) (h0 : V.s.ioCount ≠ 0)
    (hs : V.stack = 0) (hr : LV.releases l = 0) :
    V'.h.ser = V.h.ser ∧ V'.h.phase = .live := by
  cases h
  case pop hst => omega
  case cas h' _ => exact absurd h' h0
  case push => exact absurd hr Nat.one_ne_zero
  case initReleaseFlag => exact ⟨rfl, rfl⟩
  case entrySkip j _ _ => cases j <;> exact ⟨rfl, hp⟩
  all_goals exact ⟨rfl, hp⟩

omit [DecidableEq τ] in
lemma occupied_of_live {n : ℕ} (hP : SlotPhased (slot c k)) (h1 : (c.mem.hist k).ser = n)
    (h2 : (c.mem.hist k).phase = .live) : Occupied c k n := by
  have hf := hP.flag (hP.live h2)
  rw [show (slot c k).V.h.phase = .live from h2, if_pos rfl] at hf
  exact ⟨h1, h2, hf⟩

/-- **A reference keeps the slot with its accept.** -/
lemma step_occupied {bad : List Ev} {c' : Config τ} {x : Act τ} {n : ℕ} (hok : .ok ∉ bad)
    (hb : .skipRelease ∈ bad) (hr : Reach step (avoids bad) (boot b a w) c)
    (hx : avoids bad c x) (h : step c x = some c') (hi : 0 < refs (slot c k))
    (ho : Occupied c k n) : Occupied c' k n := by
  have hP := reach_phased (k := k) hr
  have hB := reach_counted (k := k) hok hb hr
  have hP' := reach_phased (k := k) (.step hr hx h)
  suffices hkeep : (c'.mem.hist k).ser = (c.mem.hist k).ser ∧ (c'.mem.hist k).phase = .live from
    occupied_of_live hP' (hkeep.1.trans ho.ser) hkeep.2
  have hlive : (slot c k).V.h.phase = .live := ho.live
  change (slot c' k).V.h.ser = (slot c k).V.h.ser ∧ (slot c' k).V.h.phase = .live
  rcases step_slot (reach_named hr) h k with he | ⟨e, -, hn⟩
  · rw [he]
    exact ⟨rfl, hlive⟩
  · generalize slot c k = S at hn hP hB hi hlive
    generalize slot c' k = S' at hn
    cases hn with
    | @thread e V L V' l' t hs =>
      have h1 := le_sum (fun u => LV.releases (L u)) t
      have h2 := hP.releases
      have h3 := hP.stack
      simp only [Counted] at hB
      dsimp only at hlive h2 h3 hB
      simp only [hlive, reduceCtorEq, if_false] at h2 h3
      have hkeep := sstep_occupied hs hlive (by omega) (by omega) (by omega)
      exact hkeep
    | complete => exact ⟨rfl, hlive⟩

omit [Fintype τ] in
lemma enters_mem {t : τ} {i : ℕ} {id : SessionID} {c' : Config τ} (h : Enters c t i id c') :
    c'.mem = c.mem ∧ (c.mem.sess i).sessionID = id := by
  obtain ⟨q, h1, h2, h⟩ := h
  simp only [step, Option.map_eq_some_iff] at h
  obtain ⟨⟨m', l'⟩, h, rfl⟩ := h
  simp only [Function.update_self] at h2
  simp only [lstep, h1] at h
  split at h
  · simp only [if_true, Option.some.injEq, Prod.mk.injEq] at h
    rw [← h.2] at h2
    cases q <;> simp [Call.body] at h2
  · simp only [apiStep] at h
    split at h
    · simp only [Option.some.injEq, Prod.mk.injEq] at h
      rw [← h.2] at h2
      cases q <;> simp [Local.call, Call.body] at h2
    · rename_i hid
      refine ⟨?_, not_not.mp hid⟩
      split at h <;> exact (congrArg Prod.fst (Option.some.inj h)).symm

/-- Ids in a server for `n` clients, in runs whose steps are as `ok` says. -/
structure StaleRefused (ok : Config τ → Act τ → Prop) (n : ℕ) (c : Config τ) : Prop where
  /-- Fewer than a period of accepts after the one that issued an id, `EnterSession` lets it in
  only on the session of that accept, which stays while the call or its job is on the way. -/
  enters : ∀ t id x c₁, Enters c t (slotOf id) id c₁ → IssuedBy c x id →
    c.mem.serial < x + period →
    ∀ c₂, Reach step (fun c y => ok c y ∧ Held c t (slotOf id)) c₁ c₂ → Occupied c₂ (slotOf id) x
  distinct : ∀ i j, i ≠ j → (c.mem.hist i).phase = .live → (c.mem.hist j).phase = .live →
    (c.mem.sess i).sessionID ≠ (c.mem.sess j).sessionID
  slot : ∀ x i, i < n → slotOf (makeID x i) = i
  once : ∀ x y id, IssuedBy c x id → IssuedBy c y id → x < y → x + period ≤ y

omit [DecidableEq τ] [Fintype τ] in
lemma inits_of_naming {i : ℕ} (h : stands c a = .naming i) : 0 < LV.inits ((slot c i).L a) := by
  unfold stands stand at h
  split at h
  case h_6 j s p hp =>
    have hj : j = i := by cases p <;> simp [InitPc.stand] at h <;> exact h
    subst hj
    cases p <;> first
      | exact absurd h Stand.noConfusion
      | simp [slot, lview, hp, pcRole, LV.inits]
  case h_12 x _ _ => cases x <;> cases h
  all_goals cases h

/-- The session that `EnterSession` lets an id in on. -/
lemma enters_occupied {bad : List Ev} {t : τ} {id : SessionID} {n : ℕ} {c' : Config τ}
    (hok : .ok ∉ bad) (hb : .skipRelease ∈ bad) (h : Reach step (avoids bad) (boot b a w) c)
    (he : Enters c t (slotOf id) id c') (hid : IssuedBy c n id) (hn : c.mem.serial < n + period) :
    Occupied c (slotOf id) n := by
  have hN := reach_numbered h
  have hP := reach_phased (k := slotOf id) h
  have hlive : (c.mem.hist (slotOf id)).phase = .live := by
    obtain ⟨q, h1, -, -⟩ := he
    refine reach_live (k := slotOf id) hok hb h ?_
    have h2 := le_sum (fun u => LV.valid ((SlotRun.slot c (slotOf id)).L u)) t
    have h3 : LV.valid ((SlotRun.slot c (slotOf id)).L t) ≠ 0 := by
      simp [SlotRun.slot, LV.valid, lview, h1, apiRole, ApiPc.valid]
    simp only [valid]
    omega
  have hmax := b.maxUser_le
  -- the accept thread is not at the stores of this slot, which would not be live
  have hs : stands c a ≠ .naming (slotOf id) := by
    intro hs
    have h1 := le_sum (fun u => LV.inits ((slot c (slotOf id)).L u)) a
    have h2 := inits_of_naming hs
    exact Phase.noConfusion ((hP.of_inits (h2.trans_le h1)).symm.trans hlive)
  obtain ⟨h0, hid⟩ := hid
  obtain ⟨k, hk, hkid, hle⟩ := hN.issued _ _ hid
  rw [Nat.sub_add_cancel h0] at hkid hle
  have hslot : slotOf id = k := by rw [hkid, slotOf_makeID _ _ (by omega)]
  have hser := hN.ids (slotOf id) hs (by rw [hslot]; omega)
  have hcur : (books c.mem).ids (slotOf id) = id := (enters_mem he).2
  rw [hcur, hkid, ← hkid, hslot] at hser
  have hcnt := (makeID_inj (by omega) (by omega) (hkid.symm.trans hser)).1
  have hle' : (books c.mem).sers k ≤ c.mem.serial := hN.sers k
  have hn' := cntAt_inj h0 hle (by omega) hcnt
  exact occupied_of_live hP (by rw [hslot]; exact hn'.symm) hlive

lemma live_slot (h : Reach step ok (boot b a w) c) (hp : (c.mem.hist k).phase = .live) :
    slotOf (c.mem.sess k).sessionID = k :=
  (reach_named h k).1.id ((reach_phased (k := k) h).live hp)

lemma issued_once {n m : ℕ} {id : SessionID} (h : Reach step ok (boot b a w) c)
    (hn : IssuedBy c n id) (hm : IssuedBy c m id) (hlt : n < m) : n + period ≤ m := by
  have hN := reach_numbered h
  have hmax := b.maxUser_le
  obtain ⟨hn0, hn⟩ := hn
  obtain ⟨hm0, hm⟩ := hm
  obtain ⟨i, hi, hid, -⟩ := hN.issued _ _ hn
  obtain ⟨j, hj, hid', -⟩ := hN.issued _ _ hm
  rw [Nat.sub_add_cancel hn0] at hid
  rw [Nat.sub_add_cancel hm0] at hid'
  by_contra hle
  have hcnt := (makeID_inj (by omega) (by omega) (hid.symm.trans hid')).1
  have := cntAt_inj hn0 hlt.le (by omega) hcnt
  omega

/-- A thread in a call takes no job. -/
lemma label_call {m : Mem} {l : Local} {ch : Choice} {i : ℕ} {id : SessionID} {q : ApiPc}
    (h : l.api = .on i id q) : label m l ch ≠ .skipRelease := by
  intro he
  unfold label at he
  split at he
  case h_1 =>
    split at he
    · split at he <;> cases he
    · cases he
  case h_4 ha _ => exact Api.noConfusion (h.symm.trans ha)
  case h_5 =>
    split at he
    · split at he <;> cases he
    · cases he
  all_goals cases he

/-- **Stale ids are refused.** In every run in which no worker takes a `RELEASE` job for a slot
whose `socket` is `INVALID_SOCKET`. -/
theorem stale_refused (h : Reach step (avoids [.skipRelease]) (boot b a w) c) :
    StaleRefused (avoids [.skipRelease]) b.maxUser c := by
  have hmax := b.maxUser_le
  refine ⟨fun t id n c₁ he hid hn c₂ h₂ => ?_, fun i j hij hi hj hid => ?_,
    fun x i hi => slotOf_makeID i x (by omega), fun x y id => issued_once h⟩
  · have ho := enters_occupied (by decide) (by decide) h he hid hn
    have hr₁ : Reach step (avoids [.skipRelease]) (boot b a w) c₁ := by
      obtain ⟨q, h1, -, hs⟩ := he
      refine .step h ?_ hs
      exact fun hev => label_call h1 (List.mem_singleton.mp hev)
    have ho₁ : Occupied c₁ (slotOf id) n := by
      have hm := (enters_mem he).1
      obtain ⟨h1, h2, h3⟩ := ho
      exact ⟨hm ▸ h1, hm ▸ h2, hm ▸ h3⟩
    -- along the run from `c₁` every step has a reference to the slot before it
    have hkey : Reach step (avoids [.skipRelease]) (boot b a w) c₂ ∧ Occupied c₂ (slotOf id) n := by
      induction h₂ with
      | init => exact ⟨hr₁, ho₁⟩
      | step _ hx hs ih =>
        exact ⟨.step ih.1 hx.1 hs,
          step_occupied (by decide) (by decide) ih.1 hx.1 hs (held_refs hx.2) ih.2⟩
    exact hkey.2
  · exact hij (by rw [← live_slot h hi, hid, live_slot h hj])

/-- The thread that is let in on the first session of slot 0. -/
def atCheck : List (Act (Fin 4)) := [.run 3 (.disconnect firstID)] ++ ticks 3 2

/-- A thread calls `Disconnect` for the first session. -/
theorem stale_refused_first : ∃ c, Reach step (avoids [.skipRelease]) crew c ∧
    IssuedBy c 1 firstID ∧ (∃ c₁, Enters c 3 0 firstID c₁ ∧ Occupied c₁ 0 1) ∧
    StaleRefused (avoids [.skipRelease]) 1 c := by
  obtain ⟨c, hr, hp⟩ := reach_avoids (B := [.skipRelease]) (b := crew)
    (accepted 0x1A4 ++ atCheck)
    (p := fun c => decide (c.mem.issued = [firstID] ∧ c.mem.serial = 1 ∧
      (c.loc 3).api = .on 0 firstID (.chkID .disconnect) ∧
      (step c (.run 3 .tick)).map (fun c₁ => (c₁.loc 3).api) = some (.on 0 firstID .xchg)))
    (by decide +kernel)
  obtain ⟨h1, h2, h3, h4⟩ := of_decide_eq_true hp
  obtain ⟨c₁, hc₁, h5⟩ := Option.map_eq_some_iff.mp h4
  have hid : IssuedBy c 1 firstID := ⟨Nat.one_pos, by simp [h1]⟩
  have he : Enters c 3 (slotOf firstID) firstID c₁ := ⟨.disconnect, h3, h5, hc₁⟩
  have hS := stale_refused hr
  exact ⟨c, hr, hid, ⟨c₁, he, hS.enters 3 firstID 1 c₁ he hid (by rw [h2]; decide) c₁ .init⟩, hS⟩

/-- What a thread that is past `EnterSession` in `SendPacket` holds on to. -/
def inSend (c : Config (Fin 4)) : Bool := decide ((c.loc 3).api = .on 0 firstID (.addRef 0))

/-- On a handle whose upper half is all ones the worker that skips the `RELEASE` job takes the
caller's reference, and the session is released while the caller is inside. -/
theorem stale_released : ¬∀ c, Reach step (fun _ _ => True) crew c →
    StaleRefused (fun _ _ => True) 1 c := by
  intro h
  obtain ⟨c, hr, hp⟩ := reach_free (b := crew)
    (disconnected 0xFFFFFFFF80000004 ++
      [.run 3 (.alloc 0), .run 3 (.sendPacket firstID 0)] ++ ticks 3 2)
    (p := fun c => decide (c.mem.issued = [firstID] ∧ c.mem.serial = 1 ∧
      (c.loc 3).api = .on 0 firstID (.chkID (.sendPacket 0)) ∧
      ((step c (.run 3 .tick)).bind fun c₁ => if inSend c₁ then
        (run step (fun c _ => inSend c) c₁ (ticks 1 4)).map fun c₂ => (c₂.mem.hist 0).phase
        else none) = some .rel)) (by decide +kernel)
  obtain ⟨h1, h2, h3, h4⟩ := of_decide_eq_true hp
  obtain ⟨c₁, hc₁, h5⟩ := Option.bind_eq_some_iff.mp h4
  obtain ⟨h6, h7⟩ := Option.ite_none_right_eq_some.mp h5
  obtain ⟨c₂, hc₂, h8⟩ := Option.map_eq_some_iff.mp h7
  have he : Enters c 3 (slotOf firstID) firstID c₁ :=
    ⟨.sendPacket 0, h3, of_decide_eq_true h6, hc₁⟩
  have hheld : ∀ c : Config (Fin 4), ∀ x : Act (Fin 4), inSend c = true →
      True ∧ Held c 3 (slotOf firstID) :=
    fun c x hc => ⟨trivial, .inl ⟨firstID, _, of_decide_eq_true hc, Nat.one_pos⟩⟩
  have ho := (h c hr).enters 3 firstID 1 c₁ he ⟨Nat.one_pos, by simp [h1]⟩ (by rw [h2]; decide) c₂
    (reach_of_run_eq hheld _ .init hc₂)
  exact Phase.noConfusion (ho.live.symm.trans h8)

end LoginServerChat.StaleIds
