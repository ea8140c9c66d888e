import LoginServerChat.PacketRefs
import LoginServerChat.PacketShape

/-!
The packets that workers receive into. From its `Alloc` to the end of `Decode` a packet has one owner, so
that what `Decode` finds in it is the frame that was taken out of `recvQ`.
-/

namespace LoginServerChat.RecvPackets

open NetPacket Packet Cipher NetState NetStep SlotStep SlotRun PacketStep PacketRefs RecvRoom PacketShape Runs

/-- The packet holds the frame `f` as it was received. -/
structure Holds (q : Packet) (f : List UInt8) : Prop where
  isFrame : IsFrame f
  buffer : ∃ rest, q.pBuffer = f ++ rest
  read : q.readPos = headerSize
  write : q.writePos = headerSize + (NetHeader.ofBytes f).len
  plain : q.isEncode = false

/-- The thread has the packet for itself. -/
structure Sole (m : Mem) (l : Local) (p : ℕ) : Prop where
  drop : l.drop = none
  api : l.api = .idle
  count : (m.packet p).refCount = 1

/-- What a worker knows of the packet it receives into. -/
def GripAt (m : Mem) (l : Local) : Prop :=
  match l.pc with
  | .work _ (.recv (.dequeue _ p)) => Sole m l p ∧ Fresh (m.packet p)
  | .work _ (.recv (.decode p)) => Sole m l p ∧ ∃ f, Holds (m.packet p) f
  | _ => True

variable {m m' : Mem} {l l' : Local} {i p : ℕ} {ch : Choice}

lemma Holds.decode {q : Packet} {f : List UInt8} (h : Holds q f) :
    ∃ q', q.decode = some (decide (Agrees f), q') ∧ held q' = payload f := by
  obtain ⟨hf, ⟨rest, hb⟩, hr, hw, -⟩ := h
  refine ⟨_, decode_eq hb hf.whole, ?_⟩
  rw [held, getPayloadSize]
  simp only [hr, hw, Nat.add_sub_cancel_left]
  exact payload_eq hf.whole rest

/-- A whole frame goes into a fresh packet. -/
lemma holds_of_poke {q : Packet} {b f : List UInt8} (hq : Fresh q) (hf : Whole f)
    (hc : (NetHeader.ofBytes f).code = packetCode) (hb : poke q.pBuffer 0 f = some b) :
    Holds (Packet.moveWritePos { q with pBuffer := b } (NetHeader.ofBytes f).len).2 f := by
  have hlen := hf.length_eq
  have hfit : f.length ≤ defaultSize := by
    unfold poke at hb
    split at hb
    · rw [← hq.length]
      omega
    · cases hb
  unfold defaultSize at hfit
  have hn : (NetHeader.ofBytes f).len ≤ 1019 := by omega
  have hm := moveIn_eq hq hf hn
  rw [moveIn, hb, Option.map_some] at hm
  rw [Option.some.inj hm]
  exact ⟨⟨hf, hc, hn⟩, ⟨_, rfl⟩, hq.read, rfl, hq.plain⟩

/-- A frame at the front of `recvQ`. -/
lemma whole_front {q : List (UInt8 × ℕ)} (h : headerSize + (front q).len ≤ q.length) :
    Whole ((q.take (headerSize + (front q).len)).map Prod.fst) ∧
      NetHeader.ofBytes ((q.take (headerSize + (front q).len)).map Prod.fst) = front q := by
  have hhead : NetHeader.ofBytes ((q.take (headerSize + (front q).len)).map Prod.fst) = front q := by
    have h5 : ((q.take headerSize).map Prod.fst).length = headerSize := by
      rw [List.length_map, List.length_take]
      omega
    have hsplit : (q.take (headerSize + (front q).len)).map Prod.fst =
        (q.take headerSize).map Prod.fst ++ ((q.drop headerSize).take (front q).len).map Prod.fst := by
      rw [← List.map_append, List.take_add]
    rw [hsplit, ofBytes_append (Nat.le_of_eq h5.symm)]
    rfl
  refine ⟨?_, hhead⟩
  rw [Whole, hhead, List.length_map, List.length_take]
  omega

/-! ### Steps of other threads -/

lemma pstep_idle {x x' : PView} {s s' : ℕ} (h : PStep x s x' s') (hh : x.hold = 0) (hs : s = 0)
    (hp : x.pool = 0) (hd : x.drop = 0) : x' = x := by
  cases h with
  | idle => rfl
  | edit _ _ h0 => omega
  | alloc _ h0 => omega
  | addRef h0 => omega
  | queue _ h0 => omega
  | unqueue => omega
  | free _ h0 => omega
  | slotFree => omega
  | recycle h0 => omega

section Threads

variable {τ : Type*} [DecidableEq τ] [Fintype τ] {c : Config τ} {t u : τ}

/-- A packet with one owner is left alone by the others. -/
lemma packet_same (hK : PacketKept c p) (hc : (c.mem.packet p).refCount = 1) (ht : 0 < share p (c.loc t))
    (hut : u ≠ t) (hs : PSeen p c.mem (c.loc u) m' l') : m'.packet p = c.mem.packet p := by
  obtain ⟨i, hi, -, hstep⟩ := hs
  have hn : owners c p = 1 := by
    have := hK.count
    omega
  have hthreads : share p (c.loc t) ≤ ∑ v, share p (c.loc v) :=
    Finset.single_le_sum (f := fun v => share p (c.loc v)) (fun _ _ => Nat.zero_le _) (Finset.mem_univ t)
  have hslots : ∑ k : Fin maxSlots, slotShare c.mem p k = 0 := by
    rw [owners] at hn
    omega
  have hslot := Finset.sum_eq_zero_iff.mp hslots ⟨i, hi⟩ (Finset.mem_univ _)
  have hother : share p (c.loc u) = 0 := by
    refine eq_zero_of_sum_le (f := fun v => share p (c.loc v)) (t := t) ?_ hut
    rw [owners] at hn
    omega
  have hpool := hK.pool
  rw [hn, if_neg Nat.one_ne_zero, Nat.add_eq_zero_iff] at hpool
  have hdrop : drops p (c.loc u) = 0 := Finset.sum_eq_zero_iff.mp hpool.2 u (Finset.mem_univ u)
  exact congrArg PView.q (pstep_idle hstep hother hslot hpool.1 hdrop)

end Threads

/-! ### Steps of the worker -/

lemma receiving_eq {pc : Pc} {w : WorkPc} (h : receiving pc = some (i, w)) : pc = .work i w := by
  unfold receiving at h
  split at h
  case h_3 => cases h
  all_goals
    obtain ⟨rfl, rfl⟩ := Prod.mk.inj (Option.some.inj h)
    rfl

/-- A point of the receive loop at which the worker has a packet for itself. -/
def gripping : Pc → Bool
  | .work _ (.recv (.dequeue _ _)) | .work _ (.recv (.decode _)) => true
  | _ => false

lemma gripAt_of_not (h : gripping l.pc = false) : GripAt m l := by
  unfold GripAt
  split
  case h_3 => trivial
  all_goals
    rename_i hp
    rw [hp] at h
    cases h

lemma gripping_receiving (h : gripping l.pc = true) : ∃ i p, l.pc = .work i (.recv p) := by
  unfold gripping at h
  split at h
  case h_1 hp | h_2 hp => exact ⟨_, _, hp⟩
  case h_3 => cases h

lemma lstep_recv {p : RecvPc} (hd : l.drop = none) (ha : l.api = .idle) (hp : l.pc = .work i (.recv p)) :
    lstep m l ch = recvStep m l i p ch := by
  simp only [lstep, hd, ha, hp, workStep]

/-- The bytes that the first `n` places of `recvQ` hold. -/
def firstBytes (m : Mem) (i n : ℕ) : List UInt8 := ((m.sess i).recvQ.take n).map Prod.fst

lemma recvStep_dequeue {hd : NetHeader} (h : recvStep m l i (.dequeue hd p) ch = some (m', l')) :
    ∃ b, poke (m.packet p).pBuffer 0 (firstBytes m i (headerSize + hd.len)) = some b ∧
      m'.packet = Function.update m.packet p (Packet.moveWritePos { m.packet p with pBuffer := b } hd.len).2 ∧
      m'.sess = Function.update m.sess i
        { m.sess i with recvQ := (m.sess i).recvQ.drop (headerSize + hd.len) } ∧
      m'.hist = m.hist ∧ l' = Local.goto l (.work i (.recv (.decode p))) := by
  cases ch <;> simp only [recvStep, reduceCtorEq] at h
  split at h
  case h_1 b hb =>
    obtain ⟨rfl, rfl⟩ := Prod.mk.inj (Option.some.inj h)
    exact ⟨b, hb, rfl, rfl, rfl, rfl⟩
  case h_2 => cases h

/-- The point behind `Decode`. -/
def decoded (p : ℕ) (r : Bool) : RecvPc := if r then .onRecv p else .bad p

lemma recvStep_decode (h : recvStep m l i (.decode p) ch = some (m', l')) :
    ∃ r q, (m.packet p).decode = some (r, q) ∧ m' = m.onPacket p (fun _ => q) ∧
      l' = Local.goto l (.work i (.recv (decoded p r))) := by
  cases ch <;> simp only [recvStep, reduceCtorEq] at h
  split at h
  case h_1 q hq | h_2 q hq =>
    obtain ⟨rfl, rfl⟩ := Prod.mk.inj (Option.some.inj h)
    exact ⟨_, q, hq, rfl, rfl⟩
  case h_3 => cases h

/-- Only `Alloc` gives a worker a packet for itself. -/
lemma recvStep_grips {q : RecvPc} (h : recvStep m l i q ch = some (m', l')) (hl : gripping l.pc = false)
    (hp : l.pc = .work i (.recv q)) (hl' : gripping l'.pc = true) :
    ∃ hd p, q = .alloc hd ∧ ch = .alloc p ∧ allocPacket m (Local.goto l (.work i (.recv (.dequeue hd p)))) p =
      some (m', l') := by
  revert h
  fun_cases recvStep m l i q ch
  case case9 hd p => exact fun h => ⟨hd, p, rfl, rfl, h⟩
  case case16 =>
    intro h
    rw [(contentsStep_calm h).2, hl] at hl'
    cases hl'
  case case10 | case11 | case12 | case13 | case14 => rw [hp] at hl; cases hl
  all_goals
    intro h
    simp only [Option.some.injEq, Prod.mk.injEq, reduceCtorEq] at h
  case case17 | case18 =>
    rw [(freePacket_calm (m := m) h ⟨rfl, rfl, rfl⟩).2] at hl'
    cases hl'
  all_goals
    obtain ⟨rfl, rfl⟩ := h
    cases hl'

/-- `Alloc` gives the packet, and the frame that is taken out of `recvQ` goes into it. -/
lemma lstep_grip (hg : GripAt m l)
    (hA : ∀ i p, l.pc = .work i (.recv p) → At (m.sess i).recvQ (.recv p))
    (hpool : ∀ p, 0 < m.pool p → Fresh (m.packet p) ∧ (m.packet p).refCount = 0)
    (h : lstep m l ch = some (m', l')) : GripAt m' l' := by
  by_cases hl : gripping l.pc = true
  · unfold gripping at hl
    split at hl
    case h_3 => cases hl
    case h_1 i hd p hp =>
      rw [GripAt, hp] at hg
      obtain ⟨⟨h1, h2, h3⟩, hf⟩ := hg
      obtain ⟨hlen, rfl, hcode⟩ := hA i _ hp
      rw [lstep_recv h1 h2 hp] at h
      obtain ⟨b, hb, hm, -, -, rfl⟩ := recvStep_dequeue h
      obtain ⟨hw, hhead⟩ := whole_front hlen
      have hh := holds_of_poke hf hw (by rw [hhead]; exact hcode) hb
      rw [hhead] at hh
      have hpk := (congrFun hm p).trans (Function.update_self ..)
      exact ⟨⟨h1, h2, by rw [hpk]; exact h3⟩, firstBytes m i (headerSize + (front (m.sess i).recvQ).len),
        by rw [hpk]; exact hh⟩
    case h_2 i p hp =>
      rw [GripAt, hp] at hg
      obtain ⟨⟨h1, h2, -⟩, -⟩ := hg
      rw [lstep_recv h1 h2 hp] at h
      obtain ⟨r, q, -, -, rfl⟩ := recvStep_decode h
      refine gripAt_of_not ?_
      cases r <;> rfl
  · rw [Bool.not_eq_true] at hl
    by_cases hl' : gripping l'.pc = true
    swap
    · exact gripAt_of_not (Bool.eq_false_of_not_eq_true hl')
    obtain ⟨i, q, hq⟩ := gripping_receiving hl'
    cases lstep_takes h with
    | aside h =>
      have h2 := h.2
      rw [hq] at h2
      rw [receiving_eq h2.symm, ← hq, hl'] at hl
      cases hl
    | clear _ _ _ _ hp' | skip _ _ _ _ _ _ hp' => rw [hq] at hp'; cases hp'
    | take _ _ _ _ _ _ _ hp' | pass _ _ _ _ _ _ hp' => rw [hp'] at hl'; cases hl'
    | recv j r hd ha hp h =>
      obtain ⟨nh, p, rfl, rfl, hal⟩ := recvStep_grips h hl hp hl'
      unfold allocPacket at hal
      split at hal
      case isFalse => cases hal
      case isTrue h0 =>
        obtain ⟨rfl, rfl⟩ := Prod.mk.inj (Option.some.inj hal)
        obtain ⟨hf, hc⟩ := hpool p h0
        have hpk : ((m.onPool p (· - 1)).onPacket p Packet.addRefCount).packet p = (m.packet p).addRefCount :=
          Function.update_self ..
        refine ⟨⟨hd, ha, ?_⟩, ?_⟩
        · rw [hpk, Packet.addRefCount, hc]
          rfl
        · rw [hpk]
          exact ⟨hf.length, hf.write, hf.read, hf.plain⟩

/-! ### Runs -/

section Reach

variable {τ : Type*} [DecidableEq τ] [Fintype τ] {b : Boot} {a : τ} {w : τ → Bool} {c c' : Config τ}
  {bad : List Ev}

/-- A packet of the pool is as `Clear` and the constructor leave it. -/
lemma fresh_of_pool (hr : Reach step (avoids bad) (boot b a w) c) (hK : PacketKept c p) (h : 0 < c.mem.pool p) :
    Fresh (c.mem.packet p) ∧ (c.mem.packet p).refCount = 0 := by
  obtain ⟨h1, h2, h3⟩ := hK.clear h
  refine ⟨⟨(reach_shaped hr p).length, h1, h2, h3⟩, ?_⟩
  have hn : owners c p = 0 := by
    by_contra hn
    have := hK.pool
    rw [if_neg hn] at this
    omega
  rw [hK.count, hn]
  rfl

omit [DecidableEq τ] [Fintype τ] in
lemma gripAt_congr (hm : ∀ p, Pc.needs l.pc = some p → (m.packet p).refCount = 1 → m'.packet p = m.packet p)
    (hp' : l'.pc = l.pc) (ha : l'.api = l.api) (hd : l'.drop = l.drop) (hg : GripAt m l) : GripAt m' l' := by
  unfold GripAt at hg ⊢
  rw [hp']
  split
  case h_3 => trivial
  all_goals
    rename_i i p hp
    rw [hp] at hg
    obtain ⟨⟨h1, h2, h3⟩, h4⟩ := hg
    have hpk := hm p (by rw [hp]; rfl) h3
    exact ⟨⟨hd.trans h1, ha.trans h2, by rw [hpk]; exact h3⟩, by rw [hpk]; exact h4⟩

/-- **The packets of the workers.** -/
theorem reach_grip (hok : .ok ∉ bad) (hskip : .skipRelease ∈ bad) (hl : .lateEnter ∈ bad)
    (hr : Reach step (avoids bad) (boot b a w) c) (t : τ) : GripAt c.mem (c.loc t) := by
  refine Reach.inv (I := fun c => ∀ t, GripAt c.mem (c.loc t)) (fun t => gripAt_of_not ?_)
    (fun c c' x hr hi _ hs => ?_) hr t
  · simp only [boot]
    split
    · rfl
    · split <;> rfl
  · obtain ⟨hH, hK⟩ := reach_kept hok hskip hl hr
    cases x with
    | run t ch =>
      simp only [step, Option.map_eq_some_iff] at hs
      obtain ⟨⟨m', l'⟩, hs, rfl⟩ := hs
      intro u
      by_cases hut : u = t
      · subst hut
        simp only [Function.update_self]
        exact lstep_grip (hi u) (fun i p hp => (reach_roomy hok hskip hr i).at' u _ (by rw [hp]; rfl))
          (fun p => fresh_of_pool hr (hK p)) hs
      · simp only [Function.update_of_ne hut]
        refine gripAt_congr (fun p hp hc => ?_) rfl rfl rfl (hi u)
        exact packet_same (hK p) hc (share_pos ((hH u).pc p hp)) (Ne.symm hut)
          (lstep_pseen (hH t) (reach_owning hok hskip hl hr t) hs p)
    | complete io n d =>
      simp only [step] at hs
      split at hs <;> simp only [Option.some.injEq, reduceCtorEq] at hs
      subst hs
      exact fun v => gripAt_congr (m := c.mem) (l := c.loc v) (fun _ _ _ => rfl) rfl rfl rfl (hi v)
    | give t u p =>
      simp only [step] at hs
      split at hs <;> simp only [Option.some.injEq, reduceCtorEq] at hs
      subst hs
      intro v
      refine gripAt_congr (fun _ _ _ => rfl) ?_ ?_ ?_ (hi v)
      all_goals
        dsimp only
        by_cases hv : v = u
        · subst hv
          rw [Function.update_self]
        · rw [Function.update_of_ne hv]
          by_cases hv' : v = t
          · subst hv'
            rw [Function.update_self]
          · rw [Function.update_of_ne hv']

end Reach

end LoginServerChat.RecvPackets
