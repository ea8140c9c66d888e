import LoginServerChat.AcceptUndo
import LoginServerChat.PacketRefs
import LoginServerChat.SlotRecv
import LoginServerChat.SlotWake
import LoginServerChat.SocketOwners

/-!
The server at rest: its threads wait for clients and completions, and no completion is queued. What
the code spreads over slots, stacks, counters and queues agrees then, and the operations that are posted
to the sockets say which sessions there are.
-/

namespace LoginServerChat.Quiescence

open NetPacket NetState NetStep SlotStep SlotView SlotRun SlotRefs SlotPhase SlotLive SlotRelease
  SlotJoin SlotSock SlotSend SendPath SlotRecv SlotWake PacketStep PacketRefs AcceptBooks FreeStack
  AcceptSocks AcceptUndo SocketOwners Runs

variable {τ : Type*}

structure Rests (a : τ) (c : Config τ) : Prop where
  accepts : (c.loc a).pc = .acc .accept
  top : ∀ t, atTop (c.loc t) = true
  drop : ∀ t, (c.loc t).drop = none
  queue : c.mem.queue = []

/-- The operations of a kind that are posted on slot `k`. -/
def posted (c : Config τ) (k : ℕ) (send : Bool) : ℕ :=
  c.mem.inflight.countP fun io => io.slot = k ∧ io.send = send

/-- A slot of a server at rest for `n` clients. It is on the free stack, or has a session that the
contents know; the references of the session are its receive and its send, of which at least one is
posted. What was queued is what was handed to `WSASend`, in order, and what still waits for the send
that is posted. -/
structure SlotRests (n : ℕ) (c : Config τ) (k : ℕ) : Prop where
  phase : (c.mem.hist k).phase = .free ∨ (c.mem.hist k).phase = .live ∧ (c.mem.hist k).joined = true
  stack : k ∈ c.mem.freeStack ↔ (c.mem.hist k).phase = .free ∧ k < n
  live : (c.mem.hist k).phase = .live ↔ 0 < posted c k false + posted c k true
  ioCount : (c.mem.sess k).ioCount = posted c k false + posted c k true
  recvs : posted c k false ≤ 1
  sends : posted c k true ≤ 1
  sendFlag : (c.mem.hist k).phase = .live →
    (c.mem.sess k).sendFlag = posted c k true + (c.mem.hist k).latch
  empty : (c.mem.hist k).phase = .free → (c.mem.sess k).sendQ = [] ∧ (c.mem.hist k).owned = []
  order : (c.mem.hist k).phase = .live →
    (c.mem.hist k).enqd = (c.mem.hist k).sent.flatten ++ (c.mem.sess k).sendQ
  waits : (c.mem.hist k).phase = .live → (c.mem.hist k).marked = false → (c.mem.hist k).failed = false →
    (c.mem.sess k).sendQ ≠ [] → posted c k true = 1

/-! ### A slot at rest -/

section Slots

variable {a : τ} {c : Config τ} {k : ℕ}

lemma Rests.idle (h : Rests a c) (t : τ) : (slot c k).L t = ⟨.none, none⟩ := lview_atTop (h.top t)

lemma Rests.jobs (h : Rests a c) : (slot c k).V.jobs = [] := by
  change c.mem.queue.filterMap _ = []
  rw [h.queue, List.filterMap_nil]

lemma Rests.atRest (h : Rests a c) (hi : (slot c k).V.ios = []) : AtRest c k :=
  ⟨fun t => .inl (h.idle t), h.jobs, hi⟩

lemma length_ios : (slot c k).V.ios.length = posted c k false + posted c k true := by
  change (c.mem.inflight.filter _).length = _
  rw [← List.countP_eq_length_filter]
  unfold posted
  induction c.mem.inflight with
  | nil => rfl
  | cons io l ih =>
    simp only [List.countP_cons, ih]
    by_cases hs : io.slot = k <;> cases io.send <;> simp [hs] <;> omega

lemma posted_send : ((slot c k).V.ios.map IoReq.locks).sum = posted c k true := countP_ios.symm

lemma posted_recv : ((slot c k).V.ios.map IoReq.recvs).sum = posted c k false := by
  change ((c.mem.inflight.filter _).map _).sum = _
  unfold posted
  induction c.mem.inflight with
  | nil => rfl
  | cons io l ih =>
    by_cases hs : io.slot = k <;> cases hio : io.send <;>
      simp [hs, hio, ih, IoReq.recvs, Nat.add_comm]

/-- Nothing is in the hands of a thread. -/
lemma Rests.sum_eq [Fintype τ] (h : Rests a c) (f : LV → ℕ) (hf : f ⟨.none, none⟩ = 0) :
    ∑ t, f ((slot c k).L t) = 0 := Finset.sum_eq_zero fun t _ => by rw [h.idle, hf]

end Slots

variable [DecidableEq τ] [Fintype τ] {b : Boot} {a : τ} {w : τ → Bool} {c : Config τ} {bad : List Ev} {k : ℕ}

lemma Rests.settled (hr : Reach step (avoids bad) (boot b a w) c) (h : Rests a c) :
    (c.mem.hist k).phase = .free ∨ (c.mem.hist k).phase = .live := by
  refine AcceptUndo.settled hr h.accepts (fun t ht => ?_) k
  obtain ⟨i, p, x, hp, -⟩ := ht
  have := h.top t
  rw [atTop, hp] at this
  exact Bool.noConfusion this

lemma rests_live (hok : .ok ∉ bad) (hskip : .skipRelease ∈ bad) (hlost : .lostRelease ∈ bad)
    (hr : Reach step (avoids bad) (boot b a w) c) (h : Rests a c) :
    (c.mem.hist k).phase = .live ↔ 0 < posted c k false + posted c k true := by
  rw [← length_ios]
  refine ⟨fun hp => ?_, fun hp => ?_⟩
  · by_contra hn
    have hios := List.length_eq_zero_iff.mp (Nat.eq_zero_of_not_pos hn)
    have hfree := free_of_rest hok hskip hlost hr h.accepts (h.atRest hios)
    exact Phase.noConfusion (hp.symm.trans hfree)
  · exact reach_live hok hskip hr (Nat.lt_of_lt_of_le hp (Nat.le_trans (Nat.le_add_right _ _) (Nat.le_add_right _ _)))

lemma rests_joined (hok : .ok ∉ bad) (hr : Reach step (avoids bad) (boot b a w) c) (h : Rests a c)
    (hp : (c.mem.hist k).phase = .live) : (c.mem.hist k).joined = true := by
  by_contra hj
  have := reach_unannounced hok hr hp (Bool.eq_false_of_not_eq_true hj)
  rw [h.sum_eq LV.unmet rfl] at this
  exact Nat.lt_irrefl 0 this

lemma rests_ioCount (hok : .ok ∉ bad) (hskip : .skipRelease ∈ bad)
    (hr : Reach step (avoids bad) (boot b a w) c) (h : Rests a c) :
    (c.mem.sess k).ioCount = posted c k false + posted c k true := by
  refine (reach_counted (k := k) hok hskip hr).trans ?_
  rw [refs, View.refs, h.jobs, h.sum_eq LV.refs rfl, length_ios]
  simp

/-- **A slot at rest.** -/
theorem slot_rests (hr : Reach step (avoids [.skipRelease, .lateEnter, .lostRelease, .lostSend, .loadedUnlock])
    (boot b a w) c) (h : Rests a c) (k : ℕ) : SlotRests b.maxUser c k := by
  have hlive := rests_live (k := k) (by decide) (by decide) (by decide) hr h
  have hjoin := rests_joined (k := k) (by decide) hr h
  have hS := reach_sends (k := k) (by decide) (by decide) (by decide) hr
  have hW := reach_woken (k := k) (by decide) (by decide) (by decide) (by decide) (by decide) hr
  have hR := reach_recvs (k := k) (by decide) (by decide) hr
  have hlocks : ∑ t, LV.locks ((slot c k).L t) = 0 := h.sum_eq LV.locks rfl
  have hsends : View.locks (slot c k).V = posted c k true + (c.mem.hist k).latch := by
    rw [View.locks, h.jobs, posted_send]
    rfl
  have hfree : (c.mem.hist k).phase = .free → posted c k true = 0 := fun hf => by
    by_contra hn
    exact Phase.noConfusion (hf.symm.trans (hlive.mpr (by omega)))
  refine ⟨?_, ?_, hlive, rests_ioCount (by decide) (by decide) hr h, ?_, ?_, fun hp => ?_, fun hp => ?_,
    fun hp => ?_, fun hp hm hf hq => ?_⟩
  · exact (h.settled hr).imp id fun hp => ⟨hp, hjoin hp⟩
  · rw [← List.count_pos_iff, (reach_stacked hr k).count]
    split <;> simp [*]
  · rw [recvs, View.recvs, h.jobs, h.sum_eq LV.recvs rfl, posted_recv] at hR
    refine Nat.le_trans ?_ (Nat.le_trans hR ?_)
    · simp
    · unfold View.busy
      split <;> omega
  · rcases h.settled hr with hp | hp
    · rw [hfree hp]
      exact Nat.zero_le 1
    · obtain ⟨h1, h2⟩ := hS.locked hp (hjoin hp)
      rw [hlocks, hsends] at h1
      omega
  · obtain ⟨h1, -⟩ := hS.locked hp (hjoin hp)
    rw [hlocks, hsends] at h1
    exact h1
  · obtain ⟨h1, -, h2⟩ := hS.blank (.inl hp)
    exact ⟨h1, h2⟩
  · have hg : (c.mem.hist k).gath = [] := (hS.rest hp (hjoin hp) hlocks).1.1
    have ho : (c.mem.hist k).enqd = (c.mem.hist k).sent.flatten ++ (c.mem.hist k).gath ++ (c.mem.sess k).sendQ :=
      hS.ordered (.inr hp)
    rwa [hg, List.append_nil] at ho
  · obtain ⟨hl, hw⟩ := hW ⟨hp, hjoin hp, hm, hf⟩
    have h1 := hw hq
    rw [View.wakes, h.jobs, h.sum_eq LV.wakes rfl, posted_send] at h1
    obtain ⟨h2, h3⟩ := hS.locked hp (hjoin hp)
    rw [hlocks, hsends] at h2
    simp only [List.map_nil, List.sum_nil, Nat.add_zero] at h1
    omega

/-! ### The server at rest -/

/-- The slots of a server for `n` clients that have a session. -/
def sessions (n : ℕ) (c : Config τ) : List ℕ :=
  (List.range n).filter fun k => (c.mem.hist k).phase = .live

/-- The server as `Start` leaves it, but for the packets that contents code has. -/
structure Emptied (n : ℕ) (c : Config τ) : Prop where
  free : ∀ k, (c.mem.hist k).phase = .free
  freeStack : c.mem.freeStack.Perm (List.range n)
  nowSession : c.mem.nowSession = 0
  socks : c.mem.socks = []
  count : ∀ p, (c.mem.packet p).refCount = ∑ t, (c.loc t).holds.count p

/-- A server at rest. The free stack has the other slots, `_nowSession` counts the sessions, and the open
sockets are theirs; the packets are where the sessions and the contents code have them, and the rest of
them in the pool. With nothing posted to a socket the server is empty. -/
structure ServerRests (n : ℕ) (c : Config τ) : Prop where
  slots : ∀ k, SlotRests n c k
  freeStack : (c.mem.freeStack ++ sessions n c).Perm (List.range n)
  nowSession : c.mem.nowSession = (sessions n c).length
  socks : c.mem.socks.Perm ((sessions n c).map fun k => (c.mem.hist k).handle)
  count : ∀ p, (c.mem.packet p).refCount =
    ∑ t, (c.loc t).holds.count p + ∑ k : Fin maxSlots, slotShare c.mem p k
  pool : ∀ p, c.mem.pool p = if (c.mem.packet p).refCount = 0 then 1 else 0
  empty : c.mem.inflight = [] → Emptied n c

omit [DecidableEq τ] [Fintype τ] in
lemma mem_sessions {n : ℕ} : k ∈ sessions n c ↔ k < n ∧ (c.mem.hist k).phase = .live := by
  simp [sessions]

omit [DecidableEq τ] [Fintype τ] in
/-- A thread at the top of its loop has no socket and no slot in hand, and only what it holds. -/
lemma share_atTop {l : Local} (h : atTop l = true) (p : ℕ) :
    Stand.owes (stand l) = 0 ∧ hand l.pc = none ∧ share p l = l.holds.count p := by
  unfold atTop at h
  split at h
  case h_1 hp ha | h_2 hp ha | h_3 hp ha => simp [stand, Stand.owes, hand, share, Api.share, Pc.share, hp, ha]
  case h_4 => exact Bool.noConfusion h

section Server

variable (hr : Reach step (avoids [.skipRelease, .lateEnter, .lostRelease, .lostSend, .loadedUnlock]) (boot b a w) c)
  (h : Rests a c)

include hr

lemma live_lt (hp : (c.mem.hist k).phase = .live) : k < b.maxUser :=
  (reach_stacked hr k).small (by rw [hp]; exact Phase.noConfusion)

include h

lemma rests_stack : (c.mem.freeStack ++ sessions b.maxUser c).Perm (List.range b.maxUser) := by
  have hnd : (c.mem.freeStack ++ sessions b.maxUser c).Nodup := by
    refine List.Nodup.append (stack_nodup hr) (List.nodup_range.filter _) fun k hk hk' => ?_
    exact Phase.noConfusion ((stack_mem hr hk).1.symm.trans (mem_sessions.mp hk').2)
  refine (List.perm_ext_iff_of_nodup hnd List.nodup_range).mpr fun k => ?_
  rw [List.mem_append, (slot_rests hr h k).stack, mem_sessions, List.mem_range]
  have := h.settled (k := k) hr
  tauto

lemma rests_nowSession : c.mem.nowSession = (sessions b.maxUser c).length := by
  have h0 : ∑ t, Stand.owes (stands c t) = 0 :=
    Finset.sum_eq_zero fun t _ => (share_atTop (h.top t) 0).1
  have h1 := (reach_balanced hr).owes
  have h2 := (rests_stack hr h).length_eq
  rw [h0] at h1
  simp only [books, List.length_append, List.length_range] at h1 h2
  omega

lemma rests_socks : c.mem.socks.Perm ((sessions b.maxUser c).map fun k => (c.mem.hist k).handle) := by
  have hO := reach_socksOwned (by decide) (by decide) hr
  have hnd : ((sessions b.maxUser c).map fun k => (c.mem.hist k).handle).Nodup := by
    refine (List.nodup_range.filter _).map_on fun i hi j hj hij => ?_
    by_contra hne
    exact hO.differ i j hne (mem_sessions.mp hi).2 (mem_sessions.mp hj).2 hij
  refine (List.perm_ext_iff_of_nodup hO.nodup hnd).mpr fun s => ?_
  rw [hO.owned, List.mem_map]
  constructor
  · rintro ⟨t | k, ho⟩
    · rw [Owns, (share_atTop (h.top t) 0).2.1] at ho
      cases ho
    · obtain ⟨t, hs | ⟨hs, hp | hc⟩⟩ := ho
      · rw [h.idle] at hs
        exact hs.elim
      · exact ⟨k, mem_sessions.mpr ⟨live_lt hr hp, hp⟩, hs⟩
      · rw [h.idle] at hc
        exact hc.elim
  · rintro ⟨k, hk, rfl⟩
    exact ⟨.inr k, owns_of_live a (mem_sessions.mp hk).2⟩

lemma rests_count (p : ℕ) : (c.mem.packet p).refCount =
    ∑ t, (c.loc t).holds.count p + ∑ k : Fin maxSlots, slotShare c.mem p k := by
  rw [((reach_kept (by decide) (by decide) (by decide) hr).2 p).count, owners]
  congr 2
  exact Finset.sum_congr rfl fun t _ => (share_atTop (h.top t) p).2.2

lemma rests_pool (p : ℕ) : c.mem.pool p = if (c.mem.packet p).refCount = 0 then 1 else 0 := by
  have hk := (reach_kept (by decide) (by decide) (by decide) hr).2 p
  have hd : dropping c p = 0 := Finset.sum_eq_zero fun t _ => by simp [drops, h.drop]
  have hw := hk.pool
  rw [hd, Nat.add_zero] at hw
  rw [hw, hk.count]
  simp only [Int.natCast_eq_zero]

lemma rests_empty (hi : c.mem.inflight = []) : Emptied b.maxUser c := by
  have hfree : ∀ k, (c.mem.hist k).phase = .free := fun k => by
    refine (h.settled hr).resolve_right fun hp => ?_
    have := (slot_rests hr h k).live.mp hp
    simp [posted, hi] at this
  have hs : sessions b.maxUser c = [] :=
    List.filter_eq_nil_iff.mpr fun k _ => by simp [hfree k]
  refine ⟨hfree, ?_, ?_, ?_, fun p => ?_⟩
  · simpa [hs] using rests_stack hr h
  · simpa [hs] using rests_nowSession hr h
  · simpa [hs] using rests_socks hr h
  · have h0 : ∑ k : Fin maxSlots, slotShare c.mem p k = 0 := by
      refine Finset.sum_eq_zero fun k _ => ?_
      obtain ⟨h1, h2⟩ := (slot_rests hr h k).empty (hfree k)
      rw [slotShare, h1, h2]
      rfl
    rw [rests_count hr h, h0, Nat.cast_zero, add_zero]

lemma reach_rests : ServerRests b.maxUser c :=
  ⟨slot_rests hr h, rests_stack hr h, rests_nowSession hr h, rests_socks hr h, rests_count hr h,
    rests_pool hr h, rests_empty hr h⟩

end Server

/-- Packet 0 is being sent and packet 1 waits for that. -/
def waiting : List (Act (Fin 4)) :=
  accepted 0x1A4 ++ sent 0 ++ ticks 1 10 ++ [.run 1 (.io .done)] ++ ticks 1 1 ++ sent 1 ++ ticks 1 5

/-- The threads of `crew` are at rest. -/
def resting (c : Config (Fin 4)) : Bool :=
  (match (c.loc 0).pc with
    | .acc .accept => true
    | _ => false) &&
  decide ((∀ t, atTop (c.loc t) = true) ∧ (∀ t, (c.loc t).drop = none) ∧ c.mem.queue = [])

lemma rests_of_resting {c : Config (Fin 4)} (h : resting c = true) : Rests 0 c := by
  rw [resting, Bool.and_eq_true, decide_eq_true_eq] at h
  obtain ⟨h1, h2, h3, h4⟩ := h
  refine ⟨?_, h2, h3, h4⟩
  split at h1
  case h_1 hp => exact hp
  case h_2 => exact Bool.noConfusion h1

end LoginServerChat.Quiescence
