import LoginServerChat.FreeStack
import LoginServerChat.SlotJoin
import LoginServerChat.SlotSock

/-!
The client sockets. `accept` opens one, and the accept thread has it in hand until it closes it again or
has a slot for it; the socket of a slot is closed by `ReleaseSession`. No other step opens or closes one.
-/

namespace LoginServerChat.AcceptSocks

open NetPacket NetState NetStep SlotStep SlotView SlotRun SlotRefs SlotPhase SlotLive SlotSock
  AcceptBooks FreeStack Runs

/-- The socket that a thread has in hand. -/
def hand : Pc → Option Sock
  | .acc (.full h) | .acc (.request h) | .acc (.refuse h) | .acc (.incNow h) | .acc (.count h)
  | .acc (.pop h) => some h
  | _ => none

/-- A step on the sockets. -/
inductive SockStep (m m' : Mem) (l l' : Local) (ch : Choice) : Prop
  | same (hs : m'.socks = m.socks) (hh : hand l'.pc = hand l.pc)
      (hc : ∀ i x, l.pc = .rel i .close x → l'.pc = l.pc)
  | accept (h : Sock) (hc : ch = .sock (some h)) (hn : h ∉ m.socks) (hp : l.pc = .acc .accept)
      (hp' : l'.pc = .acc (.full h)) (hs : m'.socks = h :: m.socks)
  | refuse (h : Sock) (hp : l.pc = .acc (.refuse h)) (hp' : l'.pc = .acc .accept)
      (hs : m'.socks = m.socks.erase h)
  | pop (h : Sock) (i : ℕ) (hp : l.pc = .acc (.pop h)) (hp' : l'.pc = .accOn i (.init h .ioCount))
      (hi : i ∈ m.freeStack) (hs : m'.socks = m.socks)
  | close (i : ℕ) (x : Bool) (hp : l.pc = .rel i .close x) (hp' : l'.pc = .rel i .leave x)
      (hs : m'.socks = m.socks.erase (m.sess i).relSocket)

variable {m m' : Mem} {l l' : Local} {i : ℕ} {ch : Choice}

lemma SockStep.of_pc (hs : m'.socks = m.socks) (hp : l'.pc = l.pc) : SockStep m m' l l' ch :=
  .same hs (by rw [hp]) fun _ _ _ => hp

lemma SockStep.of_none (hs : m'.socks = m.socks) (h : hand l.pc = none) (h' : hand l'.pc = none)
    (hc : ∀ i x, l.pc ≠ .rel i .close x) : SockStep m m' l l' ch :=
  .same hs (h'.trans h.symm) fun i x hp => absurd hp (hc i x)

lemma allocPacket_socks {p : ℕ} (h : allocPacket m l p = some (m', l')) : m'.socks = m.socks := by
  unfold allocPacket at h
  split at h
  · obtain ⟨rfl, rfl⟩ := Prod.mk.inj (Option.some.inj h)
    rfl
  · exact nomatch h

lemma freePacket_socks {p : ℕ} (h : freePacket m l p = (m', l')) : m'.socks = m.socks := by
  obtain ⟨rfl, rfl⟩ := Prod.mk.inj h
  rfl

lemma contentsStep_socks (h : contentsStep m l ch = some (m', l')) : m'.socks = m.socks := by
  revert h
  fun_cases contentsStep m l ch
  case case1 => exact allocPacket_socks
  all_goals
    intro h
    simp only [Option.some.injEq, Prod.mk.injEq, reduceCtorEq] at h
  case case2 => exact freePacket_socks h
  all_goals
    obtain ⟨rfl, rfl⟩ := h
    rfl

lemma apiStep_socks {id : SessionID} {p : ApiPc} (h : apiStep m l i id p ch = some (m', l')) :
    m'.socks = m.socks := by
  revert h
  fun_cases apiStep m l i id p ch
  all_goals
    intro h
    simp only [Option.some.injEq, Prod.mk.injEq, reduceCtorEq] at h
  all_goals
    obtain ⟨rfl, rfl⟩ := h
    rfl

lemma sendStep_socks {p : SendPc} (h : sendStep m l i p ch = some (m', l')) : m'.socks = m.socks := by
  revert h
  fun_cases sendStep m l i p ch
  all_goals
    intro h
    simp only [Option.some.injEq, Prod.mk.injEq, reduceCtorEq] at h
  all_goals
    obtain ⟨rfl, rfl⟩ := h
    rfl

lemma postStep_socks {p : PostPc} (h : postStep m l i p ch = some (m', l')) : m'.socks = m.socks := by
  revert h
  fun_cases postStep m l i p ch
  all_goals
    intro h
    simp only [Option.some.injEq, Prod.mk.injEq, reduceCtorEq] at h
  all_goals
    obtain ⟨rfl, rfl⟩ := h
    rfl

lemma recvStep_socks {p : RecvPc} (h : recvStep m l i p ch = some (m', l')) : m'.socks = m.socks := by
  revert h
  fun_cases recvStep m l i p ch
  case case9 => exact allocPacket_socks
  case case16 => exact contentsStep_socks
  all_goals
    intro h
    simp only [Option.some.injEq, Prod.mk.injEq, reduceCtorEq] at h
  case case17 | case18 => exact freePacket_socks h
  all_goals
    obtain ⟨rfl, rfl⟩ := h
    rfl

/-- A thread on a slot that is not about to close its socket. -/
lemma SockStep.of_work {p : WorkPc} (hp : l.pc = .work i p) (hs : m'.socks = m.socks)
    (h' : hand l'.pc = none) : SockStep m m' l l' ch :=
  .of_none hs (by rw [hp]; rfl) h' fun i' x he => (nomatch hp.symm.trans he)

lemma workStep_socks {p : WorkPc} (hp : l.pc = .work i p) (h : workStep m l i p ch = some (m', l')) :
    SockStep m m' l l' ch := by
  have hwork : (∃ q, l'.pc = .work i q) → hand l'.pc = none := by
    rintro ⟨q, hq⟩
    rw [hq]
    rfl
  revert h
  fun_cases workStep m l i p ch
  case case8 => exact fun h => .of_work hp (sendStep_socks h) (hwork (sendStep_books h).2)
  case case9 => exact fun h => .of_work hp (recvStep_socks h) (hwork (recvStep_books hp h).2)
  case case10 => exact fun h => .of_work hp (postStep_socks h) (hwork (postStep_books h).2)
  all_goals
    intro h
    simp only [Option.some.injEq, Prod.mk.injEq, reduceCtorEq] at h
  case case5 => exact (.of_work hp ((freePacket_socks h).trans rfl) (hwork ⟨_, (freePacket_books h).2⟩))
  all_goals
    obtain ⟨rfl, rfl⟩ := h
  case case1 j _ =>
    refine .of_work hp rfl ?_
    cases j <;> rfl
  case case2 j _ =>
    refine .of_work hp ?_ rfl
    cases j <;> rfl
  all_goals exact .of_work hp rfl rfl

lemma hand_relBack (x : Bool) : hand (Local.goto l (relBack x)).pc = none := by
  cases x <;> rfl

lemma relStep_socks {p : RelPc} {a : Bool} (hp : l.pc = .rel i p a)
    (h : relStep m l i a p ch = some (m', l')) : SockStep m m' l l' ch := by
  have hne : p ≠ .close → ∀ i' x, l.pc ≠ .rel i' .close x := by
    intro hc i' x he
    rw [hp] at he
    injection he with _ he _
    exact hc he
  have hnone : hand l.pc = none := by
    rw [hp]
    rfl
  have hrel : (∃ q, l'.pc = .rel i q a) → hand l'.pc = none := by
    rintro ⟨q, hq⟩
    rw [hq]
    rfl
  revert h
  fun_cases relStep m l i a p ch
  case case12 => exact fun h => .of_pc (contentsStep_socks h) (contentsStep_books h).2
  all_goals
    intro h
    simp only [Option.some.injEq, Prod.mk.injEq, reduceCtorEq] at h
  case case5 | case7 =>
    exact .of_none ((freePacket_socks h).trans rfl) hnone (hrel ⟨_, (freePacket_books h).2⟩) (hne RelPc.noConfusion)
  all_goals
    obtain ⟨rfl, rfl⟩ := h
  case case2 | case14 => exact .of_none rfl hnone (hand_relBack a) (hne RelPc.noConfusion)
  case case9 => exact .close i a hp rfl rfl
  all_goals exact .of_none rfl hnone rfl (hne RelPc.noConfusion)

lemma accOnStep_socks {p : AccOn} (hp : l.pc = .accOn i p) (h : accOnStep m l i p ch = some (m', l')) :
    SockStep m m' l l' ch := by
  have hnone : hand l.pc = none := by
    rw [hp]
    rfl
  have hne : ∀ i' x, l.pc ≠ .rel i' .close x := fun i' x he => (nomatch hp.symm.trans he)
  revert h
  fun_cases accOnStep m l i p ch
  case case6 => exact fun h => .of_pc (contentsStep_socks h) (contentsStep_books h).2
  all_goals
    intro h
    simp only [Option.some.injEq, Prod.mk.injEq, reduceCtorEq] at h
  case case1 s p =>
    cases p
    all_goals
      obtain ⟨rfl, rfl⟩ := Prod.mk.inj h
      exact .of_none rfl hnone rfl hne
  all_goals
    obtain ⟨rfl, rfl⟩ := h
    exact .of_none rfl hnone rfl hne

lemma acceptStep_socks {p : AccPc} (hp : l.pc = .acc p) (h : acceptStep m l p ch = some (m', l')) :
    SockStep m m' l l' ch := by
  have hsame : m'.socks = m.socks → hand l'.pc = hand (.acc p) → SockStep m m' l l' ch :=
    fun hs hh => .same hs (by rw [hh, hp]) fun i x he => (nomatch hp.symm.trans he)
  revert h
  fun_cases acceptStep m l p ch
  case case8 => exact fun h => .of_pc (contentsStep_socks h) (contentsStep_books h).2
  all_goals
    intro h
    simp only [Option.some.injEq, Prod.mk.injEq, reduceCtorEq] at h
  all_goals
    obtain ⟨rfl, rfl⟩ := h
  case case2 h hn => exact .accept h rfl hn.2 hp rfl rfl
  case case9 h => exact .refuse h hp rfl rfl
  case case12 => exact .of_pc rfl rfl
  case case13 h i st hst _ => exact .pop h i hp rfl (hst ▸ List.mem_cons_self) rfl
  all_goals exact hsame rfl rfl

/-- **A step of the server on the sockets.** -/
theorem lstep_socks (h : lstep m l ch = some (m', l')) : SockStep m m' l l' ch := by
  unfold lstep at h
  split at h
  case h_1 p _ =>
    split at h
    · obtain ⟨rfl, rfl⟩ := Prod.mk.inj (Option.some.inj h)
      exact .of_pc rfl rfl
    · exact nomatch h
  case h_2 =>
    split at h
    case h_1 => exact .of_pc (apiStep_socks h) (apiStep_books h).2
    case h_2 =>
      split at h
      case h_1 => exact .of_pc (contentsStep_socks h) (contentsStep_books h).2
      case h_2 hp => exact acceptStep_socks hp h
      case h_3 hp => exact accOnStep_socks hp h
      case h_4 hp =>
        split at h
        · obtain ⟨rfl, rfl⟩ := Prod.mk.inj (Option.some.inj h)
          exact .of_none rfl (by rw [hp]; rfl) rfl fun i x he => (nomatch hp.symm.trans he)
        · exact nomatch h
      case h_5 hp => exact workStep_socks hp h
      case h_6 hp => exact relStep_socks hp h

/-! ### The socket of a slot -/

/-- What a thread that prepares the slot has stored of the socket. -/
def Stored (V : View) (l : LV) : Prop :=
  match l.role with
  | .acc (.init h .relSocket) => V.h.handle = h
  | .acc (.init h .sessionID) | .acc (.init h .releaseFlag) => V.h.handle = h ∧ V.s.relSocket = h
  | _ => True

/-- `relSocket` of a session is the socket that was accepted. -/
def RelSock (V : View) : Prop := V.h.phase = .live ∨ V.h.phase = .rel → V.s.relSocket = V.h.handle

/-- The thread prepares the slot for the client on a socket. -/
def LV.prepares (l : LV) (s : Sock) : Prop :=
  match l.role with
  | .acc (.init h .ioCount) | .acc (.init h .socket) | .acc (.init h .relSocket)
  | .acc (.init h .sessionID) | .acc (.init h .releaseFlag) => h = s
  | _ => False

/-- The thread is in the body of `ReleaseSession`, up to `closesocket`. -/
def LV.closing (l : LV) : Prop :=
  match l.role with
  | .rel .drain | .rel (.drainFree _) | .rel .readCnt | .rel (.freeArr _ _) | .rel .close => True
  | _ => False

/-- The socket is open for the slot, as far as the slot and one of its threads know. -/
def Keeps (V : View) (l : LV) (s : Sock) : Prop :=
  LV.prepares l s ∨ V.h.handle = s ∧ (V.h.phase = .live ∨ LV.closing l)

/-- The step is `closesocket`. -/
def Closes (l l' : LV) : Prop := l.role = .rel .close ∧ l'.role = .rel .leave

section Slots

variable {k : ℕ} {e : Ev} {V V' : View} {l l' : LV} {s : Sock}

lemma sstep_storedRel (h : SStep k e V l V' l') (hA : SoundAt V l) (hl : Stored V l) (hV : RelSock V) :
    Stored V' l' ∧ RelSock V' := by
  have hinit : 0 < LV.inits l → V.h.phase = .init := hA.init
  cases h
  case initIoCount | initSendFlag | initSendCnt | initRecvQ => exact ⟨trivial, hV⟩
  case initSocket =>
    refine ⟨rfl, fun hp => ?_⟩
    dsimp only at hp
    rw [hinit Nat.one_pos] at hp
    exact hp.elim nofun nofun
  case initRelSocket =>
    refine ⟨⟨hl, rfl⟩, fun hp => ?_⟩
    dsimp only at hp
    rw [hinit Nat.one_pos] at hp
    exact hp.elim nofun nofun
  case initSessionID => exact ⟨hl, hV⟩
  case initReleaseFlag => exact ⟨trivial, fun _ => hl.2.trans hl.1.symm⟩
  case pop => exact ⟨trivial, fun hp => hp.elim nofun nofun⟩
  case push => exact ⟨trivial, fun hp => hp.elim nofun nofun⟩
  case cas h0 hf => exact ⟨trivial, fun _ => hV (.inl (hA.of_flag (.inr trivial) hf))⟩
  case entryPass j _ _ => cases j <;> exact ⟨trivial, hV⟩
  case entrySkip j _ _ => cases j <;> exact ⟨trivial, hV⟩
  all_goals exact ⟨hl, hV⟩

/-- The socket stays open but for `closesocket`. -/
lemma sstep_keeps (h : SStep k e V l V' l') (hA : SoundAt V l) (hl : Stored V l) (hs : Keeps V l s) :
    Keeps V' l' s ∨ Closes l l' ∧ V.h.handle = s := by
  have hinit : 0 < LV.inits l → V.h.phase ≠ .live := fun hi hp => (nomatch hp.symm.trans (hA.init hi))
  cases h
  case initSocket =>
    left
    rcases hs with hs | ⟨-, hp | hc⟩
    · exact .inl hs
    · exact absurd hp (hinit Nat.one_pos)
    · exact hc.elim
  case initReleaseFlag =>
    left
    rcases hs with hs | ⟨hh, -⟩
    · exact .inr ⟨hl.1.trans hs, .inl rfl⟩
    · exact .inr ⟨hh, .inl rfl⟩
  case cas =>
    rcases hs with hs | ⟨hh, -⟩
    · exact hs.elim
    · exact .inl (.inr ⟨hh, .inr trivial⟩)
  case pop hst =>
    rcases hs with hs | ⟨-, hp | hc⟩
    · exact hs.elim
    · exact nomatch hp.symm.trans (hA.stack (by omega))
    · exact hc.elim
  case push =>
    rcases hs with hs | ⟨-, hp | hc⟩
    · exact hs.elim
    · exact nomatch hp.symm.trans (hA.rel Nat.one_pos)
    · exact hc.elim
  case relWalk p p' hw =>
    cases p <;> cases p' <;> first
      | exact hw.elim
      | exact .inl hs
      | skip
    rcases hs with hs | ⟨hh, -⟩
    · exact hs.elim
    · exact .inr ⟨⟨rfl, rfl⟩, hh⟩
  case chkID c _ => cases c <;> exact .inl hs
  case entryPass j _ _ => cases j <;> exact .inl hs
  case entrySkip j _ _ => cases j <;> exact .inl hs
  all_goals exact .inl hs

lemma sstep_relSocket_same (h : SStep k e V l V' l') :
    V'.s.relSocket = V.s.relSocket ∨ 0 < LV.inits l := by
  cases h
  case initRelSocket => exact .inr Nat.one_pos
  all_goals exact .inl rfl

lemma stored_of_inits (h : LV.inits l = 0) : Stored V l := by
  obtain ⟨r, x⟩ := l
  rcases r with _ | p | _ | _
  case acc =>
    rcases p with ⟨_, p⟩ | _ | _ | _ | _ | _ | _ | _ | _
    · cases p <;> trivial
    all_goals trivial
  all_goals trivial

lemma Stored.same (h : Stored V l) (h1 : V'.h.handle = V.h.handle) (h2 : V'.s.relSocket = V.s.relSocket) :
    Stored V' l := by
  unfold Stored at *
  rw [h1, h2]
  exact h

lemma closing_releases (h : LV.closing l) : 0 < LV.releases l := by
  unfold LV.closing at h
  unfold LV.releases
  split at h
  all_goals first
    | exact h.elim
    | simp_all

end Slots

section Reach

variable {τ : Type*} [DecidableEq τ] [Fintype τ] {b : Boot} {a : τ} {w : τ → Bool} {c : Config τ}
  {bad : List Ev} {k : ℕ} {e : Ev} {S S' : Slot τ} {s : Sock}

/-- In every run without a skipped `RELEASE` job, the socket of a slot is the one that was accepted for it. -/
lemma reach_relSock (hok : .ok ∉ bad) (hr : .skipRelease ∈ bad) (h : Reach step (avoids bad) (boot b a w) c) :
    (∀ t, Stored (slot c k).V ((slot c k).L t)) ∧ RelSock (slot c k).V := by
  refine slot_inv (I := fun S => (∀ t, Stored S.V (S.L t)) ∧ RelSock S.V) hok (fun S hf => ?_)
    (fun c e S' hc hi _ hn => ?_) h
  · refine ⟨fun t => stored_of_inits (by rw [hf.idle t]; rfl), fun hp => ?_⟩
    rw [hf.h] at hp
    exact hp.elim nofun nofun
  · have hA := reach_sound (k := k) hok hr hc
    have hP := reach_phased (k := k) hc
    generalize slot c k = S at hn hi hA hP
    cases hn with
    | complete => exact hi
    | @thread e V L V' l' t hs =>
      obtain ⟨hl, hV⟩ := sstep_storedRel hs (hA t) (hi.1 t) hi.2
      refine ⟨fun u => ?_, hV⟩
      dsimp only
      by_cases hu : u = t
      · rw [hu, Function.update_self]
        exact hl
      · rw [Function.update_of_ne hu]
        by_cases ht : 0 < LV.inits (L t)
        · -- two threads would be preparing the slot
          refine stored_of_inits (eq_zero_of_sum_le (f := fun u => LV.inits (L u)) (t := t) ?_ hu)
          have := hP.inits
          dsimp only at this
          split_ifs at this <;> omega
        · exact (hi.1 u).same ((sstep_handle hs).resolve_right ht) ((sstep_relSocket_same hs).resolve_right ht)

omit [Fintype τ] in
/-- The socket of a slot stays open but for `closesocket`. -/
lemma next_keeps (h : Next k e S S') (hA : ∀ t, SoundAt S.V (S.L t)) (hl : ∀ t, Stored S.V (S.L t))
    (hs : ∃ t, Keeps S.V (S.L t) s) :
    (∃ t, Keeps S'.V (S'.L t) s) ∨ (∃ t, Closes (S.L t) (S'.L t)) ∧ S.V.h.handle = s := by
  obtain ⟨u, hu⟩ := hs
  cases h with
  | complete => exact .inl ⟨u, hu⟩
  | @thread e V L V' l' t hst =>
    -- what keeps it open is the slot, the thread that takes the step, or another
    have hmove : Keeps V (L t) s → (∃ v, Keeps V' (Function.update L t l' v) s) ∨
        (∃ v, Closes (L v) (Function.update L t l' v)) ∧ V.h.handle = s := by
      intro ht
      rcases sstep_keeps hst (hA t) (hl t) ht with hk | ⟨hc, hh⟩
      · exact .inl ⟨t, by rw [Function.update_self]; exact hk⟩
      · exact .inr ⟨⟨t, by rw [Function.update_self]; exact hc⟩, hh⟩
    by_cases hut : u = t
    · exact hmove (hut ▸ hu)
    have hstays : (⟨V', Function.update L t l'⟩ : Slot τ).L u = L u := Function.update_of_ne hut _ _
    rcases hu with hu | ⟨hh, hp | hc⟩
    · exact .inl ⟨u, .inl (by rw [hstays]; exact hu)⟩
    · exact hmove (.inr ⟨hh, .inl hp⟩)
    · refine .inl ⟨u, .inr ⟨?_, .inr (by rw [hstays]; exact hc)⟩⟩
      rcases sstep_handle hst with hh' | hi
      · exact hh'.trans hh
      · exact nomatch ((hA t).init hi).symm.trans ((hA u).rel (closing_releases hc))

end Reach

end LoginServerChat.AcceptSocks
