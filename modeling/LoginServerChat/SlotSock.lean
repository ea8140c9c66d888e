import LoginServerChat.SlotPhase

/-!
The socket of a session after `Disconnect`.

`Disconnect` exchanges the low half of `socket`, so that what the guards read is the handle with
its low half set. That is `INVALID_SOCKET` for handles whose upper half is all ones, and only
for them. All of this holds in every run.
-/

namespace LoginServerChat.SlotSock

open NetPacket NetState NetStep SlotStep SlotView SlotRun SlotRefs SlotPhase Runs

variable {τ : Type*} [DecidableEq τ] [Fintype τ]

/-- The upper half of a handle. -/
def upper (s : Sock) : BitVec 32 := s.extractLsb' 32 32

lemma upper_mark (s : Sock) : upper (mark s) = upper s := BitVec.extractLsb'_append_eq_left

lemma lower_mark (s : Sock) : (mark s).setWidth 32 = BitVec.allOnes 32 :=
  BitVec.setWidth_append_eq_right

lemma mark_eq_invalid {s : Sock} : mark s = invalidSocket ↔ upper s = BitVec.allOnes 32 := by
  constructor
  · intro h
    rw [← upper_mark, h]
    decide
  · intro h
    rw [mark, show s.extractLsb' 32 32 = BitVec.allOnes 32 from h]
    decide

lemma isMarked_mark (s : Sock) : isMarked (mark s) = true := by
  rw [isMarked, lower_mark]
  decide

lemma mark_of_isMarked {s : Sock} (h : isMarked s = true) : mark s = s := by
  have h1 : (s.setWidth 32).signExtend 64 = invalidSocket := by simpa [isMarked] using h
  have hlow : s.setWidth 32 = BitVec.allOnes 32 := by
    apply BitVec.eq_of_getLsbD_eq
    intro i hi
    have h2 : ((s.setWidth 32).signExtend 64).getLsbD i = invalidSocket.getLsbD i := by rw [h1]
    rw [BitVec.getLsbD_signExtend, invalidSocket, BitVec.getLsbD_allOnes] at h2
    rw [BitVec.getLsbD_allOnes]
    simpa [hi, show i < 64 by omega] using h2
  have e := @BitVec.extractLsb'_append_extractLsb' 32 32 s
  rw [← BitVec.setWidth_eq_extractLsb' (by decide), hlow] at e
  exact e

/-! ### What `socket` holds -/

/-- `socket` is what `accept` returned, or what the exchange of `Disconnect` makes of it. -/
def SockOk (V : View) : Prop := V.s.socket = if V.h.marked then mark V.h.handle else V.h.handle

/-- The thread has stored the slot's `socket` and not yet made the slot live. -/
def LV.stored (l : LV) : Prop :=
  ∃ h, l.role = .acc (.init h .relSocket) ∨ l.role = .acc (.init h .sessionID) ∨
    l.role = .acc (.init h .releaseFlag)

variable {k : ℕ} {e : Ev} {V V' : View} {l l' : LV}

lemma sstep_sockOk (h : SStep k e V l V' l') (hV : SockOk V) : SockOk V' := by
  cases h
  case xchgAgain hm =>
    simp only [SockOk, mark_of_isMarked hm]
    exact hV
  case xchg hm =>
    rcases hmk : V.h.marked with _ | _
    · simp only [SockOk, hmk, Bool.false_eq_true, if_false] at hV
      simp [SockOk, hV]
    · simp only [SockOk, hmk, if_true] at hV
      simp [hV, isMarked_mark] at hm
  case initSocket => simp [SockOk]
  case entrySkip j _ _ => cases j <;> exact hV
  all_goals exact hV

lemma sstep_stored (h : SStep k e V l V' l') (hp : LV.stored l') : LV.stored l ∨ SockOk V' := by
  obtain ⟨s, hs⟩ := hp
  cases h
  case initSocket => exact .inr (by simp [SockOk])
  case entryPass j _ _ => cases j <;> simp [jobRole] at hs
  all_goals first
    | exact .inl ⟨s, hs⟩
    | exact .inl ⟨_, .inl rfl⟩
    | exact .inl ⟨_, .inr (.inl rfl)⟩
    | simp at hs

/-- The accept thread stores the same handle twice. -/
lemma sstep_relSocket {s : Sock} (h : SStep k e V l V' l')
    (hp : l'.role = .acc (.init s .relSocket)) :
    l.role = .acc (.init s .relSocket) ∧ V'.h.handle = V.h.handle ∨ V'.h.handle = s := by
  cases h
  case initSocket => exact .inr (by simpa using hp)
  case entryPass j _ _ => cases j <;> simp [jobRole] at hp
  all_goals first
    | exact .inl ⟨hp, rfl⟩
    | simp at hp

lemma sstep_handle (h : SStep k e V l V' l') : V'.h.handle = V.h.handle ∨ 0 < LV.inits l := by
  cases h
  case initSocket => exact .inr Nat.one_pos
  case entrySkip j _ _ => cases j <;> exact .inl rfl
  all_goals exact .inl rfl

lemma sstep_cancelled (h : SStep k e V l V' l')
    (hl : ∀ s, l.role = .acc (.init s .relSocket) → V.h.handle = s)
    (hV : V.h.cancelled = true → V.s.relSocket = V.h.handle) :
    V'.h.cancelled = true → V'.s.relSocket = V'.h.handle := by
  cases h
  case cancel => exact fun hc => of_decide_eq_true hc
  case initRelSocket => exact fun _ => (hl _ rfl).symm
  case xchg | initSocket => exact fun hc => Bool.noConfusion hc
  case entrySkip j _ _ => cases j <;> exact hV
  all_goals exact hV

lemma sstep_marked (h : SStep k e V l V' l') (hm : V'.h.marked = true) :
    V.h.marked = true ∨ LV.past l := by
  cases h
  case xchg => exact .inr (.inl (Option.some_ne_none _))
  case initSocket => exact Bool.noConfusion hm
  case entrySkip j _ _ => cases j <;> exact .inl hm
  all_goals exact .inl hm

/-! ### Operations that pend after the cancellation -/

/-- The thread has seen operation `n` pend and has yet to test the socket or to cancel. -/
def LV.watches (l : LV) (n : ℕ) : Prop :=
  match l.role with
  | .acc (.pend m) | .acc (.cancel m) | .work (.send (.pend m)) | .work (.send (.cancel m))
  | .work (.post (.pend m)) | .work (.post (.cancel m)) => m = n
  | _ => False

/-- Every operation that is pending on the session's socket after `Disconnect` has cancelled is
cancelled, or `W` says that somebody watches it. -/
def Caught (V : View) (W : ℕ → Prop) : Prop :=
  V.h.marked = true → V.h.cancelled = true → ∀ io ∈ V.ios,
    io.pended = true → io.sock = V.h.handle → io.cancelled = true ∨ W io.num

lemma Caught.mono {W W' : ℕ → Prop} (hV : Caught V W) (h : ∀ n, W n → W' n) : Caught V W' :=
  fun hm hc io hio hp hs => (hV hm hc io hio hp hs).imp_right (h _)

lemma mem_cancelAll {s : Sock} {ios : List IoReq} {io : IoReq} (h : io ∈ cancelAll s ios) :
    ∃ x ∈ ios, x.num = io.num ∧ x.pended = io.pended ∧ x.sock = io.sock ∧
      (x.cancelled = true → io.cancelled = true) ∧ (io.sock = s → io.cancelled = true) := by
  obtain ⟨x, hx, rfl⟩ := List.mem_map.mp h
  refine ⟨x, hx, ?_⟩
  split <;> simp_all

lemma caught_cancelAll {W : ℕ → Prop} {s : Sock} (hV : Caught V W) :
    Caught { V with ios := cancelAll s V.ios } W := by
  intro hm hc io hio hp hs
  obtain ⟨x, hx, h1, h2, h3, h4, _⟩ := mem_cancelAll hio
  exact (hV hm hc x hx (h2.trans hp) (h3.trans hs)).imp h4 (h1 ▸ ·)

/-- A cancellation through `relSocket` catches everything on the session's socket. -/
lemma caught_cancelRel {W : ℕ → Prop} (hV : V.h.cancelled = true → V.s.relSocket = V.h.handle) :
    Caught { V with ios := cancelAll V.s.relSocket V.ios } W := by
  intro _ hc io hio _ hs
  obtain ⟨x, _, _, _, _, _, h5⟩ := mem_cancelAll hio
  exact .inl (h5 (hs.trans (hV hc).symm))

lemma caught_append {W : ℕ → Prop} {io : IoReq} (hV : Caught V W)
    (hio : io.pended = true → W io.num) : Caught { V with ios := V.ios ++ [io] } W := by
  intro hm hc x hx hp hs
  rcases List.mem_append.mp hx with hx | hx
  · exact hV hm hc x hx hp hs
  · rw [List.mem_singleton.mp hx] at hp ⊢
    exact .inr (hio hp)

lemma sstep_caught {W : ℕ → Prop} (h : SStep k e V l V' l') (hs : LV.past l → SockOk V)
    (hc : V.h.cancelled = true → V.s.relSocket = V.h.handle)
    (hV : upper V.h.handle = BitVec.allOnes 32 → Caught V fun n => W n ∨ LV.watches l n)
    (hup : upper V'.h.handle = BitVec.allOnes 32) : Caught V' fun n => W n ∨ LV.watches l' n := by
  -- a marked session shows `INVALID_SOCKET`, so that who watches goes on to cancel
  have hinv : LV.past l → upper V.h.handle = BitVec.allOnes 32 →
      V.s.socket ≠ invalidSocket → V.h.marked = true → False := by
    intro hp hup hne hm
    have := hs hp
    rw [SockOk, hm, if_pos rfl, mark_eq_invalid.mpr hup] at this
    exact hne this
  cases h
  case initSocket => exact fun hm => Bool.noConfusion hm
  case entrySkip j _ _ => cases j <;> exact hV hup
  all_goals specialize hV hup
  case foreign => exact caught_cancelAll hV
  case xchg => exact fun _ hc => Bool.noConfusion hc
  case cancel =>
    intro _ hc io hio _ hs
    obtain ⟨x, _, _, _, _, _, h5⟩ := mem_cancelAll hio
    exact .inl (h5 (hs.trans (of_decide_eq_true hc).symm))
  case accCancel | sendCancel | postCancel => exact caught_cancelRel hc
  case accPend hne | pend hne | postPend hne =>
    exact fun hm => (hinv (.inr trivial) hup hne hm).elim
  case accRecv | recvDone => exact caught_append hV fun hp => Bool.noConfusion hp
  case accRecvPend | recvPend =>
    refine caught_append (fun hm hc io hio hp hs => ?_) fun _ => .inr rfl
    exact (hV hm hc io hio hp hs).imp_right (·.imp_right False.elim)
  case sendDone =>
    exact caught_append (V := { V with h := { V.h with sent := _, gath := [] } }) hV
      fun hp => Bool.noConfusion hp
  case sendPend =>
    refine caught_append (V := { V with h := { V.h with sent := _, gath := [] } })
      (fun hm hc io hio hp hs => ?_) fun _ => .inr rfl
    exact (hV hm hc io hio hp hs).imp_right (·.imp_right False.elim)
  case entryPass j _ _ => cases j <;> exact hV
  all_goals exact hV

/-! ### Every run -/

/-- The socket fields of a slot. -/
structure SlotSocks (S : Slot τ) : Prop where
  marked : S.V.h.marked = true → S.V.h.ever = true
  ever : S.V.h.ever = true → SockOk S.V
  stored : ∀ t, LV.stored (S.L t) → SockOk S.V
  handle : ∀ t s, (S.L t).role = .acc (.init s .relSocket) → S.V.h.handle = s
  cancelled : S.V.h.cancelled = true → S.V.s.relSocket = S.V.h.handle
  caught : upper S.V.h.handle = BitVec.allOnes 32 →
    Caught S.V fun n => ∃ t, LV.watches (S.L t) n

variable {b : Boot} {a : τ} {w : τ → Bool} {c : Config τ} {ok : Config τ → Act τ → Prop}

omit [Fintype τ] in
/-- The rest of the threads and the one that steps. -/
lemma exists_update {P : LV → Prop} {L : τ → LV} {t : τ} :
    (∃ u, P (Function.update L t l' u)) ↔ (∃ u, u ≠ t ∧ P (L u)) ∨ P l' := by
  constructor
  · rintro ⟨u, hu⟩
    by_cases hut : u = t
    · subst hut
      exact .inr (by simpa using hu)
    · exact .inl ⟨u, hut, by simpa [hut] using hu⟩
  · rintro (⟨u, hut, hu⟩ | hl)
    · exact ⟨u, by simpa [hut] using hu⟩
    · exact ⟨t, by simpa using hl⟩

lemma next_socks {S S' : Slot τ} (h : Next k e S S') (hN : ∀ t, LV.past (S.L t) → S.V.h.ever = true)
    (hP : SlotPhased S) (hS : SlotSocks S) : SlotSocks S' := by
  cases h with
  | @thread e V L V' l' t h =>
    have hsock : SockOk V → SockOk V' := sstep_sockOk h
    refine ⟨fun hm => sstep_ever h ?_, fun he => ?_, fun u hu => ?_, fun u s hu => ?_, ?_, ?_⟩
    · rcases sstep_marked h hm with hm | hp
      · exact hS.marked hm
      · exact hN t hp
    · rcases sstep_ever_back h he with he | ⟨s, hs⟩
      · exact hsock (hS.ever he)
      · exact hsock (hS.stored t ⟨s, .inr (.inr hs)⟩)
    · by_cases hut : u = t
      · subst hut
        rcases sstep_stored h (by simpa using hu) with hl | hV
        · exact hsock (hS.stored u hl)
        · exact hV
      · exact hsock (hS.stored u (by simpa [hut] using hu))
    · by_cases hut : u = t
      · subst hut
        rcases sstep_relSocket h (by simpa using hu) with ⟨hl, hh⟩ | hV
        · exact hh.trans (hS.handle u s hl)
        · exact hV
      · simp only [Function.update_of_ne hut] at hu
        rcases sstep_handle h with hh | hi
        · exact hh.trans (hS.handle u s hu)
        · -- two threads would be preparing the slot
          have h1 : ∑ u, LV.inits (L u) ≤ 1 := by
            rw [hP.inits]
            split <;> omega
          have h2 := eq_zero_of_sum_le (f := fun u => LV.inits (L u)) (h1.trans hi) hut
          simp [LV.inits, hu] at h2
    · exact sstep_cancelled h (hS.handle t) hS.cancelled
    · intro hup
      refine (sstep_caught (W := fun n => ∃ u, u ≠ t ∧ LV.watches (L u) n) h
        (fun hp => hS.ever (hN t hp)) hS.cancelled (fun hup => ?_) hup).mono fun n => ?_
      · refine (hS.caught hup).mono fun n hn => ?_
        rw [← Function.update_eq_self t L] at hn
        exact (exists_update (P := (LV.watches · n))).mp hn
      · exact (exists_update (P := (LV.watches · n))).mpr
  | @complete V L io n d hio =>
    refine ⟨hS.marked, hS.ever, hS.stored, hS.handle, hS.cancelled, fun hup hm hc x hx => ?_⟩
    exact hS.caught hup hm hc x (List.mem_of_mem_erase hx)

theorem reach_socks (h : Reach step ok (boot b a w) c) : SlotSocks (slot c k) := by
  have h' : Reach step (avoids []) (boot b a w) c := h.mono fun _ _ _ => List.not_mem_nil
  refine slot_inv (I := SlotSocks) List.not_mem_nil (fun S hf => ?_) (fun c e S' hr hS _ hn => ?_) h'
  · refine ⟨fun hm => ?_, fun he => ?_, fun t ht => ?_, fun t s ht => ?_, fun hc => ?_,
      fun _ hm => ?_⟩
    · simp [hf.h, freshHist] at hm
    · simp [hf.h, freshHist] at he
    · simp [LV.stored, hf.idle t] at ht
    · simp [hf.idle t] at ht
    · simp [hf.h, freshHist] at hc
    · simp [hf.h, freshHist] at hm
  · exact next_socks hn (fun t => ((reach_named hr k).2 t).ever) (reach_phased hr) hS

/-! ### What the guards see -/

/-- The guards on `socket` see a session as disconnected: the field is `INVALID_SOCKET`, so that
a worker that takes a job for the session goes straight to its decrement and a thread whose
operation pends goes on to cancel it; and no operation that pends on the session's socket after
the `CancelIoEx` of `Disconnect` is left alone. -/
structure GuardsSee (c : Config τ) (k : ℕ) : Prop where
  socket : (c.mem.sess k).socket = invalidSocket
  entry : ∀ t j ch c', (c.loc t).drop = none → (c.loc t).api = .idle →
    (c.loc t).pc = .work k (.entry j) → step c (.run t ch) = some c' →
    (c'.loc t).pc = .work k .dec
  send : ∀ t n ch c', (c.loc t).drop = none → (c.loc t).api = .idle →
    (c.loc t).pc = .work k (.send (.pend n)) → step c (.run t ch) = some c' →
    (c'.loc t).pc = .work k (.send (.cancel n))
  recv : ∀ t n ch c', (c.loc t).drop = none → (c.loc t).api = .idle →
    (c.loc t).pc = .work k (.post (.pend n)) → step c (.run t ch) = some c' →
    (c'.loc t).pc = .work k (.post (.cancel n))
  accept : ∀ t n ch c', (c.loc t).drop = none → (c.loc t).api = .idle →
    (c.loc t).pc = .accOn k (.pend n) → step c (.run t ch) = some c' →
    (c'.loc t).pc = .accOn k (.cancel n)
  caught : (c.mem.hist k).cancelled = true → ∀ io ∈ c.mem.inflight, io.slot = k →
    io.pended = true → io.sock = (c.mem.hist k).handle →
    io.cancelled = true ∨ ∃ t, LV.watches (lview (c.loc t) k) io.num

omit [Fintype τ] in
/-- A step of a thread that is at a point of its own code. -/
lemma step_run {t : τ} {ch : Choice} {c' : Config τ} (hd : (c.loc t).drop = none)
    (ha : (c.loc t).api = .idle) (h : step c (.run t ch) = some c') :
    (∀ i p, (c.loc t).pc = .work i p →
      (workStep c.mem (c.loc t) i p ch).map Prod.snd = some (c'.loc t)) ∧
    ∀ i p, (c.loc t).pc = .accOn i p →
      (accOnStep c.mem (c.loc t) i p ch).map Prod.snd = some (c'.loc t) := by
  simp only [step, Option.map_eq_some_iff] at h
  obtain ⟨r, h, rfl⟩ := h
  constructor
  all_goals
    intro i p hp
    simp only [lstep, hd, ha, hp] at h
    simp [h]

/-- **Disconnected, as the guards see it.** In every run, from the exchange of a `Disconnect`
that returns true until the slot is reused, the guards see the session as disconnected if and
only if the upper half of its handle is all ones. -/
theorem guardsSee_iff (h : Reach step ok (boot b a w) c) (hm : (c.mem.hist k).marked = true) :
    GuardsSee c k ↔ upper (c.mem.hist k).handle = BitVec.allOnes 32 := by
  have hS := reach_socks (k := k) h
  have hsock : (c.mem.sess k).socket = mark (c.mem.hist k).handle := by
    have := hS.ever (hS.marked hm)
    rwa [SockOk, show (slot c k).V.h.marked = true from hm, if_pos rfl] at this
  constructor
  · intro hg
    rw [← mark_eq_invalid, ← hsock, hg.socket]
  · intro hup
    have hinv : (c.mem.sess k).socket = invalidSocket := by rw [hsock, mark_eq_invalid.mpr hup]
    refine ⟨hinv, fun t j ch c' hd ha hp hs => ?_, fun t n ch c' hd ha hp hs => ?_,
      fun t n ch c' hd ha hp hs => ?_, fun t n ch c' hd ha hp hs => ?_,
      fun hc io hio hk hp hs => ?_⟩
    · have := (step_run hd ha hs).1 _ _ hp
      cases ch <;> simp [workStep, hinv] at this
      rw [← this]
      rfl
    · have := (step_run hd ha hs).1 _ _ hp
      cases ch <;> simp [workStep, sendStep, hinv] at this
      rw [← this]
      rfl
    · have := (step_run hd ha hs).1 _ _ hp
      cases ch <;> simp [workStep, postStep, hinv] at this
      rw [← this]
      rfl
    · have := (step_run hd ha hs).2 _ _ hp
      cases ch <;> simp [accOnStep, hinv] at this
      rw [← this]
      rfl
    · exact hS.caught hup hm hc io (by simp [slot, view, hio, hk]) hp hs

/-- A client on `h`, and a `Disconnect` of it up to its exchange. -/
def exchanged (h : Sock) : List (Act (Fin 4)) :=
  accepted h ++ [.run 3 (.disconnect firstID)] ++ ticks 3 4

theorem guardsSee_ones : ∃ c, Reach step (fun _ _ => True) crew c ∧
    (c.mem.hist 0).marked = true ∧ GuardsSee c 0 := by
  obtain ⟨c, hr, hp⟩ := reach_free (b := crew) (exchanged 0xFFFFFFFF80000004)
    (p := fun c => (c.mem.hist 0).marked && upper (c.mem.hist 0).handle == BitVec.allOnes 32)
    (by decide +kernel)
  rw [Bool.and_eq_true, beq_iff_eq] at hp
  exact ⟨c, hr, hp.1, (guardsSee_iff hr hp.1).mpr hp.2⟩

/-- On an ordinary handle the exchange leaves a value that no guard recognises. -/
theorem guards_miss : ¬∀ c, Reach step (fun _ _ => True) crew c →
    ∀ k, (c.mem.hist k).marked = true → GuardsSee c k := by
  intro h
  obtain ⟨c, hr, hp⟩ := reach_free (b := crew) (exchanged 0x1A4)
    (p := fun c => (c.mem.hist 0).marked && (c.mem.sess 0).socket != invalidSocket)
    (by decide +kernel)
  rw [Bool.and_eq_true, bne_iff_ne] at hp
  exact hp.2 (h c hr 0 hp.1).socket

end LoginServerChat.SlotSock
