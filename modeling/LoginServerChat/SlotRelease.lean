import LoginServerChat.SlotLive

/-!
The release of a session. It happens once for each accept, with nothing left that refers to
the session, and a session whose count has fallen to zero is never forgotten.
-/

namespace LoginServerChat.SlotRelease

open NetPacket NetState NetStep SlotStep SlotView SlotRun SlotRefs SlotPhase SlotLive Runs

variable {τ : Type*} [DecidableEq τ] [Fintype τ]

/-- The thread is about to call `ReleaseSession`, or to post the job that will. -/
def LV.asks (l : LV) : ℕ :=
  (match l.role with
    | .work (.entry .release) | .rel .cas => 1
    | _ => 0) +
  match l.api with
    | some (_, .request) => 1
    | _ => 0

/-- Those that will release the session. -/
def asks (S : Slot τ) : ℕ := S.V.jobs.count .release + ∑ t, LV.asks (S.L t)

variable {k : ℕ} {e : Ev} {V V' : View} {l l' : LV}

/-- Who takes the count of a live session to zero asks for its release, and who finds that it
cannot release the session leaves a count above zero; `n` counts the other threads that ask. -/
lemma sstep_asks {n m : ℕ} (h : SStep k e V l V' l') (hs : e ≠ .skipRelease)
    (hr : e ≠ .lostRelease) (hflag : LV.past l → V.h.phase = .live → V.s.releaseFlag = 0)
    (hb : V.s.ioCount = View.refs V + (m + LV.refs l))
    (hi : V.h.phase = .live → V.s.ioCount = 0 → 0 < V.jobs.count .release + (n + LV.asks l))
    (hp : V'.h.phase = .live) (h0 : V'.s.ioCount = 0) :
    0 < V'.jobs.count .release + (n + LV.asks l') := by
  cases h
  case entrySkipRelease => exact absurd rfl hs
  case requestFail => exact absurd rfl hr
  case leaveLast | accFailLast | decLast => simp only [LV.asks]; omega
  case request => simp only [List.count_append, List.count_singleton_self]; omega
  case chkID c _ => cases c <;> exact hi hp h0
  case entryPass j _ _ => cases j <;> exact hi hp h0
  case entrySkip j hj _ =>
    cases j
    case release => exact absurd rfl hj
    all_goals exact hi hp h0
  case casFail hc => exact absurd ⟨h0, hflag (.inr trivial) hp⟩ hc
  case gqcs j js hj =>
    have := hi hp h0
    rw [hj] at this
    cases j <;> simp [LV.asks] at this ⊢ <;> omega
  case post =>
    have := hi hp h0
    rw [List.count_append, show [Job.sendPost].count .release = 0 from rfl]
    exact this
  case initReleaseFlag | inc | postInc | enter | initIoCount =>
    simp only [LV.refs, Role.refs, AccOn.refs, WorkPc.refs, SendPc.refs, PostPc.refs, ApiPc.refs,
      Option.elim] at hb h0
    omega
  case sendFail | postFailed =>
    simp only [LV.refs, Role.refs, WorkPc.refs, SendPc.refs, PostPc.refs, Option.elim] at hb h0
    omega
  case leave hne | accFail hne | dec hne => exact absurd h0 hne
  case relWalk p p' hw => cases p <;> cases p' <;> first | exact hw.elim | exact hi hp h0
  case pop | cas | push => exact absurd hp (by simp)
  all_goals exact hi hp h0

variable {b : Boot} {a : τ} {w : τ → Bool} {c : Config τ} {bad : List Ev}

/-- A live session whose count is zero is going to be released. -/
lemma reach_asks (hok : .ok ∉ bad) (hs : .skipRelease ∈ bad) (hr : .lostRelease ∈ bad)
    (h : Reach step (avoids bad) (boot b a w) c) (hp : (slot c k).V.h.phase = .live)
    (h0 : (slot c k).V.s.ioCount = 0) : 0 < asks (slot c k) := by
  revert hp h0
  refine slot_inv (I := fun S => S.V.h.phase = .live → S.V.s.ioCount = 0 → 0 < asks S) hok
    (fun S hf hp => ?_) (fun c e S' hc hi he hn => ?_) h
  · simp [hf.h, freshHist] at hp
  · have hN := reach_named hc k
    have hP := reach_phased (k := k) hc
    have hB := reach_counted (k := k) hok hs hc
    generalize slot c k = S at hn hN hP hB hi
    cases hn with
    | @thread e V L V' l' t hst =>
      obtain ⟨n, hn, hn'⟩ := sum_split LV.asks L t
      obtain ⟨m, hm, hm'⟩ := sum_split LV.refs L t
      simp only [asks, refs, Counted, hn, hn', hm] at hi hB ⊢
      refine sstep_asks (m := m) hst (fun h => he (h ▸ hs)) (fun h => he (h ▸ hr))
        (fun hp hph => ?_) (by rw [hB]; push_cast; rfl) hi
      rw [hP.flag ((hN.2 t).ever hp), if_pos hph]
    | @complete V L io n d hio =>
      intro hp h0
      have := hi hp h0
      simp only [asks, List.count_append] at this ⊢
      omega

lemma mem_jobs {m : Mem} {j : Job} : j ∈ (view m k).jobs ↔ (k, j) ∈ m.queue := by
  simp only [view, List.mem_filterMap, Option.ite_none_right_eq_some, Option.some.injEq]
  constructor
  · rintro ⟨⟨i, j'⟩, h, rfl, rfl⟩
    exact h
  · exact fun h => ⟨(k, j), h, rfl, rfl⟩

end LoginServerChat.SlotRelease
