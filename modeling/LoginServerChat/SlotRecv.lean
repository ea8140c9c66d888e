import LoginServerChat.SendPath

/-!
One receive at a time. The accept thread posts the first receive of a session, and the worker
that handles a receive posts the next, so that one thread at a time is between the completion
of a receive and the next `WSARecv`.
-/

namespace LoginServerChat.SlotRecv

open NetPacket NetState NetStep SlotStep SlotView SlotRun SlotRefs SlotPhase SlotLive SlotRelease
  SlotJoin SlotSend SendPath Runs

variable {τ : Type*} [DecidableEq τ] [Fintype τ]

/-- A receive that has completed. -/
def Job.recvs : Job → ℕ
  | .recvDone _ _ => 1
  | _ => 0

def IoReq.recvs (io : IoReq) : ℕ := if io.send then 0 else 1

/-- The thread has the receive in hand, or is to post it. -/
def Role.recvs : Role → ℕ
  | .acc (.pend _) | .acc (.cancel _) | .acc .fail => 0
  | .acc _ => 1
  | .work (.entry j) => Job.recvs j
  | .work (.recv _) | .work (.post .inc) | .work (.post .load) | .work (.post (.recv _)) => 1
  | _ => 0

def LV.recvs (l : LV) : ℕ := Role.recvs l.role

def View.recvs (V : View) : ℕ := (V.ios.map IoReq.recvs).sum + (V.jobs.map Job.recvs).sum

lemma LV.recvs_le (l : LV) : LV.recvs l ≤ LV.inits l + LV.refs l := by
  obtain ⟨r, x⟩ := l
  rcases r with _ | p | p | p
  · exact Nat.zero_le _
  · rcases p with ⟨_, p⟩ | _ | _ | _ | _ | _ | _ | _ | _
    · cases p <;> simp only [LV.recvs, Role.recvs, LV.inits, LV.refs, Role.refs, AccOn.refs] <;> omega
    all_goals simp only [LV.recvs, Role.recvs, LV.refs, Role.refs, AccOn.refs]; omega
  · rcases p with j | _ | _ | _ | _ | p | _ | p | _
    · cases j <;>
        simp only [LV.recvs, Role.recvs, Job.recvs, LV.refs, Role.refs, WorkPc.refs, Job.refs] <;> omega
    all_goals try exact Nat.zero_le _
    · simp only [LV.recvs, Role.recvs, LV.refs, Role.refs, WorkPc.refs]
      omega
    · cases p <;> simp only [LV.recvs, Role.recvs, LV.refs, Role.refs, WorkPc.refs, PostPc.refs] <;>
        omega
  · exact Nat.zero_le _

lemma View.recvs_le (V : View) : View.recvs V ≤ View.refs V := by
  have h1 : (V.ios.map IoReq.recvs).sum ≤ V.ios.length := by
    have := List.sum_le_card_nsmul (V.ios.map IoReq.recvs) 1 (by
      intro x hx
      obtain ⟨io, -, rfl⟩ := List.mem_map.mp hx
      unfold IoReq.recvs
      split <;> omega)
    simpa using this
  have h2 : (V.jobs.map Job.recvs).sum ≤ (V.jobs.map Job.refs).sum := by
    refine List.sum_le_sum fun j _ => ?_
    cases j <;> simp [Job.recvs, Job.refs]
  simp only [View.recvs, View.refs]
  omega

lemma cancelAll_recvs (s : Sock) (ios : List IoReq) :
    ((cancelAll s ios).map IoReq.recvs).sum = (ios.map IoReq.recvs).sum := by
  rw [cancelAll, List.map_map]
  congr 2
  funext io
  simp only [Function.comp]
  split <;> rfl

variable {k : ℕ} {e : Ev} {V V' : View} {l l' : LV}

/-- One receive at a time; `n` counts what the other threads have. -/
lemma sstep_recvs {n : ℕ} (h : SStep k e V l V' l') (hA : SoundAt V l)
    (hcas : V.s.ioCount = 0 → V.h.phase = .live → View.recvs V + n = 0)
    (hn : View.recvs V + (n + LV.recvs l) ≤ View.busy V) :
    View.recvs V' + (n + LV.recvs l') ≤ View.busy V' := by
  cases h
  case pop hst =>
    simp [View.busy, hA.stack (by omega)] at hn
    simp only [View.busy, LV.recvs, Role.recvs, View.recvs, true_or, if_true] at hn ⊢
    omega
  case initReleaseFlag =>
    simp only [View.busy, hA.init Nat.one_pos, LV.recvs, Role.recvs, View.recvs, true_or, or_true,
      if_true] at hn ⊢
    omega
  case cas h0 hf =>
    have := hcas h0 (hA.of_flag (.inr trivial) hf)
    simp only [View.recvs, LV.recvs, Role.recvs] at this ⊢
    omega
  case push =>
    simp [View.busy, hA.rel Nat.one_pos] at hn
    simp only [View.recvs, LV.recvs, Role.recvs] at hn ⊢
    omega
  case gqcs j js hj =>
    simp only [View.recvs, LV.recvs, Role.recvs, hj, List.map_cons, List.sum_cons] at hn ⊢
    exact le_trans (by omega) hn
  case entryPass j _ _ =>
    cases j <;> exact hn
  case entrySkip j _ _ =>
    cases j <;> exact le_trans (by simp [LV.recvs, Role.recvs, View.recvs]) hn
  all_goals first
    | exact hn
    | refine le_trans ?_ hn
      simp only [View.recvs, LV.recvs, Role.recvs, IoReq.recvs, Job.recvs, cancelAll_recvs,
        List.map_append, List.sum_append, List.map_cons, List.map_nil, List.sum_cons, List.sum_nil,
        if_true, if_false, Bool.false_eq_true]
      omega

/-- The receives of a slot. -/
def recvs (S : Slot τ) : ℕ := View.recvs S.V + ∑ t, LV.recvs (S.L t)

variable {b : Boot} {a : τ} {w : τ → Bool} {c : Config τ} {bad : List Ev}

/-- **One receive at a time.** -/
theorem reach_recvs (hok : .ok ∉ bad) (hr : .skipRelease ∈ bad)
    (h : Reach step (avoids bad) (boot b a w) c) : recvs (slot c k) ≤ View.busy (slot c k).V := by
  refine slot_inv (I := fun S => recvs S ≤ View.busy S.V) hok (fun S hf => ?_)
    (fun c e S' hc hi he hn => ?_) h
  · simp [recvs, hf.idle, LV.recvs, Role.recvs, View.recvs, hf.ios, hf.jobs]
  · have hA := fun t => reach_sound (k := k) hok hr hc t
    have hP := reach_phased (k := k) hc
    generalize slot c k = S at hn hi hA hP
    cases hn with
    | @thread e V L V' l' t hs =>
      obtain ⟨n, hn, hn'⟩ := sum_split LV.recvs L t
      simp only [recvs, hn, hn'] at hi ⊢
      refine sstep_recvs hs (hA t) (fun h0 hph => ?_) hi
      have hi0 : ∑ u, LV.inits (L u) = 0 := by simpa [hph] using hP.inits
      have hu : ∑ u, LV.recvs (L u) = 0 := by
        refine Finset.sum_eq_zero fun u _ => ?_
        have h1 := LV.recvs_le (L u)
        have h2 : LV.refs (L u) = 0 := ((hA u).empty h0).2
        have h3 := le_sum (fun u => LV.inits (L u)) u
        omega
      have hV := View.recvs_le V
      have hV0 : View.refs V = 0 := ((hA t).empty h0).1
      omega
    | @complete V L io n d hio =>
      have hj : Job.recvs (IoReq.done io n d) = IoReq.recvs io := by
        simp only [IoReq.done, IoReq.recvs]
        split <;> rfl
      have hsum := List.sum_map_erase IoReq.recvs hio
      simp only [recvs, View.recvs, View.busy, List.map_append, List.sum_append, List.map_cons,
        List.map_nil, List.sum_cons, List.sum_nil, hj] at hi ⊢
      omega

end LoginServerChat.SlotRecv
