import LoginServerChat.SlotPhase

/-!
A reference that is not just being tried keeps its slot live. A posted operation, a job, a
worker and an `EnterSession` that has passed its first test are such references; a caller of
`EnterSession` before that test, or on its way out, is not.

All of this is for runs without a skipped `RELEASE` job, in which `ioCount` is the number of
references, so that the compare-exchange of `ReleaseSession` finds none.
-/

namespace LoginServerChat.SlotLive

open NetPacket NetState NetStep SlotStep SlotView SlotRun SlotRefs SlotPhase Runs

variable {τ : Type*} [DecidableEq τ] [Fintype τ]

def AccOn.valid : AccOn → ℕ
  | .init _ .sendFlag | .init _ .sendCnt | .init _ .recvQ => 1
  | .init _ _ | .pend _ | .cancel _ => 0
  | _ => 1

def Role.valid : Role → ℕ
  | .acc p => AccOn.valid p
  | r => Role.refs r

def ApiPc.valid : ApiPc → ℕ
  | .enter _ | .chkRel _ | .leave | .request => 0
  | _ => 1

/-- The references of a thread that keep the slot live. -/
def LV.valid (l : LV) : ℕ := Role.valid l.role + (l.api.elim 0 fun x => ApiPc.valid x.2)

lemma LV.valid_le (l : LV) : LV.valid l ≤ LV.refs l := by
  obtain ⟨r, x⟩ := l
  have h1 : Role.valid r ≤ Role.refs r := by
    unfold Role.valid
    split
    · rename_i p
      rcases p with ⟨_, p⟩ | _ | _ | _ | _ | _ | _ | _ | _
      · cases p <;> simp [AccOn.valid, AccOn.refs, Role.refs]
      all_goals simp [AccOn.valid, AccOn.refs, Role.refs]
    · rfl
  rcases x with _ | ⟨id, p⟩
  · simpa [LV.valid, LV.refs] using h1
  · have h2 : ApiPc.valid p ≤ ApiPc.refs p := by
      cases p <;> simp [ApiPc.valid, ApiPc.refs]
    simp only [LV.valid, LV.refs, Option.elim]
    omega

variable {k : ℕ} {e : Ev} {V V' : View} {l l' : LV}

/-- A step to the last reference keeps the slot live; `n` counts what the other threads hold. -/
lemma sstep_valid {n : ℕ} (h : SStep k e V l V' l') (he : e ≠ .skipRelease)
    (hflag : LV.past l → V.s.releaseFlag ≠ 1 → V.h.phase = .live)
    (hstack : 0 < V.stack → V.h.phase ≠ .live) (hrel : 0 < LV.releases l → V.h.phase ≠ .live)
    (hcas : V.s.ioCount = 0 → View.refs V + n = 0)
    (hv : 0 < View.refs V + (n + LV.valid l) → V.h.phase = .live)
    (hp : 0 < View.refs V' + (n + LV.valid l')) : V'.h.phase = .live := by
  cases h
  case entrySkipRelease => exact absurd rfl he
  case chkRel hf => exact hflag (.inl (Option.some_ne_none _)) hf
  case initReleaseFlag => rfl
  case cas h0 hf =>
    have := hcas h0
    simp only [LV.valid, Role.valid, Role.refs, View.refs, Option.elim] at hp this
    omega
  case pop hst => exact absurd (hv hp) (hstack (by omega))
  case push => exact absurd (hv hp) (hrel Nat.one_pos)
  case chkID c _ => cases c <;> exact hv hp
  case entryPass j _ _ => cases j <;> exact hv hp
  case entrySkip j hj _ =>
    cases j
    case release => exact absurd rfl hj
    all_goals exact hv hp
  case gqcs j js hj =>
    refine hv ?_
    simp only [View.refs, LV.valid, Role.valid, Role.refs, WorkPc.refs, hj, List.map_cons,
      List.sum_cons, Option.elim] at hp ⊢
    omega
  all_goals
    refine hv ?_
    simp only [View.refs, LV.valid, Role.valid, Role.refs, AccOn.valid, WorkPc.refs, SendPc.refs,
      PostPc.refs, ApiPc.valid, Job.refs, cancelAll_length, List.map_append, List.sum_append,
      List.map_cons, List.map_nil, List.sum_cons, List.sum_nil, List.length_append,
      List.length_cons, List.length_nil, Option.elim] at hp ⊢
    omega

/-- What keeps a slot live. -/
def valid (S : Slot τ) : ℕ := View.refs S.V + ∑ t, LV.valid (S.L t)

omit [DecidableEq τ] in
lemma valid_le_refs (S : Slot τ) : valid S ≤ refs S :=
  Nat.add_le_add_left (Finset.sum_le_sum fun t _ => LV.valid_le (S.L t)) _

variable {b : Boot} {a : τ} {w : τ → Bool} {c : Config τ} {bad : List Ev}

/-- **A valid reference keeps its slot live.** -/
theorem reach_live (hok : .ok ∉ bad) (hr : .skipRelease ∈ bad)
    (h : Reach step (avoids bad) (boot b a w) c) (hv : 0 < valid (slot c k)) :
    (slot c k).V.h.phase = .live := by
  revert hv
  refine slot_inv (I := fun S => 0 < valid S → S.V.h.phase = .live) hok (fun S hf hv => ?_)
    (fun c e S' hc hi he hn => ?_) h
  · simp [valid, View.refs, hf.ios, hf.jobs, hf.idle, LV.valid, Role.valid, Role.refs] at hv
  · have hN := reach_named hc k
    have hP := reach_phased (k := k) hc
    have hB := reach_counted (k := k) hok hr hc
    generalize slot c k = S at hn hN hP hB hi
    cases hn with
    | @thread e V L V' l' t hs =>
      obtain ⟨n, hn, hn'⟩ := sum_split LV.valid L t
      obtain ⟨m, hm, hm'⟩ := sum_split LV.refs L t
      have hrel := le_sum (fun u => LV.releases (L u)) t
      have hle := valid_le_refs (⟨V, Function.update L t ⟨.none, none⟩⟩ : Slot τ)
      simp only [valid, refs, Counted, hn, hn', hm, hm'] at hi hB hle ⊢
      refine sstep_valid hs (fun h => he (h ▸ hr)) (fun hp hf => ?_) (fun hst hph => ?_)
        (fun hr hph => ?_) (fun h0 => ?_) hi
      · by_contra hph
        exact hf (by rw [hP.flag ((hN.2 t).ever hp), if_neg hph])
      · exact Phase.noConfusion (hph.symm.trans (hP.of_stack hst))
      · exact Phase.noConfusion (hph.symm.trans (hP.of_releases (Nat.lt_of_lt_of_le hr hrel)))
      · simp only [LV.valid, LV.refs, Role.valid, Role.refs, Option.elim] at hle
        omega
    | @complete V L io n d hio =>
      intro _
      refine hi ?_
      have := List.length_pos_of_mem hio
      simp only [valid, View.refs]
      omega

/-- What the point of a thread says about its slot. -/
structure SoundAt (V : View) (l : LV) : Prop where
  live : 0 < LV.valid l → V.h.phase = .live
  held : 0 < View.refs V → V.h.phase = .live
  rel : 0 < LV.releases l → V.h.phase = .rel
  init : 0 < LV.inits l → V.h.phase = .init
  stack : 0 < V.stack → V.h.phase = .free
  flag : LV.past l → V.s.releaseFlag = if V.h.phase = .live then 0 else 1
  empty : V.s.ioCount = 0 → View.refs V = 0 ∧ LV.refs l = 0

/-- A cleared flag says so. -/
lemma SoundAt.of_flag (hA : SoundAt V l) (hp : LV.past l) (hf : V.s.releaseFlag = 0) :
    V.h.phase = .live := by
  by_contra hph
  have := hA.flag hp
  rw [if_neg hph] at this
  omega

theorem reach_sound (hok : .ok ∉ bad) (hr : .skipRelease ∈ bad)
    (h : Reach step (avoids bad) (boot b a w) c) (t : τ) :
    SoundAt (slot c k).V ((slot c k).L t) := by
  have hN := reach_named h k
  have hP := reach_phased (k := k) h
  have hB := reach_counted (k := k) hok hr h
  have hL := reach_live (k := k) hok hr h
  have hv := le_sum (fun u => LV.valid ((slot c k).L u)) t
  have hrel := le_sum (fun u => LV.releases ((slot c k).L u)) t
  have hini := le_sum (fun u => LV.inits ((slot c k).L u)) t
  have href := le_sum (fun u => LV.refs ((slot c k).L u)) t
  simp only [valid, Counted, refs] at hL hB
  refine ⟨fun h => hL (by omega), fun h => hL (by omega), fun h => ?_, fun h => ?_, fun h => ?_,
    fun h => hP.flag ((hN.2 t).ever h), fun h => by omega⟩
  · exact hP.of_releases (Nat.lt_of_lt_of_le h hrel)
  · exact hP.of_inits (Nat.lt_of_lt_of_le h hini)
  · exact hP.of_stack h

end LoginServerChat.SlotLive
