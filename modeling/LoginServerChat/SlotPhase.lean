import LoginServerChat.SlotRefs

/-!
The life of a slot. A slot is on the free stack, in the hands of the one thread that prepares
it, live, or in the hands of the one thread that releases it, and `releaseFlag` is 0 exactly
while it is live. This holds in every run.
-/

namespace LoginServerChat.SlotPhase

open NetPacket NetState NetStep SlotStep SlotView SlotRun SlotRefs Runs

variable {τ : Type*} [DecidableEq τ] [Fintype τ]

/-- The thread prepares the slot. -/
def LV.inits (l : LV) : ℕ :=
  match l.role with
  | .acc (.init _ .ioCount) | .acc (.init _ .socket) | .acc (.init _ .relSocket)
  | .acc (.init _ .sessionID) | .acc (.init _ .releaseFlag) => 1
  | _ => 0

/-- The thread is in the body of `ReleaseSession`, up to `Push`. -/
def LV.releases (l : LV) : ℕ :=
  match l.role with
  | .rel .cas | .rel .decNow => 0
  | .rel _ => 1
  | _ => 0

/-- The invariant, with `i` and `r` counting the threads that prepare and release. -/
structure Phased (V : View) (i r : ℕ) : Prop where
  stack : V.stack ≤ if V.h.phase = .free then 1 else 0
  inits : i = if V.h.phase = .init then 1 else 0
  releases : r = if V.h.phase = .rel then 1 else 0
  flag : V.h.ever = true → V.s.releaseFlag = if V.h.phase = .live then 0 else 1
  live : V.h.phase = .live → V.h.ever = true
  bodies : V.h.bodies = if V.h.phase = .rel ∨ V.h.phase = .free ∧ V.h.ever = true then 1 else 0

variable {k : ℕ} {e : Ev} {V V' : View} {l l' : LV}

section

variable {i r : ℕ} (hp : Phased V i r)

include hp

lemma Phased.of_stack (h : 0 < V.stack) : V.h.phase = .free := by
  by_contra hph
  have := hp.stack
  rw [if_neg hph] at this
  omega

lemma Phased.of_inits (h : 0 < i) : V.h.phase = .init := by
  by_contra hph
  have := hp.inits
  rw [if_neg hph] at this
  omega

lemma Phased.of_releases (h : 0 < r) : V.h.phase = .rel := by
  by_contra hph
  have := hp.releases
  rw [if_neg hph] at this
  omega

lemma Phased.of_flag (he : V.h.ever = true) (hf : V.s.releaseFlag = 0) : V.h.phase = .live := by
  by_contra hph
  have := hp.flag he
  rw [if_neg hph] at this
  omega

end

/-- What a step does to the life of a slot, with how often the free stack has it. -/
inductive Life : Phase → ℕ → Phase → ℕ → Prop
  | stay {p n} : Life p n p n
  | pop {n} : Life .free (n + 1) .init n
  | ready {n} : Life .init n .live n
  | close {n} : Life .live n .rel n
  | push {n} : Life .rel n .free (n + 1)

lemma sstep_life {i r : ℕ} (h : SStep k e V l V' l') (hl : LV.past l → V.h.ever = true)
    (hp : Phased V (i + LV.inits l) (r + LV.releases l)) :
    Life V.h.phase V.stack V'.h.phase V'.stack := by
  cases h
  case pop n st hst =>
    rw [hp.of_stack (by omega), hst]
    exact .pop
  case initReleaseFlag =>
    rw [hp.of_inits (Nat.succ_pos i)]
    exact .ready
  case cas h0 hf =>
    rw [hp.of_flag (hl (.inr trivial)) hf]
    exact .close
  case push hid =>
    rw [hp.of_releases (Nat.succ_pos r)]
    exact .push
  case entrySkip j _ _ => cases j <;> exact .stay
  all_goals exact .stay

lemma sstep_phased {i r : ℕ} (h : SStep k e V l V' l') (hl : LV.past l → V.h.ever = true)
    (hp : Phased V (i + LV.inits l) (r + LV.releases l)) :
    Phased V' (i + LV.inits l') (r + LV.releases l') := by
  have ⟨h1, h2, h3, h4, h5, h6⟩ := hp
  cases h
  case pop n st hst =>
    have hph : V.h.phase = .free := hp.of_stack (by omega)
    simp only [hph, LV.inits, LV.releases, reduceCtorEq, if_true, if_false] at h1 h2 h3 h4
    exact ⟨by simp; omega, by simp [LV.inits]; omega, by simp [LV.releases]; omega, by simpa using h4,
      by simp, by simp⟩
  case initReleaseFlag =>
    have hph : V.h.phase = .init := hp.of_inits (Nat.succ_pos i)
    simp only [hph, LV.inits, LV.releases, reduceCtorEq, if_true, if_false] at h1 h2 h3 h6
    exact ⟨by simp; omega, by simp [LV.inits]; omega, by simp [LV.releases]; omega, by simp,
      by simp, by simpa using h6⟩
  case cas h0 hf =>
    have hph : V.h.phase = .live := hp.of_flag (hl (.inr trivial)) hf
    simp only [hph, LV.inits, LV.releases, reduceCtorEq, if_false, false_and, or_self]
      at h1 h2 h3 h6
    exact ⟨by simp; omega, by simp [LV.inits]; omega, by simp [LV.releases]; omega, by simp,
      by simp, by simp [h6]⟩
  case push hid =>
    have hev := hl (.inr trivial)
    have hph : V.h.phase = .rel := hp.of_releases (Nat.succ_pos r)
    simp only [hph, LV.inits, LV.releases, reduceCtorEq, if_true, if_false, true_or]
      at h1 h2 h3 h4 h6
    exact ⟨by simp; omega, by simp [LV.inits]; omega, by simp [LV.releases]; omega,
      fun _ => by simpa using h4 hev, by simp, by simpa [hev] using h6⟩
  case chkID c _ => cases c <;> exact ⟨h1, h2, h3, h4, h5, h6⟩
  case entryPass j _ _ => cases j <;> exact ⟨h1, h2, h3, h4, h5, h6⟩
  case entrySkip j _ _ => cases j <;> exact ⟨h1, h2, h3, h4, h5, h6⟩
  case relWalk p p' hp => cases p <;> cases p' <;> first | exact hp.elim | exact ⟨h1, h2, h3, h4, h5, h6⟩
  all_goals exact ⟨h1, h2, h3, h4, h5, h6⟩

/-- The threads that prepare the slot, and those that release it. -/
def SlotPhased (S : Slot τ) : Prop :=
  Phased S.V (∑ t, LV.inits (S.L t)) (∑ t, LV.releases (S.L t))

variable {b : Boot} {a : τ} {w : τ → Bool} {c : Config τ} {ok : Config τ → Act τ → Prop}

/-- **The life of a slot.** -/
theorem reach_phased (h : Reach step ok (boot b a w) c) : SlotPhased (slot c k) := by
  have h' : Reach step (avoids []) (boot b a w) c := h.mono fun _ _ _ => List.not_mem_nil
  refine slot_inv (I := SlotPhased) List.not_mem_nil (fun S hf => ?_) (fun c e S' hr hp _ hn => ?_) h'
  · have := hf.stack
    constructor <;> simp [hf.h, freshHist, hf.idle, LV.inits, LV.releases]
    omega
  · have hN := (reach_named hr k).2
    generalize slot c k = S at hn hN hp
    cases hn with
    | @thread e V L V' l' t hs =>
      obtain ⟨i, hi, hi'⟩ := sum_split LV.inits L t
      obtain ⟨r, hr, hr'⟩ := sum_split LV.releases L t
      simp only [SlotPhased, hi, hi', hr, hr'] at hp ⊢
      exact sstep_phased hs (hN t).ever hp
    | complete => exact ⟨hp.1, hp.2, hp.3, hp.4, hp.5, hp.6⟩

/-- **A step of the server in the life of a slot.** -/
theorem step_life {c' : Config τ} {x : Act τ} (hr : Reach step ok (boot b a w) c)
    (h : step c x = some c') (k : ℕ) :
    Life (c.mem.hist k).phase (c.mem.freeStack.count k)
      (c'.mem.hist k).phase (c'.mem.freeStack.count k) := by
  change Life (slot c k).V.h.phase (slot c k).V.stack (slot c' k).V.h.phase (slot c' k).V.stack
  have hN := (reach_named hr k).2
  have hP := reach_phased (k := k) hr
  rcases step_slot (reach_named hr) h k with he | ⟨e, -, hn⟩
  · rw [he]
    exact .stay
  · generalize slot c k = S at hn hN hP
    generalize slot c' k = S' at hn
    cases hn with
    | @thread e V L V' l' t hs =>
      obtain ⟨i, hi, -⟩ := sum_split LV.inits L t
      obtain ⟨r, hr, -⟩ := sum_split LV.releases L t
      simp only [SlotPhased, hi, hr] at hP
      exact sstep_life hs (hN t).ever hP
    | complete => exact .stay

end LoginServerChat.SlotPhase
