import LoginServerChat.AcceptBooks

/-!
The accounts of the free stack. `AcceptThread` counts a client in `_nowSession` before it takes
a slot from the stack, and `ReleaseSession` returns the slot before it takes the client out of the
count, so that the stack is never shorter than the count says. All of this holds in every run.
-/

namespace LoginServerChat.FreeStack

open NetPacket NetState NetStep SlotStep SlotRun SlotPhase AcceptBooks Runs

variable {τ : Type*} [DecidableEq τ] [Fintype τ]

/-! ### What the stack holds -/

/-- The stack of a server for `n` clients has slot `k` once while it is free and not at all
otherwise. -/
structure Stacked (n k : ℕ) (p : Phase) (count : ℕ) : Prop where
  count : count = if p = .free ∧ k < n then 1 else 0
  small : p ≠ .free → k < n

lemma Life.stacked {n k x y : ℕ} {p q : Phase} (h : Life p x q y) (hs : Stacked n k p x) :
    Stacked n k q y := by
  obtain ⟨h1, h2⟩ := hs
  cases h with
  | stay => exact ⟨h1, h2⟩
  | pop =>
    have hk : k < n := by
      by_contra hk
      simp [hk] at h1
    exact ⟨by simpa [hk] using h1, fun _ => hk⟩
  | ready => exact ⟨by simpa using h1, fun _ => h2 nofun⟩
  | close => exact ⟨by simpa using h1, fun _ => h2 nofun⟩
  | push =>
    have hk := h2 nofun
    exact ⟨by simpa [hk] using h1, fun h => absurd rfl h⟩

variable {b : Boot} {a : τ} {w : τ → Bool} {c : Config τ} {ok : Config τ → Act τ → Prop}

lemma reach_stacked (h : Reach step ok (boot b a w) c) (k : ℕ) :
    Stacked b.maxUser k (c.mem.hist k).phase (c.mem.freeStack.count k) := by
  refine Reach.inv (I := fun c => Stacked b.maxUser k (c.mem.hist k).phase (c.mem.freeStack.count k))
    ⟨?_, fun hp => absurd rfl hp⟩ (fun c c' x hr hi _ hs => Life.stacked (step_life hr hs k) hi) h
  have hnd : (List.range b.maxUser).Nodup := List.nodup_range
  simp [boot, bootMem, freshHist, List.count_reverse, hnd.count]

lemma stack_mem {k : ℕ} (h : Reach step ok (boot b a w) c) (hk : k ∈ c.mem.freeStack) :
    (c.mem.hist k).phase = .free ∧ k < b.maxUser := by
  by_contra hn
  have := (reach_stacked h k).count
  rw [if_neg hn, List.count_eq_zero] at this
  exact this hk

lemma stack_nodup (h : Reach step ok (boot b a w) c) : c.mem.freeStack.Nodup := by
  refine List.nodup_iff_count_le_one.mpr fun k => ?_
  rw [(reach_stacked h k).count]
  split <;> omega

/-! ### The count -/

/-- A client that is counted and has no slot, or has given it back. -/
def Stand.owes : Stand → ℕ
  | .counted | .numbered | .returned _ => 1
  | _ => 0

/-- The threads other than the accept thread. -/
def Stand.outside (s : Stand) : Prop := s = .none ∨ s = .returned false

lemma owes_away (x : Bool) : Stand.owes (away x) = 0 := by cases x <;> rfl

variable {B B' : Books} {s s' : Stand}

lemma astep_owes (h : AStep B s B' s') :
    B'.freeStack.length + B'.nowSession + Stand.owes s =
      B.freeStack.length + B.nowSession + Stand.owes s' := by
  cases h
  case pop i st hst =>
    simp only [hst, List.length_cons, Stand.owes]
    omega
  case push =>
    rw [owes_away]
    simp only [List.length_cons, Stand.owes]
    omega
  case decNow =>
    rw [owes_away]
    simp only [Stand.owes]
    omega
  all_goals
    simp only [Stand.owes]
  all_goals omega

lemma astep_outside (h : AStep B s B' s') (hs : Stand.outside s) :
    Stand.outside s' ∧ B'.nowSession ≤ B.nowSession := by
  have haway : ∀ x, Stand.outside (away x) → x = false := by
    intro x hx
    cases x
    · rfl
    · simp [Stand.outside, away] at hx
  cases h
  case stay => exact ⟨hs, le_refl _⟩
  case push =>
    rw [haway _ hs]
    exact ⟨.inr rfl, le_refl _⟩
  case decNow =>
    obtain rfl : _ = false := by simpa [Stand.outside] using hs
    exact ⟨.inl rfl, by dsimp only; omega⟩
  all_goals simp [Stand.outside] at hs

/-- The accept thread keeps the count within `_maxUser`, which it looks at before it counts. -/
structure Within (B : Books) (s : Stand) : Prop where
  le : B.nowSession ≤ B.maxUser
  lt : s = .granted → B.nowSession < B.maxUser

lemma astep_within (h : AStep B s B' s') (hw : Within B s) : Within B' s' := by
  obtain ⟨h1, h2⟩ := hw
  cases h
  case grant hn => exact ⟨h1, fun _ => by omega⟩
  case incNow =>
    have := h2 rfl
    exact ⟨by dsimp only; omega, nofun⟩
  case decNow x =>
    refine ⟨by dsimp only; omega, fun hs => ?_⟩
    cases x <;> cases hs
  case stay => exact ⟨h1, h2⟩
  all_goals exact ⟨h1, nofun⟩

/-- The accounts of a server that thread `a` accepts for. -/
structure Balanced (n : ℕ) (a : τ) (B : Books) (S : τ → Stand) : Prop where
  maxUser : B.maxUser = n
  owes : B.freeStack.length + B.nowSession = n + ∑ t, Stand.owes (S t)
  within : Within B (S a)
  outside : ∀ t ≠ a, Stand.outside (S t)

lemma astep_maxUser (h : AStep B s B' s') : B'.maxUser = B.maxUser := by cases h <;> rfl

lemma astep_balanced {n : ℕ} {S : τ → Stand} {t : τ} (h : AStep B (S t) B' s')
    (hb : Balanced n a B S) : Balanced n a B' (Function.update S t s') := by
  have hmax := astep_maxUser h
  refine ⟨hmax.trans hb.maxUser, ?_, ?_, fun u hu => ?_⟩
  · obtain ⟨r, h1, h2⟩ := sum_split Stand.owes S t
    have := hb.owes
    have := astep_owes h
    rw [h2]
    omega
  · by_cases hta : t = a
    · subst hta
      rw [Function.update_self]
      exact astep_within h hb.within
    · rw [Function.update_of_ne (Ne.symm hta)]
      have hle := (astep_outside h (hb.outside t hta)).2
      obtain ⟨h1, h2⟩ := hb.within
      refine ⟨?_, fun hg => ?_⟩
      · omega
      · have := h2 hg
        omega
  · by_cases hut : u = t
    · subst hut
      rw [Function.update_self]
      exact (astep_outside h (hb.outside u hu)).1
    · rw [Function.update_of_ne hut]
      exact hb.outside u hu

theorem reach_balanced (h : Reach step ok (boot b a w) c) :
    Balanced b.maxUser a (books c.mem) (stands c) := by
  refine Reach.inv (I := fun c => Balanced b.maxUser a (books c.mem) (stands c)) ?_
    (fun c c' x _ hi _ hs => ?_) h
  · have hst : ∀ t, stands (boot b a w) t = if t = a then .idle else .none := by
      intro t
      simp only [stands, stand, boot]
      by_cases ht : t = a
      · simp [ht]
      · cases w t <;> simp [ht]
    refine ⟨rfl, ?_, ⟨?_, fun hg => ?_⟩, fun t ht => ?_⟩
    · have : ∀ t, Stand.owes (stands (boot b a w) t) = 0 := by
        intro t
        rw [hst]
        split <;> rfl
      rw [Finset.sum_eq_zero fun t _ => this t]
      simp [books, boot, bootMem]
    · simp [books, boot, bootMem]
    · simp [hst] at hg
    · rw [hst, if_neg ht]
      exact .inl rfl
  · obtain ⟨t, s, h, hS⟩ := step_books a hs
    rw [hS]
    exact astep_balanced h hi

/-! ### The accounts -/

/-- The thread is in an accept: it has a client's socket and is not back at `accept`. -/
def Accepting (pc : Pc) : Prop :=
  match pc with
  | .acc .accept | .acc .stop | .accOn _ .stop => False
  | .acc _ | .accOn _ _ => True
  | _ => False

/-- The thread is in a release. -/
def InRelease (pc : Pc) : Prop := ∃ i p x, pc = .rel i p x

lemma owes_of_settled {l : Local} (h1 : ¬Accepting l.pc) (h2 : ¬InRelease l.pc) :
    Stand.owes (stand l) = 0 := by
  unfold stand
  split
  case h_3 hp | h_4 hp => exact absurd (by rw [hp]; trivial) h1
  case h_6 p _ => cases p <;> rfl
  case h_11 hp => exact absurd ⟨_, _, _, hp⟩ h2
  case h_12 => exact owes_away _
  all_goals rfl

/-- What the free stack and `_nowSession` are to each other. -/
structure Accounts (c : Config τ) (n : ℕ) : Prop where
  nodup : c.mem.freeStack.Nodup
  lt : ∀ k ∈ c.mem.freeStack, k < n
  /-- A slot between the `Pop` of an accept and the `Push` of its release is not on the stack. -/
  free : ∀ k ∈ c.mem.freeStack, (c.mem.hist k).phase = .free
  length : n - c.mem.nowSession ≤ c.mem.freeStack.length
  settled : (∀ t, ¬Accepting (c.loc t).pc ∧ ¬InRelease (c.loc t).pc) →
    n - c.mem.nowSession = c.mem.freeStack.length
  nonneg : 0 ≤ c.mem.nowSession
  le : c.mem.nowSession ≤ n
  /-- The loop around `Pop` ends in its first pass. -/
  pop : ∀ t h, (c.loc t).pc = .acc (.pop h) → ∃ i st, c.mem.freeStack = i :: st

/-- **The free stack is accounted for.** -/
theorem accounts (h : Reach step ok (boot b a w) c) : Accounts c b.maxUser := by
  obtain ⟨hmax, howes, ⟨hle, -⟩, -⟩ := reach_balanced h
  have hmem : ∀ k ∈ c.mem.freeStack, (c.mem.hist k).phase = .free ∧ k < b.maxUser := fun k => stack_mem h
  have hnd := stack_nodup h
  have hlen : c.mem.freeStack.length ≤ b.maxUser := by
    have hsub : c.mem.freeStack ⊆ List.range b.maxUser :=
      fun k hk => List.mem_range.mpr (hmem k hk).2
    simpa using (hnd.subperm hsub).length_le
  simp only [books] at hmax howes hle
  rw [hmax] at hle
  refine ⟨hnd, fun k hk => (hmem k hk).2, fun k hk => (hmem k hk).1, by omega, fun hs => ?_,
    by omega, hle, fun t s hp => ?_⟩
  · have h0 : ∑ t, Stand.owes (stands c t) = 0 :=
      Finset.sum_eq_zero fun t _ => owes_of_settled (hs t).1 (hs t).2
    rw [h0] at howes
    omega
  · have h1 : Stand.owes (stands c t) = 1 := by
      unfold stands stand
      rw [hp]
      rfl
    have := le_sum (fun u => Stand.owes (stands c u)) t
    rcases hf : c.mem.freeStack with _ | ⟨i, st⟩
    · simp only [hf, List.length_nil] at howes
      omega
    · exact ⟨i, st, rfl⟩

/-- The only slot is back on the stack and its client not yet out of the count. -/
theorem accounts_full : ∃ c, Reach step (fun _ _ => True) crew c ∧ c.mem.freeStack = [0] ∧
    c.mem.nowSession = 1 ∧ Accounts c 1 := by
  obtain ⟨c, hr, hp⟩ := reach_free (b := crew) (accepted 0x1A4 ++
      [.complete ⟨0, 0, 1, false, 0x1A4, recvCap, true, false⟩ 0 []] ++ ticks 1 9 ++ [.run 1 .ret] ++
      ticks 1 1)
    (p := fun c => decide (c.mem.freeStack = [0] ∧ c.mem.nowSession = 1)) (by decide +kernel)
  obtain ⟨h1, h2⟩ := of_decide_eq_true hp
  exact ⟨c, hr, h1, h2, accounts hr⟩

end LoginServerChat.FreeStack
