import LoginServerChat.Runs
import LoginServerChat.SlotView

/-!
The runs of the server as one slot sees them: a slot is its view and what each thread does to
it, and a step of the server is a step of one thread on it, a completion, or nothing.
-/

namespace LoginServerChat.SlotRun

open NetPacket NetState NetStep SlotStep SlotView Runs

variable {τ : Type*} [DecidableEq τ]

structure Slot (τ : Type*) where
  V : View
  L : τ → LV

def slot (c : Config τ) (k : ℕ) : Slot τ := ⟨view c.mem k, fun t => lview (c.loc t) k⟩

/-- What an action is, from the state before it. -/
def ev (c : Config τ) : Act τ → Ev
  | .run t ch => label c.mem (c.loc t) ch
  | _ => .ok

inductive Next (k : ℕ) : Ev → Slot τ → Slot τ → Prop
  | thread {e V L V' l'} (t : τ) (h : SStep k e V (L t) V' l') :
      Next k e ⟨V, L⟩ ⟨V', Function.update L t l'⟩
  | complete {V L} (io : IoReq) (n : ℕ) (d : List UInt8) (h : io ∈ V.ios) :
      Next k .ok ⟨V, L⟩
        ⟨{ V with ios := V.ios.erase io, jobs := V.jobs ++ [IoReq.done io n d] }, L⟩

/-! ### A slot knows its number -/

/-- Points that are past the store which makes the slot live. -/
def Role.past : Role → Prop
  | .none => False
  | .acc (.init _ .ioCount) | .acc (.init _ .socket) | .acc (.init _ .relSocket)
  | .acc (.init _ .sessionID) | .acc (.init _ .releaseFlag) => False
  | _ => True

/-- The thread can only be where it is on a slot that has been live. -/
def LV.past (l : LV) : Prop := l.api ≠ none ∨ Role.past l.role

/-- The thread has stored the slot's `sessionID` and not yet made the slot live. -/
def LV.naming (l : LV) : Prop := ∃ h, l.role = .acc (.init h .releaseFlag)

def LV.preparing (l : LV) : Prop := ∃ p, l.role = .acc p

/-- Something outside the threads refers to the slot. -/
def View.known (V : View) : Prop := V.issued ≠ [] ∨ V.jobs ≠ [] ∨ V.ios ≠ []

structure Named (k : ℕ) (V : View) : Prop where
  id : V.h.ever = true → slotOf V.s.sessionID = k
  ever : View.known V → V.h.ever = true
  small : 0 < V.stack → k < 65536

structure NamedBy (k : ℕ) (V : View) (l : LV) : Prop where
  id : LV.naming l → slotOf V.s.sessionID = k
  ever : LV.past l → V.h.ever = true
  small : LV.preparing l → k < 65536

variable {k : ℕ} {e : Ev} {V V' : View} {l l' : LV}

/-- Past its first accept a slot stays so. -/
lemma sstep_ever (h : SStep k e V l V' l') : V.h.ever = true → V'.h.ever = true := by
  cases h
  case entrySkip j _ _ => cases j <;> exact id
  case initReleaseFlag => exact fun _ => rfl
  all_goals exact id

/-- A `sessionID` that is stored names the slot. -/
lemma sstep_id (h : SStep k e V l V' l') :
    V'.s.sessionID = V.s.sessionID ∨ slotOf V'.s.sessionID = k := by
  cases h
  case initSessionID hid => exact .inr hid
  all_goals exact .inl rfl

lemma sstep_past (h : SStep k e V l V' l') (hV : Named k V) (hl : LV.past l → V.h.ever = true)
    (hp : LV.past l') : V'.h.ever = true := by
  cases h
  case foreign => exact hl hp
  case call hid => exact hV.ever (.inl (List.ne_nil_of_mem hid))
  case gqcs hj => exact hV.ever (.inr (.inl (by simp [hj])))
  case initReleaseFlag => rfl
  case entrySkip j _ _ => cases j <;> exact hl (.inr trivial)
  all_goals first
    | exact hl (.inl (Option.some_ne_none _))
    | exact hl (.inr trivial)
    | exact (hp.elim (fun h => h rfl) id).elim

lemma sstep_naming (h : SStep k e V l V' l') (hp : LV.naming l') :
    slotOf V'.s.sessionID = k ∨ LV.naming l ∧ V'.s.sessionID = V.s.sessionID := by
  obtain ⟨s, hs⟩ := hp
  cases h
  case initSessionID hid => exact .inl hid
  case entryPass j _ _ => cases j <;> simp [jobRole] at hs
  all_goals first
    | exact .inr ⟨⟨s, hs⟩, rfl⟩
    | simp at hs

lemma sstep_preparing (h : SStep k e V l V' l') (hV : Named k V) (hl : LV.preparing l → k < 65536)
    (hp : LV.preparing l') : k < 65536 := by
  obtain ⟨p, hp⟩ := hp
  cases h
  case pop hst => exact hV.small (by omega)
  case entryPass j _ _ => cases j <;> simp [jobRole] at hp
  all_goals first
    | exact hl ⟨_, rfl⟩
    | exact hl ⟨p, hp⟩
    | simp at hp

lemma cancelAll_ne_nil {s : Sock} {ios : List IoReq} : cancelAll s ios ≠ [] ↔ ios ≠ [] := by
  simp [cancelAll]

lemma sstep_known (h : SStep k e V l V' l') (hp : View.known V') : View.known V ∨ LV.past l := by
  cases h
  case foreign => exact .inl (hp.imp id (Or.imp id cancelAll_ne_nil.mp))
  case gqcs hj => exact .inl (.inr (.inl (by simp [hj])))
  all_goals first
    | exact .inl hp
    | exact .inr (.inl (Option.some_ne_none _))
    | exact .inr (.inr trivial)

lemma sstep_ever_back (h : SStep k e V l V' l') (hp : V'.h.ever = true) :
    V.h.ever = true ∨ LV.naming l := by
  cases h
  case initReleaseFlag => exact .inr ⟨_, rfl⟩
  case entrySkip j _ _ => cases j <;> exact .inl hp
  all_goals exact .inl hp

lemma sstep_stack (h : SStep k e V l V' l') (hV : Named k V) (hp : 0 < V'.stack) : k < 65536 := by
  cases h
  case push hid => exact hid ▸ slotOf_lt _
  case pop hst => exact hV.small (by omega)
  all_goals exact hV.small hp

/-- **A step keeps the names of a slot.** -/
theorem sstep_named (h : SStep k e V l V' l') (hV : Named k V) (hl : NamedBy k V l) :
    Named k V' ∧ NamedBy k V' l' ∧ ∀ u, NamedBy k V u → NamedBy k V' u := by
  have hever := sstep_ever h
  have hid := sstep_id h
  refine ⟨⟨fun hp => ?_, fun hp => ?_, sstep_stack h hV⟩,
    ⟨fun hn => ?_, sstep_past h hV hl.ever, sstep_preparing h hV hl.small⟩,
    fun u hu => ⟨fun hn => ?_, fun hp => hever (hu.ever hp), hu.small⟩⟩
  · rcases hid with hid | hid
    · rcases sstep_ever_back h hp with he | hn
      · exact hid ▸ hV.id he
      · exact hid ▸ hl.id hn
    · exact hid
  · rcases sstep_known h hp with hk | hk
    · exact hever (hV.ever hk)
    · exact hever (hl.ever hk)
  · rcases sstep_naming h hn with hk | ⟨hn, hk⟩
    · exact hk
    · exact hk ▸ hl.id hn
  · rcases hid with hid | hid
    · exact hid ▸ hu.id hn
    · exact hid

/-! ### The server projects to its slots -/

/-- Every slot carries its number. -/
def AllNamed (c : Config τ) : Prop :=
  ∀ k, Named k (slot c k).V ∧ ∀ t, NamedBy k (slot c k).V ((slot c k).L t)

omit [DecidableEq τ] in
lemma AllNamed.known {c : Config τ} (h : AllNamed c) (t : τ) : Known c.mem (c.loc t) := by
  have hrole : ∀ i, (lview (c.loc t) i).role = pcRole i (c.loc t).pc := fun _ => rfl
  have hpast : ∀ i, Role.past (pcRole i (c.loc t).pc) → slotOf (c.mem.sess i).sessionID = i :=
    fun i hp => (h i).1.id (((h i).2 t).ever (.inr hp))
  refine ⟨fun i p hp => hpast i ?_, fun i p a hp => hpast i ?_, fun i s hp => hpast i ?_,
    fun i p hp => ((h i).2 t).small ⟨p, ?_⟩⟩
  · rw [hp, pcRole_work]
    trivial
  · rw [hp, pcRole_rel]
    trivial
  · rw [hp, pcRole_acc]
    trivial
  · change pcRole i (c.loc t).pc = _
    rw [hp, pcRole_acc]

lemma slot_update {c : Config τ} {m : Mem} {t : τ} {l : Local} {k : ℕ} :
    slot ⟨m, Function.update c.loc t l⟩ k =
      ⟨view m k, Function.update (slot c k).L t (lview l k)⟩ := by
  simp only [slot, Slot.mk.injEq, true_and]
  funext u
  by_cases hu : u = t
  · subst hu; simp
  · simp [hu]

lemma view_complete {m : Mem} {io : IoReq} {j : Job} :
    view (Mem.enqueue { m with inflight := m.inflight.erase io } io.slot j) io.slot =
      { view m io.slot with
        ios := (view m io.slot).ios.erase io, jobs := (view m io.slot).jobs ++ [j] } := by
  rw [view_enqueue]
  simp [view, List.erase_filter]

lemma view_complete_ne {m : Mem} {io : IoReq} {j : Job} {k : ℕ} (hk : k ≠ io.slot) :
    view (Mem.enqueue { m with inflight := m.inflight.erase io } io.slot j) k = view m k := by
  rw [view_enqueue_ne _ _ _ _ hk]
  have hio : io ∉ m.inflight.filter fun x => x.slot = k := by simp [hk.symm]
  simp [view, ← List.erase_filter, List.erase_of_not_mem hio]

/-- **Projection.** A step of the server is a step of slot `k` or leaves it as it is; a label
other than `ok` is that of the action. -/
theorem step_slot {c c' : Config τ} {a : Act τ} (hn : AllNamed c) (h : step c a = some c') (k : ℕ) :
    slot c' k = slot c k ∨ ∃ e, (e = .ok ∨ e = ev c a) ∧ Next k e (slot c k) (slot c' k) := by
  cases a with
  | run t ch =>
    simp only [step, Option.map_eq_some_iff] at h
    obtain ⟨⟨m', l'⟩, h, rfl⟩ := h
    rw [slot_update]
    rcases lstep_seen (hn.known t) h k with ⟨e, he, hs⟩ | ⟨hl, hv⟩
    · exact .inr ⟨e, he, .thread t hs⟩
    · rw [hl, show lview (c.loc t) k = (slot c k).L t from rfl, Function.update_eq_self]
      rcases hv with hv | ⟨s, hv⟩
      · exact .inl (by rw [hv]; rfl)
      · refine .inr ⟨_, .inl rfl, ?_⟩
        have := Next.thread (k := k) (V := view c.mem k) (L := (slot c k).L) t (.foreign s)
        rwa [Function.update_eq_self, ← hv] at this
  | complete io n d =>
    simp only [step] at h
    split at h <;> simp only [Option.some.injEq, reduceCtorEq] at h
    rename_i hio
    subst h
    by_cases hk : io.slot = k
    · subst hk
      refine .inr ⟨_, .inl rfl, ?_⟩
      have hmem : io ∈ (view c.mem io.slot).ios := by simp [view, hio.1]
      have := Next.complete (k := io.slot) (L := (slot c io.slot).L) io n d hmem
      rwa [← view_complete] at this
    · left
      simp only [slot, view_complete_ne (Ne.symm hk)]
  | give t u p =>
    simp only [step] at h
    split at h <;> simp only [Option.some.injEq, reduceCtorEq] at h
    subst h
    left
    simp only [slot, Slot.mk.injEq, true_and]
    funext v
    by_cases hv : v = u
    · subst hv; simp [lview]
    · by_cases hv' : v = t
      · subst hv'; simp [hv, lview]
      · simp [hv, hv']

/-! ### Invariants of a slot -/

/-- A slot before the server takes its first client. -/
structure Fresh (k : ℕ) (S : Slot τ) : Prop where
  idle : ∀ t, S.L t = ⟨.none, none⟩
  h : S.V.h = freshHist
  jobs : S.V.jobs = []
  ios : S.V.ios = []
  issued : S.V.issued = []
  stack : S.V.stack ≤ 1
  small : 0 < S.V.stack → k < 65536
  ioCount : S.V.s.ioCount = 0
  sendQ : S.V.s.sendQ = []

lemma fresh_boot (b : Boot) (a : τ) (w : τ → Bool) (k : ℕ) : Fresh k (slot (boot b a w) k) := by
  have hc : (view (boot b a w).mem k).stack ≤ 1 :=
    List.nodup_iff_count_le_one.mp (List.nodup_reverse.mpr List.nodup_range) k
  refine ⟨fun t => ?_, rfl, rfl, rfl, rfl, hc, fun h => ?_, rfl, rfl⟩
  · simp only [slot, boot, lview, apiRole]
    split <;> first | rfl | (split <;> rfl)
  · have hk : k ∈ (List.range b.maxUser).reverse := List.count_pos_iff.mp h
    have := b.maxUser_le
    simp only [List.mem_reverse, List.mem_range] at hk
    omega

/-- The actions of runs in which none is labelled as in `bad`. -/
def avoids (bad : List Ev) (c : Config τ) (a : Act τ) : Prop := ev c a ∉ bad

variable {b : Boot} {a : τ} {w : τ → Bool} {c : Config τ} {ok : Config τ → Act τ → Prop}

lemma allNamed_step {c' : Config τ} {a : Act τ} (hn : AllNamed c) (h : step c a = some c') :
    AllNamed c' := by
  intro k
  rcases step_slot hn h k with he | ⟨e, _, hs⟩
  · exact he ▸ hn k
  · obtain ⟨hV, hL⟩ := hn k
    generalize slot c k = S at hs hV hL
    generalize slot c' k = S' at hs
    cases hs with
    | thread t hs =>
      obtain ⟨hV', hl', hu⟩ := sstep_named hs hV (hL t)
      refine ⟨hV', fun u => ?_⟩
      by_cases hut : u = t
      · subst hut; simpa using hl'
      · simpa [hut] using hu _ (hL u)
    | @complete V L io n d hio =>
      have hev : V.h.ever = true := hV.ever (.inr (.inr (List.ne_nil_of_mem hio)))
      exact ⟨⟨hV.id, fun _ => hev, hV.small⟩, fun t => ⟨(hL t).id, (hL t).ever, (hL t).small⟩⟩

/-- Every slot carries its number in every state reached. -/
theorem reach_named (h : Reach step ok (boot b a w) c) : AllNamed c := by
  refine Reach.inv (fun k => ?_) (fun c c' a _ hn _ hs => allNamed_step hn hs) h
  have hf := fresh_boot b a w k
  refine ⟨⟨fun he => ?_, fun hk => ?_, hf.small⟩, fun t => ⟨fun hk => ?_, fun hk => ?_, fun hk => ?_⟩⟩
  · simp [hf.h, freshHist] at he
  · simp [View.known, hf.jobs, hf.ios, hf.issued] at hk
  · simp [LV.naming, hf.idle t] at hk
  · simp [LV.past, Role.past, hf.idle t] at hk
  · simp [LV.preparing, hf.idle t] at hk

/-- **Slot invariants.** What holds of a fresh slot, and is kept by every step of the slot whose
label the run admits, holds of the slot in every state reached. -/
theorem slot_inv {bad : List Ev} (hbad : .ok ∉ bad) {I : Slot τ → Prop} {k : ℕ}
    (h0 : ∀ S, Fresh k S → I S)
    (hstep : ∀ c e S', Reach step (avoids bad) (boot b a w) c → I (slot c k) → e ∉ bad →
      Next k e (slot c k) S' → I S')
    (h : Reach step (avoids bad) (boot b a w) c) : I (slot c k) := by
  refine Reach.inv (I := fun c => I (slot c k)) (h0 _ (fresh_boot b a w k)) ?_ h
  intro c c' x hr hi hx hs
  rcases step_slot (reach_named hr) hs k with he | ⟨e, rfl | rfl, hn⟩
  · exact he ▸ hi
  · exact hstep c _ _ hr hi hbad hn
  · exact hstep c _ _ hr hi hx hn

/-! ### Runs on one slot -/

instance {bad : List Ev} {x : Act τ} : Decidable (avoids bad c x) :=
  inferInstanceAs (Decidable (_ ∉ _))

lemma reach_avoids {B : List Ev} {b : Config τ} (l : List (Act τ)) {p : Config τ → Bool}
    (h : (run step (fun c x => decide (avoids B c x)) b l).map p = some true) :
    ∃ c, Reach step (avoids B) b c ∧ p c = true :=
  reach_of_run (fun _ _ => of_decide_eq_true) l h

lemma reach_free {b : Config τ} (l : List (Act τ)) {p : Config τ → Bool}
    (h : (run step (fun _ _ => true) b l).map p = some true) :
    ∃ c, Reach step (fun _ _ => True) b c ∧ p c = true :=
  reach_of_run (fun _ _ _ => trivial) l h

/-- A server for one client. -/
def oneSlot : Boot where
  maxUser := 1
  sess _ := ⟨0, 0, 0, 0, 0, 0, 0, [], fun _ => ⟨0, 0⟩, []⟩
  bytes _ := List.replicate defaultSize 0
  maxUser_le := by decide
  bytes_length _ := List.length_replicate

/-- Thread 0 accepts, 1 and 2 are workers, 3 runs contents code. -/
def crew : Config (Fin 4) := boot oneSlot 0 fun t => t == 1 || t == 2

def ticks (t : Fin 4) (n : ℕ) : List (Act (Fin 4)) := List.replicate n (.run t .tick)

/-- A client on socket `h` is accepted and the first receive pends. -/
def accepted (h : Sock) : List (Act (Fin 4)) :=
  [.run 0 (.sock (some h)), .run 0 .tick, .run 0 (.ans true)] ++ ticks 0 11 ++
    [.run 0 (.ans true), .run 0 .tick, .run 0 .ret, .run 0 (.io .pending), .run 0 .tick]

/-- The id of the first session on slot 0. -/
def firstID : SessionID := makeID 1 0

end LoginServerChat.SlotRun
