import LoginServerChat.RecvPackets

/-!
No thread of the server gets stuck: each has a step, or waits for a completion, or has returned. The one
exception is a worker with a frame that is longer than its packet.
-/

namespace LoginServerChat.Progress

open NetPacket Packet Cipher NetState NetStep SlotStep SlotRun PacketStep PacketRefs RecvRoom PacketShape
  RecvPackets Runs

variable {m : Mem} {l : Local} {i : ℕ}

/-! ### The functions of the server -/

lemma contentsStep_some (hp : ∃ p, 0 < m.pool p) : ∃ ch, (contentsStep m l ch).isSome = true := by
  obtain ⟨p, hp⟩ := hp
  exact ⟨.alloc p, by simp [contentsStep, allocPacket, hp]⟩

lemma apiStep_some (hs : ∀ p, Shaped (m.packet p)) (id : SessionID) (p : ApiPc) :
    ∃ ch, (apiStep m l i id p ch).isSome = true := by
  cases p with
  | encode p =>
    obtain ⟨q, hq, -⟩ := (hs p).encode 0
    exact ⟨.key 0, by simp [apiStep, hq]⟩
  | post => exact ⟨.ans true, rfl⟩
  | request => exact ⟨.ans true, rfl⟩
  | enter k => exact ⟨.tick, rfl⟩
  | addRef p => exact ⟨.tick, rfl⟩
  | enqueue p => exact ⟨.tick, rfl⟩
  | cancel => exact ⟨.tick, rfl⟩
  | chkID k =>
    refine ⟨.tick, ?_⟩
    cases k <;> simp only [apiStep] <;> split <;> rfl
  | chkRel k | xchg | leave =>
    refine ⟨.tick, ?_⟩
    simp only [apiStep]
    split <;> rfl

lemma sendStep_some (p : SendPc) : ∃ ch, (sendStep m l i p ch).isSome = true := by
  cases p with
  | send s bufs => exact ⟨.io .error, rfl⟩
  | gather j n bufs =>
    refine ⟨.tick, ?_⟩
    simp only [sendStep]
    split
    · split <;> rfl
    · rfl
  | setCnt n bufs | inc bufs | load bufs | cancel n | fail => exact ⟨.tick, rfl⟩
  | size cnt | xchg cnt | use cnt | unlock cnt | pend n =>
    refine ⟨.tick, ?_⟩
    simp only [sendStep]
    split <;> rfl

lemma postStep_some (p : PostPc) : ∃ ch, (postStep m l i p ch).isSome = true := by
  cases p with
  | recv s => exact ⟨.io .error, rfl⟩
  | inc | load | cancel n | fail => exact ⟨.tick, rfl⟩
  | pend n =>
    refine ⟨.tick, ?_⟩
    simp only [postStep]
    split <;> rfl

lemma relStep_some (p : RelPc) (x : Bool) : ∃ ch, (relStep m l i x p ch).isSome = true := by
  cases p with
  | leaving => exact ⟨.ret, rfl⟩
  | drainFree e | readCnt | close | leave | push | decNow => exact ⟨.tick, rfl⟩
  | cas | drain | freeArr j bk =>
    refine ⟨.tick, ?_⟩
    simp only [relStep]
    split <;> rfl

lemma acceptStep_some {p : AccPc} (hp : p ≠ .stop) : ∃ ch, (acceptStep m l p ch).isSome = true := by
  cases p with
  | stop => exact absurd rfl hp
  | accept => exact ⟨.sock none, rfl⟩
  | request h => exact ⟨.ans true, rfl⟩
  | refuse h | incNow h | count h => exact ⟨.tick, rfl⟩
  | full h | pop h =>
    refine ⟨.tick, ?_⟩
    simp only [acceptStep]
    split <;> rfl

lemma accOnStep_some {p : AccOn} (hp : p ≠ .stop) : ∃ ch, (accOnStep m l i p ch).isSome = true := by
  cases p with
  | stop => exact absurd rfl hp
  | assoc h => exact ⟨.ans true, rfl⟩
  | joining h => exact ⟨.ret, rfl⟩
  | recv h => exact ⟨.io .error, rfl⟩
  | init h p | join h | cancel n => exact ⟨.tick, rfl⟩
  | pend n | fail =>
    refine ⟨.tick, ?_⟩
    simp only [accOnStep]
    split <;> rfl

/-- The frame that the worker is about to copy fits its packet. -/
def FrameFits : RecvPc → Prop
  | .dequeue h _ => headerSize + h.len ≤ defaultSize
  | _ => True

lemma recvStep_some {p : RecvPc} (hs : ∀ p, Shaped (m.packet p)) (hpool : ∃ p, 0 < m.pool p)
    (hA : At (m.sess i).recvQ (.recv p)) (hg : ∀ r, p = .decode r → ∃ f, Holds (m.packet r) f)
    (hf : FrameFits p) : ∃ ch, (recvStep m l i p ch).isSome = true := by
  cases p with
  | moveRear d s =>
    have hroom : (m.sess i).recvQ.length + d.length ≤ recvCap := hA
    exact ⟨.tick, by simp only [recvStep, if_pos hroom, Option.isSome_some]⟩
  | size | peek | full h =>
    refine ⟨.tick, ?_⟩
    simp only [recvStep]
    split <;> rfl
  | alloc h =>
    obtain ⟨p, hp⟩ := hpool
    exact ⟨.alloc p, by simp only [recvStep, allocPacket, if_pos hp, Option.isSome_some]⟩
  | dequeue h p =>
    have hlen : (((m.sess i).recvQ.take (headerSize + h.len)).map Prod.fst).length ≤ headerSize + h.len := by
      rw [List.length_map, List.length_take]
      exact Nat.min_le_left _ _
    have hpoke : 0 + (((m.sess i).recvQ.take (headerSize + h.len)).map Prod.fst).length ≤
        (m.packet p).pBuffer.length := by
      rw [(hs p).length, Nat.zero_add]
      exact Nat.le_trans hlen hf
    exact ⟨.tick, by simp only [recvStep, poke, if_pos hpoke, Option.isSome_some]⟩
  | decode p =>
    obtain ⟨f, hf⟩ := hg p rfl
    obtain ⟨q, hq, -⟩ := hf.decode
    refine ⟨.tick, ?_⟩
    simp only [recvStep, hq]
    split <;> first | rfl | (rename_i h; cases h)
  | onRecv p => exact ⟨.ret, rfl⟩
  | free p | bad p | disconnect | disconnected => exact ⟨.tick, rfl⟩

lemma workStep_some {p : WorkPc} (hs : ∀ p, Shaped (m.packet p)) (hpool : ∃ p, 0 < m.pool p)
    (hA : ∀ q, p = .recv q → At (m.sess i).recvQ p)
    (hg : ∀ r, p = .recv (.decode r) → ∃ f, Holds (m.packet r) f) (hf : ∀ q, p = .recv q → FrameFits q) :
    ∃ ch, (workStep m l i p ch).isSome = true := by
  cases p with
  | send p => exact sendStep_some p
  | recv p => exact recvStep_some hs hpool (hA p rfl) (fun r h => hg r (congrArg WorkPc.recv h)) (hf p rfl)
  | post p => exact postStep_some p
  | readCnt | zeroCnt bk | unlock => exact ⟨.tick, rfl⟩
  | entry j | freeArr j bk | dec =>
    refine ⟨.tick, ?_⟩
    simp only [workStep]
    split <;> rfl

/-! ### The threads -/

variable {τ : Type*} [DecidableEq τ]

def Blocked (c : Config τ) (t : τ) : Prop := ∀ ch, step c (.run t ch) = none

/-- The worker is in `GetQueuedCompletionStatus`, and nothing is queued. -/
structure Waits (c : Config τ) (t : τ) : Prop where
  drop : (c.loc t).drop = none
  api : (c.loc t).api = .idle
  pc : (c.loc t).pc = .gqcs
  queue : c.mem.queue = []

/-- `AcceptThread` has returned. -/
structure Returned (l : Local) : Prop where
  drop : l.drop = none
  api : l.api = .idle
  pc : l.pc = .acc .stop ∨ ∃ i, l.pc = .accOn i .stop

/-- The worker is about to copy a whole frame of `recvQ` into a packet that is too short for it. -/
def Overruns (c : Config τ) (t : τ) : Prop :=
  ∃ i h p, (c.loc t).pc = .work i (.recv (.dequeue h p)) ∧ h = front (c.mem.sess i).recvQ ∧
    headerSize + h.len ≤ (c.mem.sess i).recvQ.length ∧ defaultSize < headerSize + h.len

variable {b : Boot} {a : τ} {w : τ → Bool} {c : Config τ} {t : τ}

lemma blocked_lstep : Blocked c t ↔ ¬∃ ch, (lstep c.mem (c.loc t) ch).isSome = true := by
  simp only [Blocked, step, Option.map_eq_none_iff, not_exists, Bool.not_eq_true, Option.isSome_eq_false_iff,
    Option.isNone_iff_eq_none]

lemma Waits.blocked (h : Waits c t) : Blocked c t := by
  obtain ⟨h1, h2, h3, h4⟩ := h
  intro ch
  simp only [step, lstep, h1, h2, h3, h4]
  rfl

lemma Returned.blocked (h : Returned (c.loc t)) : Blocked c t := by
  obtain ⟨h1, h2, h3 | ⟨i, h3⟩⟩ := h <;> intro ch <;> simp only [step, lstep, h1, h2, h3]
  · cases ch <;> rfl
  · cases ch <;> rfl

section Reach

variable [Fintype τ] (hr : Reach step (avoids [.skipRelease, .lateEnter]) (boot b a w) c)

include hr

lemma Overruns.blocked (h : Overruns c t) : Blocked c t := by
  obtain ⟨i, h, p, hp, -, hlen, hlong⟩ := h
  have hg := reach_grip (by decide) (by decide) (by decide) hr t
  rw [GripAt, hp] at hg
  obtain ⟨⟨h1, h2, -⟩, -⟩ := hg
  rw [blocked_lstep]
  rintro ⟨ch, hch⟩
  rw [lstep_recv h1 h2 hp] at hch
  obtain ⟨⟨m', l'⟩, hs⟩ := Option.isSome_iff_exists.mp hch
  obtain ⟨x, hx, -⟩ := recvStep_dequeue hs
  unfold poke at hx
  split at hx
  case isFalse => cases hx
  case isTrue hfit =>
    rw [firstBytes, List.length_map, List.length_take, (reach_shaped hr p).length] at hfit
    omega

lemma reach_blocked (t : τ) : Blocked c t ↔ Waits c t ∨ Returned (c.loc t) ∨ Overruns c t := by
  refine ⟨fun hb => ?_, ?_⟩
  swap
  · rintro (h | h | h)
    · exact h.blocked
    · exact h.blocked
    · exact h.blocked hr
  rw [blocked_lstep] at hb
  by_contra hn
  rw [not_or, not_or] at hn
  obtain ⟨hn1, hn2, hn3⟩ := hn
  refine hb ?_
  have hs := reach_shaped hr
  have hpool := reach_pool hr
  have hg := reach_grip (by decide) (by decide) (by decide) hr t
  have hA := fun i => reach_roomy (by decide) (by decide) hr i
  cases hd : (c.loc t).drop with
  | some p => exact ⟨.tick, by simp only [lstep, hd, if_true, Option.isSome_some]⟩
  | none =>
  cases ha : (c.loc t).api with
  | on i id p =>
    simp only [lstep, hd, ha]
    exact apiStep_some hs id p
  | idle =>
  cases hp : (c.loc t).pc with
  | ext =>
    simp only [lstep, hd, ha, hp]
    exact contentsStep_some hpool
  | acc p =>
    simp only [lstep, hd, ha, hp]
    exact acceptStep_some fun h => hn2 ⟨hd, ha, .inl (h ▸ hp)⟩
  | accOn i p =>
    simp only [lstep, hd, ha, hp]
    exact accOnStep_some fun h => hn2 ⟨hd, ha, .inr ⟨i, h ▸ hp⟩⟩
  | gqcs =>
    simp only [lstep, hd, ha, hp]
    cases hq : c.mem.queue with
    | nil => exact absurd ⟨hd, ha, hp, hq⟩ hn1
    | cons j q => exact ⟨.tick, rfl⟩
  | work i p =>
    simp only [lstep, hd, ha, hp]
    refine workStep_some hs hpool (fun q h => (hA i).at' t p (by rw [hp, h]; rfl)) (fun r h => ?_) fun q h => ?_
    · rw [GripAt, hp, h] at hg
      exact hg.2
    · cases q with
      | dequeue h' r =>
        have hat := (hA i).at' t p (by rw [hp, h]; rfl)
        rw [h] at hat
        obtain ⟨h1, h2, -⟩ := hat
        by_contra hlong
        exact hn3 ⟨i, h', r, h ▸ hp, h2, h1, not_le.mp hlong⟩
      | _ => trivial
  | rel i p x =>
    simp only [lstep, hd, ha, hp]
    exact relStep_some p x

/-- **No thread is stuck.** In every run in which no worker takes a `RELEASE` job for a slot whose `socket`
is `INVALID_SOCKET`, and no `EnterSession` succeeds with an id that the slot's session has not been
announced with, a thread without a step waits for a completion, has returned, or has a frame that is
longer than a packet. -/
theorem blocked_iff (t : τ) : Blocked c t ↔ Waits c t ∨ Returned (c.loc t) ∨ Overruns c t := reach_blocked hr t

end Reach

/-- A frame of 1020 bytes has come. -/
def longFrame : List (Act (Fin 4)) :=
  accepted 0x1A4 ++ [.complete ⟨0, 0, 1, false, 0x1A4, recvCap, true, false⟩ 0
    ([0x77, 0xFC, 0x03, 0, 0] ++ List.replicate 1020 0)] ++ ticks 1 6 ++ [.run 1 (.alloc 0)]

/-- The worker is about to copy it. -/
def atLong (c : Config (Fin 4)) : Bool :=
  match (c.loc 1).pc with
  | .work 0 (.recv (.dequeue h _)) => decide (h = front (c.mem.sess 0).recvQ ∧
      headerSize + h.len ≤ (c.mem.sess 0).recvQ.length ∧ defaultSize < headerSize + h.len)
  | _ => false

lemma overruns_of_atLong {c : Config (Fin 4)} (h : atLong c = true) : Overruns c 1 := by
  unfold atLong at h
  split at h
  case h_1 nh p hp => exact ⟨0, nh, p, hp, of_decide_eq_true h⟩
  case h_2 => cases h

theorem blocked_iff_long : ∃ c, Reach step (avoids [.skipRelease, .lateEnter]) crew c ∧ atLong c = true ∧
    Blocked c 1 := by
  obtain ⟨c, hr, hp⟩ := reach_avoids (B := [.skipRelease, .lateEnter]) (b := crew) longFrame (p := atLong)
    (by decide +kernel)
  exact ⟨c, hr, hp, (blocked_iff hr 1).mpr (.inr (.inr (overruns_of_atLong hp)))⟩

end LoginServerChat.Progress
